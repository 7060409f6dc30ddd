import Parametric.Proofs.Update.History
import Parametric.Proofs.Workbench.Edits
import Parametric.Proofs.Workbench.Reads

/-!
# Bound formulas

A workbench is `Bound` when the edges of its graph are exactly what its formulas read, every formula
belongs to an object of the scene, and its scheduler is sound. Putting formulas in place, taking
them off and writing values keep this, as does everything that changes neither the formulas, apart
from what came of their evaluations, nor the edges nor the shape of the scene (`Bound.congr`).
-/

namespace Parametric

/-- News of a property keep what waits, and make its entity and all that follows from it wait. -/
theorem Scheduler.announced_spec {s : Scheduler} (hs : s.Sound) (e : Entity) (value : Option Value)
    (priority : Priority) :
    Keeps s (s.announced e value priority) ∧ (s.announced e value priority).Waits e ∧
    (∀ x, s.graph.Feeds e x → (s.announced e value priority).Waits x) ∧
    (s.announced e value priority).inbox.unread = s.inbox.unread ∧
    ∀ P : Request → Prop, Request.Stable P →
      (∀ id, P ⟨id, id, e, .property, .property e.property value, priority, .queued⟩) →
      s.queue.All P → (s.announced e value priority).queue.All P := by
  obtain ⟨queue, next, superseded, heq, hnumbered, hwaits, hall⟩ := schedule_spec
    (s := s.accepted)
    (hs.numbered.cons e .property (.property e.property value) priority)
  have hsame : s.announced e value priority =
      { s with queue, superseded, inbox := { s.inbox with nextId := next } } := heq
  rw [hsame]
  refine ⟨⟨⟨hs.graph, hnumbered⟩, rfl, fun x hx => (hwaits x).2 (.inr (.inr hx))⟩,
    (hwaits e).2 (.inl rfl), fun x hx => (hwaits x).2 ?_, rfl,
    fun P hP hnew hold => hall P hP (hnew _) hold⟩
  by_cases hex : e = x
  · exact .inl hex
  · refine .inr (.inl ((Graph.mem_downstream_iff hs.graph _ x).2 ⟨?_, e, List.mem_singleton_self e,
      .single hx⟩))
    exact fun hmem => hex (List.mem_singleton.1 hmem).symm

namespace Workbench

variable {σ : Type} {w w' : Workbench σ}

/-- With the built-in functions, the edges are what the formulas read. -/
structure Bound (w : Workbench σ) : Prop where
  functions : w.calculator.functions = .builtin
  scheduler : w.scheduler.Sound
  formulas : ∀ {e : Entity} {f : Formula}, w.formulas[e]? = some f →
    f.object = e.object ∧ (w.scene.get? e.object).isSome ∧ f.Compiled w.calculator.functions
  edges : ∀ p e : Entity, w.scheduler.graph.Feeds p e ↔
    ∃ f, w.formulas[e]? = some f ∧ p ∈ w.reads f

namespace Bound

theorem new (scene : Scene) (settings : Settings) (clock : Clock) (host : σ) :
    (new .builtin scene settings clock host).Bound :=
  ⟨rfl, .new _, by simp [Workbench.new], fun p e => by simp [Workbench.new, Graph.Feeds]⟩

/-- Formulas with the same cores, a scene of the same shape and the same edges. -/
theorem congr (hw : w.Bound) (hscheduler : w'.scheduler.Sound)
    (hgraph : w'.scheduler.graph = w.scheduler.graph)
    (hformulas : ∀ e : Entity,
      (w'.formulas[e]?).map Formula.core = (w.formulas[e]?).map Formula.core)
    (hfunctions : w'.calculator.functions = w.calculator.functions)
    (hshape : w'.scene.objects.shape = w.scene.objects.shape) : w'.Bound := by
  refine ⟨hfunctions.trans hw.functions, hscheduler, fun {e f'} hf' => ?_, fun p e => ?_⟩
  · have hcore := hformulas e
    rw [hf', Option.map_some, eq_comm, Option.map_eq_some_iff] at hcore
    obtain ⟨f, hf, hcore⟩ := hcore
    obtain ⟨hobject, hsome, hcompiled⟩ := hw.formulas hf
    refine ⟨(Formula.object_of_core hcore.symm).trans hobject,
      (ObjectTable.isSome_get?_congr hshape e.object).trans hsome, ?_⟩
    rw [hfunctions]
    exact hcompiled.of_core hcore.symm
  · rw [hgraph, hw.edges]
    have hreads : ∀ f f' : Formula, f'.core = f.core → w'.reads f' = w.reads f := by
      intro f f' hcore
      rw [reads_of_core w' hcore, reads_congr hshape]
    have hcore := hformulas e
    constructor
    · rintro ⟨f, hf, hp⟩
      rw [hf, Option.map_some, Option.map_eq_some_iff] at hcore
      obtain ⟨f', hf', hcore⟩ := hcore
      exact ⟨f', hf', by rwa [hreads f f' hcore]⟩
    · rintro ⟨f', hf', hp⟩
      rw [hf', Option.map_some, eq_comm, Option.map_eq_some_iff] at hcore
      obtain ⟨f, hf, hcore⟩ := hcore
      exact ⟨f, hf, by rwa [← hreads f f' hcore.symm]⟩

end Bound

/-! ## Steps -/

/-- Two workbenches that differ at most in what waits, in what is cached and in the bounds of
containers. -/
structure SameContent (w w' : Workbench σ) : Prop where
  calculator : w.calculator.Kept w'.calculator
  formulas : w'.formulas = w.formulas
  vars : w'.vars = w.vars
  objects : w'.scene.objects = w.scene.objects

namespace SameContent

variable {w'' : Workbench σ}

theorem refl (w : Workbench σ) : SameContent w w := ⟨.refl _, rfl, rfl, rfl⟩

theorem trans (h : SameContent w w') (h' : SameContent w' w'') : SameContent w w'' :=
  ⟨h.calculator.trans h'.calculator, h'.formulas.trans h.formulas, h'.vars.trans h.vars,
    h'.objects.trans h.objects⟩

theorem rescheduled (w : Workbench σ) (scheduler : Scheduler) :
    SameContent w { w with scheduler } := ⟨.refl _, rfl, rfl, rfl⟩

/-- Dropping cached results changes the caches only. -/
theorem invalidate (w : Workbench σ) (changed : List Entity) :
    SameContent w (w.invalidate changed) := by
  have hfold : ∀ (owners : List ObjectId) (c : Calculator σ),
      c.Kept (owners.foldl (fun c o => (c.invalidate o).2) c) := by
    intro owners
    induction owners with
    | nil => exact .refl
    | cons o owners ih => exact fun c => (c.kept_invalidate o).trans (ih _)
  exact ⟨hfold _ w.calculator, rfl, rfl, rfl⟩

theorem announced (w : Workbench σ) (e : Entity) (value : Option Value) (priority : Priority) :
    SameContent w (w.announced e value priority) := .rescheduled w _

theorem bound (h : SameContent w w') (hw : w.Bound) (hscheduler : w'.scheduler.Sound)
    (hgraph : w'.scheduler.graph = w.scheduler.graph) : w'.Bound :=
  hw.congr hscheduler hgraph (fun _ => by rw [h.formulas]) h.calculator.functions
    (by rw [h.objects])

end SameContent

/-- No result is left for what changed and what follows from it. -/
theorem misses_invalidate {changed : List Entity} {e : Entity}
    (h : e ∈ changed ++ w.scheduler.graph.downstream changed) :
    (w.invalidate changed).calculator.Misses e.object := by
  have hfold : ∀ (owners : List ObjectId) (c : Calculator σ),
      e.object ∈ owners ∨ c.Misses e.object →
      (owners.foldl (fun c o => (c.invalidate o).2) c).Misses e.object := by
    intro owners
    induction owners with
    | nil => exact fun c hc => hc.resolve_left List.not_mem_nil
    | cons x owners ih =>
      intro c hc
      rw [List.mem_cons] at hc
      refine ih _ ?_
      rcases hc with (hx | hc) | hc
      · exact .inr (hx ▸ Calculator.misses_invalidate c e.object)
      · exact .inl hc
      · exact .inr (hc.invalidate x)
  refine hfold _ w.calculator (.inl ?_)
  rw [Std.ExtTreeSet.mem_toList, Std.ExtTreeSet.mem_ofList, List.contains_iff_mem]
  exact List.mem_map_of_mem h

namespace Bound

theorem invalidate (hw : w.Bound) (changed : List Entity) : (w.invalidate changed).Bound :=
  (SameContent.invalidate w changed).bound hw hw.scheduler rfl

theorem announced (hw : w.Bound) (e : Entity) (value : Option Value) (priority : Priority) :
    (w.announced e value priority).Bound := by
  obtain ⟨hkeeps, -⟩ := Scheduler.announced_spec hw.scheduler e value priority
  exact (SameContent.announced w e value priority).bound hw hkeeps.sound hkeeps.graph

/-- A scene of the same shape may take the place of the scene. -/
theorem withScene (hw : w.Bound) {scene : Scene} (h : scene.objects.shape = w.scene.objects.shape) :
    Bound { w with scene } :=
  hw.congr hw.scheduler rfl (fun _ => rfl) rfl h

theorem withVars (hw : w.Bound) (vars : VariableTable) : Bound { w with vars } :=
  hw.congr hw.scheduler rfl (fun _ => rfl) rfl rfl

/-- Taking a formula off takes its edges with it. -/
theorem detached (hw : w.Bound) (e : Entity) : (w.detached e).Bound := by
  unfold Workbench.detached
  rw [run_detach]
  cases hf : w.formulas[e]? with
  | none => exact hw
  | some f =>
    have hgraph := hw.scheduler.graph
    refine ⟨hw.functions, ⟨hgraph.removeConsumer e, hw.scheduler.numbered⟩, fun {x g} hg => ?_,
      fun p x => ?_⟩
    · rw [Table.getElem?_erase] at hg
      split at hg
      · cases hg
      · exact hw.formulas hg
    · show (w.scheduler.graph.removeConsumer e).2.Feeds p x ↔
        ∃ f, (w.formulas.erase e)[x]? = some f ∧ p ∈ w.reads f
      rw [Graph.feeds_removeConsumer hgraph.toIndexed, Table.getElem?_erase, hw.edges]
      by_cases hx : e = x
      · simp [hx]
      · simp only [hx, if_false, ne_eq, not_false_eq_true, and_true]

/-- A formula whose producers are bound may be put in place. -/
theorem insert (hw : w.Bound) {target : Entity} {f f' : Formula} {scheduler : Scheduler}
    (hobject : (w.scene.get? target.object).isSome) (hf : f.object = target.object)
    (hcompiled : f.Compiled w.calculator.functions) (hcore : f'.core = f.core)
    (hbound : w.scheduler.replaceProducers target (w.producers f (w.containerOf? target.object)) =
      (.ok (), scheduler)) {calculator : Calculator σ} (hc : w.calculator.Kept calculator) :
    Bound { w with calculator, scheduler, formulas := w.formulas.insert target f' } := by
  have hgraph := hw.scheduler.graph
  have hok : (w.scheduler.graph.replaceProducers target
      (w.producers f (w.containerOf? target.object))).1 = .ok () := congrArg Prod.fst hbound
  have hscheduler : scheduler = { w.scheduler with
      graph := (w.scheduler.graph.replaceProducers target
        (w.producers f (w.containerOf? target.object))).2 } := (congrArg Prod.snd hbound).symm
  have hreads : w.reads f' = (w.producers f (w.containerOf? target.object)).map (·.1) := by
    rw [reads_of_core w hcore, ← hf]
    rfl
  subst hscheduler
  refine ⟨hc.functions.trans hw.functions,
    ⟨hgraph.replaceProducers target _, hw.scheduler.numbered⟩, fun {x g} hg => ?_, fun p x => ?_⟩
  · show g.object = x.object ∧ (w.scene.get? x.object).isSome ∧ g.Compiled calculator.functions
    rw [hc.functions]
    rw [Table.getElem?_insert] at hg
    split at hg
    next heq =>
      cases hg
      subst heq
      exact ⟨(Formula.object_of_core hcore).trans hf, hobject, hcompiled.of_core hcore⟩
    next => exact hw.formulas hg
  · show (w.scheduler.graph.replaceProducers target _).2.Feeds p x ↔
      ∃ g, (w.formulas.insert target f')[x]? = some g ∧ p ∈ w.reads g
    rw [Table.getElem?_insert]
    by_cases hx : target = x
    · subst hx
      rw [Graph.feeds_replaceProducers hgraph hok, if_pos rfl]
      simp [hreads]
    · rw [if_neg hx, ← hw.edges]
      exact Graph.feeds_replaceProducers_of_ne hgraph _ hx

/-- A formula that would close a cycle changes no edge. -/
theorem cycle (hw : w.Bound) {target : Entity} {producers : List (Entity × Edge)} {e : CycleError}
    {scheduler : Scheduler}
    (hbound : w.scheduler.replaceProducers target producers = (.error e, scheduler)) :
    Bound { w with scheduler } ∧ scheduler.graph = w.scheduler.graph := by
  have hsame := Graph.replaceProducers_error hw.scheduler.graph (congrArg Prod.fst hbound)
  have hscheduler := congrArg Prod.snd hbound
  subst hscheduler
  have hsound := hw.scheduler.graph.replaceProducers target producers
  exact ⟨hw.congr ⟨hsound, hw.scheduler.numbered⟩ hsame (fun _ => rfl) rfl rfl, hsame⟩

theorem setsFormula (hw : w.Bound) {target : Entity} {source : String}
    {result : Except WorkbenchError Value} (h : SetsFormula w target source result w') :
    w'.Bound := by
  cases h with
  | refused => exact hw
  | cycle _ _ hbound => exact (hw.cycle hbound).1
  | failed hobject hcompile hbound heval =>
    obtain ⟨hf, hcompiled, hkept, -⟩ := Calculator.compile_spec hcompile
    obtain ⟨hcore, hkept'⟩ := Calculator.evaluate_kept heval
    exact hw.insert hobject hf hcompiled hcore hbound (hkept.trans hkept')
  | written hobject hcompile hbound heval hwrite =>
    obtain ⟨hf, hcompiled, hkept, -⟩ := Calculator.compile_spec hcompile
    obtain ⟨hcore, hkept'⟩ := Calculator.evaluate_kept heval
    have hinsert := hw.insert hobject hf hcompiled hcore hbound (hkept.trans hkept')
    exact ((hinsert.withScene (Scene.shape_write hwrite)).invalidate _).announced _ _ _

end Bound

end Workbench

end Parametric
