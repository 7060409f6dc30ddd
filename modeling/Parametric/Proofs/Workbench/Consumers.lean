import Parametric.Proofs.Workbench.Addition
import Parametric.Proofs.Workbench.Asked
import Parametric.Proofs.Workbench.Constants
import Parametric.Proofs.Workbench.InPlace

/-!
# Only formulas consume

An edge leads to a property that a formula drives, and notes what the formula reads through it: the
text of a variable or of a dependency (`Formula.Needs`). A step of an operation rewires a workbench:
an edge was there and its consumer keeps its formula, or the formula of its consumer needs it
(`Workbench.Rewired`). That is a preorder, so it carries over from the steps to the operations
(`rewired_run`). Hence the consumers are formulas whatever was done (`fed_perform`), formulas, edges
and objects are consistent, and nothing is left of an object that was removed
(`consistent_perform`).
-/

namespace Parametric

/-! ## Edges of a formula -/

/-- The edge of a variable notes its text, and any other edge the text of a dependency. -/
def Formula.Needs (f : Formula) (edge : Edge) : Prop :=
  match edge.kind with
  | .variable => ∃ v ∈ f.variableNames, edge.note = some ("$" ++ v)
  | .reference | .implicit => ∃ d ∈ f.dependencies, edge.note = some d.text

theorem Formula.Needs.of_core {f f' : Formula} {edge : Edge} (h : f.Needs edge)
    (hcore : f'.core = f.core) : f'.Needs edge := by
  injection hcore with _ _ _ _ hdependencies hvariables
  unfold Needs at h ⊢
  rw [hdependencies, hvariables]
  exact h

/-- The text of a dependency of a formula that has a source starts like a name. -/
theorem Formula.Sourced.text_start {σ : Type} {functions : Registry σ} {f : Formula}
    (h : f.Sourced) (hf : f.Compiled functions) {d : Dependency} (hd : d ∈ f.dependencies) :
    ∃ c cs, d.text.toList = c :: cs ∧ Token.isIdentifierStart c := by
  cases d with
  | container property => exact ⟨'p', _, String.toList_append, by decide⟩
  | own property => exact ⟨'s', _, String.toList_append, by decide⟩
  | object reference path =>
    obtain ⟨n, hn, hdependency⟩ := hf.mem_dependencies_iff.1 hd
    have hname : Token.IsName reference.toList := by
      cases n with
      | reference object path' =>
        cases hdependency
        exact (Expr.lexical_of_ofSource h _ hn).1
      | call name args =>
        obtain ⟨i, -, hi⟩ := Option.map_eq_some_iff.1 hdependency
        cases i <;> cases hi
      | _ => cases hdependency
    rw [Dependency.text, String.toList_append, String.toList_append]
    generalize reference.toList = chars at hname
    cases chars with
    | nil => exact hname.elim
    | cons c cs => exact ⟨c, _, rfl, hname.1⟩

/-- So it is not the text of a variable. -/
theorem Formula.Sourced.text_ne {σ : Type} {functions : Registry σ} {f : Formula} (h : f.Sourced)
    (hf : f.Compiled functions) {d : Dependency} (hd : d ∈ f.dependencies) (v : String) :
    d.text ≠ "$" ++ v := by
  intro heq
  obtain ⟨c, cs, htext, hstart⟩ := h.text_start hf hd
  rw [heq, String.toList_append] at htext
  cases htext
  exact absurd hstart (by decide)

/-- A replacement that fails changes nothing. -/
theorem Scheduler.replaceProducers_error {s s' : Scheduler} (hs : s.Sound) {consumer : Entity}
    {edges : List (Entity × Edge)} {e : CycleError}
    (h : s.replaceProducers consumer edges = (.error e, s')) : s' = s := by
  have hgraph := Graph.replaceProducers_error hs.graph (congrArg Prod.fst h)
  have hsame : s' = { s with graph := (s.graph.replaceProducers consumer edges).2 } :=
    (congrArg Prod.snd h).symm
  rw [hsame, hgraph]

namespace Workbench

open Scheduler

variable {σ : Type} {w w' : Workbench σ}

theorem needs_of_mem_producers {f : Formula} {container : Option ObjectId} {p : Entity}
    {edge : Edge} (h : (p, edge) ∈ w.producers f container) : f.Needs edge := by
  rcases List.mem_append.1 h with hnamed | hvariable
  · obtain ⟨d, hd, hsome⟩ := List.mem_filterMap.1 hnamed
    obtain ⟨⟨e, kind⟩, hproducer, heq⟩ := Option.map_eq_some_iff.1 hsome
    cases heq
    cases kind with
    | «variable» => exact absurd rfl (kind_of_producer? hproducer)
    | reference | implicit => exact ⟨d, hd, rfl⟩
  · obtain ⟨v, hv, heq⟩ := List.mem_map.1 hvariable
    cases heq
    exact ⟨v, hv, rfl⟩

/-! ## Steps -/

/-- Between two workbenches every edge stays and its consumer keeps its formula, or the formula of
its consumer needs it. -/
structure Rewired (w w' : Workbench σ) : Prop where
  sound : w'.scheduler.Sound
  edges : ∀ {p c : Entity} {edge : Edge}, w'.scheduler.graph.edge? p c = some edge →
    (w.scheduler.graph.edge? p c = some edge ∧
      (w'.formulas[c]?).map Formula.core = (w.formulas[c]?).map Formula.core) ∨
    ∃ f, w'.formulas[c]? = some f ∧ f.Needs edge

/-- Formulas with the same cores need the same edges. -/
theorem exists_needs_congr {c : Entity} {edge : Edge}
    (hcore : (w'.formulas[c]?).map Formula.core = (w.formulas[c]?).map Formula.core)
    (h : ∃ f, w.formulas[c]? = some f ∧ f.Needs edge) :
    ∃ f, w'.formulas[c]? = some f ∧ f.Needs edge := by
  obtain ⟨f, hf, hneeds⟩ := h
  rw [hf, Option.map_some, Option.map_eq_some_iff] at hcore
  obtain ⟨f', hf', hcore⟩ := hcore
  exact ⟨f', hf', hneeds.of_core hcore⟩

namespace Rewired

/-- The edges are the same, and the formulas as they were compiled. -/
theorem same (hsound : w'.scheduler.Sound) (hgraph : w'.scheduler.graph = w.scheduler.graph)
    (hcores : ∀ e : Entity, (w'.formulas[e]?).map Formula.core = (w.formulas[e]?).map Formula.core) :
    Rewired w w' :=
  ⟨hsound, fun {_ c _} hedge => .inl ⟨hgraph ▸ hedge, hcores c⟩⟩

theorem refl (hs : w.scheduler.Sound) : Rewired w w := .same hs rfl fun _ => rfl

theorem trans {w'' : Workbench σ} (h : Rewired w w') (h' : Rewired w' w'') : Rewired w w'' := by
  refine ⟨h'.sound, fun hedge => ?_⟩
  rcases h'.edges hedge with ⟨hedge', hcore'⟩ | hneeds
  · rcases h.edges hedge' with ⟨hedge, hcore⟩ | hneeds
    · exact .inl ⟨hedge, hcore'.trans hcore⟩
    · exact .inr (exists_needs_congr hcore' hneeds)
  · exact .inr hneeds

/-- Edges go, and formulas of consumers without edges. -/
theorem fewer (hsound : w'.scheduler.Sound)
    (hedges : ∀ {p c : Entity} {edge : Edge}, w'.scheduler.graph.edge? p c = some edge →
      w.scheduler.graph.edge? p c = some edge ∧ w'.formulas[c]? = w.formulas[c]?) :
    Rewired w w' := by
  refine ⟨hsound, fun hedge => .inl ?_⟩
  obtain ⟨hedge, hformula⟩ := hedges hedge
  exact ⟨hedge, by rw [hformula]⟩

/-- A formula is bound to what it reads, or keeps its edges. -/
theorem bound (hs : w.scheduler.Sound) {target : Entity} {f : Formula}
    {container : Option ObjectId} {bound : Except CycleError Unit} {scheduler : Scheduler}
    (hbound : w.scheduler.replaceProducers target (w.producers f container) = (bound, scheduler))
    (hscheduler : w'.scheduler = scheduler)
    (hplaced : ∃ f', w'.formulas[target]? = some f' ∧ f'.core = f.core)
    (hothers : ∀ c, target ≠ c → w'.formulas[c]? = w.formulas[c]?)
    (hkept : ∀ e, bound = .error e → w'.formulas[target]? = w.formulas[target]?) :
    Rewired w w' := by
  cases hbound
  refine ⟨hscheduler ▸ ⟨hs.graph.replaceProducers target _, hs.numbered⟩, fun {p c edge} hedge => ?_⟩
  rw [hscheduler] at hedge
  by_cases hc : target = c
  · subst hc
    cases hresult : (w.scheduler.graph.replaceProducers target (w.producers f container)).1 with
    | error e =>
      have hedge : (w.scheduler.graph.replaceProducers target _).2.edge? p target = some edge := hedge
      rw [Graph.replaceProducers_error hs.graph hresult] at hedge
      exact .inl ⟨hedge, by rw [hkept e hresult]⟩
    | ok _ =>
      have hlookup := (Graph.edge?_replaceProducers_self hs.graph hresult p).symm.trans hedge
      obtain ⟨before, after, heq, -⟩ := List.lookup_eq_some_iff.1 hlookup
      have hmem : (p, edge) ∈ w.producers f container := by
        rw [← List.mem_reverse, heq]
        exact List.mem_append_right _ List.mem_cons_self
      obtain ⟨f', hf', hcore⟩ := hplaced
      exact .inr ⟨f', hf', (needs_of_mem_producers hmem).of_core hcore⟩
  · exact .inl ⟨(Graph.edge?_replaceProducers hs.graph _ hc).symm.trans hedge, by rw [hothers c hc]⟩

end Rewired

/-- An operation rewires every workbench with a sound scheduler. -/
def Rewires {α : Type} (m : Edit σ α) : Prop :=
  Run.Leads (fun w w' : Workbench σ => w.scheduler.Sound → Rewired w w') m

namespace Rewires

variable {α β : Type}

theorem bind {m : Edit σ α} {k : α → Edit σ β} (hm : Rewires m) (hk : ∀ a, Rewires (k a)) :
    Rewires (m >>= k) :=
  Run.Leads.bind (R := fun w w' : Workbench σ => w.scheduler.Sound → Rewired w w')
    (fun h h' hs => (h hs).trans (h' (h hs).sound)) hm hk

theorem forIn {body : Entity → Edit σ (ForInStep PUnit)} (h : ∀ e, Rewires (body e))
    (es : List Entity) : Rewires (forIn es PUnit.unit fun e _ => body e) :=
  Run.Leads.forIn (R := fun w w' : Workbench σ => w.scheduler.Sound → Rewired w w')
    (fun _ => .refl) (fun h h' hs => (h hs).trans (h' (h hs).sound)) fun e _ => h e

/-- An operation that leaves scheduler and formulas alone. -/
theorem still {m : Edit σ α} (h : ∀ w : Workbench σ, (m.run w).2.scheduler = w.scheduler ∧
    (m.run w).2.formulas = w.formulas) : Rewires m := by
  intro w hs
  obtain ⟨hscheduler, hformulas⟩ := h w
  exact .same (hscheduler ▸ hs) (by rw [hscheduler]) fun e => by rw [hformulas]

theorem pure (a : α) : Rewires (pure a : Edit σ α) := .still fun _ => ⟨rfl, rfl⟩

theorem propagate (c : Change) : Rewires (propagate c : Edit σ RequestId) := by
  intro w hs
  have hkeeps := keeps_propagate hs c
  rcases run_propagate w c with ⟨id, hrun⟩ | ⟨e, hrun⟩ <;> rw [hrun] <;>
    exact .same hkeeps.sound hkeeps.graph fun _ => rfl

theorem detach (e : Entity) : Rewires (detach e : Edit σ (Option Formula)) := by
  intro w hs
  rw [run_detach]
  cases w.formulas[e]? with
  | none => exact .refl hs
  | some f =>
    refine .fewer ⟨hs.graph.removeConsumer e, hs.numbered⟩ fun {p c edge} hedge => ?_
    have hedge : (w.scheduler.graph.removeConsumer e).2.edge? p c = some edge := hedge
    rw [Graph.edge?_removeConsumer hs.graph.toIndexed] at hedge
    split at hedge
    · cases hedge
    next hne => exact ⟨hedge, (Table.getElem?_erase w.formulas e c).trans (if_neg hne)⟩

theorem rebind (e : Entity) (container : Option ObjectId) :
    Rewires (rebind e container : Edit σ Unit) := by
  intro w hs
  unfold Workbench.rebind
  rw [Run.run_bind, Run.run_get]
  dsimp only
  cases hf : w.formulas[e]? with
  | none => exact .refl hs
  | some f => exact .bound hs (f := f) rfl rfl ⟨f, hf, rfl⟩ (fun _ _ => rfl) fun _ _ => rfl

/-- Bind formulas again, and announce them. -/
theorem reschedule (containerOf : Entity → Option ObjectId) (priority : Priority)
    (es : List Entity) :
    Rewires (ForIn.forIn es PUnit.unit fun e _ => do
      Workbench.rebind e (containerOf e)
      let _ ← announce e none priority
      return .yield PUnit.unit : Edit σ PUnit) :=
  .forIn (fun e => .bind (.rebind e _) fun _ => .bind (.propagate _) fun _ => .pure _) es

theorem setFormula (object : ObjectId) (property source : String) :
    Rewires (setFormula object property source : Edit σ Value) := by
  intro w hs
  have hset := setsFormula w object property source
  generalize (Workbench.setFormula object property source).run w = outcome at hset
  obtain ⟨result, w'⟩ := outcome
  cases hset with
  | refused => exact .refl hs
  | @cycle _ _ e scheduler _ _ hbound =>
    have hsame := replaceProducers_error hs hbound
    exact .same (hsame ▸ hs) (by rw [hsame]) fun _ => rfl
  | failed _ _ hbound heval =>
    exact .bound hs hbound rfl
      ⟨_, Std.ExtTreeMap.getElem?_insert_self, (Calculator.evaluate_kept heval).1⟩
      (fun c hc => (Table.getElem?_insert _ _ _ _).trans (if_neg hc)) nofun
  | @written f f' _ calculator' scheduler v _ scene _ _ hbound heval =>
    let placed : Workbench σ := { w with
      calculator := calculator', scheduler, scene,
      formulas := w.formulas.insert ⟨object, property⟩ f' }
    have hplaced : Rewired w placed :=
      .bound hs hbound rfl
        ⟨_, Std.ExtTreeMap.getElem?_insert_self, (Calculator.evaluate_kept heval).1⟩
        (fun c hc => (Table.getElem?_insert _ _ _ _).trans (if_neg hc)) nofun
    obtain ⟨hkeeps, -⟩ := Scheduler.announced_spec hplaced.sound ⟨object, property⟩ (some v) .normal
    exact hplaced.trans (.same hkeeps.sound hkeeps.graph fun _ => rfl)

theorem write (e : Entity) (v : Value) : Rewires (write e v : Edit σ Unit) := by
  refine .still fun w => ?_
  rw [run_write]
  cases w.scene.write e v <;> exact ⟨rfl, rfl⟩

theorem setValue (object : ObjectId) (property : String) (v : Value) (priority : Priority) :
    Rewires (setValue object property v priority : Edit σ RequestId) :=
  .bind (.detach _) fun _ => .bind (.write _ _) fun _ => .bind (.still fun _ => ⟨rfl, rfl⟩) fun _ =>
    .propagate _

theorem notifyChange (object : ObjectId) (kindName : String) (payload : Payload)
    (priority : Priority) :
    Rewires (notifyChange object kindName payload priority : Edit σ RequestId) := by
  have hlift : ∀ {ε γ : Type} (wrap : ε → WorkbenchError) (x : Except ε γ),
      Rewires (lift wrap x : Edit σ γ) := fun _ x => by cases x <;> exact .still fun _ => ⟨rfl, rfl⟩
  refine .bind (hlift _ _) fun kind => .bind (hlift _ _) fun target =>
    .bind (.still fun _ => ⟨rfl, rfl⟩) fun _ => .bind (.propagate _) fun id => ?_
  split
  · exact .bind (.still fun _ => ⟨rfl, rfl⟩) fun w =>
      .bind (.reschedule _ priority _) fun _ => .pure _
  · exact .pure _

theorem addObject (o : Object) : Rewires (addObject o : Edit σ RequestId) := by
  intro w hs
  let inserted : Workbench σ := { w with scene := w.scene.insert o }
  have hloop : Rewires (σ := σ) (do
      for e in inserted.concerned o do
        Workbench.rebind e (inserted.containerOf? e.object)
        let _ ← announce e none
      Workbench.propagate ⟨o.id, .hierarchy, .hierarchy none o.container, .normal⟩) :=
    .bind (.reschedule (fun e => inserted.containerOf? e.object) .normal _) fun _ => .propagate _
  have hplaced : Rewired w (inserted.invalidate (inserted.concerned o)) :=
    .same hs rfl fun _ => rfl
  exact hplaced.trans (hloop _ hs)

theorem submitChange (c : Change) : Rewires (submitChange c : Edit σ RequestId) := by
  intro w hs
  have hgraph : (w.scheduler.submit c).2.graph = w.scheduler.graph := by
    rcases submit_eq w.scheduler c with heq | ⟨target, -, -, heq⟩ <;> rw [heq]
  have hsound := sound_run hs (.submit c)
  have hscheduler : ((Workbench.submitChange c).run w).2.scheduler = (w.scheduler.submit c).2 := by
    unfold Workbench.submitChange
    rw [Run.run_bind, Run.run_get]
    dsimp only
    rw [Run.run_bind, Run.run_set]
    cases (w.scheduler.submit c).1 <;> rfl
  exact .same hsound (hscheduler ▸ hgraph) fun e => by
    rw [(sameContent_submitChange w c).formulas]

theorem evaluateProperty (object : ObjectId) (property : String) :
    Rewires (evaluateProperty object property : Edit σ Value) := by
  intro w hs
  rw [run_evaluateProperty]
  cases hf : w.formulas[Entity.mk object property]? with
  | none => exact .refl hs
  | some f =>
    exact .same hs rfl (map_core_insert hf (Calculator.evaluateCached_core rfl).1)

/-- The edges at an object go with it, and so do its formulas. -/
theorem removeObject (id : ObjectId) : Rewires (removeObject id : Edit σ Object) := by
  intro w hs
  cases hthere : w.scene.get? id with
  | none =>
    rw [run_removeObject_of_none hthere]
    exact .same hs rfl fun _ => rfl
  | some o =>
    obtain ⟨scene, hremove, -⟩ := Scene.exists_remove hthere
    unfold Workbench.removeObject
    rw [Run.run_bind, Run.run_get]
    dsimp only
    rw [hremove]
    dsimp only
    rw [Run.run_bind, Run.run_set]
    have hclear : Rewires (σ := σ) (do
        modify fun w => { w with scheduler := (w.scheduler.removeObject id).2 }
        return o) := by
      refine .bind (fun w hs => .fewer ⟨hs.graph.removeObject id, hs.numbered⟩
        fun {p c edge} hedge => ⟨?_, rfl⟩) fun _ => .pure _
      have hedge : (w.scheduler.graph.removeObject id).2.edge? p c = some edge := hedge
      rw [Graph.edge?_removeObject] at hedge
      split at hedge
      · cases hedge
      · exact hedge
    have hscene : Rewired w { w with scene } := .same hs rfl fun _ => rfl
    refine hscene.trans ?_
    refine Rewires.bind (.forIn (fun e => .bind (.detach e) fun _ => .pure _) _) (fun _ =>
      .bind (.still fun _ => ⟨rfl, rfl⟩) fun _ => ?_) { w with scene } hs
    intro w
    rw [Run.run_bind, Run.run_get]
    refine Rewires.bind (.still fun _ => ⟨rfl, rfl⟩) (fun _ =>
      .bind (.forIn (fun e => .bind (.propagate _) fun _ => .pure _) _) fun _ => ?_) w
    cases o.container with
    | none => exact hclear
    | some parent => exact .bind (.propagate _) fun _ => hclear

end Rewires

/-- A drain leaves the edges and the formulas as they were compiled. -/
theorem Rewired.drain (hs : w.scheduler.Sound) : Rewired w w.drain.2 := by
  obtain ⟨hsound, hgraph, -⟩ := drain_spec (applier w.vars) w.bench hs
  refine .same hsound hgraph fun e => ?_
  have hcores : ((w.withBench (w.scheduler.drain (applier w.vars) w.bench).2.2).formulas[e]?).map
      Formula.core = (w.formulas[e]?).map Formula.core := by
    refine state_drain (K := fun b => ((w.withBench b).formulas[e]?).map Formula.core =
      (w.formulas[e]?).map Formula.core) (fun r b _ hb => ?_) (fun parent children b hb => ?_)
      w.scheduler rfl
    · exact ((Bench.effect_apply (w.withBench b) r).cores e).trans hb
    · have hsame := (sameContent_applyBounds w b parent children).formulas
      exact (congrArg (fun formulas => (formulas[e]?).map Formula.core) hsame).trans hb
  exact hcores

/-- Every operation rewires. -/
theorem rewired_run (hs : w.scheduler.Sound) (op : Operation) : Rewired w (op.run w) := by
  have hvariable : ∀ {name : String} {w' : Workbench σ}, SetsVariable w name w' → Rewired w w' := by
    intro name w' hset
    cases hset with
    | refused => exact .refl hs
    | @changed vars value =>
      obtain ⟨hkeeps, -⟩ := announced_spec hs (Entity.ofVariable name) value .normal
      exact .same hkeeps.sound hkeeps.graph fun _ => rfl
  cases op with
  | act a =>
    cases a with
    | setFormula object property source => exact Rewires.setFormula object property source w hs
    | setValue object property v priority =>
      exact Rewires.setValue object property v priority w hs
    | clearFormula object property => exact Rewires.detach _ w hs
    | defineVariable name scope context v =>
      exact hvariable (setsVariable_define w name scope context v)
    | updateVariable name scope context v =>
      exact hvariable (setsVariable_update w name scope context v)
    | deleteVariable name scope context =>
      exact hvariable (setsVariable_delete w name scope context)
    | notifyProperty object payload priority => exact Rewires.notifyChange _ _ _ _ w hs
    | drain => exact Rewired.drain hs
  | notify object kind payload priority => exact Rewires.notifyChange _ _ _ _ w hs
  | submit c => exact Rewires.submitChange c w hs
  | evaluate object property => exact Rewires.evaluateProperty object property w hs
  | addObject o => exact Rewires.addObject o w hs
  | removeObject id => exact Rewires.removeObject id w hs

/-! ## Runs -/

/-- The scheduler is sound, and what an edge leads to is driven by a formula. -/
structure Fed (w : Workbench σ) : Prop where
  sound : w.scheduler.Sound
  formulas : ∀ p c : Entity, w.scheduler.graph.Feeds p c → (w.formulas[c]?).isSome

/-- Every edge is needed by the formula it leads to. -/
def Needed (w : Workbench σ) : Prop :=
  ∀ (p c : Entity) (edge : Edge), w.scheduler.graph.edge? p c = some edge →
    ∃ f, w.formulas[c]? = some f ∧ f.Needs edge

/-- Whatever was done with a workbench, the formulas need the edges into them. -/
theorem needed_perform (functions : Registry σ) (scene : Scene) (settings : Settings) (clock : Clock)
    (host : σ) (ops : List Operation) :
    ((new functions scene settings clock host).perform ops).Needed := by
  have hall : ∀ (ops : List Operation) (w : Workbench σ), w.scheduler.Sound → w.Needed →
      (w.perform ops).Needed := by
    intro ops
    induction ops with
    | nil => exact fun _ _ h => h
    | cons op ops ih =>
      intro w hs h
      have hstep := rewired_run hs op
      refine ih _ hstep.sound fun p c edge hedge => ?_
      rcases hstep.edges hedge with ⟨hedge, hcore⟩ | hneeds
      · exact exists_needs_congr hcore (h p c edge hedge)
      · exact hneeds
  refine hall ops _ (Sound.new settings.propagation) fun p c edge hedge => ?_
  simp [new, Graph.edge?] at hedge

/-- Whatever was done with a workbench, only formulas consume. -/
theorem fed_perform (functions : Registry σ) (scene : Scene) (settings : Settings) (clock : Clock)
    (host : σ) (ops : List Operation) :
    ((new functions scene settings clock host).perform ops).Fed := by
  refine ⟨sound_perform functions scene settings clock host ops, fun p c hc => ?_⟩
  rw [Graph.feeds_iff_isSome] at hc
  obtain ⟨edge, hedge⟩ := Option.isSome_iff_exists.1 hc
  obtain ⟨f, hf, -⟩ := needed_perform functions scene settings clock host ops p c edge hedge
  exact hf ▸ rfl

/-! ## Consistency -/

/-- Formulas, edges and objects are consistent. -/
structure Consistent (w : Workbench σ) : Prop where
  /-- A formula was compiled for the object whose property it drives, and that is there. -/
  owned : ∀ {e : Entity} {f : Formula}, w.formulas[e]? = some f →
    f.object = e.object ∧ (w.scene.get? e.object).isSome
  /-- An edge leads to a formula. It notes the text of one of its variables if it is the edge of a
  variable, and otherwise the text of one of its dependencies, which is not that of a variable. -/
  noted : ∀ {p c : Entity} {edge : Edge}, w.scheduler.graph.edge? p c = some edge →
    ∃ f text, w.formulas[c]? = some f ∧ edge.note = some text ∧
      (text ∈ f.dependencies.map Dependency.text ∨ text ∈ f.variableNames.map ("$" ++ ·)) ∧
      (edge.kind = .variable ↔ text ∈ f.variableNames.map ("$" ++ ·))

/-- No formula and no edge is at an object. -/
structure Without (id : ObjectId) (w : Workbench σ) : Prop where
  formulas : ∀ {e : Entity} {f : Formula}, w.formulas[e]? = some f → e.object ≠ id ∧ f.object ≠ id
  edges : ∀ {p c : Entity} {edge : Edge}, w.scheduler.graph.edge? p c = some edge →
    p.object ≠ id ∧ c.object ≠ id

theorem consistent_of_needed {functions : Registry σ} {settings : EvaluationSettings}
    (hw : w.Standing functions settings) (hsourced : w.All Formula.Sourced) (h : w.Needed) :
    w.Consistent := by
  refine ⟨fun hf => ⟨(hw.formulas hf).1, (hw.formulas hf).2.1⟩, fun {p c edge} hedge => ?_⟩
  obtain ⟨f, hf, hneeds⟩ := h p c edge hedge
  obtain ⟨kind, note⟩ := edge
  have hvariable : ∀ d ∈ f.dependencies, d.text ∉ f.variableNames.map ("$" ++ ·) := by
    intro d hd hmem
    obtain ⟨v, -, heq⟩ := List.mem_map.1 hmem
    exact (hsourced c f hf).text_ne (hw.formulas hf).2.2 hd v heq.symm
  cases kind with
  | «variable» =>
    obtain ⟨v, hv, hnote⟩ := hneeds
    have hmem : "$" ++ v ∈ f.variableNames.map ("$" ++ ·) := List.mem_map_of_mem hv
    exact ⟨f, _, hf, hnote, .inr hmem, iff_of_true rfl hmem⟩
  | reference | implicit =>
    obtain ⟨d, hd, hnote⟩ := hneeds
    exact ⟨f, _, hf, hnote, .inl (List.mem_map_of_mem hd), iff_of_false nofun (hvariable d hd)⟩

theorem without_removeObject {functions : Registry σ} {settings : EvaluationSettings}
    (hs : w.scheduler.Sound) (hw : w.Standing functions settings) {id : ObjectId}
    (hthere : (w.scene.get? id).isSome) : Without id ((removeObject id).run w).2 := by
  obtain ⟨o, ho⟩ := Option.isSome_iff_exists.1 hthere
  have hremoved := removed_removeObject hs ho
  refine ⟨fun hf => ?_, fun {p c edge} hedge => ?_⟩
  · obtain ⟨hf', hne⟩ := hremoved.formula_of hf
    exact ⟨hne, (hw.formulas hf').1 ▸ hne⟩
  · have hfeeds := (Graph.feeds_iff_isSome _ p c).2 (Option.isSome_of_eq_some hedge)
    exact ((hremoved.feeds p c).1 hfeeds).2

/-- Whatever was done with a workbench, formulas, edges and objects are consistent; and no formula
and no edge is at an object once it is removed. -/
theorem consistent_perform (functions : Registry σ) (scene : Scene) (settings : Settings)
    (clock : Clock) (host : σ) (hscene : scene.objects.Keyed) (ops : List Operation) :
    let w := (new functions scene settings clock host).perform ops
    w.Consistent ∧ ∀ id, (w.scene.get? id).isSome → Without id ((removeObject id).run w).2 := by
  intro w
  have hw := standing_perform functions scene settings clock host hscene ops
  have hsourced : w.All Formula.Sourced :=
    lifelong_perform (lifelong_sourced functions settings.evaluation) (Sound.new _)
      (.new functions scene settings clock host hscene) (fun _ _ hf => by simp [new] at hf) ops
  exact ⟨consistent_of_needed hw hsourced (needed_perform functions scene settings clock host ops),
    fun _ => without_removeObject (sound_perform functions scene settings clock host ops) hw⟩

/-- A formula that reads a property and a variable has an edge of each kind, and nothing is left of
it when one of the objects is removed that its edges are at. -/
theorem edges_of_variable_and_reference :
    let a : Object := { id := "a", name := "a", properties := [("x", .leaf (.string "s"))] }
    let b : Object := { id := "b", name := "b" }
    let scene : Scene := Scene.insert (Scene.insert {} a) b
    let w := (new .builtin scene {} .still ()).perform
      [.act (.defineVariable "v" .global none (.string "t")),
        .act (.setFormula "b" "y" "a.x + $v")]
    w.scheduler.graph.edge? ⟨"a", "x"⟩ ⟨"b", "y"⟩ = some ⟨.reference, some "a.x"⟩ ∧
      w.scheduler.graph.edge? (.ofVariable "v") ⟨"b", "y"⟩ = some ⟨.variable, some "$v"⟩ ∧
      w.Consistent ∧ (w.scene.get? "a").isSome ∧ Without "a" ((removeObject "a").run w).2 ∧
      (w.scene.get? "b").isSome ∧ Without "b" ((removeObject "b").run w).2 := by
  intro a b scene w
  have hkeyed : scene.objects.Keyed := (ObjectTable.Keyed.empty.insert a).insert b
  have ha : (w.scene.get? "a").isSome := by decide +kernel
  have hb : (w.scene.get? "b").isSome := by decide +kernel
  obtain ⟨hconsistent, hremoved⟩ := consistent_perform .builtin scene {} .still () hkeyed
    [.act (.defineVariable "v" .global none (.string "t")), .act (.setFormula "b" "y" "a.x + $v")]
  exact ⟨by decide +kernel, by decide +kernel, hconsistent, ha, hremoved "a" ha, hb,
    hremoved "b" hb⟩

end Workbench

end Parametric
