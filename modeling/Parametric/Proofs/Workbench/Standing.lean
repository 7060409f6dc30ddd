import Parametric.Proofs.Scene.Change
import Parametric.Proofs.Scene.Relocation
import Parametric.Proofs.Workbench.Scheduling

/-!
# What every workbench keeps

Objects lie under their identifiers, and formulas were compiled for objects that are there, also
when objects come, go and move (`standing_perform`).
-/

namespace Parametric

namespace Scheduler

/-! ## Drains -/

namespace Drain

section

variable {τ : Type} {applier : Applier τ} {K : τ → Prop}
  (happly : ∀ r t inbox, K t → K ((applier.apply r t).run inbox).2.1)
  (hbounds : ∀ parent children t, K t → K (applier.applyBounds parent children t).2)

include hbounds

theorem state_flush {d : Drain τ} (h : K d.state) (parent : ObjectId) (children : ChildBounds) :
    K (d.flush applier parent children).state := by
  have hstate := hbounds parent children d.state h
  unfold flush
  cases hresult : applier.applyBounds parent children d.state with
  | mk result state =>
    rw [hresult] at hstate
    cases result <;> exact hstate

theorem state_flushAll {d : Drain τ} (h : K d.state) : K (d.flushAll applier).state := by
  have hall : ∀ (parents : List (ObjectId × ChildBounds)) (d : Drain τ), K d.state →
      K (parents.foldl (fun d p => d.flush applier p.1 p.2) d).state := by
    intro parents
    induction parents with
    | nil => exact fun _ h => h
    | cons p parents ih => exact fun d h => ih _ (state_flush hbounds h p.1 p.2)
  exact hall d.scheduler.bounds.parents.toList
    { d with scheduler := { d.scheduler with bounds := {} } } h

include happly

theorem state_serve {d : Drain τ} (h : K d.state) (r : Request) :
    K (serve applier d r).state := by
  have hstate := happly { r with state := .processing } d.state d.scheduler.inbox h
  unfold serve
  cases hresult : (applier.apply { r with state := .processing } d.state).run
      d.scheduler.inbox with
  | mk result rest =>
    obtain ⟨state, inbox⟩ := rest
    rw [hresult] at hstate
    cases result with
    | error e => exact hstate
    | ok outcome =>
      dsimp only
      cases outcome.bounds with
      | none => exact hstate
      | some c =>
        dsimp only
        unfold contribute
        split
        · exact hstate
        · exact state_flush hbounds (by exact hstate) _ _

theorem state_serveAll (limit : Nat) {d : Drain τ} (h : K d.state) :
    K (serveAll applier limit d).state := by
  induction limit generalizing d with
  | zero => exact h
  | succ limit ih =>
    unfold serveAll
    dsimp only
    split
    · exact h
    · exact ih (state_serve happly hbounds (by exact h) _)

end

end Drain

/-- What an applier keeps of its state, a drain keeps. -/
theorem state_drain {τ : Type} {applier : Applier τ} {K : τ → Prop}
    (happly : ∀ r t inbox, K t → K ((applier.apply r t).run inbox).2.1)
    (hbounds : ∀ parent children t, K t → K (applier.applyBounds parent children t).2)
    (s : Scheduler) {state : τ} (h : K state) : K (s.drain applier state).2.2 :=
  Drain.state_flushAll hbounds (Drain.state_serveAll happly hbounds _ (d := ⟨s, state, {}⟩) h)

end Scheduler

namespace Scene

variable {s s' : Scene}

/-- No change takes an object away. -/
theorem objects_applyChange {r : Request} {outcome : Outcome} (hkeyed : s.objects.Keyed)
    (h : s.applyChange r = .ok (outcome, s')) :
    s'.objects.Keyed ∧ ∀ id, (s.get? id).isSome → (s'.get? id).isSome := by
  have hwritten : ∀ {s' : Scene}, s'.objects.shape = s.objects.shape →
      s'.objects.Keyed ∧ ∀ id, (s.get? id).isSome → (s'.get? id).isSome :=
    fun hshape => ⟨hkeyed.of_shape hshape,
      fun id hid => (ObjectTable.isSome_get?_congr hshape id).trans hid⟩
  obtain ⟨o, ho, h⟩ := Run.ok_of_bind h
  split at h
  · cases h
    exact hwritten (s.writes_resize _ _).shape
  · cases h
    exact hwritten (s.writes_arrange _ _).shape
  · cases h
    dsimp only
    split
    next previous parent _ =>
      have hmoved := moved_move hkeyed (get?_of_require ho) previous parent
      exact ⟨hmoved.keyed hkeyed, fun id hid => (hmoved.isSome_get? id).trans hid⟩
    · exact hwritten rfl
  · unfold change at h
    split at h
    · obtain ⟨⟨bounds, scene⟩, hwrite, h⟩ := Run.ok_of_bind h
      cases h
      exact hwritten (shape_write hwrite)
    · cases h
      exact hwritten rfl
  · cases h

end Scene

namespace Workbench

open Scheduler

variable {σ : Type} {w w' : Workbench σ} {e : Entity} {f : Formula} {functions : Registry σ}
  {settings : EvaluationSettings}

/-! ## Formulas and objects -/

/-- With given functions and settings, objects lie under their identifiers, and formulas were
compiled for objects that are there. -/
structure Standing (functions : Registry σ) (settings : EvaluationSettings) (w : Workbench σ) :
    Prop where
  functions : w.calculator.functions = functions
  settings : w.calculator.settings = settings
  keyed : w.scene.objects.Keyed
  formulas : ∀ {e : Entity} {f : Formula}, w.formulas[e]? = some f →
    f.object = e.object ∧ (w.scene.get? e.object).isSome ∧ f.Compiled w.calculator.functions

theorem Reschedules.sameContent {α : Type} {m : Edit σ α} (hm : Reschedules m) (w : Workbench σ) :
    SameContent w (m.run w).2 := by
  obtain ⟨scheduler, hrun⟩ := hm w
  rw [hrun]
  exact .rescheduled _ _

/-- News of a change drop cached results and change the scheduler. -/
theorem sameContent_notifyChange (w : Workbench σ) (object : ObjectId) (kind : String)
    (payload : Payload) (priority : Priority) :
    SameContent w ((notifyChange object kind payload priority).run w).2 := by
  unfold notifyChange
  rw [Run.run_bind]
  cases ChangeKind.ofName kind with
  | error e => exact .refl w
  | ok kind =>
    rw [run_lift_ok]
    dsimp only
    rw [Run.run_bind]
    cases kind.target object payload with
    | error e => exact .refl w
    | ok target =>
      rw [run_lift_ok]
      dsimp only
      rw [Run.run_bind, Run.run_modify]
      refine (SameContent.invalidate w (kind.affected target payload)).trans
        (Reschedules.sameContent (.bind (.propagate _) fun id => ?_) _)
      split
      · exact .bind (fun w => ⟨w.scheduler, rfl⟩) fun w => .bind
          (.forIn (fun e => .bind (.rebind e _) fun _ => .bind (.propagate _) fun _ => .pure _) _)
          fun _ => .pure _
      · exact .pure _

theorem sameContent_submitChange (w : Workbench σ) (c : Change) :
    SameContent w ((submitChange c).run w).2 := by
  unfold submitChange
  rw [Run.run_bind, Run.run_get]
  dsimp only
  rw [Run.run_bind, Run.run_set]
  cases (w.scheduler.submit c).1 <;> exact .rescheduled _ _

/-- Recalculating a container changes no object. -/
theorem sameContent_applyBounds (w : Workbench σ) (b : Bench σ) (parent : ObjectId)
    (children : ChildBounds) :
    SameContent (w.withBench b) (w.withBench (b.applyBounds parent children).2) := by
  obtain ⟨scene, heq, hobjects⟩ := b.applyBounds_eq parent children
  rw [heq]
  exact ⟨.refl _, rfl, rfl, hobjects⟩

namespace Standing

theorem new (functions : Registry σ) (scene : Scene) (settings : Settings) (clock : Clock)
    (host : σ) (hscene : scene.objects.Keyed) :
    (new functions scene settings clock host).Standing functions settings.evaluation :=
  ⟨rfl, rfl, hscene, by simp [Workbench.new]⟩

/-- Objects may come and change, and formulas be evaluated, go and be compiled. -/
theorem step (h : w.Standing functions settings)
    (hfunctions : w'.calculator.functions = w.calculator.functions)
    (hsettings : w'.calculator.settings = w.calculator.settings) (hkeyed : w'.scene.objects.Keyed)
    (hobjects : ∀ id, (w.scene.get? id).isSome → (w'.scene.get? id).isSome)
    (hformulas : ∀ {e : Entity} {f' : Formula}, w'.formulas[e]? = some f' →
      (∃ f, w.formulas[e]? = some f ∧ f'.core = f.core) ∨
      f'.object = e.object ∧ (w.scene.get? e.object).isSome ∧
        f'.Compiled w.calculator.functions) : w'.Standing functions settings where
  functions := hfunctions.trans h.functions
  settings := hsettings.trans h.settings
  keyed := hkeyed
  formulas hf' := by
    rw [hfunctions]
    rcases hformulas hf' with ⟨f, hf, hcore⟩ | ⟨hobject, hsome, hcompiled⟩
    · obtain ⟨hobject, hsome, hcompiled⟩ := h.formulas hf
      exact ⟨(Formula.object_of_core hcore).trans hobject, hobjects _ hsome,
        hcompiled.of_core hcore⟩
    · exact ⟨hobject, hobjects _ hsome, hcompiled⟩

theorem same (h : w.Standing functions settings) (hsame : SameContent w w') :
    w'.Standing functions settings :=
  h.step hsame.calculator.functions hsame.calculator.settings (hsame.objects ▸ h.keyed)
    (fun id hid => by rwa [Scene.get?, hsame.objects])
    fun {e f} hf => .inl ⟨f, hsame.formulas ▸ hf, rfl⟩

/-- Values may be written into the scene. -/
theorem withScene (h : w.Standing functions settings) {scene : Scene}
    (hshape : scene.objects.shape = w.scene.objects.shape) :
    Standing functions settings { w with scene } :=
  h.step rfl rfl (h.keyed.of_shape hshape)
    (fun id hid => (ObjectTable.isSome_get?_congr hshape id).trans hid)
    fun {_ f} hf => .inl ⟨f, hf, rfl⟩

/-- A formula may be put in place of one with the same core, or if it was compiled. -/
theorem insert (h : w.Standing functions settings) {target : Entity} {f : Formula}
    {calculator : Calculator σ}
    (hfunctions : calculator.functions = w.calculator.functions)
    (hsettings : calculator.settings = w.calculator.settings)
    (hf : (∃ g, w.formulas[target]? = some g ∧ f.core = g.core) ∨
      f.object = target.object ∧ (w.scene.get? target.object).isSome ∧
        f.Compiled w.calculator.functions) :
    Standing functions settings { w with calculator, formulas := w.formulas.insert target f } := by
  refine h.step hfunctions hsettings h.keyed (fun _ hid => hid) fun {e g} hg => ?_
  rw [Table.getElem?_insert] at hg
  split at hg
  next he =>
    cases hg
    exact he ▸ hf
  next => exact .inl ⟨g, hg, rfl⟩

theorem detached (h : w.Standing functions settings) (e : Entity) :
    (w.detached e).Standing functions settings := by
  have hscene := scene_detached w e
  exact h.step (by rw [calculator_detached]) (by rw [calculator_detached]) (hscene ▸ h.keyed)
    (fun _ hid => hscene ▸ hid) fun {e f} hf => .inl ⟨f, formula_of_detached hf, rfl⟩

theorem setFormula (h : w.Standing functions settings) (object : ObjectId)
    (property source : String) :
    ((setFormula object property source).run w).2.Standing functions settings := by
  have hset := setsFormula w object property source
  generalize (Workbench.setFormula object property source).run w = outcome at hset
  obtain ⟨result, w'⟩ := outcome
  have hplaced : ∀ {f f' : Formula} {calculator calculator' : Calculator σ}
      {result : Except EvalError Value}, (w.scene.get? object).isSome →
      w.calculator.compile source object = .ok (f, calculator) →
      calculator.evaluate f w.stores (w.view object) = (result, f', calculator') →
      Standing functions settings { w with
        calculator := calculator', formulas := w.formulas.insert ⟨object, property⟩ f' } := by
    intro f f' calculator calculator' result hobject hcompile heval
    obtain ⟨hf, hcompiled, hkept, -⟩ := Calculator.compile_spec hcompile
    obtain ⟨hcore, hkept'⟩ := Calculator.evaluate_kept heval
    have hkept := hkept.trans hkept'
    exact h.insert hkept.functions hkept.settings
      (.inr ⟨(Formula.object_of_core hcore).trans hf, hobject, hcompiled.of_core hcore⟩)
  cases hset with
  | refused => exact h
  | cycle => exact h.same (.rescheduled _ _)
  | failed hobject hcompile _ heval =>
    exact (hplaced hobject hcompile heval).same (.rescheduled _ _)
  | @written f f' calculator calculator' scheduler v bounds scene hobject hcompile _ heval hwrite =>
    have hwritten := (hplaced hobject hcompile heval).withScene (Scene.shape_write hwrite)
    let placed : Workbench σ := { w with
      calculator := calculator', scheduler, scene,
      formulas := w.formulas.insert ⟨object, property⟩ f' }
    have hplaced : placed.Standing functions settings := hwritten.same (.rescheduled _ _)
    exact hplaced.same ((SameContent.invalidate placed _).trans (SameContent.announced _ _ _ _))

theorem setValue (h : w.Standing functions settings) (object : ObjectId) (property : String)
    (v : Value) (priority : Priority) :
    ((setValue object property v priority).run w).2.Standing functions settings := by
  rw [run_setValue]
  have hdetached := h.detached ⟨object, property⟩
  cases hwrite : (w.detached ⟨object, property⟩).scene.write ⟨object, property⟩ v with
  | error e => exact hdetached
  | ok written =>
    exact (hdetached.withScene (Scene.shape_write hwrite)).same
      ((SameContent.invalidate _ _).trans (SameContent.announced _ _ _ _))

theorem setsVariable (h : w.Standing functions settings) {name : String}
    (hset : SetsVariable w name w') : w'.Standing functions settings := by
  cases hset with
  | refused => exact h
  | @changed vars value =>
    have hvars : Standing functions settings { w with vars } :=
      h.step rfl rfl h.keyed (fun _ hid => hid) fun {e f} hf => .inl ⟨f, hf, rfl⟩
    exact hvars.same ((SameContent.invalidate _ _).trans (SameContent.announced _ _ _ _))

theorem evaluateProperty (h : w.Standing functions settings) (object : ObjectId)
    (property : String) :
    ((evaluateProperty object property).run w).2.Standing functions settings := by
  rw [run_evaluateProperty]
  cases hf : w.formulas[Entity.mk object property]? with
  | none => exact h
  | some f =>
    dsimp only
    generalize heval : w.calculator.evaluateCached f w.stores (w.view object) = evaluated
    obtain ⟨result, f', calculator'⟩ := evaluated
    obtain ⟨hcore, hfunctions, hsettings⟩ := Calculator.evaluateCached_core heval
    exact h.insert hfunctions hsettings (.inl ⟨f, hf, hcore⟩)

theorem addObject (h : w.Standing functions settings) (o : Object) :
    ((addObject o).run w).2.Standing functions settings := by
  let inserted : Workbench σ := { w with scene := w.scene.insert o }
  have hinserted : inserted.Standing functions settings := by
    refine h.step rfl rfl (h.keyed.insert o) (fun id hid => ?_) fun {_ f} hf => .inl ⟨f, hf, rfl⟩
    show ((w.scene.objects.insert o).get? id).isSome
    rw [ObjectTable.get?_insert]
    split
    · rfl
    · exact hid
  obtain ⟨scheduler, hrun⟩ := run_addObject w o
  rw [hrun]
  exact (hinserted.same (.invalidate inserted (inserted.concerned o))).same (.rescheduled _ _)

/-- The formulas of an object go with it. -/
theorem removeObject (h : w.Standing functions settings) (hs : w.scheduler.Sound) (id : ObjectId) :
    ((removeObject id).run w).2.Standing functions settings := by
  cases hthere : w.scene.get? id with
  | none =>
    exact h.same (sameContent_removeObject_of_none hthere)
  | some o =>
    have hremoved := removed_removeObject hs hthere
    refine ⟨hremoved.calculator.functions.trans h.functions,
      hremoved.calculator.settings.trans h.settings, h.keyed.remove hremoved.objects,
      fun {e f} hf => ?_⟩
    obtain ⟨hf, hne⟩ := hremoved.formula_of hf
    obtain ⟨hobject, hsome, hcompiled⟩ := h.formulas hf
    refine ⟨hobject, ?_, hremoved.calculator.functions ▸ hcompiled⟩
    rw [hremoved.get?, if_neg (Ne.symm hne)]
    exact hsome

/-- Serving a request evaluates formulas and changes objects that are there. -/
theorem effect {r : Request} {result : Except ApplyError Outcome}
    (h : w.Standing functions settings) (heffect : Effect w r result w') :
    w'.Standing functions settings := by
  cases heffect with
  | noted hc => exact h.same ⟨hc, rfl, rfl, rfl⟩
  | changed hc _ _ hchange =>
    obtain ⟨hkeyed, hobjects⟩ := Scene.objects_applyChange h.keyed hchange
    exact h.step hc.functions hc.settings hkeyed hobjects fun {_ f} hf => .inl ⟨f, hf, rfl⟩
  | failed _ hf hc _ heval =>
    obtain ⟨hcore, hfunctions, hsettings⟩ := Calculator.evaluateCached_core heval
    exact h.insert (hfunctions.trans hc.functions) (hsettings.trans hc.settings)
      (.inl ⟨_, hf, hcore⟩)
  | computed _ hf hc _ heval hwrite =>
    obtain ⟨hcore, hfunctions, hsettings⟩ := Calculator.evaluateCached_core heval
    exact (h.insert (hfunctions.trans hc.functions) (hsettings.trans hc.settings)
      (.inl ⟨_, hf, hcore⟩)).withScene (Scene.shape_write hwrite)

theorem drain (h : w.Standing functions settings) : w.drain.2.Standing functions settings := by
  have hdrained : (w.withBench (w.scheduler.drain (applier w.vars) w.bench).2.2).Standing
      functions settings := by
    refine state_drain (K := fun b => (w.withBench b).Standing functions settings)
      (fun r b _ hb => ?_) (fun parent children b hb => ?_) w.scheduler h
    · exact hb.effect (Bench.effect_apply (w.withBench b) r)
    · exact hb.same (sameContent_applyBounds w b parent children)
  refine hdrained.same ⟨?_, rfl, rfl, rfl⟩
  unfold Workbench.drain
  dsimp only
  split
  · exact Calculator.kept_clearCaches _
  · exact .refl _

end Standing

/-- Whatever is done with a workbench, its formulas were compiled for objects that are there. -/
theorem standing_run (h : w.Standing functions settings) (hs : w.scheduler.Sound)
    (op : Operation) : (op.run w).Standing functions settings := by
  cases op with
  | act a =>
    cases a with
    | setFormula object property source => exact h.setFormula object property source
    | setValue object property v priority => exact h.setValue object property v priority
    | clearFormula object property => exact h.detached _
    | defineVariable name scope context v =>
      exact h.setsVariable (setsVariable_define w name scope context v)
    | updateVariable name scope context v =>
      exact h.setsVariable (setsVariable_update w name scope context v)
    | deleteVariable name scope context =>
      exact h.setsVariable (setsVariable_delete w name scope context)
    | notifyProperty object payload priority => exact h.same (sameContent_notifyChange _ _ _ _ _)
    | drain => exact h.drain
  | notify object kind payload priority => exact h.same (sameContent_notifyChange _ _ _ _ _)
  | submit c => exact h.same (sameContent_submitChange w c)
  | evaluate object property => exact h.evaluateProperty object property
  | addObject o => exact h.addObject o
  | removeObject id => exact h.removeObject hs id

theorem standing_perform (functions : Registry σ) (scene : Scene) (settings : Settings)
    (clock : Clock) (host : σ) (hscene : scene.objects.Keyed) (ops : List Operation) :
    ((new functions scene settings clock host).perform ops).Standing functions
      settings.evaluation := by
  have hall : ∀ (ops : List Operation) (w : Workbench σ),
      Reaches (fun _ => True) { settings := settings.propagation } w.scheduler →
      w.Standing functions settings.evaluation →
      (w.perform ops).Standing functions settings.evaluation := by
    intro ops
    induction ops with
    | nil => exact fun _ _ h => h
    | cons op ops ih =>
      exact fun w hw h => ih _ (hw.trans (reaches_run w op)) (standing_run h hw.sound op)
  exact hall ops _ (.refl _) (.new functions scene settings clock host hscene)

end Workbench

end Parametric
