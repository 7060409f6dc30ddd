import Parametric.Proofs.Run
import Parametric.Proofs.Scene.Shape
import Parametric.Workbench.Edit

/-!
# Edits as functions of the workbench

What each operation answers and leaves, read off its definition once: an announcement always
succeeds (`run_announce`), a formula is put in place in the steps of `SetsFormula`, and an operation
on a variable changes nothing but the variables of one name (`SetsVariable`).
-/

namespace Parametric

/-- The scheduler after the news of a property. -/
def Scheduler.announced (s : Scheduler) (e : Entity) (value : Option Value) (priority : Priority) :
    Scheduler :=
  schedule { s with inbox := { s.inbox with nextId := s.inbox.nextId + 1 } }
    ⟨s.inbox.nextId, e, .property, .property e.property value, priority⟩

namespace Workbench

variable {σ : Type}

theorem run_lift_ok {ε α : Type} (w : Workbench σ) (wrap : ε → WorkbenchError) (a : α) :
    (lift wrap (.ok a) : Edit σ α).run w = (.ok a, w) := rfl

theorem run_lift_error {ε α : Type} (w : Workbench σ) (wrap : ε → WorkbenchError) (e : ε) :
    (lift wrap (.error e) : Edit σ α).run w = (.error (wrap e), w) := rfl

/-- The workbench after the news of a property. -/
def announced (w : Workbench σ) (e : Entity) (value : Option Value) (priority : Priority) :
    Workbench σ :=
  { w with scheduler := w.scheduler.announced e value priority }

theorem run_announce (w : Workbench σ) (e : Entity) (value : Option Value) (priority : Priority) :
    (announce e value priority).run w =
      (.ok w.scheduler.inbox.nextId, w.announced e value priority) := by
  have hpropagate : w.scheduler.propagate
      ⟨e.object, .property, .property e.property value, priority⟩ =
      .ok (w.scheduler.inbox.nextId, w.scheduler.announced e value priority) := rfl
  unfold announce propagate
  rw [Run.run_bind, Run.run_get]
  dsimp only
  rw [hpropagate]
  rfl

theorem run_detach (w : Workbench σ) (e : Entity) :
    (detach e).run w = match w.formulas[e]? with
      | none => (.ok none, w)
      | some f => (.ok (some f), { w with
          formulas := w.formulas.erase e, scheduler := (w.scheduler.removeConsumer e).2 }) := by
  unfold detach
  rw [Run.run_bind, Run.run_get]
  dsimp only
  cases w.formulas[e]? <;> rfl

theorem run_write (w : Workbench σ) (e : Entity) (v : Value) :
    (write e v).run w = match w.scene.write e v with
      | .error e => (.error (.apply e), w)
      | .ok (_, scene) => (.ok (), { w with scene }) := by
  unfold write
  rw [Run.run_bind, Run.run_get]
  dsimp only
  rw [Run.run_bind]
  cases w.scene.write e v <;> rfl

/-- The workbench without the formula of a property. -/
def detached (w : Workbench σ) (e : Entity) : Workbench σ := ((detach e).run w).2

theorem run_detach_eq (w : Workbench σ) (e : Entity) :
    (detach e).run w = (.ok w.formulas[e]?, w.detached e) := by
  unfold detached
  rw [run_detach]
  cases w.formulas[e]? <;> rfl

theorem formulas_detached (w : Workbench σ) (e x : Entity) :
    (w.detached e).formulas[x]? = if e = x then none else w.formulas[x]? := by
  unfold detached
  rw [run_detach]
  cases hf : w.formulas[e]? with
  | none =>
    by_cases hx : e = x
    · rw [if_pos hx, ← hx]
      exact hf
    · rw [if_neg hx]
  | some f => exact Table.getElem?_erase w.formulas e x

/-- Without a formula there is nothing to take off. -/
theorem detached_of_none {w : Workbench σ} {e : Entity} (h : w.formulas[e]? = none) :
    w.detached e = w := by
  unfold detached
  rw [run_detach, h]

/-- A formula that is left was there before. -/
theorem formula_of_detached {w : Workbench σ} {e x : Entity} {f : Formula}
    (h : (w.detached e).formulas[x]? = some f) : w.formulas[x]? = some f := by
  rw [formulas_detached] at h
  split at h
  · cases h
  · exact h

theorem calculator_detached (w : Workbench σ) (e : Entity) :
    (w.detached e).calculator = w.calculator := by
  unfold detached
  rw [run_detach]
  cases w.formulas[e]? <;> rfl

theorem scene_detached (w : Workbench σ) (e : Entity) : (w.detached e).scene = w.scene := by
  unfold detached
  rw [run_detach]
  cases w.formulas[e]? <;> rfl

theorem queue_detached (w : Workbench σ) (e : Entity) :
    (w.detached e).scheduler.queue = w.scheduler.queue := by
  unfold detached
  rw [run_detach]
  cases w.formulas[e]? <;> rfl

theorem inbox_detached (w : Workbench σ) (e : Entity) :
    (w.detached e).scheduler.inbox = w.scheduler.inbox := by
  unfold detached
  rw [run_detach]
  cases w.formulas[e]? <;> rfl

/-- A value is written in place of a formula and announced, or only the formula is taken off. -/
theorem run_setValue (w : Workbench σ) (object : ObjectId) (property : String) (v : Value)
    (priority : Priority) :
    ((setValue object property v priority).run w).2 =
      match (w.detached ⟨object, property⟩).scene.write ⟨object, property⟩ v with
      | .error _ => w.detached ⟨object, property⟩
      | .ok (_, scene) =>
        announced (invalidate { w.detached ⟨object, property⟩ with scene } [⟨object, property⟩])
          ⟨object, property⟩ (some v) priority := by
  unfold setValue
  rw [Run.run_bind, run_detach_eq]
  dsimp only
  rw [Run.run_bind, run_write]
  cases (w.detached ⟨object, property⟩).scene.write ⟨object, property⟩ v with
  | error e => rfl
  | ok written =>
    dsimp only
    rw [Run.run_bind, Run.run_modify]
    dsimp only
    rw [run_announce]

/-- What putting a formula in place answers and leaves. -/
inductive SetsFormula (w : Workbench σ) (target : Entity) (source : String) :
    Except WorkbenchError Value → Workbench σ → Prop
  /-- The object is not there, or the source does not compile. -/
  | refused {e : WorkbenchError} (he : ∀ c, e ≠ .cycle c)
      (hrefused : (w.scene.get? target.object).isNone ∨
        ∃ e, w.calculator.compile source target.object = .error e)
      (hevaluated : ∀ err, e ≠ .eval err) : SetsFormula w target source (.error e) w
  /-- An edge would close a cycle. -/
  | cycle {f : Formula} {calculator : Calculator σ} {e : CycleError} {scheduler : Scheduler}
      (hobject : (w.scene.get? target.object).isSome)
      (hcompile : w.calculator.compile source target.object = .ok (f, calculator))
      (hbound : w.scheduler.replaceProducers target
        (w.producers f (w.containerOf? target.object)) = (.error e, scheduler)) :
      SetsFormula w target source (.error (.cycle e)) { w with scheduler }
  /-- The formula is in place and has no value. -/
  | failed {f f' : Formula} {calculator calculator' : Calculator σ} {scheduler : Scheduler}
      {e : EvalError} (hobject : (w.scene.get? target.object).isSome)
      (hcompile : w.calculator.compile source target.object = .ok (f, calculator))
      (hbound : w.scheduler.replaceProducers target
        (w.producers f (w.containerOf? target.object)) = (.ok (), scheduler))
      (heval : calculator.evaluate f w.stores (w.view target.object) =
        (.error e, f', calculator')) :
      SetsFormula w target source (.error (.eval e))
        { w with calculator := calculator', scheduler, formulas := w.formulas.insert target f' }
  /-- The formula is in place, and its value is written and announced. -/
  | written {f f' : Formula} {calculator calculator' : Calculator σ} {scheduler : Scheduler}
      {v : Value} {bounds : Option Contribution} {scene : Scene}
      (hobject : (w.scene.get? target.object).isSome)
      (hcompile : w.calculator.compile source target.object = .ok (f, calculator))
      (hbound : w.scheduler.replaceProducers target
        (w.producers f (w.containerOf? target.object)) = (.ok (), scheduler))
      (heval : calculator.evaluate f w.stores (w.view target.object) = (.ok v, f', calculator'))
      (hwrite : w.scene.write target v = .ok (bounds, scene)) :
      SetsFormula w target source (.ok v) (announced (invalidate { w with
          calculator := calculator', scheduler, formulas := w.formulas.insert target f', scene }
        [target]) target (some v) .normal)

theorem setsFormula (w : Workbench σ) (object : ObjectId) (property source : String) :
    SetsFormula w ⟨object, property⟩ source ((setFormula object property source).run w).1
      ((setFormula object property source).run w).2 := by
  suffices h : ∃ r w', (setFormula object property source).run w = (r, w') ∧
      SetsFormula w ⟨object, property⟩ source r w' by
    obtain ⟨r, w', hrun, h⟩ := h
    rwa [hrun]
  unfold setFormula
  rw [Run.run_bind, Run.run_get]
  dsimp only
  by_cases hnone : (w.scene.get? object).isNone
  · rw [if_pos hnone]
    exact ⟨_, _, by rw [Run.run_bind, Run.run_throw], .refused (by simp) (.inl hnone) (by simp)⟩
  · rw [if_neg hnone]
    have hobject : (w.scene.get? object).isSome := by
      simpa [Option.isSome_iff_ne_none] using hnone
    cases hcompile : w.calculator.compile source object with
    | error e =>
      exact ⟨_, _, by rw [Run.run_bind, run_lift_error],
        .refused (e := .compile e) (by simp) (.inr ⟨e, hcompile⟩) (by simp)⟩
    | ok compiled =>
      obtain ⟨f, calculator⟩ := compiled
      cases hbound : w.scheduler.replaceProducers ⟨object, property⟩
          (w.producers f (w.containerOf? object)) with
      | mk bound scheduler =>
        cases bound with
        | error e =>
          refine ⟨_, _, ?_, .cycle hobject hcompile hbound⟩
          simp only [Run.run_bind, run_lift_ok, run_lift_error, Run.run_set, hbound]
        | ok _ =>
          cases heval : calculator.evaluate f w.stores (w.view object) with
          | mk result rest =>
            obtain ⟨f', calculator'⟩ := rest
            cases result with
            | error e =>
              refine ⟨_, _, ?_, .failed hobject hcompile hbound heval⟩
              simp only [Run.run_bind, run_lift_ok, run_lift_error, Run.run_set, hbound, heval]
            | ok v =>
              obtain ⟨bounds, scene, hwrite⟩ :=
                w.scene.exists_write (e := ⟨object, property⟩) hobject v
              refine ⟨_, _, ?_, .written hobject hcompile hbound heval hwrite⟩
              simp only [Run.run_bind, run_lift_ok, Run.run_set, hbound, heval, run_write, hwrite,
                Run.run_modify, run_announce, Run.run_pure]

/-! ## Variables and news -/

/-- What an operation on a variable leaves: nothing is changed, or variables of one name are, and
that is announced. -/
inductive SetsVariable (w : Workbench σ) (name : String) : Workbench σ → Prop
  | refused : SetsVariable w name w
  | changed {vars : VariableTable} {value : Option Value}
      (hvars : ∀ slot : Slot, slot.name ≠ name → vars[slot]? = w.vars[slot]?) :
      SetsVariable w name (announced (invalidate { w with vars } [.ofVariable name])
        (.ofVariable name) value .normal)

theorem run_announceVariable (w : Workbench σ) (name : String) (value : Option Value) :
    ((announceVariable name value).run w).2 =
      announced (w.invalidate [.ofVariable name]) (.ofVariable name) value .normal := by
  unfold announceVariable
  rw [Run.run_bind, Run.run_modify]
  dsimp only
  rw [run_announce]

theorem SetsVariable.insert {w : Workbench σ} {s : Slot} (v : Value) (value : Option Value) :
    SetsVariable w s.name (announced (invalidate { w with vars := w.vars.insert s v }
      [.ofVariable s.name]) (.ofVariable s.name) value .normal) := by
  refine .changed fun slot hslot => ?_
  rw [Table.getElem?_insert, if_neg]
  rintro rfl
  exact hslot rfl

theorem SetsVariable.erase {w : Workbench σ} {s : Slot} (value : Option Value) :
    SetsVariable w s.name (announced (invalidate { w with vars := w.vars.erase s }
      [.ofVariable s.name]) (.ofVariable s.name) value .normal) := by
  refine .changed fun slot hslot => ?_
  rw [Table.getElem?_erase, if_neg]
  rintro rfl
  exact hslot rfl

theorem setsVariable_define (w : Workbench σ) (name : String) (scope : Scope)
    (context : Option ObjectId) (v : Value) :
    SetsVariable w name ((defineVariable name scope context v).run w).2 := by
  unfold defineVariable
  rw [Run.run_bind, Run.run_get]
  dsimp only
  rw [Run.run_bind]
  cases hdefine : VariableTable.define w.vars name scope context v with
  | error e => exact .refused
  | ok vars =>
    obtain ⟨s, rfl, rfl⟩ := VariableTable.define_spec hdefine
    simp only [run_lift_ok, Run.run_bind, Run.run_modify, run_announceVariable]
    exact .insert v _

theorem setsVariable_update (w : Workbench σ) (name : String) (scope : Scope)
    (context : Option ObjectId) (v : Value) :
    SetsVariable w name ((updateVariable name scope context v).run w).2 := by
  unfold updateVariable
  rw [Run.run_bind, Run.run_get]
  dsimp only
  rw [Run.run_bind]
  cases hupdate : VariableTable.update w.vars name scope context v with
  | error e => exact .refused
  | ok updated =>
    obtain ⟨old, vars⟩ := updated
    obtain ⟨s, rfl, rfl⟩ := VariableTable.update_spec hupdate
    simp only [run_lift_ok, Run.run_bind, Run.run_modify, run_announceVariable]
    exact .insert v _

theorem setsVariable_delete (w : Workbench σ) (name : String) (scope : Scope)
    (context : Option ObjectId) :
    SetsVariable w name ((deleteVariable name scope context).run w).2 := by
  unfold deleteVariable
  rw [Run.run_bind, Run.run_get]
  dsimp only
  rw [Run.run_bind]
  cases hdelete : VariableTable.delete w.vars name scope context with
  | error e => exact .refused
  | ok deleted =>
    obtain ⟨old, vars⟩ := deleted
    obtain ⟨s, rfl, rfl⟩ := VariableTable.delete_spec hdelete
    simp only [run_lift_ok, Run.run_bind, Run.run_modify, run_announceVariable]
    exact .erase _

/-- News of a property drop cached results and are announced; another payload is refused. -/
theorem run_notifyProperty (w : Workbench σ) (object : ObjectId) (payload : Payload)
    (priority : Priority) :
    ((notifyChange object ChangeKind.property.name payload priority).run w).2 =
      match payload with
      | .property property value =>
        announced (w.invalidate [⟨object, property⟩]) ⟨object, property⟩ value priority
      | _ => w := by
  have hname : ChangeKind.ofName ChangeKind.property.name = .ok .property := by rfl
  unfold notifyChange
  rw [Run.run_bind, hname, run_lift_ok]
  dsimp only
  rw [Run.run_bind]
  cases payload with
  | property property value =>
    have hannounce :=
      run_announce (w.invalidate [⟨object, property⟩]) ⟨object, property⟩ value priority
    unfold announce at hannounce
    simp only [ChangeKind.target, ChangeKind.affected, run_lift_ok, Run.run_bind, Run.run_modify,
      hannounce, Run.run_pure]
  | _ => rfl

end Workbench

end Parametric
