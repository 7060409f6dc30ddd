import Parametric.Proofs.Update.Draining
import Parametric.Proofs.Workbench.Operation

/-!
# Settings that only drains read

The settings of the scheduler, the bounds that it collects and the count of recalculations matter in
drains only. In a workbench where they are set otherwise (`Workbench.tuned`) every other operation
does the same (`Operation.run_tuned`).
-/

namespace Parametric

namespace Run

variable {ε α β τ : Type} {φ : τ → τ}

/-- An operation answers the same from a state and from its image, and leaves a state and its image.
-/
def Mirrors (φ : τ → τ) (m : ExceptT ε (StateM τ) α) : Prop :=
  ∀ s, m.run (φ s) = ((m.run s).1, φ (m.run s).2)

namespace Mirrors

variable {m : ExceptT ε (StateM τ) α} {k : α → ExceptT ε (StateM τ) β}

theorem pure (a : α) : Mirrors φ (pure a : ExceptT ε (StateM τ) α) := fun _ => rfl

theorem throw (e : ε) : Mirrors φ (throw e : ExceptT ε (StateM τ) α) := fun _ => rfl

theorem modify {f : τ → τ} (h : ∀ s, f (φ s) = φ (f s)) :
    Mirrors φ (modify f : ExceptT ε (StateM τ) PUnit) := by
  intro s
  rw [run_modify, run_modify, h]

theorem bind (hm : Mirrors φ m) (hk : ∀ a, Mirrors φ (k a)) : Mirrors φ (m >>= k) := by
  intro s
  rw [run_bind, run_bind, hm s]
  cases m.run s with
  | mk result s' =>
    cases result with
    | error e => rfl
    | ok a => exact hk a s'

/-- What is read from the state is used in the same way. -/
theorem get_bind {k : τ → ExceptT ε (StateM τ) α}
    (hk : ∀ s, (k (φ s)).run (φ s) = (((k s).run s).1, φ ((k s).run s).2)) :
    Mirrors φ (get >>= k) := by
  intro s
  rw [run_bind, run_bind, run_get, run_get]
  exact hk s

/-- What is read from the state is the same in both. -/
theorem reads {k : τ → ExceptT ε (StateM τ) α} (hsame : ∀ s, k (φ s) = k s)
    (hk : ∀ s, Mirrors φ (k s)) : Mirrors φ (get >>= k) :=
  get_bind fun s => by rw [hsame, hk]

theorem forIn {ι : Type} {body : ι → ExceptT ε (StateM τ) (ForInStep PUnit)}
    (h : ∀ i, Mirrors φ (body i)) (is : List ι) :
    Mirrors φ (forIn is PUnit.unit fun i _ => body i) := by
  induction is with
  | nil => exact .pure _
  | cons i is ih =>
    rw [List.forIn_cons]
    refine .bind (h i) fun step => ?_
    cases step with
    | done => exact .pure _
    | yield => exact ih

end Mirrors

end Run

namespace Workbench

open Run (Mirrors)

variable {σ : Type} (settings : PropagationSettings) (bounds : PendingBounds) (n : Nat)

/-- A workbench with other settings of the scheduler, other bounds collected and another count of
recalculations. -/
def tuned (settings : PropagationSettings) (bounds : PendingBounds) (n : Nat) (w : Workbench σ) :
    Workbench σ :=
  { w with
    scheduler := w.scheduler.tuned settings bounds
    scene := { w.scene with recalculations := n } }

theorem mirrors_lift {ε α : Type} (φ : Workbench σ → Workbench σ) (wrap : ε → WorkbenchError)
    (x : Except ε α) : Mirrors φ (lift wrap x : Edit σ α) := by
  cases x with
  | ok a => exact .pure a
  | error e => exact .throw _

/-! ## Steps -/

theorem mirrors_propagate (c : Change) :
    Mirrors (tuned settings bounds n) (propagate c : Edit σ RequestId) := by
  refine .get_bind fun w => ?_
  rw [show (tuned settings bounds n w).scheduler = w.scheduler.tuned settings bounds from rfl,
    w.scheduler.propagate_tuned]
  cases w.scheduler.propagate c <;> rfl

theorem mirrors_invalidate (changed : List Entity) :
    Mirrors (tuned settings bounds n) (modify (·.invalidate changed) : Edit σ PUnit) :=
  .modify fun _ => rfl

theorem mirrors_write (e : Entity) (v : Value) :
    Mirrors (tuned settings bounds n) (write e v : Edit σ Unit) := by
  refine .get_bind fun w => ?_
  have hwrite : (tuned settings bounds n w).scene.write e v = (w.scene.write e v).map
      fun written => (written.1, { written.2 with recalculations := n }) := by
    unfold Scene.write
    rw [show (tuned settings bounds n w).scene.objects = w.scene.objects from rfl]
    cases w.scene.objects.set? e.object (Path.ofString e.property) v <;> rfl
  rw [hwrite]
  cases w.scene.write e v <;> rfl

theorem mirrors_detach (e : Entity) :
    Mirrors (tuned settings bounds n) (detach e : Edit σ (Option Formula)) := by
  refine .get_bind fun w => ?_
  rw [show (tuned settings bounds n w).formulas = w.formulas from rfl]
  cases w.formulas[e]? <;> rfl

theorem mirrors_rebind (e : Entity) (container : Option ObjectId) :
    Mirrors (tuned settings bounds n) (rebind e container : Edit σ Unit) := by
  refine .get_bind fun w => ?_
  rw [show (tuned settings bounds n w).formulas = w.formulas from rfl]
  cases w.formulas[e]? <;> rfl

theorem mirrors_announceVariable (name : String) (v : Option Value) :
    Mirrors (tuned settings bounds n) (announceVariable name v : Edit σ RequestId) :=
  .bind (mirrors_invalidate settings bounds n _) fun _ => mirrors_propagate settings bounds n _

/-! ## Operations -/

theorem mirrors_setFormula (object : ObjectId) (property source : String) :
    Mirrors (tuned settings bounds n) (setFormula object property source : Edit σ Value) := by
  refine .get_bind fun w => ?_
  have hproducers : ∀ f, (tuned settings bounds n w).producers f
      ((tuned settings bounds n w).containerOf? object) = w.producers f (w.containerOf? object) :=
    fun _ => rfl
  have hreplace : ∀ target edges, (tuned settings bounds n w).scheduler.replaceProducers target edges
      = ((w.scheduler.replaceProducers target edges).1,
        (w.scheduler.replaceProducers target edges).2.tuned settings bounds) := fun _ _ => rfl
  dsimp only
  rw [show (tuned settings bounds n w).scene.get? object = w.scene.get? object from rfl,
    show (tuned settings bounds n w).calculator = w.calculator from rfl]
  by_cases hnone : (w.scene.get? object).isNone
  · rw [if_pos hnone, if_pos hnone]
    rfl
  · rw [if_neg hnone, if_neg hnone]
    cases w.calculator.compile source object with
    | error e => rfl
    | ok compiled =>
      obtain ⟨f, calculator⟩ := compiled
      rw [Run.run_bind, Run.run_bind, run_lift_ok, run_lift_ok]
      dsimp only
      rw [hproducers, hreplace]
      cases w.scheduler.replaceProducers ⟨object, property⟩ (w.producers f (w.containerOf? object))
        with
      | mk bound scheduler =>
        cases bound with
        | error e => rfl
        | ok _ =>
          dsimp only
          rw [Run.run_bind, Run.run_bind, Run.run_set, Run.run_set]
          dsimp only
          rw [Run.run_bind, Run.run_bind, run_lift_ok, run_lift_ok]
          dsimp only
          rw [Run.run_bind, Run.run_bind, Run.run_set, Run.run_set]
          dsimp only
          refine (?_ : Mirrors (tuned settings bounds n) _) { w with
            calculator := (calculator.evaluate f w.stores (w.view object)).2.2
            scheduler
            formulas := w.formulas.insert ⟨object, property⟩
              (calculator.evaluate f w.stores (w.view object)).2.1 }
          refine .bind (mirrors_lift _ _ _) fun v => .bind (mirrors_write settings bounds n _ v)
            fun _ => .bind (mirrors_invalidate settings bounds n _) fun _ =>
              .bind (mirrors_propagate settings bounds n _) fun _ => .pure v

theorem mirrors_setValue (object : ObjectId) (property : String) (v : Value)
    (priority : Priority) :
    Mirrors (tuned settings bounds n) (setValue object property v priority : Edit σ RequestId) :=
  .bind (mirrors_detach settings bounds n _) fun _ =>
    .bind (mirrors_write settings bounds n _ v) fun _ =>
      .bind (mirrors_invalidate settings bounds n _) fun _ => mirrors_propagate settings bounds n _

theorem mirrors_defineVariable (name : String) (scope : Scope) (context : Option ObjectId)
    (v : Value) : Mirrors (tuned settings bounds n)
      (defineVariable name scope context v : Edit σ RequestId) :=
  .reads (fun _ => rfl) fun _ => .bind (mirrors_lift _ _ _) fun _ =>
    .bind (.modify fun _ => rfl) fun _ => mirrors_announceVariable settings bounds n _ _

theorem mirrors_updateVariable (name : String) (scope : Scope) (context : Option ObjectId)
    (v : Value) : Mirrors (tuned settings bounds n)
      (updateVariable name scope context v : Edit σ RequestId) :=
  .reads (fun _ => rfl) fun _ => .bind (mirrors_lift _ _ _) fun _ =>
    .bind (.modify fun _ => rfl) fun _ => mirrors_announceVariable settings bounds n _ _

theorem mirrors_deleteVariable (name : String) (scope : Scope) (context : Option ObjectId) :
    Mirrors (tuned settings bounds n)
      (deleteVariable name scope context : Edit σ RequestId) :=
  .reads (fun _ => rfl) fun _ => .bind (mirrors_lift _ _ _) fun _ =>
    .bind (.modify fun _ => rfl) fun _ => mirrors_announceVariable settings bounds n _ _

theorem mirrors_notifyChange (object : ObjectId) (kindName : String) (payload : Payload)
    (priority : Priority) : Mirrors (tuned settings bounds n)
      (notifyChange object kindName payload priority : Edit σ RequestId) := by
  refine .bind (mirrors_lift _ _ _) fun kind => .bind (mirrors_lift _ _ _) fun target =>
    .bind (mirrors_invalidate settings bounds n _) fun _ =>
      .bind (mirrors_propagate settings bounds n _) fun id => ?_
  split
  · refine .reads (fun _ => rfl) fun w => .bind (.forIn (fun e => ?_) _) fun _ => .pure id
    exact .bind (mirrors_rebind settings bounds n e _) fun _ =>
      .bind (mirrors_propagate settings bounds n _) fun _ => .pure _
  · exact .pure id

theorem mirrors_submitChange (c : Change) :
    Mirrors (tuned settings bounds n) (submitChange c : Edit σ RequestId) := by
  refine .get_bind fun w => ?_
  dsimp only
  rw [Run.run_bind, Run.run_bind, Run.run_set, Run.run_set]
  exact mirrors_lift (tuned settings bounds n) _ _ { w with scheduler := (w.scheduler.submit c).2 }

theorem mirrors_evaluateProperty (object : ObjectId) (property : String) :
    Mirrors (tuned settings bounds n) (evaluateProperty object property : Edit σ Value) := by
  refine .get_bind fun w => ?_
  dsimp only
  rw [show (tuned settings bounds n w).formulas = w.formulas from rfl]
  cases w.formulas[Entity.mk object property]? with
  | none => rfl
  | some f =>
    dsimp only
    rw [Run.run_bind, Run.run_bind, Run.run_set, Run.run_set]
    exact mirrors_lift (tuned settings bounds n) _ _ { w with
      calculator := (w.calculator.evaluateCached f w.stores (w.view object)).2.2
      formulas := w.formulas.insert ⟨object, property⟩
        (w.calculator.evaluateCached f w.stores (w.view object)).2.1 }

theorem mirrors_addObject (o : Object) :
    Mirrors (tuned settings bounds n) (addObject o : Edit σ RequestId) := by
  refine .bind (.modify fun _ => rfl) fun _ => .get_bind fun w => ?_
  dsimp only
  rw [Run.run_bind, Run.run_bind, Run.run_set, Run.run_set]
  refine Mirrors.bind (.forIn (fun e => ?_) _) (fun _ => mirrors_propagate settings bounds n _)
    (w.invalidate _)
  exact .bind (mirrors_rebind settings bounds n e _) fun _ =>
    .bind (mirrors_propagate settings bounds n _) fun _ => .pure _

theorem mirrors_removeObject (id : ObjectId) :
    Mirrors (tuned settings bounds n) (removeObject id : Edit σ Object) := by
  refine .get_bind fun w => ?_
  have hremove : (tuned settings bounds n w).scene.remove id =
      ((w.scene.remove id).1, { (w.scene.remove id).2 with recalculations := n }) := rfl
  dsimp only
  rw [hremove]
  cases w.scene.remove id with
  | mk removed scene =>
    cases removed with
    | none => rfl
    | some removed =>
      dsimp only
      rw [Run.run_bind, Run.run_bind, Run.run_set, Run.run_set]
      dsimp only
      refine (?_ : Mirrors (tuned settings bounds n) _) { w with scene }
      refine .bind (.forIn (fun e => ?_) _) fun _ => ?_
      · exact .bind (mirrors_detach settings bounds n e) fun _ => .pure _
      refine .bind (.modify fun _ => rfl) fun _ => .reads (fun _ => rfl) fun changed => ?_
      refine .bind (mirrors_invalidate settings bounds n _) fun _ => ?_
      refine .bind (.forIn (fun e => ?_) _) fun _ => ?_
      · exact .bind (mirrors_propagate settings bounds n _) fun _ => .pure _
      cases removed.container with
      | none => exact .bind (.modify fun _ => rfl) fun _ => .pure _
      | some parent =>
        exact .bind (mirrors_propagate settings bounds n _) fun _ =>
          .bind (.modify fun _ => rfl) fun _ => .pure _

/-- An operation other than a drain does the same whatever only drains read. -/
theorem Operation.run_tuned (w : Workbench σ) {op : Operation} (hop : op ≠ .act .drain) :
    op.run (tuned settings bounds n w) = tuned settings bounds n (op.run w) := by
  cases op with
  | act a =>
    cases a with
    | setFormula object property source =>
      exact congrArg Prod.snd (mirrors_setFormula settings bounds n object property source w)
    | setValue object property v priority =>
      exact congrArg Prod.snd (mirrors_setValue settings bounds n object property v priority w)
    | clearFormula object property =>
      exact congrArg Prod.snd (mirrors_detach settings bounds n _ w)
    | defineVariable name scope context v =>
      exact congrArg Prod.snd (mirrors_defineVariable settings bounds n name scope context v w)
    | updateVariable name scope context v =>
      exact congrArg Prod.snd (mirrors_updateVariable settings bounds n name scope context v w)
    | deleteVariable name scope context =>
      exact congrArg Prod.snd (mirrors_deleteVariable settings bounds n name scope context w)
    | notifyProperty object payload priority =>
      exact congrArg Prod.snd (mirrors_notifyChange settings bounds n object _ payload priority w)
    | drain => exact absurd rfl hop
  | notify object kind payload priority =>
    exact congrArg Prod.snd (mirrors_notifyChange settings bounds n object _ payload priority w)
  | submit c => exact congrArg Prod.snd (mirrors_submitChange settings bounds n c w)
  | evaluate object property =>
    exact congrArg Prod.snd (mirrors_evaluateProperty settings bounds n object property w)
  | addObject o => exact congrArg Prod.snd (mirrors_addObject settings bounds n o w)
  | removeObject id => exact congrArg Prod.snd (mirrors_removeObject settings bounds n id w)

/-- An operation other than a drain changes neither the settings nor the bounds that are pending. -/
theorem Operation.settings_run (w : Workbench σ) (op : Operation) (hop : op ≠ .act .drain) :
    (op.run w).scheduler.settings = w.scheduler.settings ∧
      (op.run w).scheduler.bounds = w.scheduler.bounds := by
  have hown := op.run_tuned w.scheduler.settings w.scheduler.bounds w.scene.recalculations w hop
  rw [show tuned w.scheduler.settings w.scheduler.bounds w.scene.recalculations w = w from rfl]
    at hown
  exact ⟨by rw [hown]; rfl, by rw [hown]; rfl⟩

end Workbench

end Parametric
