import Parametric.Proofs.Workbench.Consumers
import Parametric.Proofs.Workbench.Staging

/-!
# Operations that fail

An operation that fails changes nothing, unless what failed is the evaluation of a formula
(`Workbench.Atomic`): what can fail comes before what changes anything, or cannot fail after that.
Taking a formula off before its object is found missing does no harm, since no formula is at an
object that is not there (`Standing`), nor does dropping what is recorded for it
(`Scene.Founded`). A formula that cannot be evaluated is put in place as failing, with the edges to
what it reads and no other change (`Workbench.Installed`).
-/

namespace Parametric

/-! ## Records of containers -/

namespace Scene

variable {s s' : Scene}

/-- Bounds are recorded for objects that are there. -/
def Founded (s : Scene) : Prop := ∀ id, (s.containerBounds[id]?).isSome → (s.get? id).isSome

namespace Founded

theorem empty : Founded {} := fun id h => by simp at h

theorem insert (h : s.Founded) (o : Object) : (s.insert o).Founded := by
  intro id hid
  show ((s.objects.insert o).get? id).isSome
  rw [ObjectTable.get?_insert]
  split
  · rfl
  · exact h id hid

/-- Objects stay, and so do the records. -/
theorem stay (h : s.Founded) (hrecords : s'.containerBounds = s.containerBounds)
    (hobjects : ∀ id, (s.get? id).isSome → (s'.get? id).isSome) : s'.Founded :=
  fun id hid => hobjects id (h id (hrecords ▸ hid))

theorem write (h : s.Founded) {e : Entity} {v : Value} {bounds : Option Contribution}
    (hwrite : s.write e v = .ok (bounds, s')) : s'.Founded :=
  h.stay (bounds_write hwrite).2
    fun id hid => (ObjectTable.isSome_get?_congr (shape_write hwrite) id).trans hid

theorem remove (h : s.Founded) {id : ObjectId} {o : Object}
    (hremove : s.remove id = (some o, s')) : s'.Founded := by
  intro x hx
  have hrecords : s'.containerBounds = s.containerBounds.erase id :=
    (congrArg (·.2.containerBounds) hremove).symm
  have hget := (ObjectTable.get?_remove (objects_remove hremove) x).2
  show (s'.objects.get? x).isSome
  rw [hrecords, Table.getElem?_erase] at hx
  rw [hget]
  split at hx
  · cases hx
  next hne =>
    rw [if_neg hne]
    exact h x hx

/-- Only a container that is there is left. -/
theorem applyChange (h : s.Founded) (hkeyed : s.objects.Keyed) {r : Request} {outcome : Outcome}
    (hchange : s.applyChange r = .ok (outcome, s')) : s'.Founded := by
  intro id hid
  obtain ⟨-, hobjects⟩ := objects_applyChange hkeyed hchange
  rw [records_applyChange hkeyed hchange, getElem?_recorded] at hid
  split at hid
  next hleft =>
    unfold vacated? at hleft
    split at hleft
    · split at hleft
      next hthere =>
        cases hleft
        exact hobjects id hthere.2
      next => cases hleft
    · cases hleft
  next => exact hobjects id (h id hid)

theorem applyBounds (h : s.Founded) {parent : ObjectId} {children : ChildBounds}
    (hbounds : s.applyBounds parent children = .ok s') : s'.Founded := by
  obtain ⟨o, ho, hrecalculate⟩ := Run.ok_of_bind hbounds
  cases hrecalculate
  intro id hid
  rw [recalculate, Table.getElem?_insert] at hid
  split at hid
  next heq => exact heq ▸ Option.isSome_of_eq_some (get?_of_require ho)
  next => exact h id hid

/-- Dropping the record of an object that is not there changes nothing. -/
theorem erase_eq (h : s.Founded) {id : ObjectId} (hthere : s.get? id = none) :
    { s with containerBounds := s.containerBounds.erase id } = s := by
  have hnone : s.containerBounds[id]? = none := by
    by_contra hsome
    have hid := h id (Option.isSome_iff_ne_none.2 hsome)
    rw [hthere] at hid
    cases hid
  have hsame : s.containerBounds.erase id = s.containerBounds := by
    refine Std.ExtTreeMap.ext_getElem? fun {x} => ?_
    rw [Table.getElem?_erase]
    split
    next heq => rw [← heq, hnone]
    next => rfl
  rw [hsame]

end Founded

end Scene

namespace Workbench

open Scheduler

variable {σ : Type} {w w' : Workbench σ}

theorem founded_drain (hkeyed : w.scene.objects.Keyed) (h : w.scene.Founded) :
    w.drain.2.scene.Founded := by
  suffices hboth : (w.drain.2.scene).objects.Keyed ∧ w.drain.2.scene.Founded from hboth.2
  refine state_drain (K := fun b : Bench σ => b.scene.objects.Keyed ∧ b.scene.Founded)
    (fun r b _ hb => ?_) (fun parent children b hb => ?_) w.scheduler ⟨hkeyed, h⟩
  · have heffect := Bench.effect_apply (w.withBench b) r
    have hkeeps : ∀ {w w' : Workbench σ} {result : Except ApplyError Outcome},
        Effect w r result w' → w.scene.objects.Keyed ∧ w.scene.Founded →
        w'.scene.objects.Keyed ∧ w'.scene.Founded := by
      intro w w' result heffect ⟨hkeyed, h⟩
      cases heffect with
      | noted | failed => exact ⟨hkeyed, h⟩
      | changed _ _ _ hchange =>
        exact ⟨(Scene.objects_applyChange hkeyed hchange).1, h.applyChange hkeyed hchange⟩
      | computed _ _ _ _ _ hwrite =>
        exact ⟨hkeyed.of_shape (Scene.shape_write hwrite), h.write hwrite⟩
    exact hkeeps heffect hb
  · show (b.applyBounds parent children).2.scene.objects.Keyed ∧
      (b.applyBounds parent children).2.scene.Founded
    unfold Bench.applyBounds
    cases hbounds : b.scene.applyBounds parent children with
    | error e => exact hb
    | ok scene =>
      refine ⟨?_, hb.2.applyBounds hbounds⟩
      obtain ⟨o, -, hrecalculate⟩ := Run.ok_of_bind hbounds
      cases hrecalculate
      exact hb.1

theorem founded_run (hkeyed : w.scene.objects.Keyed) (h : w.scene.Founded) (op : Operation) :
    (op.run w).scene.Founded := by
  by_cases hop : op = .act .drain
  · subst hop
    exact founded_drain hkeyed h
  · have hstages := stages_run (w := w) hop
    generalize (op.run w).scene = s' at hstages
    generalize w.scene = s at hstages h
    cases hstages with
    | same => exact h
    | written _ hwrite => exact h.write hwrite
    | inserted => exact h.insert _
    | removed hremove => exact h.remove hremove
    | absent hthere =>
      rw [h.erase_eq hthere]
      exact h

theorem founded_perform (functions : Registry σ) (scene : Scene) (settings : Settings)
    (clock : Clock) (host : σ) (hscene : scene.objects.Keyed) (hfounded : scene.Founded)
    (ops : List Operation) :
    ((new functions scene settings clock host).perform ops).scene.Founded := by
  have hall : ∀ (ops : List Operation) (w : Workbench σ), w.scheduler.Sound →
      w.Standing functions settings.evaluation → w.scene.Founded →
      (w.perform ops).scene.Founded := by
    intro ops
    induction ops with
    | nil => exact fun _ _ _ h => h
    | cons op ops ih =>
      exact fun w hs hw h => ih _ (sound_run hs op) (standing_run hw hs op)
        (founded_run hw.keyed h op)
  exact hall ops _ (Sound.new _) (.new functions scene settings clock host hscene) hfounded

/-! ## Steps that do not fail -/

theorem succeeds_detach (e : Entity) : Run.Succeeds (detach e : Edit σ (Option Formula)) := by
  intro w
  rw [run_detach]
  cases w.formulas[e]? <;> exact ⟨_, rfl⟩

theorem succeeds_announce (e : Entity) (value : Option Value) (priority : Priority) :
    Run.Succeeds (announce e value priority : Edit σ RequestId) :=
  fun w => ⟨_, congrArg Prod.fst (run_announce w e value priority)⟩

theorem succeeds_rebind (e : Entity) (container : Option ObjectId) :
    Run.Succeeds (rebind e container : Edit σ Unit) := by
  intro w
  unfold rebind
  rw [Run.run_bind, Run.run_get]
  dsimp only
  cases w.formulas[e]? <;> exact ⟨_, rfl⟩

/-- A change with a target can be scheduled, unless it is a recompute. -/
theorem succeeds_propagate {c : Change} {target : Entity} (hkind : c.kind ≠ .recompute)
    (htarget : c.kind.target c.object c.payload = .ok target) :
    Run.Succeeds (propagate c : Edit σ RequestId) := by
  intro w
  have hpropagate : ∃ taken, w.scheduler.propagate c = .ok taken := by
    simp only [Scheduler.propagate, Inbox.accept, if_neg hkind, htarget]
    exact ⟨_, rfl⟩
  obtain ⟨taken, htaken⟩ := hpropagate
  refine ⟨taken.1, ?_⟩
  unfold propagate
  rw [Run.run_bind, Run.run_get]
  dsimp only
  rw [htaken, Run.run_bind, run_lift_ok]
  rfl

theorem succeeds_announceVariable (name : String) (value : Option Value) :
    Run.Succeeds (announceVariable name value : Edit σ RequestId) :=
  .bind (.modify _) fun _ => succeeds_announce _ _ _

/-! ## Operations that fail -/

/-- If the operation fails otherwise than by an evaluation, it leaves everything as it was. -/
def Atomic {α : Type} (w : Workbench σ) (m : Edit σ α) : Prop :=
  ∀ e, (m.run w).1 = .error e → (∀ err, e ≠ .eval err) → (m.run w).2 = w

theorem Atomic.of_ok {α : Type} {m : Edit σ α} (h : ∃ a, (m.run w).1 = .ok a) : w.Atomic m := by
  intro e he
  obtain ⟨a, ha⟩ := h
  rw [ha] at he
  cases he

theorem Atomic.get {α : Type} {k : Workbench σ → Edit σ α} (h : w.Atomic (k w)) :
    w.Atomic (MonadState.get >>= k) := by
  intro e
  rw [Run.run_bind]
  exact h e

/-- What follows a check may do anything that does not fail. -/
theorem Atomic.lift {ε α β : Type} (wrap : ε → WorkbenchError) (x : Except ε α)
    {k : α → Edit σ β} (hk : ∀ a, x = .ok a → w.Atomic (k a)) : w.Atomic (lift wrap x >>= k) := by
  cases x with
  | error e =>
    intro e' _ _
    rw [Run.run_bind, run_lift_error]
  | ok a =>
    have hrun : (Workbench.lift wrap (.ok a) >>= k).run w = (k a).run w := by
      rw [Run.run_bind, run_lift_ok]
    intro e
    rw [hrun]
    exact hk a rfl e

theorem atomic_setFormula (hs : w.scheduler.Sound) (object : ObjectId) (property source : String) :
    w.Atomic (setFormula object property source) := by
  intro e he heval
  have hset := setsFormula w object property source
  rw [he] at hset
  generalize ((setFormula object property source).run w).2 = w' at hset
  cases hset with
  | refused => rfl
  | cycle _ _ hbound => rw [replaceProducers_error hs hbound]
  | failed => exact absurd rfl (heval _)

/-- No formula is taken off a property that cannot be written. -/
theorem atomic_setValue {functions : Registry σ} {settings : EvaluationSettings}
    (hw : w.Standing functions settings) (object : ObjectId) (property : String) (v : Value)
    (priority : Priority) : w.Atomic (setValue object property v priority) := by
  by_cases hthere : (w.scene.get? object).isSome
  · refine .of_ok ?_
    have hscene := scene_detached w ⟨object, property⟩
    obtain ⟨bounds, scene, hwrite⟩ := w.scene.exists_write (e := ⟨object, property⟩) hthere v
    unfold setValue
    rw [Run.run_bind, run_detach_eq]
    dsimp only
    rw [Run.run_bind, run_write, hscene, hwrite]
    exact Run.Succeeds.bind (.modify _) (fun _ => succeeds_announce _ _ _) _
  · have hnone : w.formulas[Entity.mk object property]? = none := by
      refine Option.eq_none_iff_forall_ne_some.2 fun f hf => ?_
      exact hthere (hw.formulas hf).2.1
    intro e he _
    rw [run_setValue, detached_of_none hnone]
    cases hwrite : w.scene.write ⟨object, property⟩ v with
    | error e => rfl
    | ok written => exact absurd (Scene.isSome_of_write hwrite) hthere

theorem atomic_removeObject (hfounded : w.scene.Founded) (id : ObjectId) :
    w.Atomic (removeObject id) := by
  cases hthere : w.scene.get? id with
  | none =>
    intro e _ _
    rw [run_removeObject_of_none hthere, hfounded.erase_eq hthere]
  | some o =>
    refine .of_ok ?_
    obtain ⟨scene, hremove, -⟩ := Scene.exists_remove hthere
    unfold removeObject
    rw [Run.run_bind, Run.run_get]
    dsimp only
    rw [hremove]
    dsimp only
    rw [Run.run_bind, Run.run_set]
    have hclear : Run.Succeeds (do
        modify fun w => { w with scheduler := (w.scheduler.removeObject id).2 }
        return o : Edit σ Object) := .bind (.modify _) fun _ => .pure _
    refine Run.Succeeds.bind (.forIn (fun e => .bind (succeeds_detach e) fun _ => .pure _) _)
      (fun _ => .bind (.modify _) fun _ => .bind .get fun w => .bind (.modify _) fun _ =>
        .bind (.forIn (fun e => .bind (succeeds_announce e _ _) fun _ => .pure _) _) fun _ => ?_) _
    cases o.container with
    | none => exact hclear
    | some parent => exact .bind (succeeds_propagate nofun rfl) fun _ => hclear

theorem atomic_defineVariable (w : Workbench σ) (name : String) (scope : Scope)
    (context : Option ObjectId) (v : Value) : w.Atomic (defineVariable name scope context v) :=
  .get (.lift _ _ fun _ _ =>
    .of_ok (Run.Succeeds.bind (.modify _) (fun _ => succeeds_announceVariable _ _) w))

theorem atomic_updateVariable (w : Workbench σ) (name : String) (scope : Scope)
    (context : Option ObjectId) (v : Value) : w.Atomic (updateVariable name scope context v) :=
  .get (.lift _ _ fun _ _ =>
    .of_ok (Run.Succeeds.bind (.modify _) (fun _ => succeeds_announceVariable _ _) w))

theorem atomic_deleteVariable (w : Workbench σ) (name : String) (scope : Scope)
    (context : Option ObjectId) : w.Atomic (deleteVariable name scope context) :=
  .get (.lift _ _ fun _ _ =>
    .of_ok (Run.Succeeds.bind (.modify _) (fun _ => succeeds_announceVariable _ _) w))

/-- A recompute has no name. -/
theorem ofName_ne_recompute {name : String} {kind : ChangeKind}
    (h : ChangeKind.ofName name = .ok kind) : kind ≠ .recompute := by
  unfold ChangeKind.ofName at h
  split at h
  next found hfound =>
    cases h
    have hall : ∀ kind ∈ ChangeKind.external, kind ≠ .recompute := by decide
    exact hall _ (List.mem_of_find?_eq_some hfound)
  next => cases h

theorem atomic_notifyChange (w : Workbench σ) (object : ObjectId) (kindName : String)
    (payload : Payload) (priority : Priority) :
    w.Atomic (notifyChange object kindName payload priority) := by
  refine .lift _ _ fun kind hkind => .lift _ _ fun target htarget => .of_ok ?_
  refine Run.Succeeds.bind (.modify _) (fun _ =>
    .bind (succeeds_propagate (ofName_ne_recompute hkind) htarget) fun id => ?_) w
  split
  · exact .bind .get fun w => .bind (.forIn (fun e => .bind (succeeds_rebind e _) fun _ =>
      .bind (succeeds_announce e _ _) fun _ => .pure _) _) fun _ => .pure _
  · exact .pure _

theorem atomic_evaluateProperty (w : Workbench σ) (object : ObjectId) (property : String) :
    w.Atomic (evaluateProperty object property) := by
  intro e he heval
  rw [run_evaluateProperty] at he ⊢
  cases hf : w.formulas[Entity.mk object property]? with
  | none => rfl
  | some f =>
    rw [hf] at he
    dsimp only at he
    cases hresult : (w.calculator.evaluateCached f w.stores (w.view object)).1 with
    | ok v =>
      rw [hresult] at he
      cases he
    | error err =>
      rw [hresult] at he
      cases he
      exact absurd rfl (heval err)

/-! ## Formulas that fail -/

/-- A formula with the given source is in place and failing, bound to what it reads, and that is all
that changed but for the calculator. -/
structure Installed (object : ObjectId) (property source : String) (w w' : Workbench σ) : Prop where
  scene : w'.scene = w.scene
  vars : w'.vars = w.vars
  scheduler : w'.scheduler = { w.scheduler with graph := w'.scheduler.graph }
  /-- The edges into other properties are the same. -/
  others : ∀ p c : Entity, ⟨object, property⟩ ≠ c →
    w'.scheduler.graph.edge? p c = w.scheduler.graph.edge? p c
  /-- Of several edges from one producer the last is kept. -/
  formula : ∃ f, w'.formulas = w.formulas.insert ⟨object, property⟩ f ∧ f.failing = true ∧
    f.object = object ∧ Expr.ofSource source = .ok f.tree ∧
    ∀ p, w'.scheduler.graph.edge? p ⟨object, property⟩ =
      (w'.producers f (w'.containerOf? object)).reverse.lookup p

theorem installed_setFormula (hs : w.scheduler.Sound) {object : ObjectId}
    {property source : String} {err : EvalError}
    (herror : ((setFormula object property source).run w).1 = .error (.eval err)) :
    Installed object property source w ((setFormula object property source).run w).2 := by
  have hset := setsFormula w object property source
  rw [herror] at hset
  generalize ((setFormula object property source).run w).2 = w' at hset
  cases hset with
  | refused _ _ hevaluated => exact absurd rfl (hevaluated err)
  | @failed f f' calculator calculator' scheduler _ hobject hcompile hbound heval =>
    obtain ⟨hf, -, -, -, htree⟩ := Calculator.compile_spec hcompile
    have hcore := (Calculator.evaluate_kept heval).1
    have hfailing : f'.failing = true := Calculator.evaluate_noted heval
    injection hcore with _ _ htree' hobject' hdependencies hvariables
    -- What is read does not depend on what an evaluation notes.
    have hproducers : w.producers f' (w.containerOf? object) =
        w.producers f (w.containerOf? object) := by
      unfold producers
      rw [hdependencies, hvariables, hobject']
    have hscheduler : scheduler = { w.scheduler with graph := (w.scheduler.graph.replaceProducers
        ⟨object, property⟩ (w.producers f (w.containerOf? object))).2 } :=
      (congrArg Prod.snd hbound).symm
    have hbound : (w.scheduler.graph.replaceProducers ⟨object, property⟩
        (w.producers f (w.containerOf? object))).1 = .ok () := congrArg Prod.fst hbound
    rw [hscheduler]
    refine ⟨rfl, rfl, rfl, fun p c hc => Graph.edge?_replaceProducers hs.graph _ hc, f', rfl,
      hfailing, hobject'.trans hf, by rw [htree', htree], fun p => ?_⟩
    exact (Graph.edge?_replaceProducers_self hs.graph hbound p).trans
      (congrArg (·.reverse.lookup p) hproducers.symm)

/-- Whatever was done with a workbench, an operation that fails otherwise than by an evaluation
leaves it as it is; and one that puts a formula in place that cannot be evaluated does just that. -/
theorem operations_atomic (functions : Registry σ) (scene : Scene) (settings : Settings)
    (clock : Clock) (host : σ) (hscene : scene.objects.Keyed) (hfounded : scene.Founded)
    (ops : List Operation) :
    let w := (new functions scene settings clock host).perform ops
    (∀ object property source, w.Atomic (setFormula object property source)) ∧
    (∀ object property v priority, w.Atomic (setValue object property v priority)) ∧
    (∀ id, w.Atomic (removeObject id)) ∧
    (∀ name scope context v, w.Atomic (defineVariable name scope context v)) ∧
    (∀ name scope context v, w.Atomic (updateVariable name scope context v)) ∧
    (∀ name scope context, w.Atomic (deleteVariable name scope context)) ∧
    (∀ object kindName payload priority,
      w.Atomic (notifyChange object kindName payload priority)) ∧
    (∀ object property, w.Atomic (evaluateProperty object property)) ∧
    ∀ object property source err,
      ((setFormula object property source).run w).1 = .error (.eval err) →
      Installed object property source w ((setFormula object property source).run w).2 := by
  intro w
  have hs : w.scheduler.Sound := sound_perform functions scene settings clock host ops
  have hw : w.Standing functions settings.evaluation :=
    standing_perform functions scene settings clock host hscene ops
  have hrecords : w.scene.Founded :=
    founded_perform functions scene settings clock host hscene hfounded ops
  exact ⟨atomic_setFormula hs, atomic_setValue hw, atomic_removeObject hrecords,
    atomic_defineVariable w, atomic_updateVariable w, atomic_deleteVariable w,
    atomic_notifyChange w, atomic_evaluateProperty w, fun _ _ _ _ => installed_setFormula hs⟩

/-- A cycle, an object that is not there and a recompute are refused and nothing changes; a formula
with a variable that is not there is put in place. -/
theorem refused_and_failing :
    let a : Object := { id := "a", name := "a", properties := [("y", .leaf (.string "s"))] }
    let w := (new .builtin (Scene.insert {} a) {} .still ()).perform
      [.act (.setFormula "a" "x" "self.y")]
    ((setFormula "a" "y" "self.x").run w).1 = .error (.cycle ⟨⟨"a", "x"⟩, ⟨"a", "y"⟩⟩) ∧
      ((setFormula "a" "y" "self.x").run w).2 = w ∧
      ((setValue "b" "x" (.string "s") .normal).run w).1 = .error (.apply (.noObject "b")) ∧
      ((setValue "b" "x" (.string "s") .normal).run w).2 = w ∧
      ((notifyChange "a" "recompute" .none .normal).run w).1 =
        .error (.schedule (.unknownKind "recompute")) ∧
      ((notifyChange "a" "recompute" .none .normal).run w).2 = w ∧
      ((setFormula "a" "z" "self.y + $v").run w).1 =
        .error (.eval (.lookup (.noVariable "v"))) ∧
      Installed "a" "z" "self.y + $v" w ((setFormula "a" "z" "self.y + $v").run w).2 := by
  intro a w
  have hkeyed : (Scene.insert {} a).objects.Keyed := ObjectTable.Keyed.empty.insert a
  have hcycle : ((setFormula "a" "y" "self.x").run w).1 =
      .error (.cycle ⟨⟨"a", "x"⟩, ⟨"a", "y"⟩⟩) := by decide +kernel
  have hmissing : ((setValue "b" "x" (.string "s") .normal).run w).1 =
      .error (.apply (.noObject "b")) := by decide +kernel
  have hunknown : ((notifyChange "a" "recompute" .none .normal).run w).1 =
      .error (.schedule (.unknownKind "recompute")) := by decide +kernel
  have hfails : ((setFormula "a" "z" "self.y + $v").run w).1 =
      .error (.eval (.lookup (.noVariable "v"))) := by decide +kernel
  obtain ⟨hformula, hvalue, -, -, -, -, hnotify, -, hinstalled⟩ :=
    operations_atomic .builtin (Scene.insert {} a) {} .still () hkeyed (Scene.Founded.empty.insert a)
      [.act (.setFormula "a" "x" "self.y")]
  exact ⟨hcycle, hformula _ _ _ _ hcycle nofun, hmissing, hvalue _ _ _ _ _ hmissing nofun, hunknown,
    hnotify _ _ _ _ _ hunknown nofun, hfails, hinstalled _ _ _ _ hfails⟩

end Workbench

end Parametric
