import Parametric.Proofs.Update.Draining
import Parametric.Proofs.Workbench.Objects

/-!
# What operations schedule

An operation on a workbench works on the scheduler through the operations of a history
(`Workbench.Schedules`), and asks only for certain changes (`Operation.Asks`, `reaches_asked`). So
what a history keeps holds of the scheduler of every workbench (`reaches_perform`).
-/

namespace Parametric

namespace Scheduler

/-- An operation that is no drain, and asks only for changes that are `asked`. -/
def Op.Asks (asked : Change → Prop) : Op → Prop
  | propagate c | submit c => asked c
  | drain .. => False
  | _ => True

end Scheduler

namespace Workbench

open Scheduler

variable {σ : Type} {w w' : Workbench σ}

/-! ## Operations on the scheduler -/

/-- An operation works on the scheduler through the operations of a history, and asks only for
changes that are `asked`. -/
def Schedules {α : Type} (asked : Change → Prop) (m : Edit σ α) : Prop :=
  ∀ w : Workbench σ, Reaches (Op.Asks asked) w.scheduler (m.run w).2.scheduler

namespace Schedules

variable {α β : Type} {asked : Change → Prop}

/-- An operation that leaves the scheduler alone. -/
theorem still {m : Edit σ α} (h : ∀ w : Workbench σ, (m.run w).2.scheduler = w.scheduler) :
    Schedules asked m := fun w => (h w).symm ▸ .refl _

theorem pure (a : α) : Schedules asked (pure a : Edit σ α) := .still fun _ => rfl

theorem bind {m : Edit σ α} {k : α → Edit σ β} (hm : Schedules asked m)
    (hk : ∀ a, Schedules asked (k a)) : Schedules asked (m >>= k) :=
  Run.Leads.bind (R := fun w w' : Workbench σ => Reaches (Op.Asks asked) w.scheduler w'.scheduler)
    .trans hm hk

theorem forIn {body : Entity → Edit σ (ForInStep PUnit)} {es : List Entity}
    (h : ∀ e ∈ es, Schedules asked (body e)) :
    Schedules asked (forIn es PUnit.unit fun e _ => body e) :=
  Run.Leads.forIn (R := fun w w' : Workbench σ => Reaches (Op.Asks asked) w.scheduler w'.scheduler)
    (fun _ => .refl _) .trans h

theorem lift {ε : Type} (wrap : ε → WorkbenchError) (x : Except ε α) :
    Schedules asked (lift wrap x : Edit σ α) := by
  cases x <;> exact .still fun _ => rfl

theorem propagate {c : Change} (hc : asked c) :
    Schedules asked (propagate c : Edit σ RequestId) := by
  intro w
  rcases run_propagate w c with ⟨id, hrun⟩ | ⟨e, hrun⟩ <;> rw [hrun] <;>
    exact .apply (.propagate c) hc _

theorem detach (e : Entity) : Schedules asked (detach e : Edit σ (Option Formula)) := by
  intro w
  rw [run_detach]
  cases w.formulas[e]? with
  | none => exact .refl _
  | some f => exact .apply (.removeConsumer e) trivial _

theorem rebind (e : Entity) (container : Option ObjectId) :
    Schedules asked (rebind e container : Edit σ Unit) := by
  intro w
  unfold Workbench.rebind
  rw [Run.run_bind, Run.run_get]
  dsimp only
  cases w.formulas[e]? with
  | none => exact .refl _
  | some f => exact .apply (.replaceProducers e (w.producers f container)) trivial _

/-- Bind formulas again, and announce them. -/
theorem reschedule {es : List Entity} (containerOf : Entity → Option ObjectId)
    {priority : Priority}
    (hnews : ∀ e ∈ es, asked ⟨e.object, .property, .property e.property none, priority⟩) :
    Schedules asked (ForIn.forIn es PUnit.unit fun e _ => do
      Workbench.rebind e (containerOf e)
      let _ ← announce e none priority
      return .yield PUnit.unit : Edit σ PUnit) :=
  .forIn fun e he => .bind (.rebind e _) fun _ => .bind (.propagate (hnews e he)) fun _ => .pure _

theorem invalidate (changed : List Entity) :
    Schedules asked (modify (·.invalidate changed) : Edit σ PUnit) := .still fun _ => rfl

theorem write (e : Entity) (v : Value) : Schedules asked (write e v : Edit σ Unit) := by
  refine .still fun w => ?_
  rw [run_write]
  cases w.scene.write e v <;> rfl

theorem setFormula {object : ObjectId} {property : String} (source : String)
    (hasked : ∀ v, asked ⟨object, .property, .property property (some v), .normal⟩) :
    Schedules asked (setFormula object property source : Edit σ Value) := by
  intro w
  have h := setsFormula w object property source
  generalize (Workbench.setFormula object property source).run w = outcome at h
  obtain ⟨result, w'⟩ := outcome
  have hbind : ∀ {bound : Except CycleError Unit} {scheduler : Scheduler} {target : Entity}
      {edges : List (Entity × Edge)},
      w.scheduler.replaceProducers target edges = (bound, scheduler) →
        Reaches (Op.Asks asked) w.scheduler scheduler := by
    intro bound scheduler target edges hbound
    have hscheduler : (w.scheduler.replaceProducers target edges).2 = scheduler :=
      congrArg Prod.snd hbound
    rw [← hscheduler]
    exact .apply (.replaceProducers target edges) trivial _
  cases h with
  | refused => exact .refl _
  | cycle _ _ hbound => exact hbind hbound
  | failed _ _ hbound => exact hbind hbound
  | @written _ _ _ _ _ v _ _ _ _ hbound =>
    exact (hbind hbound).trans
      (.apply (.propagate ⟨object, .property, .property property (some v), .normal⟩) (hasked v) _)

theorem setValue {object : ObjectId} {property : String} {v : Value} {priority : Priority}
    (hasked : asked ⟨object, .property, .property property (some v), priority⟩) :
    Schedules asked (setValue object property v priority : Edit σ RequestId) :=
  .bind (.detach _) fun _ => .bind (.write _ _) fun _ => .bind (.invalidate _) fun _ =>
    .propagate hasked

theorem setsVariable {name : String} (h : SetsVariable w name w')
    (hasked : ∀ v, asked ⟨Entity.variableOwner, .property, .property name v, .normal⟩) :
    Reaches (Op.Asks asked) w.scheduler w'.scheduler := by
  cases h with
  | refused => exact .refl _
  | @changed vars value =>
    exact .apply
      (.propagate ⟨Entity.variableOwner, .property, .property name value, .normal⟩) (hasked value) _

/-- After news of a move the formulas of its object are bound again and announced. -/
theorem notifyChange {object : ObjectId} {kind : ChangeKind} {payload : Payload}
    {priority : Priority} (hasked : asked ⟨object, kind, payload, priority⟩)
    (hnews : kind = .hierarchy →
      ∀ name, asked ⟨object, .property, .property name none, priority⟩) :
    Schedules asked (notifyChange object kind.name payload priority : Edit σ RequestId) := by
  unfold Workbench.notifyChange
  cases hname : ChangeKind.ofName kind.name with
  | error e => exact .still fun _ => rfl
  | ok kind' =>
    have hsame : kind' = kind := by
      cases kind <;> cases hname <;> rfl
    subst hsame
    intro w
    rw [Run.run_bind, run_lift_ok]
    refine Schedules.bind (.lift _ _) (fun target => .bind (.invalidate _) fun _ =>
      .bind (.propagate hasked) fun id => ?_) w
    split
    · intro w
      rw [Run.run_bind, Run.run_get]
      refine Schedules.bind (.reschedule _ fun e he => ?_) (fun _ => .pure _) w
      have hobject : e.object = object := of_decide_eq_true (List.mem_filter.1 he).2
      exact hobject ▸ hnews rfl e.property
    · exact .pure _

theorem submitChange {c : Change} (hc : asked c) :
    Schedules asked (submitChange c : Edit σ RequestId) := by
  intro w
  unfold Workbench.submitChange
  rw [Run.run_bind, Run.run_get]
  dsimp only
  rw [Run.run_bind, Run.run_set]
  cases (w.scheduler.submit c).1 <;> exact .apply (.submit c) hc _

theorem evaluateProperty (object : ObjectId) (property : String) :
    Schedules asked (evaluateProperty object property : Edit σ Value) := by
  refine .still fun w => ?_
  rw [run_evaluateProperty]
  cases w.formulas[Entity.mk object property]? <;> rfl

theorem addObject {o : Object}
    (hmove : asked ⟨o.id, .hierarchy, .hierarchy none o.container, .normal⟩)
    (hnews : ∀ e : Entity, (w.formulas[e]?).isSome →
      asked ⟨e.object, .property, .property e.property none, .normal⟩) :
    Reaches (Op.Asks asked) w.scheduler ((addObject o).run w).2.scheduler := by
  let inserted : Workbench σ := { w with scene := w.scene.insert o }
  have hloop : Schedules (σ := σ) asked (do
      for e in inserted.concerned o do
        Workbench.rebind e (inserted.containerOf? e.object)
        let _ ← announce e none
      Workbench.propagate ⟨o.id, .hierarchy, .hierarchy none o.container, .normal⟩) := by
    refine .bind (.reschedule (fun e => inserted.containerOf? e.object) fun e he => hnews e ?_)
      fun _ => .propagate hmove
    obtain ⟨⟨e, f⟩, hconcerned, rfl⟩ := List.mem_map.1 he
    have hf : w.formulas[e]? = some f :=
      Std.ExtTreeMap.mem_toList_iff_getElem?_eq_some.1 (List.mem_of_mem_filter hconcerned)
    exact hf ▸ rfl
  exact hloop (inserted.invalidate (inserted.concerned o))

/-- The news of a removed object are about its own properties, and about the children of its
container. -/
theorem removeObject {id : ObjectId}
    (hown : ∀ name, asked ⟨id, .property, .property name none, .normal⟩)
    (hparent : ∀ parent, w.containerOf? id = some parent →
      asked ⟨parent, .hierarchy, .none, .normal⟩) :
    Reaches (Op.Asks asked) w.scheduler ((removeObject id).run w).2.scheduler := by
  cases hthere : w.scene.get? id with
  | none =>
    rw [run_removeObject_of_none hthere]
    exact .refl _
  | some o =>
    obtain ⟨scene, hremove, -⟩ := Scene.exists_remove hthere
    have hcontainer : w.containerOf? id = o.container := congrArg (·.bind Object.container) hthere
    unfold Workbench.removeObject
    rw [Run.run_bind, Run.run_get]
    dsimp only
    rw [hremove]
    dsimp only
    rw [Run.run_bind, Run.run_set]
    have hclear : Schedules (σ := σ) asked (do
        modify fun w => { w with scheduler := (w.scheduler.removeObject id).2 }
        return o) :=
      .bind (fun w => .apply (.removeObject id) trivial _) fun _ => .pure _
    refine Schedules.bind (.forIn fun e _ => .bind (.detach e) fun _ => .pure _) (fun _ =>
      .bind (.still fun _ => rfl) fun _ => ?_) { w with scene }
    intro w
    rw [Run.run_bind, Run.run_get]
    refine Schedules.bind (.invalidate _) (fun _ => .bind (.forIn fun e he =>
      .bind (.propagate ?_) fun _ => .pure _) fun _ => ?_) w
    · rw [((mem_produced_iff _ _ _).1 he).1]
      exact hown e.property
    · cases hplace : o.container with
      | none => exact hclear
      | some parent =>
        exact .bind (.propagate (hparent parent (hcontainer.trans hplace))) fun _ => hclear

end Schedules

/-- The changes that an operation asks for when it is carried out on a workbench. A drain asks for
none: what it makes wait follows from what it serves. -/
def Operation.Asks (w : Workbench σ) : Operation → Change → Prop
  | act (.setFormula object property _), c =>
    ∃ v, c = ⟨object, .property, .property property (some v), .normal⟩
  | act (.setValue object property v priority), c =>
    c = ⟨object, .property, .property property (some v), priority⟩
  | act (.defineVariable name ..), c | act (.updateVariable name ..), c
  | act (.deleteVariable name ..), c =>
    ∃ v, c = ⟨Entity.variableOwner, .property, .property name v, .normal⟩
  | act (.notifyProperty object payload priority), c => c = ⟨object, .property, payload, priority⟩
  | act (.clearFormula ..), _ | act .drain, _ | evaluate .., _ => False
  | notify object kind payload priority, c =>
    c = ⟨object, kind, payload, priority⟩ ∨
      kind = .hierarchy ∧ ∃ name, c = ⟨object, .property, .property name none, priority⟩
  | submit c, c' => c' = c
  | addObject o, c =>
    c = ⟨o.id, .hierarchy, .hierarchy none o.container, .normal⟩ ∨
      ∃ e : Entity, (w.formulas[e]?).isSome ∧
        c = ⟨e.object, .property, .property e.property none, .normal⟩
  | removeObject id, c =>
    (∃ name, c = ⟨id, .property, .property name none, .normal⟩) ∨
      ∃ parent, w.containerOf? id = some parent ∧ c = ⟨parent, .hierarchy, .none, .normal⟩

/-- An operation other than a drain works on the scheduler through operations that ask for no more
than it does. -/
theorem reaches_asked (w : Workbench σ) {op : Operation} (hop : op ≠ .act .drain) :
    Reaches (Op.Asks (op.Asks w)) w.scheduler (op.run w).scheduler := by
  cases op with
  | act a =>
    cases a with
    | setFormula object property source =>
      exact Schedules.setFormula source (fun v => ⟨v, rfl⟩) w
    | setValue object property v priority =>
      refine Schedules.setValue ?_ w
      exact rfl
    | clearFormula object property => exact Schedules.detach _ w
    | defineVariable name scope context v =>
      exact Schedules.setsVariable (setsVariable_define w name scope context v) fun v => ⟨v, rfl⟩
    | updateVariable name scope context v =>
      exact Schedules.setsVariable (setsVariable_update w name scope context v) fun v => ⟨v, rfl⟩
    | deleteVariable name scope context =>
      exact Schedules.setsVariable (setsVariable_delete w name scope context) fun v => ⟨v, rfl⟩
    | notifyProperty object payload priority =>
      refine Schedules.notifyChange ?_ nofun w
      exact rfl
    | drain => exact absurd rfl hop
  | notify object kind payload priority =>
    exact Schedules.notifyChange (.inl rfl) (fun hkind name => .inr ⟨hkind, name, rfl⟩) w
  | submit c =>
    refine Schedules.submitChange ?_ w
    exact rfl
  | evaluate object property => exact Schedules.evaluateProperty _ _ w
  | addObject o => exact Schedules.addObject (.inl rfl) fun e he => .inr ⟨e, he, rfl⟩
  | removeObject id =>
    exact Schedules.removeObject (fun name => .inl ⟨name, rfl⟩)
      fun parent h => .inr ⟨parent, h, rfl⟩

/-- An operation on a workbench works on its scheduler through the operations of a history. -/
theorem reaches_run (w : Workbench σ) (op : Operation) :
    Reaches (fun _ => True) w.scheduler (op.run w).scheduler := by
  by_cases hop : op = .act .drain
  · subst hop
    exact .apply (.drain (applier w.vars) ⟨w.scene, w.calculator, w.formulas⟩) trivial _
  · exact (reaches_asked w hop).mono fun _ _ => trivial

theorem reaches_perform (w : Workbench σ) (ops : List Operation) :
    Reaches (fun _ => True) w.scheduler (w.perform ops).scheduler := by
  induction ops generalizing w with
  | nil => exact .refl _
  | cons op ops ih => exact (reaches_run w op).trans (ih _)

theorem sound_run (hs : w.scheduler.Sound) (op : Operation) : (op.run w).scheduler.Sound :=
  (reaches_run w op).keeps (fun {op _} _ h => (op.apply_spec h).1) hs

/-- The scheduler of a workbench that operations led to is sound. -/
theorem sound_perform (functions : Registry σ) (scene : Scene) (settings : Settings) (clock : Clock)
    (host : σ) (ops : List Operation) :
    ((new functions scene settings clock host).perform ops).scheduler.Sound := by
  have hreaches : Reaches (fun _ => True) { settings := settings.propagation }
      ((new functions scene settings clock host).perform ops).scheduler :=
    reaches_perform (new functions scene settings clock host) ops
  exact hreaches.sound

end Workbench

end Parametric
