import Parametric.Proofs.Scene.Boxes
import Parametric.Proofs.Workbench.Frame

/-!
# What operations do to the scene

An operation other than a drain leaves the scene as it is, writes one value, inserts an object or
removes one (`Operation.Stages`, `stages_run`); what was recorded for containers is not touched, but
for the container that is removed or would be. Whatever is done, the lists of children stay in step with the
containers of the objects (`listed_perform`).
-/

namespace Parametric.Workbench

open Scheduler

variable {σ : Type} {w w' : Workbench σ} {op : Operation}

/-! ## Steps that leave the scene alone -/

/-- An operation leaves the scene alone, whether it fails or not. -/
def KeepsScene {α : Type} (m : Edit σ α) : Prop :=
  Run.Leads (fun w w' : Workbench σ => w'.scene = w.scene) m

namespace KeepsScene

variable {α β : Type}

theorem pure (a : α) : KeepsScene (pure a : Edit σ α) := fun _ => rfl

theorem bind {m : Edit σ α} {k : α → Edit σ β} (hm : KeepsScene m) (hk : ∀ a, KeepsScene (k a)) :
    KeepsScene (m >>= k) := Run.Leads.bind (fun h h' => h'.trans h) hm hk

theorem forIn {body : Entity → Edit σ (ForInStep PUnit)} (h : ∀ e, KeepsScene (body e))
    (es : List Entity) : KeepsScene (forIn es PUnit.unit fun e _ => body e) :=
  Run.Leads.forIn (R := fun w w' : Workbench σ => w'.scene = w.scene) (fun _ => rfl)
    (fun h h' => h'.trans h) fun e _ => h e

theorem lift {ε : Type} (wrap : ε → WorkbenchError) (x : Except ε α) :
    KeepsScene (lift wrap x : Edit σ α) := by
  cases x <;> exact fun _ => rfl

theorem propagate (c : Change) : KeepsScene (propagate c : Edit σ RequestId) := by
  intro w
  rcases run_propagate w c with ⟨id, hrun⟩ | ⟨e, hrun⟩ <;> rw [hrun] <;> rfl

theorem detach (e : Entity) : KeepsScene (detach e : Edit σ (Option Formula)) := by
  intro w
  rw [run_detach_eq]
  exact scene_detached w e

theorem rebind (e : Entity) (container : Option ObjectId) :
    KeepsScene (rebind e container : Edit σ Unit) := by
  intro w
  obtain ⟨scheduler, hrun⟩ := Reschedules.rebind e container w
  rw [hrun]

theorem notifyChange (object : ObjectId) (kindName : String) (payload : Payload)
    (priority : Priority) :
    KeepsScene (notifyChange object kindName payload priority : Edit σ RequestId) := by
  refine .bind (.lift _ _) fun kind => .bind (.lift _ _) fun target =>
    .bind (fun _ => rfl) fun _ => .bind (.propagate _) fun id => ?_
  split
  · refine .bind (fun _ => rfl) fun w => .bind (.forIn (fun e => ?_) _) fun _ => .pure id
    exact .bind (.rebind e _) fun _ => .bind (.propagate _) fun _ => .pure _
  · exact .pure id

theorem submitChange (c : Change) : KeepsScene (submitChange c : Edit σ RequestId) := by
  intro w
  unfold Workbench.submitChange
  rw [Run.run_bind, Run.run_get]
  dsimp only
  rw [Run.run_bind, Run.run_set]
  exact KeepsScene.lift _ _ { w with scheduler := (w.scheduler.submit c).2 }

end KeepsScene

/-! ## Operations -/

/-- What an operation other than a drain does to the scene. -/
inductive Operation.Stages : Operation → Scene → Scene → Prop
  | same {op : Operation} {s : Scene} : Stages op s s
  | written {op : Operation} {e : Entity} {v : Value} {bounds : Option Contribution} {s s' : Scene}
      (hset : op.Sets e) (hwrite : s.write e v = .ok (bounds, s')) : Stages op s s'
  | inserted {o : Object} {s : Scene} : Stages (.addObject o) s (s.insert o)
  | removed {id : ObjectId} {o : Object} {s s' : Scene} (hremove : s.remove id = (some o, s')) :
      Stages (.removeObject id) s s'
  | absent {id : ObjectId} {s : Scene} (hthere : s.get? id = none) :
      Stages (.removeObject id) s { s with containerBounds := s.containerBounds.erase id }

theorem stages_of_eq (h : w'.scene = w.scene) : op.Stages w.scene w'.scene := by
  rw [h]
  exact .same

theorem stages_setFormula (w : Workbench σ) (object : ObjectId) (property source : String) :
    (Operation.act (.setFormula object property source)).Stages w.scene
      ((setFormula object property source).run w).2.scene := by
  have h := setsFormula w object property source
  generalize (setFormula object property source).run w = outcome at h
  obtain ⟨result, w'⟩ := outcome
  cases h with
  | refused | cycle | failed => exact .same
  | written _ _ _ _ hwrite => exact .written rfl hwrite

theorem stages_setValue (w : Workbench σ) (object : ObjectId) (property : String) (v : Value)
    (priority : Priority) : (Operation.act (.setValue object property v priority)).Stages w.scene
      ((setValue object property v priority).run w).2.scene := by
  have hscene := scene_detached w ⟨object, property⟩
  rw [run_setValue]
  cases hwrite : (w.detached ⟨object, property⟩).scene.write ⟨object, property⟩ v with
  | error e => exact stages_of_eq hscene
  | ok written =>
    rw [hscene] at hwrite
    exact .written rfl hwrite

theorem stages_setsVariable {name : String} (h : SetsVariable w name w') :
    op.Stages w.scene w'.scene := by
  cases h <;> exact .same

theorem stages_removeObject (w : Workbench σ) (id : ObjectId) :
    (Operation.removeObject id).Stages w.scene ((removeObject id).run w).2.scene := by
  cases hthere : w.scene.get? id with
  | none =>
    rw [run_removeObject_of_none hthere]
    exact .absent hthere
  | some o =>
    obtain ⟨scene, hremove, -⟩ := Scene.exists_remove hthere
    unfold removeObject
    rw [Run.run_bind, Run.run_get]
    dsimp only
    rw [hremove]
    dsimp only
    rw [Run.run_bind, Run.run_set]
    dsimp only
    suffices hkept : KeepsScene _ by
      rw [hkept { w with scene }]
      exact .removed hremove
    refine .bind (.forIn (fun e => .bind (.detach e) fun _ => .pure _) _) fun _ => ?_
    refine .bind (fun _ => rfl) fun _ => .bind (fun _ => rfl) fun _ => .bind (fun _ => rfl)
      fun _ => ?_
    refine .bind (.forIn (fun e => .bind (.propagate _) fun _ => .pure _) _) fun _ => ?_
    cases o.container with
    | none => exact .bind (fun _ => rfl) fun _ => .pure _
    | some parent => exact .bind (.propagate _) fun _ => .bind (fun _ => rfl) fun _ => .pure _

theorem stages_run (hop : op ≠ .act .drain) : op.Stages w.scene (op.run w).scene := by
  cases op with
  | act a =>
    cases a with
    | setFormula object property source => exact stages_setFormula w object property source
    | setValue object property v priority => exact stages_setValue w object property v priority
    | clearFormula object property => exact stages_of_eq (KeepsScene.detach _ w)
    | defineVariable name scope context v =>
      exact stages_setsVariable (setsVariable_define w name scope context v)
    | updateVariable name scope context v =>
      exact stages_setsVariable (setsVariable_update w name scope context v)
    | deleteVariable name scope context =>
      exact stages_setsVariable (setsVariable_delete w name scope context)
    | notifyProperty object payload priority =>
      exact stages_of_eq (KeepsScene.notifyChange _ _ _ _ w)
    | drain => exact absurd rfl hop
  | notify object kind payload priority => exact stages_of_eq (KeepsScene.notifyChange _ _ _ _ w)
  | submit c => exact stages_of_eq (KeepsScene.submitChange c w)
  | evaluate object property =>
    refine stages_of_eq ?_
    show ((evaluateProperty object property).run w).2.scene = w.scene
    rw [run_evaluateProperty]
    cases w.formulas[Entity.mk object property]? <;> rfl
  | addObject o =>
    obtain ⟨scheduler, hrun⟩ := run_addObject w o
    show (Operation.addObject o).Stages w.scene ((Workbench.addObject o).run w).2.scene
    rw [hrun]
    exact .inserted
  | removeObject id => exact stages_removeObject w id

/-! ## Lists of children -/

theorem Operation.Stages.inOrder {s s' : Scene} (h : op.Stages s s') (hs : s.objects.InOrder) :
    s'.objects.InOrder := by
  cases h with
  | same | absent => exact hs
  | written _ hwrite => exact hs.of_shape (Scene.shape_write hwrite)
  | inserted => exact hs.insert _
  | removed hremove => exact hs.remove (Scene.objects_remove hremove)

/-- Serving a request changes the properties of an object, or moves it. -/
theorem Effect.inOrder {r : Request} {result : Except ApplyError Outcome}
    (h : Effect w r result w') (hs : w.scene.objects.InOrder) : w'.scene.objects.InOrder := by
  cases h with
  | noted | failed => exact hs
  | changed _ _ _ hchange =>
    exact ⟨(Scene.objects_applyChange hs.keyed hchange).1,
      Scene.listed_applyChange hs.keyed hs.listed hchange⟩
  | computed _ _ _ _ _ hwrite => exact hs.of_shape (Scene.shape_write hwrite)

theorem inOrder_drain (h : w.scene.objects.InOrder) : w.drain.2.scene.objects.InOrder := by
  refine state_drain (K := fun b : Bench σ => b.scene.objects.InOrder) (fun r b _ hb => ?_)
    (fun parent children b hb => ?_) w.scheduler
    (show w.bench.scene.objects.InOrder from h)
  · exact (Bench.effect_apply (w.withBench b) r).inOrder hb
  · obtain ⟨scene, heq, hobjects⟩ := b.applyBounds_eq parent children
    show (b.applyBounds parent children).2.scene.objects.InOrder
    rw [heq]
    exact hobjects ▸ hb

theorem inOrder_run (h : w.scene.objects.InOrder) (op : Operation) :
    (op.run w).scene.objects.InOrder := by
  by_cases hop : op = .act .drain
  · subst hop
    exact inOrder_drain h
  · exact (stages_run hop).inOrder h

/-- Whatever is done, the children of a container are the objects that lie in it. -/
theorem inOrder_perform (h : w.scene.objects.InOrder) (ops : List Operation) :
    (w.perform ops).scene.objects.InOrder := by
  induction ops generalizing w with
  | nil => exact h
  | cons op ops ih => exact ih (inOrder_run h op)

end Parametric.Workbench
