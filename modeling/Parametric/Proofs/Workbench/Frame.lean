import Parametric.Proofs.Scene.Revision
import Parametric.Proofs.Workbench.InPlace
import Parametric.Proofs.Workbench.Standing

/-!
# What is left alone

An operation other than a drain leaves an object alone that it neither adds nor removes, but for a
value that it writes into one property; and it puts a formula on a property only to set it
(`Workbench.Frame`, `frame_run`). A request that is served revises its own object, or writes a value
into its target when a formula drives that (`Effect.objects`); it puts no formula anywhere
(`Effect.undriven`).
-/

namespace Parametric.Workbench

variable {σ : Type} {w w' : Workbench σ} {op : Operation} {e : Entity} {x : ObjectId}

/-! ## Operations -/

/-- An operation writes a value into a property itself. -/
def Operation.Sets (e : Entity) : Operation → Prop
  | act (.setFormula object property _) => e = ⟨object, property⟩
  | act (.setValue object property _ _) => e = ⟨object, property⟩
  | _ => False

/-- What an operation other than a drain does to single objects and formulas. -/
structure Frame (op : Operation) (w w' : Workbench σ) : Prop where
  objects : ∀ x, (∀ o, op = .addObject o → o.id ≠ x) → op ≠ .removeObject x →
    w'.scene.get? x = w.scene.get? x ∨ ∃ property v, op.Sets ⟨x, property⟩ ∧
      w'.scene.get? x = (w.scene.get? x).map (·.set v (Path.ofString property))
  formulas : ∀ e : Entity, (∀ source, op ≠ .act (.setFormula e.object e.property source)) →
    w.formulas[e]? = none → w'.formulas[e]? = none

namespace Frame

theorem same (h : SameContent w w') : Frame op w w' where
  objects x _ _ := .inl (by rw [Scene.get?, h.objects]; rfl)
  formulas e _ hnone := by rw [h.formulas, hnone]

/-- A value is written into a property, and its formula is taken off or put in place. -/
theorem written {target : Entity} {v : Value} {bounds : Option Contribution} {scene : Scene}
    (hset : op.Sets target) (hwrite : w.scene.write target v = .ok (bounds, scene))
    (hscene : w'.scene.objects = scene.objects)
    (hformulas : ∀ e : Entity, (∀ source, op ≠ .act (.setFormula e.object e.property source)) →
      w.formulas[e]? = none → w'.formulas[e]? = none) : Frame op w w' where
  objects x _ _ := by
    have hget : w'.scene.get? x = scene.get? x := by rw [Scene.get?, hscene]; rfl
    rw [hget, Scene.get?_write hwrite]
    split
    next hx => exact .inr ⟨target.property, v, hx ▸ hset, rfl⟩
    next => exact .inl rfl
  formulas := hformulas

theorem setFormula (w : Workbench σ) (object : ObjectId) (property source : String) :
    Frame (.act (.setFormula object property source)) w
      ((Workbench.setFormula object property source).run w).2 := by
  have h := setsFormula w object property source
  generalize (Workbench.setFormula object property source).run w = outcome at h
  obtain ⟨result, w'⟩ := outcome
  have hplaced : ∀ {f' : Formula} (e : Entity), (∀ source', Operation.act
      (.setFormula object property source) ≠ .act (.setFormula e.object e.property source')) →
      w.formulas[e]? = none → (w.formulas.insert ⟨object, property⟩ f')[e]? = none := by
    intro f' e he hnone
    rw [Table.getElem?_insert, if_neg, hnone]
    rintro rfl
    exact he source rfl
  cases h with
  | refused => exact .same (.refl _)
  | cycle => exact .same (.rescheduled _ _)
  | failed => exact ⟨fun _ _ _ => .inl rfl, hplaced⟩
  | written _ _ _ _ hwrite => exact .written rfl hwrite rfl hplaced

theorem detached (w : Workbench σ) (e : Entity) : Frame op w (w.detached e) where
  objects x _ _ := .inl (by rw [scene_detached])
  formulas x _ hnone := by
    rw [formulas_detached]
    split
    · rfl
    · exact hnone

theorem setValue (w : Workbench σ) (object : ObjectId) (property : String) (v : Value)
    (priority : Priority) : Frame (.act (.setValue object property v priority)) w
      ((Workbench.setValue object property v priority).run w).2 := by
  have hdetached : Frame (.act (.setValue object property v priority)) w
      (w.detached ⟨object, property⟩) := .detached w _
  rw [run_setValue]
  cases hwrite : (w.detached ⟨object, property⟩).scene.write ⟨object, property⟩ v with
  | error e => exact hdetached
  | ok written =>
    obtain ⟨bounds, scene⟩ := written
    rw [scene_detached] at hwrite
    have hsame : SameContent { w.detached ⟨object, property⟩ with scene } _ :=
      (SameContent.invalidate _ [⟨object, property⟩]).trans
        (.announced _ ⟨object, property⟩ (some v) priority)
    refine .written rfl hwrite hsame.objects fun e he hnone => ?_
    rw [hsame.formulas]
    exact hdetached.formulas e he hnone

theorem setsVariable {name : String} (h : SetsVariable w name w') : Frame op w w' := by
  cases h with
  | refused => exact .same (.refl w)
  | changed => exact ⟨fun _ _ _ => .inl rfl, fun _ _ hnone => hnone⟩

theorem evaluateProperty (w : Workbench σ) (object : ObjectId) (property : String) :
    Frame (.evaluate object property) w
      ((Workbench.evaluateProperty object property).run w).2 := by
  rw [run_evaluateProperty]
  cases hf : w.formulas[Entity.mk object property]? with
  | none => exact .same (.refl w)
  | some f =>
    refine ⟨fun _ _ _ => .inl rfl, fun e _ hnone => ?_⟩
    dsimp only
    rw [Table.getElem?_insert, if_neg, hnone]
    rintro rfl
    rw [hf] at hnone
    cases hnone

theorem addObject (w : Workbench σ) (o : Object) :
    Frame (.addObject o) w ((Workbench.addObject o).run w).2 := by
  obtain ⟨scheduler, hrun⟩ := run_addObject w o
  rw [hrun]
  refine ⟨fun x hx _ => .inl ?_, fun e _ hnone => hnone⟩
  show (w.scene.objects.insert o).get? x = w.scene.get? x
  rw [ObjectTable.get?_insert, if_neg (hx o rfl), Scene.get?]

theorem removeObject (hs : w.scheduler.Sound) (id : ObjectId) :
    Frame (.removeObject id) w ((Workbench.removeObject id).run w).2 := by
  cases hthere : w.scene.get? id with
  | none =>
    exact .same (sameContent_removeObject_of_none hthere)
  | some o =>
    have hremoved := removed_removeObject hs hthere
    refine ⟨fun x _ hx => .inl ?_, fun e _ hnone => ?_⟩
    · rw [hremoved.get?, if_neg]
      rintro rfl
      exact hx rfl
    · rw [hremoved.formulas, hnone, ite_self]

end Frame

theorem frame_run (hs : w.scheduler.Sound) (hop : op ≠ .act .drain) : Frame op w (op.run w) := by
  cases op with
  | act a =>
    cases a with
    | setFormula object property source => exact .setFormula w object property source
    | setValue object property v priority => exact .setValue w object property v priority
    | clearFormula object property => exact .detached w _
    | defineVariable name scope context v =>
      exact .setsVariable (setsVariable_define w name scope context v)
    | updateVariable name scope context v =>
      exact .setsVariable (setsVariable_update w name scope context v)
    | deleteVariable name scope context =>
      exact .setsVariable (setsVariable_delete w name scope context)
    | notifyProperty object payload priority => exact .same (sameContent_notifyChange _ _ _ _ _)
    | drain => exact absurd rfl hop
  | notify object kind payload priority => exact .same (sameContent_notifyChange _ _ _ _ _)
  | submit c => exact .same (sameContent_submitChange w c)
  | evaluate object property => exact .evaluateProperty w object property
  | addObject o => exact .addObject w o
  | removeObject id => exact .removeObject hs id

/-! ## Requests -/

namespace Effect

variable {r : Request} {result : Except ApplyError Outcome}

theorem objects (h : Effect w r result w') (hkeyed : w.scene.objects.Keyed) (x : ObjectId) :
    w'.scene.get? x = w.scene.get? x ∨ r.target.object = x ∧
      (w'.scene.get? x = (w.scene.get? x).map r.revise ∧ ¬ r.target.isVariable ∨
        (w.formulas[r.target]?).isSome ∧ ∃ v, w'.scene.get? x =
          (w.scene.get? x).map (·.set v (Path.ofString r.target.property))) := by
  cases h with
  | noted | failed => exact .inl rfl
  | changed _ hvariable _ hchange =>
    rw [Scene.get?_applyChange hkeyed hchange]
    split
    next hx => exact .inr ⟨hx, .inl ⟨rfl, hvariable⟩⟩
    next => exact .inl rfl
  | computed _ hf _ _ _ hwrite =>
    rw [Scene.get?_write hwrite]
    split
    next hx => exact .inr ⟨hx, .inr ⟨hf ▸ rfl, _, rfl⟩⟩
    next => exact .inl rfl

theorem undriven (h : Effect w r result w') (hnone : w.formulas[e]? = none) :
    w'.formulas[e]? = none := by
  have hcores := h.cores e
  rwa [hnone, Option.map_none, Option.map_eq_none_iff] at hcores

end Effect

end Parametric.Workbench
