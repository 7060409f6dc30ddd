import Parametric.Proofs.Workbench.Effect

/-!
# Requests about properties

What serving a request about a property does to a workbench. It evaluates the formula that drives
the property and writes its value, or leaves the property to the scene (`Effect.applies`); and the
consumers of the property wait if that succeeded (`Scheduler.Quiet.cascade`).
-/

namespace Parametric

/-- A request to compute a property again, or the news that it has a value. A property with a value
is `ok`. -/
def Request.OfProperty (ok : Entity → Prop) (r : Request) : Prop :=
  r.kind = .recompute ∨ r.kind = .property ∧
    ∃ value, r.payload = .property r.target.property value ∧ (value.isSome → ok r.target)

theorem Request.OfProperty.evaluates {ok : Entity → Prop} {r : Request} (hr : r.OfProperty ok) :
    r.Evaluates := hr.imp_right And.left

/-- A value is written where it may be. -/
theorem Request.OfProperty.written {ok : Entity → Prop} {r : Request} (hr : r.OfProperty ok)
    (hkind : r.kind = .property) {v : Value}
    (hpayload : r.payload = .property r.target.property (some v)) : ok r.target := by
  rcases hr with hrecompute | ⟨-, value, hvalue, hok⟩
  · rw [hkind] at hrecompute
    cases hrecompute
  · rw [hpayload] at hvalue
    cases hvalue
    exact hok rfl

theorem Request.OfProperty.mono {ok ok' : Entity → Prop} (h : ∀ e, ok e → ok' e) {r : Request}
    (hr : r.OfProperty ok) : r.OfProperty ok' :=
  hr.imp_right fun ⟨hkind, value, hpayload, hok⟩ => ⟨hkind, value, hpayload, fun hv => h _ (hok hv)⟩

theorem Request.OfProperty.affected {ok : Entity → Prop} {r : Request} (hr : r.OfProperty ok) :
    r.affected = [r.target] := by
  rcases hr with hkind | ⟨hkind, -⟩ <;> rw [Request.affected, hkind] <;> rfl

theorem Request.stable_ofProperty (ok : Entity → Prop) : Request.Stable (OfProperty ok) := by
  refine ⟨fun r hr => .inl hr, fun r priority payload _ hr => ?_⟩
  refine hr.imp_right fun ⟨hkind, value, hpayload, hok⟩ => ⟨hkind, value, ?_, hok⟩
  simp [absorb, hpayload, Payload.isRecompute]

/-- News of a property change nothing in a scene, unless there is a value to write. -/
theorem Scene.applyChange_property (s : Scene) {r : Request} {value : Option Value}
    (hkind : r.kind = .property) (hpayload : r.payload = .property r.target.property value) :
    (∃ e, s.applyChange r = .error e) ∨ (∃ outcome, s.applyChange r = .ok (outcome, s)) ∨
    ∃ v bounds s' outcome, value = some v ∧ s.write r.target v = .ok (bounds, s') ∧
      s.applyChange r = .ok (outcome, s') := by
  unfold applyChange require
  cases ho : s.get? r.target.object with
  | none => exact .inl ⟨_, rfl⟩
  | some o =>
    simp only [hkind, hpayload, change, bind, Except.bind, pure, Except.pure]
    cases value with
    | none => exact .inr (.inl ⟨_, rfl⟩)
    | some v =>
      cases hwrite : s.write ⟨r.target.object, r.target.property⟩ v with
      | error e => exact .inl ⟨e, by simp only [hwrite]⟩
      | ok written =>
        obtain ⟨bounds, s'⟩ := written
        exact .inr (.inr ⟨v, bounds, s', ⟨s'.valueAt? r.target.object r.target.property, bounds⟩,
          rfl, hwrite, by simp only [hwrite]⟩)

/-- The scene itself does not compute anything again. -/
theorem Scene.applyChange_recompute (s : Scene) {r : Request} (hkind : r.kind = .recompute) :
    ∃ e, s.applyChange r = .error e := by
  unfold applyChange require
  cases ho : s.get? r.target.object with
  | none => exact ⟨_, rfl⟩
  | some o =>
    rw [hkind]
    exact ⟨_, rfl⟩

namespace Workbench

variable {σ : Type} {w : Workbench σ} {r : Request}

/-! ## Applying a request -/

/-- What applying a request about a property answers and leaves. -/
inductive Applies (w : Workbench σ) (r : Request) :
    Except ApplyError Outcome → Workbench σ → Prop
  /-- Nothing is written: no formula drives the property, or it is a variable. -/
  | noted {result : Except ApplyError Outcome} {calculator : Calculator σ}
      (hc : w.calculator.Kept calculator)
      (hnone : r.target.isVariable ∨ w.formulas[r.target]? = none) :
      Applies w r result { w with calculator }
  /-- No formula drives the property, and the value of the request is written. -/
  | stored {outcome : Outcome} {calculator : Calculator σ} {v : Value} {scene : Scene}
      {bounds : Option Contribution} (hc : w.calculator.Kept calculator)
      (hnone : w.formulas[r.target]? = none) (hvariable : ¬ r.target.isVariable)
      (hkind : r.kind = .property) (hpayload : r.payload = .property r.target.property (some v))
      (hwrite : w.scene.write r.target v = .ok (bounds, scene)) :
      Applies w r (.ok outcome) { w with calculator, scene }
  /-- The formula of the property has no value. -/
  | failed {f f' : Formula} {calculator calculator' : Calculator σ} {e : EvalError}
      {reason : ApplyError} (hf : w.formulas[r.target]? = some f)
      (hc : w.calculator.Kept calculator) (hmisses : calculator.Misses r.target.object)
      (heval : calculator.evaluateCached f w.stores (w.view r.target.object) =
        (.error e, f', calculator')) :
      Applies w r (.error reason)
        { w with calculator := calculator', formulas := w.formulas.insert r.target f' }
  /-- The value of the formula of the property is written. -/
  | computed {f f' : Formula} {calculator calculator' : Calculator σ} {v : Value}
      {outcome : Outcome} {scene : Scene} {bounds : Option Contribution}
      (hf : w.formulas[r.target]? = some f)
      (hc : w.calculator.Kept calculator) (hmisses : calculator.Misses r.target.object)
      (heval : calculator.evaluateCached f w.stores (w.view r.target.object) =
        (.ok v, f', calculator'))
      (hwrite : w.scene.write r.target v = .ok (bounds, scene)) :
      Applies w r (.ok outcome)
        { w with calculator := calculator', formulas := w.formulas.insert r.target f', scene }

/-- What a request about a property does. -/
theorem Effect.applies {w' : Workbench σ} {result : Except ApplyError Outcome} (hw : w.Bound)
    {ok : Entity → Prop} (hr : r.OfProperty ok) (h : Effect w r result w') :
    Applies w r result w' := by
  cases h with
  | noted hc hnone => exact .noted hc (hnone.imp_right fun h => h hr.evaluates)
  | @changed outcome calculator scene hc hvariable hnone hchange =>
    have hnone := hnone hr.evaluates
    rcases hr with hkind | ⟨hkind, value, hpayload, -⟩
    · obtain ⟨e, he⟩ := w.scene.applyChange_recompute hkind
      rw [he] at hchange
      cases hchange
    · rcases w.scene.applyChange_property hkind hpayload with
        ⟨e, he⟩ | ⟨outcome, hok⟩ | ⟨v, bounds, scene, outcome, rfl, hwrite, hok⟩
      · rw [he] at hchange
        cases hchange
      · rw [hok] at hchange
        cases hchange
        exact .noted hc (.inr hnone)
      · rw [hok] at hchange
        cases hchange
        exact .stored hc hnone hvariable hkind hpayload hwrite
  | @failed f f' calculator calculator' value reason _ hf hc hmisses heval hwrite =>
    cases value with
    | error e => exact .failed hf hc hmisses heval
    | ok v =>
      obtain ⟨bounds, scene, hok⟩ := w.scene.exists_write (hw.formulas hf).2.1 v
      obtain ⟨e, he⟩ := hwrite v rfl
      rw [he] at hok
      cases hok
  | computed _ hf hc hmisses heval hwrite => exact .computed hf hc hmisses heval hwrite

theorem Applies.scheduler {w' : Workbench σ} {result : Except ApplyError Outcome}
    (h : Applies w r result w') : w'.scheduler = w.scheduler := by
  cases h <;> rfl

/-- Applying a request keeps the edges what the formulas read. -/
theorem Applies.bound {w' : Workbench σ} {result : Except ApplyError Outcome}
    (h : Applies w r result w') (hw : w.Bound) : w'.Bound := by
  have hinsert : ∀ {f f' : Formula}, w.formulas[r.target]? = some f → f'.core = f.core →
      ∀ e : Entity, ((w.formulas.insert r.target f')[e]?).map Formula.core =
        (w.formulas[e]?).map Formula.core := by
    intro f f' hf hcore e
    rw [Table.getElem?_insert]
    split
    next he => rw [← he, hf, Option.map_some, Option.map_some, hcore]
    next => rfl
  cases h with
  | noted hc => exact SameContent.bound ⟨hc, rfl, rfl, rfl⟩ hw hw.scheduler rfl
  | stored hc hnone hvariable hkind hpayload hwrite =>
    exact hw.congr hw.scheduler rfl (fun _ => rfl) hc.functions (Scene.shape_write hwrite)
  | failed hf hc hmisses heval =>
    obtain ⟨hcore, hfunctions, -⟩ := Calculator.evaluateCached_core heval
    exact hw.congr hw.scheduler rfl (hinsert hf hcore) (hfunctions.trans hc.functions) rfl
  | computed hf hc hmisses heval hwrite =>
    obtain ⟨hcore, hfunctions, -⟩ := Calculator.evaluateCached_core heval
    exact hw.congr hw.scheduler rfl (hinsert hf hcore) (hfunctions.trans hc.functions)
      (Scene.shape_write hwrite)

end Workbench

/-! ## The scheduler -/

namespace Scheduler

/-- Between two states nothing is submitted, and only recomputes come to what waits. -/
structure Quiet (s s' : Scheduler) : Prop extends Keeps s s' where
  unread : s'.inbox.unread = s.inbox.unread
  all : ∀ P : Request → Prop, Request.Stable P → s.queue.All P → s'.queue.All P

namespace Quiet

variable {s : Scheduler}

theorem refl (hs : s.Sound) : Quiet s s := ⟨.refl hs, rfl, fun _ _ h => h⟩

theorem cascade (hs : s.Sound) (r : Request) (o : Outcome) : Quiet s (s.cascade r o) := by
  obtain ⟨queue, next, heq, -, -, hall⟩ := cascade_spec hs.numbered r o
  refine ⟨.cascade hs r o, ?_, fun P hP h => ?_⟩
  · rw [heq]
  · rw [heq]
    exact hall P hP h

end Quiet

/-- After a request was served, what reads what it affects waits, besides what waited. -/
theorem waits_cascade {s : Scheduler} (hs : s.Sound) (r : Request) (o : Outcome) (e : Entity) :
    (s.cascade r o).Waits e ↔ (∃ p ∈ r.affected, s.graph.Feeds p e) ∨ s.Waits e := by
  obtain ⟨queue, next, heq, -, hwaits, -⟩ := cascade_spec hs.numbered r o
  rw [heq]
  refine (hwaits e).trans (or_congr_left (exists_congr fun p => and_congr_right fun _ => ?_))
  exact Graph.Indexed.mem_consumersOf hs.graph.toIndexed

end Scheduler

end Parametric
