import Parametric.Proofs.Update.History
import Parametric.Proofs.Workbench.Bound
import Parametric.Workbench.Drain

/-!
# What a drain does to a workbench

Whatever its kind, a request evaluates the formula that drives its target and writes the value,
leaves the change to the scene, or does nothing (`Effect`, `Bench.effect_apply`). A drain is a
course of such requests with the cascades of those that were applied: what each of these steps
keeps, and does not depend on stale numbers, caches and bounds of containers, the drain keeps
(`Course.drain`).
-/

namespace Parametric

namespace Scheduler

/-- The edges and what waits are the same. Only an empty queue may differ, in its stale numbers. -/
structure Alike (s s' : Scheduler) : Prop where
  sound : s'.Sound
  graph : s'.graph = s.graph
  inbox : s'.inbox = s.inbox
  pendingFor : ∀ t, s'.queue.pendingFor? t = s.queue.pendingFor? t
  queue : s'.queue = s.queue ∨ s.queue.pop = (none, s'.queue)

theorem Alike.refl {s : Scheduler} (hs : s.Sound) : Alike s s :=
  ⟨hs, rfl, rfl, fun _ => rfl, .inl rfl⟩

theorem Alike.unread {s s' : Scheduler} (h : Alike s s') : s'.inbox.unread = s.inbox.unread := by
  rw [h.inbox]

end Scheduler

/-- A request evaluates the formula of its target, if one drives it. -/
def Request.Evaluates (r : Request) : Prop := r.kind = .recompute ∨ r.kind = .property

namespace Workbench

open Scheduler

variable {σ : Type} {w w' : Workbench σ} {r : Request} {vars : VariableTable}
  {d : Scheduler.Drain (Bench σ)}

/-- The parts of a workbench that a drain changes. -/
def bench (w : Workbench σ) : Bench σ := ⟨w.scene, w.calculator, w.formulas⟩

/-- A workbench with other such parts. -/
def withBench (w : Workbench σ) (b : Bench σ) : Workbench σ :=
  { w with scene := b.scene, calculator := b.calculator, formulas := b.formulas }

/-- The workbench in the middle of a drain. -/
def during (vars : VariableTable) (d : Scheduler.Drain (Bench σ)) : Workbench σ :=
  { calculator := d.state.calculator, scheduler := d.scheduler, formulas := d.state.formulas, vars,
    scene := d.state.scene }

/-! ## Applying a request -/

/-- What applying a request answers and leaves. -/
inductive Effect (w : Workbench σ) (r : Request) :
    Except ApplyError Outcome → Workbench σ → Prop
  | noted {result : Except ApplyError Outcome} {calculator : Calculator σ}
      (hc : w.calculator.Kept calculator)
      (hnone : r.target.isVariable ∨ (r.Evaluates → w.formulas[r.target]? = none))
      (hmisses : r.target.isVariable ∨ calculator.Misses r.target.object)
      (hrefused : ¬ r.target.isVariable → r.kind ≠ .recompute →
        ∃ e, w.scene.applyChange r = .error e) :
      Effect w r result { w with calculator }
  /-- The scene carries the change out. -/
  | changed {outcome : Outcome} {calculator : Calculator σ} {scene : Scene}
      (hc : w.calculator.Kept calculator) (hvariable : ¬ r.target.isVariable)
      (hnone : r.Evaluates → w.formulas[r.target]? = none)
      (hchange : w.scene.applyChange r = .ok (outcome, scene))
      (hmisses : calculator.Misses r.target.object) :
      Effect w r (.ok outcome) { w with calculator, scene }
  /-- The formula of the target has no value, or its value cannot be written. -/
  | failed {f f' : Formula} {calculator calculator' : Calculator σ}
      {value : Except EvalError Value} {reason : ApplyError} (hr : r.Evaluates)
      (hf : w.formulas[r.target]? = some f) (hc : w.calculator.Kept calculator)
      (hmisses : calculator.Misses r.target.object)
      (heval : calculator.evaluateCached f w.stores (w.view r.target.object) =
        (value, f', calculator'))
      (hwrite : ∀ v, value = .ok v → ∃ e, w.scene.write r.target v = .error e)
      (hunasked : ∀ c, c = r.target.object ∨ w.containerOf? r.target.object = some c →
        calculator.Unasked c) :
      Effect w r (.error reason)
        { w with calculator := calculator', formulas := w.formulas.insert r.target f' }
  /-- The value of the formula of the target is written. -/
  | computed {f f' : Formula} {calculator calculator' : Calculator σ} {v : Value}
      {outcome : Outcome} {scene : Scene} {bounds : Option Contribution} (hr : r.Evaluates)
      (hf : w.formulas[r.target]? = some f) (hc : w.calculator.Kept calculator)
      (hmisses : calculator.Misses r.target.object)
      (heval : calculator.evaluateCached f w.stores (w.view r.target.object) =
        (.ok v, f', calculator'))
      (hwrite : w.scene.write r.target v = .ok (bounds, scene))
      (hunasked : ∀ c, c = r.target.object ∨ w.containerOf? r.target.object = some c →
        calculator.Unasked c) :
      Effect w r (.ok outcome)
        { w with calculator := calculator', formulas := w.formulas.insert r.target f', scene }

theorem Effect.scheduler {result : Except ApplyError Outcome} (h : Effect w r result w') :
    w'.scheduler = w.scheduler := by
  cases h <;> rfl

namespace Bench

/-- Nothing is cached for an object after its results were dropped, and no answer is left about it
and its container. -/
theorem invalidate_spec (b : Bench σ) (object : ObjectId) :
    ∃ calculator, b.invalidate object = { b with calculator } ∧ b.calculator.Kept calculator ∧
      calculator.Misses object ∧
      ∀ c, c = object ∨ b.scene.objects.containerOf? object = some c → calculator.Unasked c := by
  have hkept := b.calculator.kept_invalidate object
  have hmisses := b.calculator.misses_invalidate object
  have hunasked := b.calculator.unasked_invalidate object
  unfold invalidate
  cases b.scene.objects.containerOf? object with
  | none =>
    refine ⟨_, rfl, hkept, hmisses, ?_⟩
    rintro c (rfl | hc)
    · exact hunasked
    · cases hc
  | some parent =>
    refine ⟨_, rfl, hkept.trans (Calculator.kept_invalidate _ parent), hmisses.invalidate parent,
      ?_⟩
    rintro c (rfl | hc)
    · exact hunasked.invalidate parent
    · cases hc
      exact Calculator.unasked_invalidate _ parent

/-- A request asks nothing of the scene: it asks to compute something again, or it reports a property
of an object that is gone. -/
def Ignores (b : Bench σ) (r : Request) : Prop :=
  r.kind = .recompute ∨ b.scene.get? r.target.object = none ∧ r.kind = .property ∧
    ∃ name, r.payload = .property name none

theorem applyPlain_of_ignores {b : Bench σ} (h : b.Ignores r) : b.applyPlain r = (.ok {}, b) := by
  unfold applyPlain
  rcases h with hkind | ⟨hgone, hkind, name, hpayload⟩
  · rw [hkind]
  · rw [hkind, hpayload]
    exact if_pos (Option.isNone_iff_eq_none.2 hgone)

/-- Other requests are left to the scene. -/
theorem applyPlain_of_not_ignores {b : Bench σ} (h : ¬ b.Ignores r) :
    b.applyPlain r = match b.scene.applyChange r with
      | .error e => (.error e, b)
      | .ok (outcome, scene) => (.ok outcome, { b with scene }) := by
  unfold applyPlain
  split
  next hkind => exact absurd (.inl hkind) h
  next =>
    refine if_neg fun hgone => ?_
    split at hgone
    next hkind hpayload =>
      exact h (.inr ⟨Option.isNone_iff_eq_none.1 hgone, hkind, _, hpayload⟩)
    next => cases hgone

/-- What no formula drives is left to the scene. -/
theorem effect_applyPlain {calculator : Calculator σ} (hc : w.calculator.Kept calculator)
    (hmisses : calculator.Misses r.target.object) (hvariable : ¬ r.target.isVariable)
    (hnone : r.Evaluates → w.formulas[r.target]? = none) :
    Effect w r (applyPlain { w.bench with calculator } r).1
      (w.withBench (applyPlain { w.bench with calculator } r).2) := by
  have hnoted : ∀ result, (r.kind ≠ .recompute → ∃ e, w.scene.applyChange r = .error e) →
      Effect w r result { w with calculator } :=
    fun result h => .noted hc (.inr hnone) (.inr hmisses) fun _ => h
  by_cases hignores : Ignores { w.bench with calculator } r
  · rw [applyPlain_of_ignores hignores]
    refine hnoted _ fun hkind => ⟨.noObject r.target.object, ?_⟩
    have hgone : w.scene.get? r.target.object = none := (hignores.resolve_left hkind).1
    simp only [Scene.applyChange, Scene.require, hgone]
    rfl
  · rw [applyPlain_of_not_ignores hignores]
    cases hchange : w.bench.scene.applyChange r with
    | error e => exact hnoted _ fun _ => ⟨e, hchange⟩
    | ok changed => exact .changed hc hvariable hnone hchange hmisses

theorem effect_apply (w : Workbench σ) (r : Request) :
    Effect w r (w.bench.apply w.vars r).1 (w.withBench (w.bench.apply w.vars r).2) := by
  unfold apply
  by_cases hvariable : r.target.isVariable
  · simp only [hvariable, if_true]
    exact .noted (.refl _) (.inl hvariable) (.inl hvariable) fun h => absurd hvariable h
  · obtain ⟨calculator, heq, hc, hmisses, hunasked⟩ := w.bench.invalidate_spec r.target.object
    rw [if_neg hvariable, heq]
    dsimp only
    split
    next hr =>
      unfold evaluate
      cases hf : w.bench.formulas[r.target]? with
      | none => exact effect_applyPlain hc hmisses hvariable fun _ => hf
      | some f =>
        cases heval : calculator.evaluateCached f w.stores (w.view r.target.object) with
        | mk value rest =>
          obtain ⟨f', calculator'⟩ := rest
          change calculator.evaluateCached f ⟨w.bench.scene.objects, w.vars⟩
            (.ofObject w.bench.scene.objects r.target.object) = _ at heval
          simp only [heval]
          cases value with
          | error e => exact .failed hr hf hc hmisses heval (fun _ h => by cases h) hunasked
          | ok v =>
            cases hwrite : w.bench.scene.write r.target v with
            | error e =>
              simp only [hwrite]
              exact .failed hr hf hc hmisses heval (fun u hu => ⟨e, by cases hu; exact hwrite⟩)
                hunasked
            | ok written =>
              simp only [hwrite]
              exact .computed hr hf hc hmisses heval hwrite hunasked
    next hr => exact effect_applyPlain hc hmisses hvariable fun h => absurd h hr

end Bench

/-! ## A whole drain -/

/-- What holds between the steps of a drain. -/
structure Course (J : Workbench σ → Prop) : Prop where
  sound : ∀ {w : Workbench σ}, J w → w.scheduler.Sound
  unread : ∀ {w : Workbench σ}, J w → w.scheduler.inbox.unread = []
  same : ∀ {w w' : Workbench σ}, J w → SameContent w w' → Alike w.scheduler w'.scheduler → J w'
  failed : ∀ {w w' : Workbench σ} {r : Request} {queue : Queue} {e : ApplyError}, J w →
    w.scheduler.queue.pop = (some r, queue) →
    Effect { w with scheduler := { w.scheduler with queue } } r (.error e) w' → J w'
  applied : ∀ {w w' : Workbench σ} {r : Request} {queue : Queue} {outcome : Outcome}, J w →
    w.scheduler.queue.pop = (some r, queue) →
    Effect { w with scheduler := { w.scheduler with queue } } r (.ok outcome) w' →
    J { w' with scheduler := w'.scheduler.cascade r outcome }

/-- Recalculating a container changes what is recorded of containers. -/
theorem Bench.applyBounds_eq (b : Bench σ) (parent : ObjectId) (children : ChildBounds) :
    ∃ scene, (b.applyBounds parent children).2 = { b with scene } ∧
      scene.objects = b.scene.objects := by
  unfold Bench.applyBounds Scene.applyBounds Scene.require
  cases b.scene.get? parent <;> exact ⟨_, rfl, rfl⟩

namespace Course

variable {J : Workbench σ → Prop} (hJ : Course J)
include hJ

theorem flush (h : J (during vars d)) (parent : ObjectId) (children : ChildBounds) :
    J (during vars (d.flush (applier vars) parent children)) := by
  obtain ⟨scene, hscene, hobjects⟩ := d.state.applyBounds_eq parent children
  have happlier : (applier vars).applyBounds parent children d.state =
      d.state.applyBounds parent children := rfl
  unfold Drain.flush
  rw [happlier]
  cases hresult : d.state.applyBounds parent children with
  | mk result state =>
    rw [hresult] at hscene
    dsimp only at hscene
    subst hscene
    cases result <;> exact hJ.same h ⟨.refl _, rfl, rfl, hobjects⟩ (.refl (hJ.sound h))

theorem contribute (h : J (during vars d)) (c : Contribution) :
    J (during vars (d.contribute (applier vars) c)) := by
  unfold Drain.contribute
  split
  · have hsound := hJ.sound h
    exact hJ.same h ⟨.refl _, rfl, rfl, rfl⟩
      ⟨⟨hsound.graph, hsound.numbered⟩, rfl, rfl, fun _ => rfl, .inl rfl⟩
  · exact hJ.flush h _ _

theorem serve {queue : Queue} (h : J (during vars d))
    (hpop : d.scheduler.queue.pop = (some r, queue)) :
    J (during vars (Drain.serve (applier vars)
      { d with scheduler := { d.scheduler with queue } } r)) := by
  let popped : Scheduler.Drain (Bench σ) := { d with scheduler := { d.scheduler with queue } }
  have heffect := Bench.effect_apply (during vars popped) r
  -- The applier submits nothing, so the inbox is the same after it.
  have hrun : ((applier vars).apply { r with state := .processing } d.state).run d.scheduler.inbox =
      ((d.state.apply vars r).1, (d.state.apply vars r).2, d.scheduler.inbox) := rfl
  change Effect _ r (d.state.apply vars r).1 _ at heffect
  unfold Drain.serve
  rw [hrun]
  cases hresult : (d.state.apply vars r).1 with
  | error e =>
    rw [hresult] at heffect
    exact hJ.failed h hpop heffect
  | ok outcome =>
    rw [hresult] at heffect
    have happlied := hJ.applied h hpop heffect
    cases hbounds : outcome.bounds with
    | none =>
      simp only [hbounds]
      exact happlied
    | some c =>
      simp only [hbounds]
      let cascaded : Scheduler.Drain (Bench σ) := { d with
        state := (d.state.apply vars r).2
        scheduler := { d.scheduler with queue }.cascade r outcome }
      have hcascaded : J (during vars cascaded) := happlied
      exact hJ.contribute hcascaded c

theorem serveAll (limit : Nat) (h : J (during vars d)) :
    J (during vars (Drain.serveAll (applier vars) limit d)) := by
  -- The inbox is empty before each service, so reading it changes nothing.
  induction limit generalizing d with
  | zero =>
    have hread : d.scheduler.readInbox = d.scheduler := readInbox_eq (hJ.unread h)
    simp only [Drain.serveAll, hread]
    exact h
  | succ limit ih =>
    have hread : d.scheduler.readInbox = d.scheduler := readInbox_eq (hJ.unread h)
    rw [Drain.serveAll, hread]
    cases hpop : d.scheduler.queue.pop with
    | mk request queue =>
      cases request with
      | none =>
        have hsound := Drain.keeps_pop_none (hJ.sound h) hpop
        exact hJ.same h ⟨.refl _, rfl, rfl, rfl⟩
          ⟨hsound.sound, rfl, rfl, ((hJ.sound h).numbered.indexed.pop_none hpop).2, .inr hpop⟩
      | some r => exact ih (hJ.serve h hpop)

theorem flushAll (h : J (during vars d)) : J (during vars (d.flushAll (applier vars))) := by
  have hsound := hJ.sound h
  have hcleared : J (during vars { d with scheduler := { d.scheduler with bounds := {} } }) :=
    hJ.same h ⟨.refl _, rfl, rfl, rfl⟩
      ⟨⟨hsound.graph, hsound.numbered⟩, rfl, rfl, fun _ => rfl, .inl rfl⟩
  unfold Drain.flushAll
  dsimp only
  generalize d.scheduler.bounds.parents.toList = parents
  generalize { d with scheduler := { d.scheduler with bounds := {} } } = d at hcleared
  induction parents generalizing d with
  | nil => exact hcleared
  | cons p parents ih => exact ih _ (hJ.flush hcleared p.1 p.2)

theorem drain (h : J w) : J w.drain.2 := by
  have hserved : J (during w.vars (Drain.serveAll (applier w.vars) w.scheduler.settings.maxServed
      ⟨w.scheduler, w.bench, {}⟩)) := hJ.serveAll _ h
  have hflushed := hJ.flushAll hserved
  have hsound := hJ.sound hflushed
  generalize hlast : (Drain.serveAll (applier w.vars) w.scheduler.settings.maxServed
    ⟨w.scheduler, w.bench, {}⟩).flushAll (applier w.vars) = last at hflushed hsound
  have hdrain : w.scheduler.drain (applier w.vars) ⟨w.scene, w.calculator, w.formulas⟩ =
      last.finish := congrArg Drain.finish hlast
  have hkept : last.state.calculator.Kept (if 0 < last.finish.1.remaining
      then last.state.calculator.clearCaches else last.state.calculator) := by
    split
    · exact Calculator.kept_clearCaches _
    · exact .refl _
  unfold Workbench.drain
  simp only [hdrain]
  exact hJ.same hflushed ⟨hkept, rfl, rfl, rfl⟩
    ⟨⟨hsound.graph, hsound.numbered⟩, rfl, rfl, fun _ => rfl, .inl rfl⟩

end Course

end Workbench

end Parametric
