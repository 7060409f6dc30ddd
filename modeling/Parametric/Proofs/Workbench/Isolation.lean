import Parametric.Proofs.Update.Attempt
import Parametric.Proofs.Workbench.Recovery

/-!
# Requests that fail

A request that fails writes nothing: the scene is the same after it, and of the formulas only the
one that drives its target takes note of the error (`Bench.Contains`). The scene refuses no change
of size, layout or place to an object that is there (`Scene.exists_applyChange`), and no formula is
at an object that is not there (`Standing`), so a request about the target of a formula fails only
when the formula cannot be evaluated (`Bench.contains_of_error`). A container that cannot be
recalculated is reported, and nothing else happens (`flush_or_reported`). What waits is not touched,
so a failure is contained in every drain (`failures_contained`).
-/

namespace Parametric

/-! ## Formulas that fail -/

/-- The error was noted and the last value kept; of all errors the latest `limit` are kept. -/
structure Formula.Failed (limit : Nat) (err : EvalError) (f f' : Formula) : Prop where
  core : f'.core = f.core
  lastValue : f'.lastValue = f.lastValue
  failing : f'.failing = true
  newest : limit ≠ 0 → f'.lastError? = some err ∧ f'.errors.length ≤ limit

theorem Formula.failed_fail (f : Formula) (err : EvalError) (limit : Nat) :
    Formula.Failed limit err f (f.fail err limit) := by
  refine ⟨rfl, rfl, rfl, fun hlimit => ?_⟩
  have herrors : (f.fail err limit).errors =
      f.errors.drop (f.errors.length + 1 - limit) ++ [err] := if_neg hlimit
  refine ⟨?_, ?_⟩
  · rw [lastError?, herrors, List.getLast?_concat]
  · rw [herrors, List.length_append, List.length_drop, List.length_singleton]
    omega

/-- An error is never a cached result: it was found by this evaluation, and noted. -/
theorem Calculator.failed_evaluateCached {σ : Type} {c c' : Calculator σ} {f f' : Formula}
    {stores : Stores} {view : Viewpoint} {err : EvalError}
    (h : c.evaluateCached f stores view = (.error err, f', c')) :
    Formula.Failed c.settings.maxErrors err f f' := by
  unfold evaluateCached at h
  split at h
  · cases h
  · dsimp only at h
    split at h
    · cases h
    · injection h with hresult hrest
      injection hrest with hnoted
      rw [← hnoted, hresult]
      exact f.failed_fail err _

/-- What the applier keeps of its state holds at each attempt. -/
theorem Scheduler.Drain.state_attempts {τ : Type} {applier : Applier τ} {K : τ → Prop}
    (happly : ∀ r t inbox, K t → K ((applier.apply r t).run inbox).2.1)
    (hbounds : ∀ parent children t, K t → K (applier.applyBounds parent children t).2)
    (limit : Nat) {d : Drain τ} (h : K d.state) :
    ∀ a ∈ attempts applier limit d, K a.before.state := by
  induction limit generalizing d with
  | zero => exact fun a ha => absurd ha List.not_mem_nil
  | succ limit ih =>
    unfold attempts
    split
    · exact fun a ha => absurd ha List.not_mem_nil
    next r queue _ =>
      have hpopped : K (d.popped queue).state := h
      exact List.forall_mem_cons.2 ⟨hpopped, ih (state_serve happly hbounds hpopped r)⟩

namespace Scene

/-- A change of the size, the layout or the place of an object that is there is carried out. -/
theorem exists_applyChange (s : Scene) {r : Request} (hr : ¬ r.Evaluates)
    (hthere : (s.get? r.target.object).isSome) : ∃ changed, s.applyChange r = .ok changed := by
  obtain ⟨o, ho⟩ := Option.isSome_iff_exists.1 hthere
  have hrequire : s.require r.target.object = .ok o := by rw [require, ho]
  rw [applyChange, Run.bind_of_ok hrequire]
  cases hkind : r.kind with
  | size | layout | hierarchy => exact ⟨_, rfl⟩
  | property => exact absurd (.inr hkind) hr
  | recompute => exact absurd (.inl hkind) hr

end Scene

namespace Workbench

open Scheduler

variable {σ : Type} {b b' : Bench σ} {vars : VariableTable} {r : Request} {reason : ApplyError}

namespace Bench

/-- Nothing was written, and of the formulas only that of the target of a request took note: it
could not be evaluated, which is the reason that the request failed. -/
structure Contains (vars : VariableTable) (limit : Nat) (r : Request) (reason : ApplyError)
    (b b' : Bench σ) : Prop where
  scene : b'.scene = b.scene
  others : ∀ e, e ≠ r.target → b'.formulas[e]? = b.formulas[e]?
  unowned : b.formulas[r.target]? = none → b'.formulas[r.target]? = none
  formula : ∀ f, b.formulas[r.target]? = some f → ∃ err f',
    ((b.invalidate r.target.object).calculator.evaluateCached f ⟨b.scene.objects, vars⟩
      (.ofObject b.scene.objects r.target.object)).1 = .error err ∧
    reason = .failed (r.target.text ++ ": " ++ err.message) ∧
    b'.formulas[r.target]? = some f' ∧ Formula.Failed limit err f f'

/-- A change that no formula takes up fails when the scene refuses it. -/
theorem applyPlain_error (h : b.applyPlain r = (.error reason, b')) :
    b' = b ∧ b.scene.applyChange r = .error reason := by
  by_cases hignores : b.Ignores r
  · rw [applyPlain_of_ignores hignores] at h
    cases h
  · rw [applyPlain_of_not_ignores hignores] at h
    split at h
    next e hchange =>
      cases h
      exact ⟨rfl, hchange⟩
    next => cases h

/-- No formula drives the property. -/
theorem evaluate_none {target : Entity} (h : b.evaluate vars target = (.ok none, b')) :
    b.formulas[target]? = none ∧ b' = b := by
  unfold evaluate at h
  split at h
  next hf =>
    cases h
    exact ⟨hf, rfl⟩
  next =>
    dsimp only at h
    split at h
    · cases h
    · split at h <;> cases h

/-- The value of a formula can be written, since its object is there: what failed is the evaluation
of the formula. -/
theorem evaluate_error {target : Entity}
    (hthere : (b.formulas[target]?).isSome → (b.scene.get? target.object).isSome)
    (h : b.evaluate vars target = (.error reason, b')) :
    ∃ f err f' calculator, b.formulas[target]? = some f ∧
      b.calculator.evaluateCached f ⟨b.scene.objects, vars⟩
        (.ofObject b.scene.objects target.object) = (.error err, f', calculator) ∧
      reason = .failed (target.text ++ ": " ++ err.message) ∧
      b' = { b with calculator, formulas := b.formulas.insert target f' } := by
  unfold evaluate at h
  split at h
  · cases h
  next f hf =>
    generalize heval : b.calculator.evaluateCached f ⟨b.scene.objects, vars⟩
      (.ofObject b.scene.objects target.object) = evaluated at h
    obtain ⟨value, f', calculator⟩ := evaluated
    cases value with
    | error err =>
      cases h
      exact ⟨f, err, f', calculator, hf, heval, rfl, rfl⟩
    | ok v =>
      obtain ⟨bounds, scene, hwrite⟩ := b.scene.exists_write (hthere (hf ▸ rfl)) v
      simp only [hwrite] at h
      cases h

/-- A formula that could not be evaluated takes note of it. -/
theorem contains_of_evaluation {f f' : Formula} {err : EvalError} {calculator : Calculator σ}
    (hf : b.formulas[r.target]? = some f)
    (heval : (b.invalidate r.target.object).calculator.evaluateCached f ⟨b.scene.objects, vars⟩
      (.ofObject b.scene.objects r.target.object) = (.error err, f', calculator)) :
    b.Contains vars b.calculator.settings.maxErrors r
      (.failed (r.target.text ++ ": " ++ err.message))
      { b with calculator, formulas := b.formulas.insert r.target f' } where
  scene := rfl
  others e he := by rw [Table.getElem?_insert, if_neg he.symm]
  unowned hnone := by cases hf.symm.trans hnone
  formula g hg := by
    cases hf.symm.trans hg
    obtain ⟨c, heq, hkept, -⟩ := b.invalidate_spec r.target.object
    have hfailed := Calculator.failed_evaluateCached heval
    rw [heq, hkept.settings] at hfailed
    refine ⟨err, f', congrArg Prod.fst heval, rfl, ?_, hfailed⟩
    rw [Table.getElem?_insert, if_pos rfl]

/-- A change that the scene refuses is not about the target of a formula. -/
theorem contains_of_refusal {calculator : Calculator σ}
    (hthere : (b.formulas[r.target]?).isSome → (b.scene.get? r.target.object).isSome)
    (hnone : r.Evaluates → b.formulas[r.target]? = none)
    (hchange : b.scene.applyChange r = .error reason) {limit : Nat} :
    b.Contains vars limit r reason { b with calculator } where
  scene := rfl
  others _ _ := rfl
  unowned hnone := hnone
  formula f hf := by
    have hr : ¬ r.Evaluates := fun hr => by
      rw [hnone hr] at hf
      cases hf
    obtain ⟨changed, hok⟩ := b.scene.exists_applyChange hr (hthere (hf ▸ rfl))
    cases hok.symm.trans hchange

/-- However a request fails, its failure is contained, if the object of the formula is there that
drives its target. -/
theorem contains_of_error
    (hthere : (b.formulas[r.target]?).isSome → (b.scene.get? r.target.object).isSome)
    (h : b.apply vars r = (.error reason, b')) :
    b.Contains vars b.calculator.settings.maxErrors r reason b' := by
  unfold apply at h
  split at h
  · cases h
  · obtain ⟨calculator, heq, -⟩ := b.invalidate_spec r.target.object
    have hplain : applyPlain { b with calculator } r = (.error reason, b') →
        (r.Evaluates → b.formulas[r.target]? = none) →
        b.Contains vars b.calculator.settings.maxErrors r reason b' := by
      intro h hnone
      obtain ⟨rfl, hchange⟩ := applyPlain_error h
      exact contains_of_refusal hthere hnone hchange
    rw [heq] at h
    split at h
    next =>
      dsimp only at h
      split at h
      next heval =>
        cases h
        obtain ⟨f, err, f', calculator', hf, hevaluated, rfl, rfl⟩ :=
          evaluate_error (b := { b with calculator }) hthere heval
        exact contains_of_evaluation hf (by rw [heq, hevaluated])
      next => cases h
      next heval =>
        obtain ⟨hnone, rfl⟩ := evaluate_none heval
        exact hplain h fun _ => hnone
    next hr => exact hplain h fun h => absurd h hr

end Bench

/-! ## Drains -/

/-- A container that cannot be recalculated is reported, and nothing else changes. -/
theorem flush_or_reported (d : Scheduler.Drain (Bench σ)) (parent : ObjectId)
    (children : ChildBounds) :
    (d.flush (applier vars) parent children).report.boundsFailed = d.report.boundsFailed ∨
    ∃ e, d.flush (applier vars) parent children = { d with report := { d.report with
      boundsFailed := d.report.boundsFailed ++ [(parent, e)] } } := by
  have happlier : (applier vars).applyBounds parent children d.state =
      d.state.applyBounds parent children := rfl
  unfold Drain.flush
  rw [happlier]
  unfold Bench.applyBounds
  cases d.state.scene.applyBounds parent children with
  | error e => exact .inr ⟨e, rfl⟩
  | ok scene => exact .inl rfl

/-- The requests that a drain of a workbench attempts. -/
def attempts (w : Workbench σ) : List (Attempt (Bench σ)) :=
  Drain.attempts (applier w.vars) w.scheduler.settings.maxServed ⟨w.scheduler, w.bench, {}⟩

variable {w : Workbench σ} {a : Attempt (Bench σ)}

theorem failed_drain (hs : w.scheduler.Sound) :
    w.drain.1.failed = w.attempts.filterMap fun a => (a.service (applier w.vars)).failure? := by
  have hfailed := (report_drain (applier w.vars) w.bench hs).2
  rw [services, Drain.services_eq_map, List.filterMap_map] at hfailed
  exact hfailed

theorem queue_drain (w : Workbench σ) : w.drain.2.scheduler.queue =
    (Drain.serveAll (applier w.vars) w.scheduler.settings.maxServed
      ⟨w.scheduler, w.bench, {}⟩).scheduler.queue :=
  Drain.queue_flushAll (applier w.vars) _

/-- Formulas were compiled for objects that are there, also in the middle of a drain. -/
theorem standing_attempts {functions : Registry σ} {settings : EvaluationSettings}
    (h : w.Standing functions settings) :
    ∀ a ∈ w.attempts, (w.withBench a.before.state).Standing functions settings :=
  Drain.state_attempts (K := fun b => (w.withBench b).Standing functions settings)
    (fun r b _ hb => hb.effect (Bench.effect_apply (w.withBench b) r))
    (fun parent children b hb => hb.same (sameContent_applyBounds w b parent children)) _ h

theorem contains_attempt {functions : Registry σ} {settings : EvaluationSettings}
    (h : w.Standing functions settings) (ha : a ∈ w.attempts)
    (hfails : a.result (applier w.vars) = .error reason) :
    a.before.state.Contains w.vars settings.maxErrors a.request reason
      (a.after (applier w.vars)).state := by
  have hstanding := standing_attempts h a ha
  have hsettings : a.before.state.calculator.settings = settings := hstanding.settings
  rw [Attempt.after_of_error hfails, ← hsettings]
  refine Bench.contains_of_error (fun hsome => ?_) (Prod.ext hfails rfl)
  obtain ⟨f, hf⟩ := Option.isSome_iff_exists.1 hsome
  exact (hstanding.formulas hf).2.1

/-- Whatever was done with a workbench, a request that fails in a drain writes nothing and blocks
nothing. The report names the attempts that fail. Each of them leaves the scene and the scheduler as
they are, and if a formula drives its target, it keeps its last value and has noted why it could not
be evaluated. What waits then is attempted later or is left, and it is left only when the limit is
reached. And when a container cannot be recalculated, that is reported and nothing else happens. -/
theorem failures_contained (functions : Registry σ) (scene : Scene) (settings : Settings)
    (clock : Clock) (host : σ) (hscene : scene.objects.Keyed) (ops : List Operation) :
    let w := (new functions scene settings clock host).perform ops
    w.drain.1.failed = w.attempts.filterMap (fun a => (a.service (applier w.vars)).failure?) ∧
    (∀ earlier a later reason, w.attempts = earlier ++ a :: later →
      a.result (applier w.vars) = .error reason →
      a.before.state.Contains w.vars settings.evaluation.maxErrors a.request reason
        (a.after (applier w.vars)).state ∧
      (a.after (applier w.vars)).scheduler = a.before.scheduler ∧
      ∀ r, a.before.scheduler.queue.get? r.id = some r →
        (∃ b ∈ later, b.request.id = r.id) ∨ (w.drain.2.scheduler.queue.get? r.id).isSome) ∧
    w.drain.1.remaining = w.drain.2.scheduler.queue.size ∧
    (w.attempts.length = settings.propagation.maxServed ∨ w.drain.1.remaining = 0) ∧
    ∀ (d : Scheduler.Drain (Bench σ)) (parent : ObjectId) (children : ChildBounds),
      let d' := d.flush (applier w.vars) parent children
      d'.report.boundsFailed = d.report.boundsFailed ∨ ∃ e, d' = { d with report :=
        { d.report with boundsFailed := d.report.boundsFailed ++ [(parent, e)] } } := by
  intro w
  have hreaches : Reaches (fun _ => True) { settings := settings.propagation } w.scheduler :=
    reaches_perform (new functions scene settings clock host) ops
  have hinUse := hreaches.inUse (.new _)
  have hw : w.Standing functions settings.evaluation :=
    standing_perform functions scene settings clock host hscene ops
  refine ⟨failed_drain hreaches.sound, fun earlier a later reason hattempts hfails => ?_, rfl, ?_,
    flush_or_reported⟩
  · have ha : a ∈ w.attempts := by simp [hattempts]
    refine ⟨contains_attempt hw ha hfails,
      Attempt.scheduler_of_error (reserved_applier w.vars) hfails, fun r hr => ?_⟩
    have hwaits := Table.mem_keys_iff.2 (Option.isSome_of_eq_some hr)
    refine (Drain.attempted_or_left (reserved_applier w.vars) hinUse hattempts hfails
      hwaits).imp_right fun hleft => ?_
    rw [queue_drain]
    exact Table.mem_keys_iff.1 hleft
  · have hend : w.drain.2.scheduler.InUse :=
      Op.inUse_apply (.drain (applier w.vars) w.bench) hinUse
    rw [← show w.scheduler.settings = settings.propagation from hreaches.settings]
    refine (Drain.attempts_full _ _).imp_right fun ⟨q, hpop⟩ => ?_
    rw [← queue_drain] at hpop
    exact Queue.size_of_pop_none hpop hend.orderly.banded

/-- Of four requests that wait the second fails, since its formula reads a variable that is gone;
the third is attempted after it, and the fourth is left. -/
theorem failure_among_waiting_requests :
    let o : Object := { id := "a", name := "a", properties := [("y", .leaf (.string "s"))] }
    let settings : Settings :=
      { evaluation := { maxErrors := 1 }, propagation := { maxServed := 3 } }
    let w := (new .builtin (Scene.insert {} o) settings .still ()).perform
      [.act (.defineVariable "v" .global none (.string "s")), .act (.setFormula "a" "x" "$v"),
        .act .drain, .act (.deleteVariable "v" .global none),
        .act (.setValue "a" "y" (.string "t") .normal),
        .act (.setValue "a" "z" (.string "t") .normal)]
    w.drain.1.failed = [⟨4, 3, ⟨"a", "x"⟩, .failed "a.x: undefined variable: $v"⟩] ∧
      w.attempts.map (fun a => a.request.id) = [3, 4, 5] ∧ w.drain.1.remaining = 1 ∧
      (w.drain.2.formula? "a" "x").map (fun f => (f.lastValue, f.failing, f.errors)) =
        some (some (.string "s"), true, [.lookup (.noVariable "v")]) ∧
      ∀ earlier a later reason, w.attempts = earlier ++ a :: later →
        a.result (applier w.vars) = .error reason →
        a.before.state.Contains w.vars 1 a.request reason (a.after (applier w.vars)).state := by
  intro o settings w
  have hkeyed : (Scene.insert {} o).objects.Keyed := ObjectTable.Keyed.empty.insert o
  obtain ⟨-, hcontained, -⟩ := failures_contained .builtin (Scene.insert {} o) settings .still ()
    hkeyed [.act (.defineVariable "v" .global none (.string "s")), .act (.setFormula "a" "x" "$v"),
      .act .drain, .act (.deleteVariable "v" .global none),
      .act (.setValue "a" "y" (.string "t") .normal),
      .act (.setValue "a" "z" (.string "t") .normal)]
  exact ⟨by decide +kernel, by decide +kernel, by decide +kernel, by decide +kernel,
    fun earlier a later reason hattempts hfails =>
      (hcontained earlier a later reason hattempts hfails).1⟩

end Workbench

end Parametric
