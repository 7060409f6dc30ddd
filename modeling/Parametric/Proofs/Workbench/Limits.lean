import Parametric.Proofs.Update.Split
import Parametric.Proofs.Workbench.Coalescing
import Parametric.Proofs.Workbench.Interference
import Parametric.Proofs.Workbench.Recovery

/-!
# The limit of a drain

A request finds nothing in the caches: the results and the answers that its formula could recall are
dropped before the formula is evaluated (`Bench.invalidate`). So neither what is cached nor what is
recorded for containers matters to what comes of it (`Bench.Alike`, `Bench.Alike.apply`), and with
any limit drains one after another do what one drain does (`pieces`, `limit_splits_drains`).
-/

namespace Parametric

namespace Calculator

variable {σ : Type} {settings : EvaluationSettings} {c c' : Calculator σ}

/-- A calculator has the built-in functions and given settings, and nothing cached that an
evaluation for an object could recall. -/
structure Blank (settings : EvaluationSettings) (object : ObjectId) (container : Option ObjectId)
    (c : Calculator σ) : Prop extends c.Standard settings where
  misses : c.Misses object
  unasked : ∀ x, x = object ∨ container = some x → c.Unasked x

/-- An evaluation that can recall nothing gives the value of the tree and notes it. -/
theorem evaluateCached_of_blank (stores : Stores) (hkeyed : stores.objects.Keyed)
    (htimeout : 0 < settings.timeout) {object : ObjectId}
    (h : c.Blank settings object (stores.objects.containerOf? object)) {f : Formula}
    (hsettled : f.settled? = none) :
    let view := Viewpoint.ofObject stores.objects object
    let result := (c.evaluator stores view 0).value f.tree 1
    (c.evaluateCached f stores view).1 = result ∧
      (c.evaluateCached f stores view).2.1 = c.note f result := by
  intro view result
  have hmisses : c.Misses view.object := by
    rw [Viewpoint.object_ofObject]
    exact h.misses
  have hbudget : 0 < c.settings.timeout := by
    rw [h.settings]
    exact htimeout
  have hfree : Evaluator.HostFree c.functions := by
    rw [h.functions]
    exact fun _ _ hg => Registry.hostFree_builtin hg
  have hrun : c.evaluateCached f stores view = ((c.evaluateCached f stores view).1,
      (c.evaluateCached f stores view).2.1, (c.evaluateCached f stores view).2.2) := rfl
  have hresult : _ = result := (evaluateCached_of_misses hbudget hfree hmisses
    (fun n _ => c.asksAt_nearby stores hkeyed object 0 n)
    (fun key entry hentry hasked => by rw [h.unasked _ hasked key rfl] at hentry; cases hentry)
    (fun v hv => by rw [hsettled] at hv; cases hv) hrun).1
  refine ⟨hresult, ?_⟩
  rw [← hresult]
  unfold evaluateCached
  rw [hsettled]
  dsimp only
  rw [Cache.get_of_eq_none (hmisses _ rfl)]
  rfl

/-- Evaluations that can recall nothing do the same. -/
theorem evaluateCached_congr (stores : Stores) (hkeyed : stores.objects.Keyed)
    (htimeout : 0 < settings.timeout) {object : ObjectId}
    (h : c.Blank settings object (stores.objects.containerOf? object))
    (h' : c'.Blank settings object (stores.objects.containerOf? object)) (f : Formula) :
    let view := Viewpoint.ofObject stores.objects object
    (c'.evaluateCached f stores view).1 = (c.evaluateCached f stores view).1 ∧
      (c'.evaluateCached f stores view).2.1 = (c.evaluateCached f stores view).2.1 := by
  intro view
  cases hsettled : f.settled? with
  | some v =>
    unfold evaluateCached
    rw [hsettled]
    exact ⟨rfl, rfl⟩
  | none =>
    obtain ⟨hresult, hnoted⟩ := evaluateCached_of_blank stores hkeyed htimeout h hsettled
    obtain ⟨hresult', hnoted'⟩ := evaluateCached_of_blank stores hkeyed htimeout h' hsettled
    have hvalue : (c'.evaluator stores view 0).value f.tree 1 =
        (c.evaluator stores view 0).value f.tree 1 := by
      unfold evaluator
      rw [h.functions, h'.functions, h.settings, h'.settings]
    rw [hresult, hnoted, hresult', hnoted', hvalue]
    refine ⟨rfl, ?_⟩
    unfold note
    rw [h.settings, h'.settings]

theorem Standard.evaluateCached (h : c.Standard settings) (f : Formula) (stores : Stores)
    (view : Viewpoint) : (c.evaluateCached f stores view).2.2.Standard settings :=
  let ⟨_, hfunctions, hsettings⟩ :=
    evaluateCached_core (show c.evaluateCached f stores view = (_, _, _) from rfl)
  ⟨hfunctions.trans h.functions, hsettings.trans h.settings⟩

end Calculator

namespace Workbench

open Scheduler

variable {σ : Type} {settings : EvaluationSettings} {w : Workbench σ}

namespace Bench

variable {vars : VariableTable} {b b' b'' : Bench σ} {r : Request}

/-! ## Another calculator -/

/-- The same bench with another calculator. -/
def reckoning (b : Bench σ) (calculator : Calculator σ) : Bench σ := { b with calculator }

theorem applyPlain_reckoning (b : Bench σ) (c : Calculator σ) (r : Request) :
    (b.reckoning c).applyPlain r = ((b.applyPlain r).1, (b.applyPlain r).2.reckoning c) := by
  unfold applyPlain
  rw [show (b.reckoning c).scene = b.scene from rfl]
  split
  · rfl
  · dsimp only
    split <;> split <;> first | rfl | cases b.scene.applyChange r <;> rfl

theorem applyPlain_calculator (b : Bench σ) (r : Request) :
    (b.applyPlain r).2.calculator = b.calculator := by
  have hsame := b.applyPlain_reckoning b.calculator r
  rw [show b.reckoning b.calculator = b from rfl] at hsame
  rw [hsame]
  rfl

/-- The formula of a property gives the same with every calculator that can recall nothing. -/
theorem evaluate_reckoning (hkeyed : b.scene.objects.Keyed) (htimeout : 0 < settings.timeout)
    {target : Entity} {c : Calculator σ}
    (h : b.calculator.Blank settings target.object (b.scene.objects.containerOf? target.object))
    (hc : c.Blank settings target.object (b.scene.objects.containerOf? target.object))
    (vars : VariableTable) :
    (b.evaluate vars target).2.calculator.Standard settings ∧
      ∃ c' : Calculator σ, c'.Standard settings ∧ (b.reckoning c).evaluate vars target =
        ((b.evaluate vars target).1, (b.evaluate vars target).2.reckoning c') := by
  unfold evaluate
  rw [show (b.reckoning c).formulas = b.formulas from rfl,
    show (b.reckoning c).scene = b.scene from rfl,
    show (b.reckoning c).calculator = c from rfl]
  cases b.formulas[target]? with
  | none => exact ⟨h.toStandard, c, hc.toStandard, rfl⟩
  | some f =>
    dsimp only
    obtain ⟨hresult, hformula⟩ :=
      Calculator.evaluateCached_congr ⟨b.scene.objects, vars⟩ hkeyed htimeout h hc f
    have hafter := h.toStandard.evaluateCached f ⟨b.scene.objects, vars⟩
      (.ofObject b.scene.objects target.object)
    have hafter' := hc.toStandard.evaluateCached f ⟨b.scene.objects, vars⟩
      (.ofObject b.scene.objects target.object)
    rw [hresult, hformula]
    cases (b.calculator.evaluateCached f ⟨b.scene.objects, vars⟩
      (.ofObject b.scene.objects target.object)).1 with
    | error e => exact ⟨hafter, _, hafter', rfl⟩
    | ok v =>
      dsimp only
      cases b.scene.write target v with
      | error e => exact ⟨hafter, _, hafter', rfl⟩
      | ok written => exact ⟨hafter, _, hafter', rfl⟩

/-- When the caches are dropped an evaluation can recall nothing. -/
theorem invalidate_blank (h : b.calculator.Standard settings) (object : ObjectId) :
    ∃ c : Calculator σ, b.invalidate object = b.reckoning c ∧
      c.Blank settings object (b.scene.objects.containerOf? object) := by
  obtain ⟨c, heq, hkept, hmisses, hunasked⟩ := b.invalidate_spec object
  exact ⟨c, heq, ⟨⟨hkept.functions.trans h.functions, hkept.settings.trans h.settings⟩, hmisses,
    hunasked⟩⟩

/-- What comes of a request does not depend on what is cached. -/
theorem apply_reckoning (hkeyed : b.scene.objects.Keyed) (htimeout : 0 < settings.timeout)
    {c : Calculator σ} (h : b.calculator.Standard settings) (hc : c.Standard settings)
    (vars : VariableTable) (r : Request) :
    (b.apply vars r).2.calculator.Standard settings ∧
      ∃ c' : Calculator σ, c'.Standard settings ∧ (b.reckoning c).apply vars r =
        ((b.apply vars r).1, (b.apply vars r).2.reckoning c') := by
  unfold apply
  by_cases hvariable : r.target.isVariable
  · simp only [hvariable, if_true]
    exact ⟨h, c, hc, rfl⟩
  · rw [if_neg hvariable, if_neg hvariable]
    obtain ⟨c₁, heq, hblank⟩ := invalidate_blank h r.target.object
    obtain ⟨c₁', heq', hblank'⟩ := invalidate_blank (b := b.reckoning c) hc r.target.object
    rw [heq, heq']
    rw [show (b.reckoning c).reckoning c₁' = (b.reckoning c₁).reckoning c₁' from rfl]
    dsimp only
    by_cases hr : r.kind = .recompute ∨ r.kind = .property
    · rw [if_pos hr, if_pos hr]
      obtain ⟨hafter, c', hc', hevaluate⟩ := evaluate_reckoning (b := b.reckoning c₁) hkeyed
        htimeout hblank hblank' vars
      rw [hevaluate]
      cases heval : (b.reckoning c₁).evaluate vars r.target with
      | mk value after =>
        rw [heval] at hafter
        cases value with
        | error e => exact ⟨hafter, c', hc', rfl⟩
        | ok outcome =>
          cases outcome with
          | some outcome => exact ⟨hafter, c', hc', rfl⟩
          | none =>
            exact ⟨by rw [applyPlain_calculator]; exact hafter, c', hc',
              after.applyPlain_reckoning c' r⟩
    · rw [if_neg hr, if_neg hr]
      exact ⟨by rw [applyPlain_calculator]; exact hblank.toStandard, c₁', hblank'.toStandard,
        (b.reckoning c₁).applyPlain_reckoning c₁' r⟩

/-! ## Benches that are alike -/

/-- Two benches with the built-in functions and given settings that differ at most in what is cached
and recorded. -/
structure Alike (settings : EvaluationSettings) (b b' : Bench σ) : Prop where
  calculator : b.calculator.Standard settings
  calculator' : b'.calculator.Standard settings
  keyed : b.scene.objects.Keyed
  objects : b'.scene.objects = b.scene.objects
  formulas : b'.formulas = b.formulas

/-- Serving a request keeps every object under its identifier. -/
theorem Served.keyed {s s' : Scene} {result : Except ApplyError Outcome} {left : Option ObjectId}
    (h : Served s r result left s') (hs : s.objects.Keyed) : s'.objects.Keyed := by
  cases h with
  | kept => exact hs
  | written _ hwrite => exact hs.of_shape (Scene.shape_write hwrite)
  | changed hchange => exact (Scene.objects_applyChange hs hchange).1

namespace Alike

theorem refl (h : b.calculator.Standard settings) (hkeyed : b.scene.objects.Keyed) :
    Alike settings b b := ⟨h, h, hkeyed, rfl, rfl⟩

theorem symm (h : Alike settings b b') : Alike settings b' b :=
  ⟨h.calculator', h.calculator, h.objects ▸ h.keyed, h.objects.symm, h.formulas.symm⟩

theorem trans (h : Alike settings b b') (h' : Alike settings b' b'') : Alike settings b b'' :=
  ⟨h.calculator, h'.calculator', h.keyed, h'.objects.trans h.objects, h'.formulas.trans h.formulas⟩

/-- The same request does the same to benches that are alike. -/
theorem apply (h : Alike settings b b') (htimeout : 0 < settings.timeout) (vars : VariableTable)
    (r : Request) :
    (b'.apply vars r).1 = (b.apply vars r).1 ∧
      Alike settings (b.apply vars r).2 (b'.apply vars r).2 := by
  obtain ⟨hafter, c, hc, hreckoned⟩ := apply_reckoning h.keyed htimeout h.calculator h.calculator'
    vars r
  obtain ⟨left, -, hbooked⟩ := (b.reckoning b'.calculator).apply_served h.keyed vars r
  obtain ⟨n, happly⟩ := hbooked b'.scene.containerBounds b'.scene.recalculations
  have hsame : (b.reckoning b'.calculator).booked b'.scene.containerBounds
      b'.scene.recalculations = b' := by
    unfold reckoning booked Scene.booked
    rw [← h.objects, ← h.formulas]
  rw [hsame, hreckoned] at happly
  obtain ⟨left', hserved, -⟩ := b.apply_served h.keyed vars r
  rw [happly]
  exact ⟨rfl, hafter, hc, hserved.keyed h.keyed, rfl, rfl⟩

/-- Recalculating a container changes what is recorded. -/
theorem applyBounds (h : Alike settings b b') (parent : ObjectId) (children : ChildBounds) :
    Alike settings (b.applyBounds parent children).2 b' := by
  obtain ⟨scene, heq, hobjects⟩ := b.applyBounds_eq parent children
  rw [heq]
  exact ⟨h.calculator, h.calculator', hobjects ▸ h.keyed, h.objects.trans hobjects.symm, h.formulas⟩

/-- Clearing the caches changes what is cached. -/
theorem cleared (h : Alike settings b b') :
    Alike settings { b with calculator := b.calculator.clearCaches } b' :=
  ⟨⟨h.calculator.functions, h.calculator.settings⟩, h.calculator', h.keyed, h.objects, h.formulas⟩

end Alike

/-- A request does not notice what is cached and recorded. -/
theorem regards_applier (htimeout : 0 < settings.timeout) (vars : VariableTable) :
    (applier (σ := σ) vars).Regards (Alike settings) where
  reserved := reserved_applier vars
  symm := .symm
  trans := .trans
  apply h r _ := h.apply htimeout vars r
  bounds h := h.applyBounds

end Bench

/-! ## Drains with a limit -/

/-- The same workbench with another limit of its drains. -/
def limited (w : Workbench σ) (n : Nat) : Workbench σ :=
  { w with scheduler :=
      w.scheduler.tuned { w.scheduler.settings with maxServed := n } w.scheduler.bounds }

/-- Serving may start from here as far as from a workbench with an empty inbox. -/
abbrev AsFar (settings : EvaluationSettings) (w : Workbench σ) (d : Drain (Bench σ)) : Prop :=
  Drain.Level (Bench.Alike settings) ⟨w.scheduler.readInbox, w.bench, {}⟩ d

/-- A drain serves the next requests up to its limit, reports them, and leaves nothing to read. -/
theorem AsFar.drain {d : Drain (Bench σ)} (h : w.AsFar settings d)
    (htimeout : 0 < settings.timeout) (hs : w.scheduler.Sound) :
    let limit := w.scheduler.settings.maxServed
    w.drain.1.applied = (Drain.services (applier w.vars) limit d).filterMap Service.applied? ∧
      w.drain.1.failed = (Drain.services (applier w.vars) limit d).filterMap Service.failure? ∧
      w.drain.1.superseded = w.scheduler.readInbox.superseded ∧
      w.drain.2.scheduler.inbox.unread = [] ∧ w.drain.2.scheduler.superseded = [] ∧
      w.drain.2.AsFar settings (Drain.serveAll (applier w.vars) limit d) := by
  intro limit
  obtain ⟨happlied, hfailed, hsuperseded, hnone, hlevel⟩ :=
    Drain.level_drain (Bench.regards_applier htimeout w.vars) hs h
  have hread : w.drain.2.scheduler.readInbox = w.drain.2.scheduler := readInbox_eq hlevel.unread
  refine ⟨happlied, hfailed, hsuperseded, hlevel.unread, hnone, ?_⟩
  unfold AsFar
  rw [hread]
  refine ⟨hlevel.unread, hlevel.graph, hlevel.queue, hlevel.inbox, ?_⟩
  -- A drain that leaves requests ends by clearing the caches.
  unfold Workbench.drain bench
  dsimp only
  split
  · exact hlevel.state.cleared
  · exact hlevel.state

/-- Drains one after another report together what is served up to the sum of their limits. -/
theorem AsFar.drains {d : Drain (Bench σ)} (h : w.AsFar settings d)
    (htimeout : 0 < settings.timeout) (hs : w.scheduler.Sound) (k : Nat) :
    let limit := k * w.scheduler.settings.maxServed
    let reports := w.reports (List.replicate k (.act .drain))
    reports.flatMap Report.applied =
        (Drain.services (applier w.vars) limit d).filterMap Service.applied? ∧
      reports.flatMap Report.failed =
        (Drain.services (applier w.vars) limit d).filterMap Service.failure? ∧
      reports.flatMap Report.superseded =
        (if k = 0 then [] else w.scheduler.readInbox.superseded) ∧
      (w.drained k).AsFar settings (Drain.serveAll (applier w.vars) limit d) := by
  induction k generalizing w d with
  | zero =>
    dsimp only
    rw [Nat.zero_mul]
    have hzero : Drain.serveAll (applier w.vars) 0 d = d := by
      unfold Drain.serveAll
      rw [readInbox_eq (h.inbox ▸ h.unread)]
    rw [hzero]
    exact ⟨rfl, rfl, rfl, h⟩
  | succ k ih =>
    intro limit reports
    obtain ⟨happlied, hfailed, hsuperseded, hunread, hnone, hnext⟩ := h.drain htimeout hs
    obtain ⟨happlied', hfailed', hsuperseded', hlast⟩ := ih hnext (sound_run hs (.act .drain))
    have hsettings : w.drain.2.scheduler.settings = w.scheduler.settings :=
      (Op.drain (applier w.vars) w.bench).settings_apply w.scheduler
    have hlimit : limit = w.scheduler.settings.maxServed + k * w.scheduler.settings.maxServed := by
      rw [Nat.add_comm, ← Nat.succ_mul]
    obtain ⟨hservices, hall⟩ := Drain.serveAll_add (reserved_applier w.vars)
      w.scheduler.settings.maxServed (k * w.scheduler.settings.maxServed) (h.inbox ▸ h.unread)
    have hreports : reports = w.drain.1 :: w.drain.2.reports (List.replicate k (.act .drain)) := rfl
    rw [hsettings] at happlied' hfailed' hlast
    rw [hreports, hlimit, hservices, hall, List.flatMap_cons, List.flatMap_cons, List.flatMap_cons,
      List.filterMap_append, List.filterMap_append, happlied, hfailed, hsuperseded, happlied',
      hfailed', hsuperseded']
    refine ⟨rfl, rfl, ?_, hlast⟩
    rw [readInbox_eq hunread, hnone, ite_self, List.append_nil, if_neg (Nat.succ_ne_zero k)]

/-- A workbench with an empty inbox is idle when nothing waits where serving has come as far. -/
theorem AsFar.isIdle_iff {d : Drain (Bench σ)} (h : w.AsFar settings d)
    (hunread : w.scheduler.inbox.unread = []) :
    w.scheduler.isIdle ↔ d.scheduler.queue.size = 0 := by
  have hqueue := h.queue
  rw [readInbox_eq hunread] at hqueue
  rw [hqueue, isIdle, pending, hunread, List.length_nil, Nat.add_zero, decide_eq_true_iff]

/-- Take a workbench that operations led to. Drained with any limit that is not zero, it comes to
rest after some drains, and it comes to rest after one drain whose limit suffices. However many
drains with a limit it took, the drains together report the same requests as applied, failed and
withdrawn as the one drain, each with its root, its target and the reason, in the same order, and
both ways lead to the same objects in the same places and to the same formulas. -/
theorem limit_splits_drains (scene : Scene) (settings : Settings) (clock : Clock) (host : σ)
    (hscene : scene.objects.Keyed) (htimeout : 0 < settings.evaluation.timeout)
    (ops : List Operation) (n : Nat) (hn : 0 < n) :
    let w := (new .builtin scene settings clock host).perform ops
    (∃ k, ((w.limited n).drained k).scheduler.isIdle) ∧
    (∃ m, (w.limited m).drain.2.scheduler.isIdle) ∧
    ∀ k m, ((w.limited n).drained k).scheduler.isIdle →
      (w.limited m).drain.2.scheduler.isIdle →
      let pieces := (w.limited n).reports (List.replicate k (.act .drain))
      let whole := (w.limited m).drain
      pieces.flatMap Report.applied = whole.1.applied ∧
        pieces.flatMap Report.failed = whole.1.failed ∧
        pieces.flatMap Report.superseded = whole.1.superseded ∧
        ((w.limited n).drained k).scene.objects = whole.2.scene.objects ∧
        ((w.limited n).drained k).formulas = whole.2.formulas := by
  intro w
  have hstanding := standing_perform .builtin scene settings clock host hscene ops
  have hreaches : Reaches (fun _ => True) { settings := settings.propagation } w.scheduler :=
    reaches_perform (new .builtin scene settings clock host) ops
  have hinUse := hreaches.inUse (.new _)
  have hread := (readInbox_spec hinUse.sound).2.2.1
  let start : Drain (Bench σ) := ⟨w.scheduler.readInbox, w.bench, {}⟩
  have hstart : ∀ n, (w.limited n).AsFar settings.evaluation start := fun n => by
    unfold AsFar limited
    rw [readInbox_tuned]
    exact ⟨hread, rfl, rfl, rfl, .refl ⟨hstanding.functions, hstanding.settings⟩ hstanding.keyed⟩
  have hdrains : ∀ n k, _ := fun n k =>
    (hstart n).drains htimeout (hinUse.tuned _ _).sound k
  have hdrain : ∀ m, _ := fun m => (hstart m).drain htimeout (hinUse.tuned _ _).sound
  refine ⟨?_, ?_, fun k m hidle hidle' => ?_⟩
  · obtain ⟨k, hk⟩ := rests_of_inUse (w := w.limited n) (hinUse.tuned _ _) hn
    exact ⟨k, hk k le_rfl⟩
  · obtain ⟨k, hk⟩ := rests_of_inUse (w := w.limited n) (hinUse.tuned _ _) hn
    have hsize := ((hdrains n k).2.2.2.isIdle_iff (unread_of_isIdle (hk k le_rfl))).1 (hk k le_rfl)
    obtain ⟨-, -, -, hunread, -, hfar⟩ := hdrain (k * n)
    exact ⟨k * n, (hfar.isIdle_iff hunread).2 hsize⟩
  · intro pieces whole
    obtain ⟨happlied, hfailed, hsuperseded, hfar⟩ := hdrains n k
    obtain ⟨happlied', hfailed', hsuperseded', -, -, hfar'⟩ := hdrain m
    have hsize := (hfar.isIdle_iff (unread_of_isIdle hidle)).1 hidle
    have hsize' := (hfar'.isIdle_iff (unread_of_isIdle hidle')).1 hidle'
    obtain ⟨hservices, hstate⟩ :=
      Drain.serveAll_of_suffices (reserved_applier w.vars) hread hsize hsize'
    have halike := hfar.state.trans (hstate ▸ hfar'.state.symm)
    have hwithdrawn : ∀ n, (w.limited n).scheduler.readInbox.superseded =
        w.scheduler.readInbox.superseded := fun n => by
      unfold limited
      rw [readInbox_tuned]
      rfl
    refine ⟨happlied.trans ((congrArg _ hservices).trans happlied'.symm),
      hfailed.trans ((congrArg _ hservices).trans hfailed'.symm), ?_, halike.objects.symm,
      halike.formulas.symm⟩
    rw [hsuperseded, hsuperseded', hwithdrawn, hwithdrawn]
    split
    next hk =>
      subst hk
      have hidle : w.scheduler.isIdle := hidle
      rw [readInbox_eq (unread_of_isIdle hidle), hreaches.superseded hidle]
    next => rfl

/-- A value is written, and one formula after another follows it. Three drains that serve one
request each do what one drain does. -/
theorem three_drains_as_one :
    let a : Object := { id := "a", name := "a" }
    let scene : Scene := Scene.insert {} a
    let ops : List Operation := [.act (.setFormula "a" "y" "a.x"),
      .act (.setFormula "a" "z" "a.y"), .act (.setValue "a" "x" (.string "new") .normal)]
    let w : Workbench Unit := (new .builtin scene {} .still ()).perform ops
    let pieces := (w.limited 1).reports (List.replicate 3 (.act .drain))
    let whole := (w.limited 9).drain
    pieces.map Report.targets = [[⟨"a", "x"⟩], [⟨"a", "y"⟩], [⟨"a", "z"⟩]] ∧
      pieces.flatMap Report.applied = whole.1.applied ∧
      ((w.limited 1).drained 3).scene.objects = whole.2.scene.objects ∧
      whole.2.property? "a" "z" = some (.string "new") := by
  intro a scene ops w pieces whole
  have hscene : scene.objects.Keyed := (ObjectTable.InOrder.empty.insert a).keyed
  have hsame := (limit_splits_drains scene {} .still () hscene (by decide) ops 1 Nat.one_pos).2.2
    3 9 (by decide +kernel) (by decide +kernel)
  dsimp only [pieces, whole, w]
  refine ⟨?_, hsame.1, hsame.2.2.2.1, ?_⟩
  · decide +kernel
  · decide +kernel

end Workbench

end Parametric
