import Parametric.Proofs.Scene.Boxes
import Parametric.Proofs.Workbench.Asked

/-!
# What requests contribute

A request that is served leaves the scene as it is, writes a value into its target, or is carried
out by the scene (`Bench.Served`, `Bench.apply_served`). So it tells of every box that it changes,
if it is truthful (`Bench.Served.carries`), and what comes of it does not depend on the bounds that
are recorded for containers.
-/

namespace Parametric

namespace Request

/-- A request that is no recompute is about what its kind and its payload say. -/
def Addressed (r : Request) : Prop :=
  r.kind ≠ .recompute → r.kind.target r.target.object r.payload = .ok r.target

theorem stable_addressed : Stable Addressed := by
  refine ⟨fun r hr hne => absurd hr hne, fun r priority payload _ hr hne => ?_⟩
  have haddressed := hr hne
  have hexternal : r.payload.isRecompute = false := by
    cases hpayload : r.payload with
    | recompute =>
      rw [hpayload] at haddressed
      cases hkind : r.kind <;> rw [hkind] at haddressed <;>
        first | cases haddressed | exact absurd hkind hne
    | _ => rfl
  have hsame : (r.absorb priority payload).payload = r.payload := by
    simp [absorb, hexternal]
  rw [hsame]
  exact haddressed

theorem addressed_of_target {id : RequestId} {c : Change} {target : Entity}
    (h : c.kind.target c.object c.payload = .ok target) :
    Addressed ⟨id, id, target, c.kind, c.payload, c.priority, .queued⟩ := by
  intro hne
  have hobject : target.object = c.object := by
    cases hkind : c.kind <;> cases hpayload : c.payload <;>
      rw [hkind, hpayload] at h <;> cases h <;> rfl
  rw [show (⟨id, id, target, c.kind, c.payload, c.priority, .queued⟩ : Request).target.object =
    c.object from hobject]
  exact h

variable {r : Request}

theorem Addressed.named (h : r.Addressed) : r.Named := by
  intro hkind name value hpayload
  have haddressed := h (by simp [hkind])
  rw [hkind, hpayload] at haddressed
  exact congrArg Entity.property (Except.ok.inj haddressed)

/-- A request about a property that places its object reports a change of the property, or
evaluates it. -/
theorem Addressed.of_geometry (h : r.Addressed) (hname : r.target.property ∈ Names.geometry) :
    r.kind = .recompute ∨
      r.kind = .property ∧ ∃ value, r.payload = .property r.target.property value := by
  have hnone : ∀ name ∉ Names.geometry,
      Except.ok (ε := ScheduleError) (⟨r.target.object, name⟩ : Entity) ≠ .ok r.target := by
    intro name hn heq
    rw [← Except.ok.inj heq] at hname
    exact hn hname
  have hsize : Names.size ∉ Names.geometry := by decide
  have hlayout : Names.layout ∉ Names.geometry := by decide
  have hchildren : Names.children ∉ Names.geometry := by decide
  cases hkind : r.kind with
  | recompute => exact .inl rfl
  | property =>
    have haddressed := h (by simp [hkind])
    cases hpayload : r.payload <;> rw [hkind, hpayload] at haddressed <;>
      first | cases haddressed | skip
    next name value =>
      have hname : name = r.target.property := congrArg Entity.property (Except.ok.inj haddressed)
      exact .inr ⟨rfl, value, hname ▸ rfl⟩
  | size =>
    have haddressed := h (by simp [hkind])
    cases hpayload : r.payload <;> rw [hkind, hpayload] at haddressed <;>
      first | exact absurd haddressed (hnone _ hsize) | cases haddressed
  | layout =>
    have haddressed := h (by simp [hkind])
    cases hpayload : r.payload <;> rw [hkind, hpayload] at haddressed <;>
      first | exact absurd haddressed (hnone _ hlayout) | cases haddressed
  | hierarchy =>
    have haddressed := h (by simp [hkind])
    cases hpayload : r.payload <;> rw [hkind, hpayload] at haddressed <;>
      first | exact absurd haddressed (hnone _ hchildren) | cases haddressed

end Request

/-- What an answer contributes to a container. -/
def told : Except ApplyError Outcome → Option Contribution
  | .ok outcome => outcome.bounds
  | .error _ => none

namespace Workbench.Bench

open Scene

variable {σ : Type} {b : Bench σ} {r : Request} {vars : VariableTable} {s s' : Scene}
  {result : Except ApplyError Outcome} {left : Option ObjectId}

/-- What serving a request answers, which container it leaves, and what it makes of the scene. -/
inductive Served (s : Scene) (r : Request) :
    Except ApplyError Outcome → Option ObjectId → Scene → Prop
  /-- The scene stays, though the request may have failed. -/
  | kept {result : Except ApplyError Outcome} (hnone : told result = none)
      (hwhy : r.target.isVariable ∨ r.kind = .recompute ∨ s.get? r.target.object = none ∨
        ∃ e, result = .error e ∧ (r.Evaluates ∨ s.applyChange r = .error e)) :
      Served s r result none s
  /-- The value of the formula of the target is written. -/
  | written {v : Value} {bounds : Option Contribution} {s' : Scene} (hr : r.Evaluates)
      (hwrite : s.write r.target v = .ok (bounds, s')) : Served s r (.ok ⟨some v, bounds⟩) none s'
  /-- The scene carries the change out. -/
  | changed {outcome : Outcome} {s' : Scene} (hchange : s.applyChange r = .ok (outcome, s')) :
      Served s r (.ok outcome) (s.vacated? r) s'

/-- A request tells of all that it does to boxes, if it is truthful. -/
theorem Served.carries (h : Served s r result left s') (hkeyed : s.objects.Keyed)
    (hlisted : s.objects.Listed) (hnamed : r.Named) (htruthful : r.Truthful s s') :
    Carries r.target.object (told result) left s s' := by
  cases h with
  | kept hnone => exact hnone ▸ .refl hkeyed hlisted _
  | written hr hwrite => exact carries_write hkeyed hlisted hwrite (htruthful.writes hr)
  | changed hchange => exact carries_applyChange hkeyed hlisted hchange hnamed htruthful

/-! ## Applying a request -/

/-- The same with other records of the bounds of containers. -/
def booked (b : Bench σ) (records : Table ObjectId Bounds) (n : Nat) : Bench σ :=
  { b with scene := b.scene.booked records n }

theorem invalidate_booked (b : Bench σ) (records : Table ObjectId Bounds) (n : Nat)
    (object : ObjectId) :
    (b.booked records n).invalidate object = (b.invalidate object).booked records n := by
  unfold invalidate
  rw [show (b.booked records n).scene.objects = b.scene.objects from rfl]
  cases b.scene.objects.containerOf? object <;> rfl

theorem scene_invalidate (b : Bench σ) (object : ObjectId) :
    (b.invalidate object).scene = b.scene := by
  unfold invalidate
  cases b.scene.objects.containerOf? object <;> rfl

/-- The formula of a target is evaluated, and its value written, whatever the records are. -/
theorem evaluate_served (b : Bench σ) (vars : VariableTable) (hr : r.Evaluates) :
    (∀ records n, (b.booked records n).evaluate vars r.target =
      ((b.evaluate vars r.target).1, (b.evaluate vars r.target).2.booked records n)) ∧
    match b.evaluate vars r.target with
    | (.error e, b') => Served b.scene r (.error e) none b'.scene
    | (.ok (some outcome), b') => Served b.scene r (.ok outcome) none b'.scene
    | (.ok none, b') => b'.scene = b.scene := by
  have hsame : ∀ records n, (b.booked records n).formulas = b.formulas ∧
      (b.booked records n).calculator = b.calculator ∧
      (b.booked records n).scene.objects = b.scene.objects := fun _ _ => ⟨rfl, rfl, rfl⟩
  unfold evaluate
  simp only [hsame]
  cases b.formulas[r.target]? with
  | none => exact ⟨fun _ _ => rfl, rfl⟩
  | some f =>
    dsimp only
    cases b.calculator.evaluateCached f ⟨b.scene.objects, vars⟩
      (.ofObject b.scene.objects r.target.object) with
    | mk value rest =>
      obtain ⟨f', calculator⟩ := rest
      cases value with
      | error e => exact ⟨fun _ _ => rfl, .kept rfl (.inr (.inr (.inr ⟨_, rfl, .inl hr⟩)))⟩
      | ok v =>
        have hbooked : ∀ records n, Scene.write (booked b records n).scene r.target v =
            (b.scene.write r.target v).map fun written => (written.1, written.2.booked records n) :=
          fun records n => b.scene.write_booked records n r.target v
        dsimp only
        simp only [hbooked]
        cases hwrite : b.scene.write r.target v with
        | error e => exact ⟨fun _ _ => rfl, .kept rfl (.inr (.inr (.inr ⟨_, rfl, .inl hr⟩)))⟩
        | ok written => exact ⟨fun _ _ => rfl, .written hr hwrite⟩

/-- What no formula drives is left to the scene, whatever the records are. -/
theorem applyPlain_served (b : Bench σ) (hkeyed : b.scene.objects.Keyed) (r : Request) :
    ∃ left, Served b.scene r (b.applyPlain r).1 left (b.applyPlain r).2.scene ∧
      ∀ records n, ∃ n', (b.booked records n).applyPlain r = ((b.applyPlain r).1,
        (b.applyPlain r).2.booked ((b.applyPlain r).2.scene.recorded records left) n') := by
  -- The records are no part of what a request is ignored for.
  by_cases hignores : b.Ignores r
  · rw [applyPlain_of_ignores hignores]
    exact ⟨none, .kept rfl (.inr (hignores.imp_right fun h => .inl h.1)),
      fun records n => ⟨n, applyPlain_of_ignores (b := b.booked records n) hignores⟩⟩
  · rw [applyPlain_of_not_ignores hignores]
    cases hchange : b.scene.applyChange r with
    | error e =>
      refine ⟨none, .kept rfl (.inr (.inr (.inr ⟨e, rfl, .inr hchange⟩))), fun records n => ⟨n, ?_⟩⟩
      obtain ⟨n', hbooked⟩ := applyChange_booked hkeyed r records n
      rw [applyPlain_of_not_ignores (b := b.booked records n) hignores,
        show (b.booked records n).scene = b.scene.booked records n from rfl, hbooked, hchange]
      rfl
    | ok changed =>
      refine ⟨b.scene.vacated? r, .changed hchange, fun records n => ?_⟩
      obtain ⟨n', hbooked⟩ := applyChange_booked hkeyed r records n
      refine ⟨n', ?_⟩
      rw [applyPlain_of_not_ignores (b := b.booked records n) hignores,
        show (b.booked records n).scene = b.scene.booked records n from rfl, hbooked, hchange]
      rfl

/-- What comes of a request does not depend on the records, and neither does what it does to them.
-/
theorem apply_served (b : Bench σ) (hkeyed : b.scene.objects.Keyed) (vars : VariableTable)
    (r : Request) :
    ∃ left, Served b.scene r (b.apply vars r).1 left (b.apply vars r).2.scene ∧
      ∀ records n, ∃ n', (b.booked records n).apply vars r = ((b.apply vars r).1,
        (b.apply vars r).2.booked ((b.apply vars r).2.scene.recorded records left) n') := by
  unfold apply
  by_cases hvariable : r.target.isVariable
  · simp only [hvariable, if_true]
    exact ⟨none, .kept rfl (.inl hvariable), fun _ n => ⟨n, rfl⟩⟩
  · simp only [hvariable, Bool.false_eq_true, if_false, invalidate_booked]
    have hscene := b.scene_invalidate r.target.object
    generalize b.invalidate r.target.object = b' at hscene
    have hplain := b'.applyPlain_served (hscene ▸ hkeyed) r
    rw [hscene] at hplain
    by_cases hr : r.kind = .recompute ∨ r.kind = .property
    · obtain ⟨hbooked, hserved⟩ := b'.evaluate_served vars hr
      simp only [if_pos hr, hbooked]
      rw [hscene] at hserved
      cases heval : b'.evaluate vars r.target with
      | mk value b'' =>
        rw [heval] at hserved
        cases value with
        | error e => exact ⟨none, hserved, fun _ n => ⟨n, rfl⟩⟩
        | ok outcome =>
          cases outcome with
          | some outcome => exact ⟨none, hserved, fun _ n => ⟨n, rfl⟩⟩
          | none =>
            have hplain := b''.applyPlain_served (by rw [hserved]; exact hkeyed) r
            rwa [show b''.scene = b.scene from hserved] at hplain
    · simp only [if_neg hr]
      exact hplain

end Workbench.Bench

namespace Workbench

open Scheduler

variable {σ : Type} {vars : VariableTable} {d : Drain (Bench σ)}

/-! ## The requests of a drain -/

/-- A request that was served, between the scene before it and the scene after it. -/
structure Passage where
  request : Request
  before : Scene
  after : Scene

/-- The request moved its object openly, and wrote the numbers that place it under their names. -/
def Passage.Truthful (p : Passage) : Prop := p.request.Truthful p.before p.after

/-- The requests that are served until none waits or `limit` are served. -/
def passagesFrom (vars : VariableTable) : Nat → Drain (Bench σ) → List Passage
  | 0, _ => []
  | limit + 1, d =>
    let s := d.scheduler.readInbox
    match s.queue.pop with
    | (none, _) => []
    | (some r, queue) =>
      ⟨r, d.state.scene, (d.state.apply vars r).2.scene⟩ :: passagesFrom vars limit
        (Drain.serve (applier vars) { d with scheduler := { s with queue } } r)

/-- The requests that a drain serves. -/
def passages (w : Workbench σ) : List Passage :=
  passagesFrom w.vars w.scheduler.settings.maxServed ⟨w.scheduler, w.bench, {}⟩

/-- Serving a request that fails. -/
theorem serve_of_error {r : Request} {e : ApplyError} (h : (d.state.apply vars r).1 = .error e) :
    Drain.serve (applier vars) d r = { d with
      state := (d.state.apply vars r).2
      report := { d.report with failed := d.report.failed ++ [⟨r.id, r.root, r.target, e⟩] } } := by
  have hrun : ((applier vars).apply { r with state := .processing } d.state).run d.scheduler.inbox =
      ((d.state.apply vars r).1, (d.state.apply vars r).2, d.scheduler.inbox) := rfl
  unfold Drain.serve
  rw [hrun, h]

/-- A drain in which a request was applied, with the outcome and what its consequences are. -/
def appliedTo (d : Drain (Bench σ)) (vars : VariableTable) (r : Request) (o : Outcome) :
    Drain (Bench σ) :=
  { state := (d.state.apply vars r).2
    scheduler := d.scheduler.cascade r o
    report := d.report }

/-- A drain that reports a request as applied. -/
def reporting (d : Drain (Bench σ)) (r : Request) : Drain (Bench σ) :=
  { d with report := { d.report with
    applied := d.report.applied ++ [⟨r.id, r.root, r.target⟩] } }

/-- Serving a request that is applied and contributes nothing. -/
theorem serve_of_none {r : Request} {value : Option Value}
    (h : (d.state.apply vars r).1 = .ok ⟨value, none⟩) :
    Drain.serve (applier vars) d r = reporting (appliedTo d vars r ⟨value, none⟩) r := by
  have hrun : ((applier vars).apply { r with state := .processing } d.state).run d.scheduler.inbox =
      ((d.state.apply vars r).1, (d.state.apply vars r).2, d.scheduler.inbox) := rfl
  unfold Drain.serve
  rw [hrun, h]
  rfl

/-- Serving a request that is applied and contributes bounds. -/
theorem serve_of_some {r : Request} {value : Option Value} {k : Contribution}
    (h : (d.state.apply vars r).1 = .ok ⟨value, some k⟩) :
    Drain.serve (applier vars) d r =
      reporting ((appliedTo d vars r ⟨value, some k⟩).contribute (applier vars) k) r := by
  have hrun : ((applier vars).apply { r with state := .processing } d.state).run d.scheduler.inbox =
      ((d.state.apply vars r).1, (d.state.apply vars r).2, d.scheduler.inbox) := rfl
  unfold Drain.serve
  rw [hrun, h]
  rfl

/-- Recalculating a container from bounds that its children confirm records the box around them; a
container that is gone is refused. -/
theorem flush_spec (vars : VariableTable) {c : ObjectId} {latest : ChildBounds}
    (hlatest : (d.state.scene.get? c).isSome → d.state.scene.Confirms c latest) :
    (d.flush (applier vars) c latest).scheduler = d.scheduler ∧
    (d.flush (applier vars) c latest).report.applied = d.report.applied ∧
    (d.flush (applier vars) c latest).report.failed = d.report.failed ∧
    ∃ n, (d.flush (applier vars) c latest).state = d.state.booked
      (d.state.scene.refreshed d.state.scene.containerBounds c) n := by
  unfold Drain.flush Scene.refreshed
  rw [show (applier vars).applyBounds c latest d.state = d.state.applyBounds c latest from rfl]
  unfold Bench.applyBounds Scene.applyBounds Scene.require
  cases hthere : d.state.scene.get? c with
  | none => exact ⟨rfl, rfl, rfl, d.state.scene.recalculations, rfl⟩
  | some o =>
    have hsome : (d.state.scene.get? c).isSome := by rw [hthere]; rfl
    refine ⟨rfl, rfl, rfl, d.state.scene.recalculations + 1, ?_⟩
    simp only [bind, Except.bind, pure, Except.pure, Scene.recalculate_eq (hlatest hsome)]
    rfl

/-- At the end of a drain the containers that wait are recalculated. -/
theorem flushAll_spec (vars : VariableTable)
    (hlatest : ∀ c latest, d.scheduler.bounds.parents[c]? = some latest →
      (d.state.scene.get? c).isSome → d.state.scene.Confirms c latest) :
    (d.flushAll (applier vars)).scheduler = { d.scheduler with bounds := {} } ∧
    (d.flushAll (applier vars)).report.applied = d.report.applied ∧
    (d.flushAll (applier vars)).report.failed = d.report.failed ∧
    ∃ n, (d.flushAll (applier vars)).state = d.state.booked
      (d.scheduler.bounds.parents.keys.foldl d.state.scene.refreshed
        d.state.scene.containerBounds) n := by
  have hlist : ∀ p ∈ d.scheduler.bounds.parents.toList, (d.state.scene.get? p.1).isSome →
      d.state.scene.Confirms p.1 p.2 := fun p hp =>
    hlatest p.1 p.2 (Std.ExtTreeMap.mem_toList_iff_getElem?_eq_some.1 hp)
  rw [← Std.ExtTreeMap.map_fst_toList_eq_keys, List.foldl_map]
  unfold Drain.flushAll
  dsimp only
  generalize d.scheduler.bounds.parents.toList = parents at hlist
  generalize hemptied : { d with scheduler := { d.scheduler with bounds := {} } } = emptied
  have hscheduler : emptied.scheduler = { d.scheduler with bounds := {} } := by rw [← hemptied]
  have hstate : emptied.state = d.state := by rw [← hemptied]
  have hreport : emptied.report = d.report := by rw [← hemptied]
  rw [← hscheduler, ← hstate, ← hreport]
  rw [← hstate] at hlist
  clear hscheduler hstate hreport hemptied
  induction parents generalizing emptied with
  | nil => exact ⟨rfl, rfl, rfl, emptied.state.scene.recalculations, rfl⟩
  | cons p parents ih =>
    obtain ⟨hp, hrest⟩ := List.forall_mem_cons.1 hlist
    obtain ⟨hscheduler, happlied, hfailed, n, hstate⟩ := flush_spec vars hp
    obtain ⟨hscheduler', happlied', hfailed', n', hstate'⟩ :=
      ih (emptied.flush (applier vars) p.1 p.2) (by rw [hstate]; exact hrest)
    refine ⟨hscheduler'.trans hscheduler, happlied'.trans happlied, hfailed'.trans hfailed, n', ?_⟩
    rw [List.foldl_cons, List.foldl_cons, hstate', hstate]
    rfl

/-- What is left of a drain: its report, and the workbench after it. -/
def finished (w : Workbench σ) (done : Report × Scheduler × Bench σ) : Report × Workbench σ :=
  (done.1, { w with
    scheduler := done.2.1
    calculator :=
      if 0 < done.1.remaining then done.2.2.calculator.clearCaches else done.2.2.calculator
    formulas := done.2.2.formulas
    scene := done.2.2.scene })

/-- A drain serves requests, recalculates the containers that wait, and finishes. -/
theorem drain_eq (w : Workbench σ) : w.drain = finished w (Drain.flushAll (applier w.vars)
    (Drain.serveAll (applier w.vars) w.scheduler.settings.maxServed
      ⟨w.scheduler, w.bench, {}⟩)).finish := rfl

end Workbench

end Parametric
