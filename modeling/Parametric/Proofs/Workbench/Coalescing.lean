import Parametric.Proofs.Workbench.Contributions
import Parametric.Proofs.Workbench.Staging
import Parametric.Proofs.Workbench.Tuned

/-!
# Bounds collected and bounds at once

Containers are recalculated as soon as something is contributed to them, or once at the end of a
drain for all that was collected. While a drain collects, the other way of doing it has recorded for
every container that waits the box around its children, and for every other one the same
(`Scene.Abreast`, `Scene.Abreast.carries`); at the end both have recorded the same
(`Scene.Abreast.refreshed`). So both ways lead to the same reports, objects, formulas, variables and
bounds, as long as requests are truthful (`coalesced_as_at_once`).
-/

namespace Parametric

/-- What a report says of requests, and not of bounds. -/
def Report.requests (r : Report) : Report := { r with boundsFlushed := 0, boundsFailed := [] }

/-- Settings under which a scheduler collects bounds until the end of a drain, or does not. -/
def Settings.collecting (settings : Settings) (collects : Bool) : Settings :=
  { settings with propagation := { settings.propagation with coalesceBounds := collects } }

namespace Scene

variable {s s' : Scene} {pending : Table ObjectId ChildBounds} {records : Table ObjectId Bounds}
  {x c : ObjectId} {told : Option Contribution} {left : Option ObjectId} {latest : ChildBounds}

/-! ## One scene with two records -/

/-- What is recorded when containers are recalculated at once, beside a scene for whose containers
bounds are pending: the boxes around the children of the containers that wait, and what the scene
has recorded for the others. -/
structure Abreast (pending : Table ObjectId ChildBounds) (records : Table ObjectId Bounds)
    (s : Scene) : Prop where
  waiting : ∀ {c latest}, pending[c]? = some latest → (s.get? c).isSome →
    records[c]? = some (s.around c) ∧ s.Confirms c latest
  others : ∀ {c}, pending[c]? = none ∨ s.get? c = none → records[c]? = s.containerBounds[c]?

namespace Abreast

theorem start (s : Scene) : s.Abreast ∅ s.containerBounds where
  waiting h := by simp at h
  others _ := rfl

/-- A request leaves the records abreast for all containers that it contributes nothing to. -/
theorem carries_others (h : s.Abreast pending records) (hlisted : s.objects.Listed)
    (hcarries : Carries x told left s s') :
    (∀ {c latest}, (∀ y b, told ≠ some ⟨c, y, b⟩) → pending[c]? = some latest →
      (s'.get? c).isSome →
      (s'.recorded records left)[c]? = some (s'.around c) ∧ s'.Confirms c latest) ∧
    ∀ {c}, pending[c]? = none ∨ s'.get? c = none →
      (s'.recorded records left)[c]? = s'.containerBounds[c]? := by
  refine ⟨fun {c latest} hnone hpending hthere => ?_, fun {c} hout => ?_⟩
  · rw [hcarries.isSome] at hthere
    obtain ⟨hrecord, hlatest⟩ := h.waiting hpending hthere
    refine ⟨?_, hcarries.confirms hlisted hlatest hnone⟩
    rw [getElem?_recorded]
    rcases hcarries.around hlisted hthere with hleft | ⟨y, b, htold⟩ | ⟨hchildren, hboxes⟩
    · rw [if_pos hleft]
    · exact absurd htold (hnone y b)
    · rw [hrecord, around_congr hchildren hboxes, ite_self]
  · have hout : pending[c]? = none ∨ s.get? c = none := hout.imp_right fun hgone => by
      rw [← Option.not_isSome_iff_eq_none, ← hcarries.isSome, hgone]
      simp
    rw [hcarries.records, getElem?_recorded, getElem?_recorded, h.others hout]

/-- A request that contributes nothing leaves the records abreast. -/
theorem carries_none (h : s.Abreast pending records) (hlisted : s.objects.Listed)
    (hcarries : Carries x none left s s') : s'.Abreast pending (s'.recorded records left) :=
  let ⟨hwaiting, hothers⟩ := h.carries_others hlisted hcarries
  ⟨hwaiting fun _ _ => nofun, hothers⟩

/-- One way of doing it collects what a request contributes, the other one recalculates the
container: the records stay abreast. -/
theorem carries_some (h : s.Abreast pending records) (hlisted : s.objects.Listed)
    {k : Contribution} (hcarries : Carries x (some k) left s s') :
    s'.Abreast (pending.insert k.parent ((pending[k.parent]?.getD ∅).insert k.child k.bounds))
      (s'.refreshed (s'.recorded records left) k.parent) := by
  obtain ⟨hwaiting, hothers⟩ := h.carries_others hlisted hcarries
  constructor
  · intro c latest hpending hthere
    rw [Table.getElem?_insert] at hpending
    rw [getElem?_refreshed]
    by_cases hc : k.parent = c
    · subst hc
      rw [if_pos rfl] at hpending
      cases hpending
      rw [if_pos ⟨rfl, hthere⟩]
      refine ⟨rfl, hcarries.confirms_insert hlisted ?_ rfl⟩
      cases hold : pending[k.parent]? with
      | none => exact s.confirms_empty _
      | some latest => exact (h.waiting hold (hcarries.isSome _ ▸ hthere)).2
    · rw [if_neg hc] at hpending
      rw [if_neg fun h => hc h.1]
      refine hwaiting (fun y b hk => hc ?_) hpending hthere
      cases hk
      rfl
  · intro c hout
    rw [getElem?_refreshed]
    by_cases hc : k.parent = c
    · subst hc
      have hgone : s'.get? k.parent = none := by
        refine hout.resolve_left fun hnone => ?_
        rw [Table.getElem?_insert, if_pos rfl] at hnone
        cases hnone
      rw [if_neg fun h => by simp [hgone] at h, hothers (.inr hgone)]
    · rw [Table.getElem?_insert, if_neg hc] at hout
      rw [if_neg fun h => hc h.1, hothers hout]

/-- Once the containers that wait are recalculated, both have recorded the same. -/
theorem refreshed (h : s.Abreast pending records) :
    pending.keys.foldl s.refreshed s.containerBounds = records := by
  ext1 c
  rw [getElem?_foldl_refreshed]
  cases hpending : pending[c]? with
  | none =>
    have hout : ¬ (c ∈ pending.keys ∧ (s.get? c).isSome) := fun hc => by
      have hsome := Table.mem_keys_iff.1 hc.1
      rw [hpending] at hsome
      cases hsome
    rw [if_neg hout, h.others (.inl hpending)]
  | some latest =>
    by_cases hthere : (s.get? c).isSome
    · rw [if_pos ⟨Table.mem_keys_iff.2 (by rw [hpending]; rfl), hthere⟩,
        (h.waiting hpending hthere).1]
    · rw [if_neg fun hc => hthere hc.2, h.others (.inr (by simpa using hthere))]

end Abreast

end Scene

namespace Workbench

open Scheduler

variable {σ : Type} {w w' : Workbench σ} {vars : VariableTable} {d d' : Drain (Bench σ)}

/-! ## Two drains -/

/-- One drain collects bounds, and another one that is as far recalculates containers at once. -/
structure Abreast (d d' : Drain (Bench σ)) : Prop where
  heeds : d.scheduler.Heeds Request.Addressed
  coalesces : d.scheduler.settings.coalesceBounds = true
  scheduler : d'.scheduler =
    d.scheduler.tuned { d.scheduler.settings with coalesceBounds := false } {}
  state : ∃ records n, d'.state = d.state.booked records n ∧
    d.state.scene.Abreast d.scheduler.bounds.parents records
  keyed : d.state.scene.objects.Keyed
  listed : d.state.scene.objects.Listed
  applied : d'.report.applied = d.report.applied
  failed : d'.report.failed = d.report.failed

/-- Serving the same truthful request leaves two drains abreast. -/
theorem Abreast.serve (h : Abreast d d') {r : Request} {queue : Queue}
    (hserves : d.scheduler.Serves Request.Addressed)
    (hpop : d.scheduler.queue.pop = (some r, queue))
    (htruthful : r.Truthful d.state.scene (d.state.apply vars r).2.scene) :
    Abreast (Drain.serve (applier vars) { d with scheduler := { d.scheduler with queue } } r)
      (Drain.serve (applier vars) { d' with scheduler := { d'.scheduler with queue } } r) := by
  obtain ⟨hr, hpopped⟩ := hserves.pop hpop
  obtain ⟨records, n, hstate, habreast⟩ := h.state
  obtain ⟨left, hserved, hbooked⟩ := d.state.apply_served h.keyed vars r
  obtain ⟨n', happly⟩ := hbooked records n
  have hcarries := hserved.carries h.keyed h.listed hr.named htruthful
  have hsame : (d'.state.apply vars r).1 = (d.state.apply vars r).1 := by rw [hstate, happly]
  have hafter : (d'.state.apply vars r).2 = (d.state.apply vars r).2.booked
      ((d.state.apply vars r).2.scene.recorded records left) n' := by rw [hstate, happly]
  cases hresult : (d.state.apply vars r).1 with
  | error e =>
    rw [hresult] at hcarries hsame
    rw [serve_of_error (d := { d with scheduler := { d.scheduler with queue } }) hresult,
      serve_of_error (d := { d' with scheduler := { d'.scheduler with queue } }) hsame]
    exact {
      heeds := hpopped.heeds
      coalesces := h.coalesces
      scheduler := by
        dsimp only
        rw [h.scheduler]
        rfl
      state := ⟨_, n', hafter, habreast.carries_none h.listed hcarries⟩
      keyed := hcarries.keyed
      listed := hcarries.listed
      applied := h.applied
      failed := by
        dsimp only
        rw [h.failed] }
  | ok o =>
    rw [hresult] at hcarries hsame
    let popped : Drain (Bench σ) := { d with scheduler := { d.scheduler with queue } }
    let popped' : Drain (Bench σ) := { d' with scheduler := { d'.scheduler with queue } }
    have happlied : appliedTo popped' vars r o = { appliedTo popped vars r o with
        state := (d.state.apply vars r).2.booked
          ((d.state.apply vars r).2.scene.recorded records left) n'
        scheduler := (popped.scheduler.cascade r o).tuned
          { d.scheduler.settings with coalesceBounds := false } {}
        report := d'.report } := by
      unfold appliedTo
      dsimp only [popped, popped']
      rw [hafter, h.scheduler, ← cascade_tuned]
      rfl
    obtain ⟨hsettings, hbounds⟩ := popped.scheduler.settings_cascade r o
    have hcascaded : (popped.scheduler.cascade r o).Heeds Request.Addressed :=
      (hpopped.cascade Request.stable_addressed r o).heeds
    have hmode : (popped.scheduler.cascade r o).settings.coalesceBounds = true := by
      rw [hsettings]
      exact h.coalesces
    obtain ⟨value, bounds⟩ := o
    cases bounds with
    | none =>
      rw [serve_of_none (d := popped) hresult, serve_of_none (d := popped') hsame, happlied]
      exact {
        heeds := hcascaded
        coalesces := hmode
        scheduler := by
          dsimp only [reporting, appliedTo]
          rw [hsettings]
        state := by
          refine ⟨_, n', rfl, ?_⟩
          dsimp only [reporting, appliedTo]
          rw [hbounds]
          exact habreast.carries_none h.listed hcarries
        keyed := hcarries.keyed
        listed := hcarries.listed
        applied := congrArg (· ++ _) h.applied
        failed := h.failed }
    | some k =>
      have hlatest : (d.state.apply vars r).2.scene.Confirms k.parent
          ((∅ : ChildBounds).insert k.child k.bounds) :=
        hcarries.confirms_insert h.listed (d.state.scene.confirms_empty _) rfl
      rw [serve_of_some (d := popped) hresult, serve_of_some (d := popped') hsame, happlied]
      generalize hcollector : appliedTo popped vars r ⟨value, some k⟩ = collector
      let atOnce : Drain (Bench σ) := { collector with
        state := (d.state.apply vars r).2.booked
          ((d.state.apply vars r).2.scene.recorded records left) n'
        scheduler := (popped.scheduler.cascade r ⟨value, some k⟩).tuned
          { d.scheduler.settings with coalesceBounds := false } {}
        report := d'.report }
      obtain ⟨hscheduler, hreports, hfailures, n'', hflushed⟩ :=
        flush_spec vars (d := atOnce) (c := k.parent) fun _ => hlatest
      have hflushes : atOnce.contribute (applier vars) k =
          atOnce.flush (applier vars) k.parent ((∅ : ChildBounds).insert k.child k.bounds) :=
        if_neg Bool.false_ne_true
      have hcollects : collector.contribute (applier vars) k = { collector with
          scheduler := { collector.scheduler with bounds := collector.scheduler.bounds.add k } } := by
        subst hcollector
        exact if_pos hmode
      show Abreast (reporting (collector.contribute (applier vars) k) r)
        (reporting (atOnce.contribute (applier vars) k) r)
      rw [hcollects, hflushes]
      subst hcollector
      exact {
        heeds := ⟨⟨hcascaded.sound.graph, hcascaded.sound.numbered⟩, hcascaded.queued,
          hcascaded.unread⟩
        coalesces := hmode
        scheduler := by
          dsimp only [reporting]
          rw [hscheduler]
          dsimp only [atOnce, appliedTo]
          rw [hsettings]
          rfl
        state := by
          refine ⟨_, n'', hflushed, ?_⟩
          dsimp only [reporting, appliedTo, PendingBounds.add]
          rw [hbounds]
          exact habreast.carries_some h.listed hcarries
        keyed := hcarries.keyed
        listed := hcarries.listed
        applied := by
          dsimp only [reporting]
          rw [hreports]
          exact congrArg (· ++ _) h.applied
        failed := hfailures.trans h.failed }

theorem Abreast.serveAll (vars : VariableTable) (limit : Nat) (h : Abreast d d')
    (htruthful : ∀ p ∈ passagesFrom vars limit d, p.Truthful) :
    Abreast (Drain.serveAll (applier vars) limit d) (Drain.serveAll (applier vars) limit d') := by
  have hread : ∀ {d d' : Drain (Bench σ)}, Abreast d d' →
      Abreast { d with scheduler := d.scheduler.readInbox }
        { d' with scheduler := d'.scheduler.readInbox } := by
    intro d d' h
    obtain ⟨hsettings, hbounds⟩ := d.scheduler.settings_readInbox
    exact { h with
      heeds := (h.heeds.readInbox Request.stable_addressed).heeds
      coalesces := by
        rw [← h.coalesces, ← hsettings]
      scheduler := by
        dsimp only
        rw [h.scheduler, hsettings]
        exact d.scheduler.readInbox_tuned _ _
      state := by
        dsimp only
        rw [hbounds]
        exact h.state }
  induction limit generalizing d d' with
  | zero => exact hread h
  | succ limit ih =>
    have hserves := h.heeds.readInbox Request.stable_addressed
    have h := hread h
    have hqueue : d'.scheduler.readInbox.queue = d.scheduler.readInbox.queue := by
      have hscheduler := h.scheduler
      dsimp only at hscheduler
      rw [hscheduler]
      rfl
    unfold passagesFrom at htruthful
    unfold Drain.serveAll
    dsimp only at htruthful ⊢
    rw [hqueue]
    cases hpop : d.scheduler.readInbox.queue.pop with
    | mk request queue =>
      cases request with
      | none =>
        have hkept := Drain.keeps_pop_none hserves.sound hpop
        exact { h with
          heeds := ⟨hkept.sound, fun t r hr => hserves.all t r
            ((hserves.sound.numbered.indexed.pop_none hpop).2 t ▸ hr), h.heeds.unread⟩
          scheduler := by
            have hscheduler : d'.scheduler.readInbox = _ := h.scheduler
            dsimp only
            rw [hscheduler]
            rfl }
      | some r =>
        rw [hpop] at htruthful
        obtain ⟨hfirst, hrest⟩ := List.forall_mem_cons.1 htruthful
        exact ih (h.serve hserves hpop hfirst) hrest

/-- At the end of a drain all containers that wait are recalculated, and both have recorded the
same. -/
theorem Abreast.flushAll (vars : VariableTable) (h : Abreast d d') :
    ∃ n, (d'.flushAll (applier vars)).state = (d.flushAll (applier vars)).state.booked
      (d.flushAll (applier vars)).state.scene.containerBounds n := by
  obtain ⟨records, n, hstate, habreast⟩ := h.state
  obtain ⟨n', hflushed⟩ := (flushAll_spec vars (d := d) fun c latest hc hthere =>
    (habreast.waiting hc hthere).2).2.2.2
  have hbounds : d'.scheduler.bounds = {} := by rw [h.scheduler]; rfl
  have hnothing : (d'.flushAll (applier vars)).state = d'.state := by
    unfold Drain.flushAll
    rw [hbounds]
    rfl
  rw [hflushed, habreast.refreshed, hnothing, hstate]
  exact ⟨n, rfl⟩

/-- Nothing is collected any more once all containers were recalculated. -/
theorem Abreast.collected (vars : VariableTable) (h : Abreast d d') :
    (d.flushAll (applier vars)).scheduler.settings.coalesceBounds = true ∧
      (d.flushAll (applier vars)).scheduler.bounds = {} := by
  obtain ⟨records, n, hstate, habreast⟩ := h.state
  rw [(flushAll_spec vars (d := d) fun c latest hc hthere =>
    (habreast.waiting hc hthere).2).1]
  exact ⟨h.coalesces, rfl⟩

theorem Abreast.flushed (vars : VariableTable) (h : Abreast d d') :
    (d'.flushAll (applier vars)).scheduler = (d.flushAll (applier vars)).scheduler.tuned
      { (d.flushAll (applier vars)).scheduler.settings with coalesceBounds := false } {} ∧
    (d'.flushAll (applier vars)).report.applied = (d.flushAll (applier vars)).report.applied ∧
    (d'.flushAll (applier vars)).report.failed = (d.flushAll (applier vars)).report.failed := by
  obtain ⟨records, n, hstate, habreast⟩ := h.state
  have hbounds : d'.scheduler.bounds = {} := by rw [h.scheduler]; rfl
  obtain ⟨hscheduler, happlied, hfailed, -⟩ := flushAll_spec vars (d := d)
    fun c latest hc hthere => (habreast.waiting hc hthere).2
  obtain ⟨hscheduler', happlied', hfailed', -⟩ := flushAll_spec vars (d := d')
    fun c latest hc => by simp [hbounds] at hc
  rw [hscheduler, hscheduler', happlied, happlied', hfailed, hfailed', h.scheduler]
  exact ⟨rfl, h.applied, h.failed⟩

/-! ## Two runs -/

/-- What holds between the operations on a workbench that collects bounds. -/
structure Collects (w : Workbench σ) : Prop where
  heeds : w.scheduler.Heeds Request.Addressed
  coalesces : w.scheduler.settings.coalesceBounds = true
  bounds : w.scheduler.bounds = {}
  inOrder : w.scene.objects.InOrder

/-- The same workbench where containers are recalculated at once. -/
def atOnce (w : Workbench σ) (n : Nat) : Workbench σ :=
  tuned { w.scheduler.settings with coalesceBounds := false } {} n w

/-- An operation other than a drain collects no bounds. -/
theorem Collects.run (h : w.Collects) {op : Operation} (hop : op ≠ .act .drain) :
    (op.run w).Collects ∧ ∀ n, op.run (w.atOnce n) = (op.run w).atOnce n := by
  obtain ⟨hsettings, hbounds⟩ := op.settings_run w hop
  refine ⟨⟨?_, hsettings ▸ h.coalesces, hbounds.trans h.bounds, inOrder_run h.inOrder op⟩,
    fun n => ?_⟩
  · exact Operation.keeps (lasting_heeds Request.stable_addressed fun _ htarget =>
      Request.addressed_of_target htarget) hop h.heeds
  · rw [atOnce, atOnce, hsettings]
    exact op.run_tuned _ _ _ w hop

/-- A drain that collects bounds and one that does not do the same, but for what they report of
bounds. -/
theorem Collects.drain (h : w.Collects) (htruthful : ∀ p ∈ w.passages, p.Truthful) (n : Nat) :
    w.drain.2.Collects ∧ (w.atOnce n).drain.1.requests = w.drain.1.requests ∧
      ∃ n', (w.atOnce n).drain.2 = w.drain.2.atOnce n' := by
  let start : Drain (Bench σ) := ⟨w.scheduler, w.bench, {}⟩
  let start' : Drain (Bench σ) := ⟨(w.atOnce n).scheduler, (w.atOnce n).bench, {}⟩
  have hstart : Abreast start start' := {
    heeds := h.heeds
    coalesces := h.coalesces
    scheduler := rfl
    state := ⟨w.scene.containerBounds, n, rfl, by
      rw [show start.scheduler.bounds = {} from h.bounds]
      exact .start _⟩
    keyed := h.inOrder.keyed
    listed := h.inOrder.listed
    applied := rfl
    failed := rfl }
  have hserved := hstart.serveAll w.vars w.scheduler.settings.maxServed htruthful
  have hdrain : w.drain = finished w
      (Drain.flushAll (applier w.vars)
        (Drain.serveAll (applier w.vars) w.scheduler.settings.maxServed start)).finish := w.drain_eq
  have hdrain' : (w.atOnce n).drain = finished (w.atOnce n)
      (Drain.flushAll (applier w.vars)
        (Drain.serveAll (applier w.vars) w.scheduler.settings.maxServed start')).finish :=
    (w.atOnce n).drain_eq
  rw [hdrain']
  have hdrained := heeds_drain Request.stable_addressed h.heeds
  have hinOrder := inOrder_drain h.inOrder
  rw [hdrain] at hdrained hinOrder ⊢
  generalize Drain.serveAll (applier w.vars) w.scheduler.settings.maxServed start = d
    at hserved hdrained hinOrder ⊢
  generalize Drain.serveAll (applier w.vars) w.scheduler.settings.maxServed start' = d'
    at hserved ⊢
  obtain ⟨n', hstate⟩ := hserved.flushAll w.vars
  obtain ⟨hscheduler, happlied, hfailed⟩ := hserved.flushed w.vars
  obtain ⟨hcoalesces, hempty⟩ := hserved.collected w.vars
  generalize d.flushAll (applier w.vars) = f
    at hstate hscheduler happlied hfailed hcoalesces hempty hdrained hinOrder ⊢
  generalize d'.flushAll (applier w.vars) = f' at hstate hscheduler happlied hfailed ⊢
  obtain ⟨scheduler', state', report'⟩ := f'
  dsimp only at hstate hscheduler happlied hfailed
  subst hstate hscheduler
  refine ⟨⟨hdrained, hcoalesces, hempty, hinOrder⟩, ?_, n', rfl⟩
  simp only [finished, Drain.finish, Report.requests, happlied, hfailed]
  rfl

/-- The reports of the drains among some operations, in their order. -/
def reports (w : Workbench σ) : List Operation → List Report
  | [] => []
  | .act .drain :: ops => w.drain.1 :: reports w.drain.2 ops
  | op :: ops => reports (op.run w) ops

theorem reports_cons {op : Operation} (hop : op ≠ .act .drain) (ops : List Operation) :
    w.reports (op :: ops) = (op.run w).reports ops := by
  rw [reports]
  exact hop

/-- Both ways of recalculating containers come to the same after all operations. -/
theorem Collects.perform (h : w.Collects) {ops : List Operation}
    (htruthful : ∀ before after, ops = before ++ .act .drain :: after →
      ∀ p ∈ (w.perform before).passages, p.Truthful) (n : Nat) :
    ((w.atOnce n).reports ops).map Report.requests = (w.reports ops).map Report.requests ∧
      ∃ n', (w.atOnce n).perform ops = (w.perform ops).atOnce n' := by
  induction ops generalizing w n with
  | nil => exact ⟨rfl, n, rfl⟩
  | cons op ops ih =>
    have hlater : ∀ before after, ops = before ++ .act .drain :: after →
        ∀ p ∈ ((op.run w).perform before).passages, p.Truthful := fun before after hops =>
      htruthful (op :: before) after (by rw [hops, List.cons_append])
    by_cases hop : op = .act .drain
    · subst hop
      obtain ⟨hcollects, hreport, n', hdrain⟩ := h.drain (htruthful [] ops rfl) n
      obtain ⟨hreports, hfinal⟩ := ih hcollects hlater n'
      refine ⟨?_, ?_⟩
      · rw [reports, reports, List.map_cons, List.map_cons, hreport, hdrain, hreports]
      · rw [← hdrain] at hfinal
        exact hfinal
    · obtain ⟨hcollects, hrun⟩ := h.run hop
      obtain ⟨hreports, hfinal⟩ := ih hcollects hlater n
      rw [← hrun] at hreports hfinal
      rw [reports_cons hop, reports_cons hop]
      exact ⟨hreports, hfinal⟩

/-- Carry out the same operations on two workbenches that were made alike, except that one collects
bounds until the end of a drain and the other one recalculates containers at once. If every move
that is served names the container that its object leaves, and the bounds of an object change only
under the names of its numbers, then all drains report the same of requests, and in the end objects,
formulas, variables and the bounds of all containers are the same. -/
theorem coalesced_as_at_once (functions : Registry σ) (scene : Scene) (settings : Settings)
    (clock : Clock) (host : σ) (hscene : scene.objects.InOrder) (ops : List Operation) :
    let collecting := new functions scene (settings.collecting true) clock host
    let atOnce := new functions scene (settings.collecting false) clock host
    (∀ before after, ops = before ++ .act .drain :: after →
      ∀ p ∈ (collecting.perform before).passages, p.Truthful) →
    (atOnce.reports ops).map Report.requests = (collecting.reports ops).map Report.requests ∧
      (atOnce.perform ops).scene.objects = (collecting.perform ops).scene.objects ∧
      (atOnce.perform ops).scene.containerBounds =
        (collecting.perform ops).scene.containerBounds ∧
      (atOnce.perform ops).formulas = (collecting.perform ops).formulas ∧
      (atOnce.perform ops).vars = (collecting.perform ops).vars := by
  intro collecting atOnce htruthful
  have hcollects : collecting.Collects :=
    ⟨heeds_of_isIdle (Sound.new _) rfl, rfl, rfl, hscene⟩
  obtain ⟨hreports, n, hfinal⟩ := hcollects.perform htruthful scene.recalculations
  have hmade : collecting.atOnce scene.recalculations = atOnce := rfl
  rw [hmade] at hreports hfinal
  rw [hfinal]
  exact ⟨hreports, rfl, rfl, rfl, rfl⟩

/-- A child is resized twice and moves in the same drain. What is collected saves one
recalculation, and both ways end with the same bounds. -/
theorem bounds_agree_after_move :
    let c : Object := { id := "c", name := "c" }
    let p : Object := { id := "p", name := "p" }
    let x : Object := { id := "x", name := "x", container := some "c" }
    let scene : Scene := (Scene.insert {} c |>.insert p).insert x
    let ops : List Operation := [.act (.setValue "x" "width" (.ofNat 5) .normal),
      .act (.setValue "x" "height" (.ofNat 2) .normal),
      .notify "x" .hierarchy (.hierarchy (some "c") (some "p")) .normal, .act .drain]
    let collecting := new .builtin scene (Settings.collecting {} true) .still ()
    let atOnce := new .builtin scene (Settings.collecting {} false) .still ()
    (collecting.reports ops).map Report.targets =
        [[⟨"x", "width"⟩, ⟨"x", "height"⟩, ⟨"x", "children"⟩]] ∧
      (collecting.reports ops).map Report.boundsFlushed = [2] ∧
      (atOnce.reports ops).map Report.boundsFlushed = [3] ∧
      (atOnce.reports ops).map Report.requests = (collecting.reports ops).map Report.requests ∧
      (atOnce.perform ops).scene.containerBounds =
        (collecting.perform ops).scene.containerBounds := by
  intro c p x scene ops collecting atOnce
  have hscene : scene.objects.InOrder := ((ObjectTable.InOrder.empty.insert c).insert p).insert x
  have hpassages : ∀ p ∈ (collecting.perform (ops.take 3)).passages,
      p.request.kind = .property ∧ p.request.target.property ∈ Names.geometry ∨
      p.request.kind = .hierarchy ∧ p.request.payload = .hierarchy (some "c") (some "p") ∧
        p.before.objects.containerOf? p.request.target.object = some "c" := by
    decide +kernel
  have htruthful : ∀ before after, ops = before ++ .act .drain :: after →
      ∀ p ∈ (collecting.perform before).passages, p.Truthful := by
    -- Only the last operation is a drain.
    intro before after hops p hp
    have hbefore : before = ops.take 3 := by
      rcases before with _ | ⟨_, _ | ⟨_, _ | ⟨_, _ | ⟨_, before⟩⟩⟩⟩ <;> simp [ops] at hops ⊢
      exact ⟨hops.1.symm, hops.2.1.symm, hops.2.2.1.symm⟩
    rw [hbefore] at hp
    rcases hpassages p hp with ⟨hproperty, hname⟩ | ⟨hmove, hnamed, hplace⟩
    · exact ⟨fun hkind => by simp [hproperty] at hkind, fun _ _ => hname⟩
    · refine ⟨fun _ hpayload hin _ => ?_, fun hkind => by simp [hmove] at hkind⟩
      rw [hnamed] at hpayload
      cases hpayload
      exact hplace.symm.trans hin
  have hsame := coalesced_as_at_once .builtin scene {} .still () hscene ops htruthful
  dsimp only [atOnce, collecting]
  refine ⟨?_, ?_, ?_, hsame.1, hsame.2.2.1⟩
  · decide +kernel
  · decide +kernel
  · decide +kernel

end Workbench

end Parametric
