import Parametric.Proofs.Update.Served

/-!
# Histories of a scheduler

A scheduler is used through the operations `Op`: edges are edited, changes are scheduled or left in
the inbox, and drains serve what waits. One operation keeps the scheduler sound, and what waits
before it is served in it or waits after it (`Op.apply_spec`); over a whole history no consumer of a
change that was applied is forgotten (`consumers_served_or_pending`).
-/

namespace Parametric.Scheduler

/-! ## Reports -/

namespace Drain

variable {τ : Type} (applier : Applier τ) {d : Drain τ}

theorem report_flush (d : Drain τ) (parent : ObjectId) (children : ChildBounds) :
    (d.flush applier parent children).report.applied = d.report.applied ∧
    (d.flush applier parent children).report.failed = d.report.failed := by
  unfold flush
  cases happly : applier.applyBounds parent children d.state with
  | mk result state => cases result <;> exact ⟨rfl, rfl⟩

theorem report_contribute (d : Drain τ) (c : Contribution) :
    (d.contribute applier c).report.applied = d.report.applied ∧
    (d.contribute applier c).report.failed = d.report.failed := by
  unfold contribute
  split
  · exact ⟨rfl, rfl⟩
  · exact report_flush applier d _ _

/-- A service is reported as applied or as failed. -/
theorem report_serve (d : Drain τ) (r : Request) (g : Graph) :
    (serve applier d r).report.applied =
      d.report.applied ++ (Service.applied? ⟨g, r, (d.answer applier r).1⟩).toList ∧
    (serve applier d r).report.failed =
      d.report.failed ++ (Service.failure? ⟨g, r, (d.answer applier r).1⟩).toList := by
  unfold answer serve
  cases hanswer : (applier.apply { r with state := .processing } d.state).run d.scheduler.inbox with
  | mk result rest =>
    cases result with
    | error e => simp [Service.applied?, Service.failure?]
    | ok outcome =>
      cases hbounds : outcome.bounds with
      | none => simp [Service.applied?, Service.failure?, hbounds]
      | some c => simp [Service.applied?, Service.failure?, hbounds, report_contribute]

theorem filterMap_cons_eq_append {α β : Type} (f : α → Option β) (a : α) (as : List α) :
    (a :: as).filterMap f = (f a).toList ++ as.filterMap f := by
  rw [List.filterMap_cons]
  cases f a <;> rfl

/-- The report lists the services in their order. -/
theorem report_serveAll (limit : Nat) (d : Drain τ) :
    (serveAll applier limit d).report.applied =
      d.report.applied ++ (services applier limit d).filterMap Service.applied? ∧
    (serveAll applier limit d).report.failed =
      d.report.failed ++ (services applier limit d).filterMap Service.failure? := by
  induction limit generalizing d with
  | zero => simp [serveAll, services]
  | succ limit ih =>
    cases hpop : d.scheduler.readInbox.queue.pop with
    | mk request queue =>
      cases request with
      | none =>
        obtain ⟨hall, hservices⟩ := serveAll_of_pop_none applier limit hpop
        rw [hall, hservices]
        simp [popped]
      | some r =>
        obtain ⟨hall, hservices⟩ := serveAll_of_pop_some applier limit hpop
        obtain ⟨happlied, hfailed⟩ := ih (serve applier (d.popped queue) r)
        obtain ⟨happlied', hfailed'⟩ :=
          report_serve applier (d.popped queue) r d.scheduler.readInbox.graph
        rw [hall, hservices, happlied, hfailed, happlied', hfailed', filterMap_cons_eq_append,
          filterMap_cons_eq_append, List.append_assoc, List.append_assoc]
        exact ⟨rfl, rfl⟩

/-- Recalculating containers at the end keeps what waits and what was reported. -/
theorem flushAll_spec (hd : d.scheduler.Sound) :
    Keeps d.scheduler (d.flushAll applier).scheduler ∧
    (d.flushAll applier).report.applied = d.report.applied ∧
    (d.flushAll applier).report.failed = d.report.failed := by
  have hall : ∀ (parents : List (ObjectId × ChildBounds)) (d : Drain τ), d.scheduler.Sound →
      Keeps d.scheduler (parents.foldl (fun d p => d.flush applier p.1 p.2) d).scheduler ∧
      (parents.foldl (fun d p => d.flush applier p.1 p.2) d).report.applied = d.report.applied ∧
      (parents.foldl (fun d p => d.flush applier p.1 p.2) d).report.failed = d.report.failed := by
    intro parents
    induction parents with
    | nil => exact fun d hd => ⟨.refl hd, rfl, rfl⟩
    | cons p parents ih =>
      intro d hd
      have hflush := keeps_flush applier hd p.1 p.2
      obtain ⟨hkeeps, happlied, hfailed⟩ := ih _ hflush.sound
      obtain ⟨happlied', hfailed'⟩ := report_flush applier d p.1 p.2
      exact ⟨hflush.trans hkeeps, happlied.trans happlied', hfailed.trans hfailed'⟩
  obtain ⟨hkeeps, hreport⟩ := hall d.scheduler.bounds.parents.toList
    { d with scheduler := { d.scheduler with bounds := {} } } ⟨hd.graph, hd.numbered⟩
  exact ⟨⟨hkeeps.sound, hkeeps.graph, hkeeps.waits⟩, hreport⟩

end Drain

/-- The requests that a drain serves. -/
def services {τ : Type} (s : Scheduler) (applier : Applier τ) (state : τ) : List Service :=
  Drain.services applier s.settings.maxServed ⟨s, state, {}⟩

variable {τ : Type} (applier : Applier τ) (state : τ) {s : Scheduler}

/-- The report lists the services of a drain in their order. -/
theorem report_drain (hs : s.Sound) :
    (s.drain applier state).1.applied = (s.services applier state).filterMap Service.applied? ∧
    (s.drain applier state).1.failed = (s.services applier state).filterMap Service.failure? := by
  obtain ⟨hsound, -⟩ := Drain.served_or_waits applier s.settings.maxServed (d := ⟨s, state, {}⟩) hs
  obtain ⟨-, happlied, hfailed⟩ := Drain.flushAll_spec applier hsound
  obtain ⟨happlied', hfailed'⟩ := Drain.report_serveAll applier s.settings.maxServed ⟨s, state, {}⟩
  exact ⟨happlied.trans happlied', hfailed.trans hfailed'⟩

/-- After a drain the edges are the same, and what waited was served or waits still. -/
theorem drain_spec (hs : s.Sound) :
    (s.drain applier state).2.1.Sound ∧ (s.drain applier state).2.1.graph = s.graph ∧
    (∀ x, s.Waits x → (∃ y ∈ s.services applier state, y.request.target = x) ∨
      (s.drain applier state).2.1.Waits x) ∧
    Followed (s.drain applier state).2.1.Waits (s.services applier state) := by
  obtain ⟨hsound, hgraph, hwaits, -⟩ :=
    Drain.served_or_waits applier s.settings.maxServed (d := ⟨s, state, {}⟩) hs
  obtain ⟨hkeeps, -⟩ := Drain.flushAll_spec applier hsound
  have hfollowed := Drain.followed applier s.settings.maxServed (d := ⟨s, state, {}⟩) hs
  refine ⟨⟨hkeeps.sound.graph, hkeeps.sound.numbered⟩, hkeeps.graph.trans hgraph,
    fun x hx => (hwaits x hx).imp_right (hkeeps.waits x), ?_⟩
  exact fun before x after heq hok e he c hc =>
    (hfollowed before x after heq hok e he c hc).imp_right (hkeeps.waits c)

/-! ## Histories -/

/-- An operation on a scheduler. -/
inductive Op : Type 1
  | add (producer consumer : Entity) (edge : Edge)
  | removeConsumer (consumer : Entity)
  | removeObject (object : ObjectId)
  | replaceProducers (consumer : Entity) (edges : List (Entity × Edge))
  | propagate (change : Change)
  | submit (change : Change)
  | drain {τ : Type} (applier : Applier τ) (state : τ)

/-- The scheduler after a change, which is left as it is when the change is refused. -/
def afterChange (s : Scheduler) (change : Change) : Scheduler :=
  match s.propagate change with
  | .ok (_, s) => s
  | .error _ => s

/-- A change is refused, or it gets the next number and is scheduled. -/
theorem afterChange_eq (s : Scheduler) (c : Change) : s.afterChange c = s ∨
    ∃ target, c.kind ≠ .recompute ∧ c.kind.target c.object c.payload = .ok target ∧
      s.afterChange c =
        s.accepted.schedule ⟨s.inbox.nextId, target, c.kind, c.payload, c.priority⟩ := by
  unfold afterChange propagate
  rcases s.inbox.accept_eq c with ⟨e, he⟩ | ⟨target, hkind, htarget, hok⟩
  · rw [he]
    exact .inl rfl
  · rw [hok]
    exact .inr ⟨target, hkind, htarget, rfl⟩

/-- A change is taken when it is no recompute and its payload fits its kind. -/
theorem afterChange_taken (s : Scheduler) {c : Change} {target : Entity}
    (hkind : c.kind ≠ .recompute) (htarget : c.kind.target c.object c.payload = .ok target) :
    s.afterChange c =
      s.accepted.schedule ⟨s.inbox.nextId, target, c.kind, c.payload, c.priority⟩ := by
  simp only [afterChange, propagate, Inbox.accept, if_neg hkind, htarget]
  rfl

theorem keeps_propagate (hs : s.Sound) (change : Change) : Keeps s (s.afterChange change) := by
  rcases s.afterChange_eq change with hrefused | ⟨target, -, -, htaken⟩
  · rw [hrefused]
    exact .refl hs
  · obtain ⟨queue, next, superseded, heq, hnumbered, hwaits, -⟩ := schedule_spec
      (s := s.accepted)
      (hs.numbered.cons target change.kind change.payload change.priority)
    rw [htaken, heq]
    exact ⟨⟨hs.graph, hnumbered⟩, rfl, fun x hx => (hwaits x).2 (.inr (.inr hx))⟩

namespace Op

/-- The scheduler after an operation; one that is refused leaves it as it is. -/
def apply (s : Scheduler) : Op → Scheduler
  | add p c edge =>
    match s.graph.add p c edge with
    | .ok graph => { s with graph }
    | .error _ => s
  | removeConsumer c => (s.removeConsumer c).2
  | removeObject object => (s.removeObject object).2
  | replaceProducers c edges => (s.replaceProducers c edges).2
  | propagate change => s.afterChange change
  | submit change => (s.submit change).2
  | drain applier state => (s.drain applier state).2.1

/-- The requests that an operation serves. -/
def services (s : Scheduler) : Op → List Service
  | drain applier state => s.services applier state
  | _ => []

/-- An operation keeps the scheduler sound, and what waits before it is served or waits after it. -/
theorem apply_spec (hs : s.Sound) (op : Op) :
    (op.apply s).Sound ∧
    (∀ x, s.Waits x → (∃ y ∈ op.services s, y.request.target = x) ∨ (op.apply s).Waits x) ∧
    Followed (op.apply s).Waits (op.services s) := by
  cases op with
  | add p c edge =>
    rcases Graph.add_eq s.graph p c edge with hadd | ⟨h, hadd⟩
    · have heq : (add p c edge).apply s = s := by simp only [apply, hadd]
      rw [heq]
      exact ⟨hs, fun x hx => .inr hx, .nil⟩
    · have heq : (add p c edge).apply s = { s with graph := h } := by simp only [apply, hadd]
      rw [heq]
      exact ⟨⟨hs.graph.add hadd, hs.numbered⟩, fun x hx => .inr hx, .nil⟩
  | removeConsumer c =>
    exact ⟨⟨hs.graph.removeConsumer c, hs.numbered⟩, fun x hx => .inr hx, .nil⟩
  | removeObject object =>
    exact ⟨⟨hs.graph.removeObject object, hs.numbered⟩, fun x hx => .inr hx, .nil⟩
  | replaceProducers c edges =>
    exact ⟨⟨hs.graph.replaceProducers c edges, hs.numbered⟩, fun x hx => .inr hx, .nil⟩
  | propagate change =>
    have hkeeps := keeps_propagate hs change
    exact ⟨hkeeps.sound, fun x hx => .inr (hkeeps.waits x hx), .nil⟩
  | submit change =>
    exact ⟨⟨hs.graph, hs.numbered.submit change⟩, fun x hx => .inr hx, .nil⟩
  | drain applier state =>
    obtain ⟨hsound, -, hwaits, hfollowed⟩ := drain_spec applier state hs
    exact ⟨hsound, hwaits, hfollowed⟩

end Op

/-- The requests that operations serve, and the scheduler after them. -/
def history : List Op → Scheduler → List Service × Scheduler
  | [], s => ([], s)
  | op :: ops, s =>
    let (served, s') := history ops (op.apply s)
    (op.services s ++ served, s')

theorem history_spec (hs : s.Sound) (ops : List Op) :
    (history ops s).2.Sound ∧
    (∀ x, s.Waits x → (∃ y ∈ (history ops s).1, y.request.target = x) ∨ (history ops s).2.Waits x) ∧
    Followed (history ops s).2.Waits (history ops s).1 := by
  induction ops generalizing s with
  | nil => exact ⟨hs, fun x hx => .inr hx, .nil⟩
  | cons op ops ih =>
    obtain ⟨hsound, hwaits, hfollowed⟩ := op.apply_spec hs
    obtain ⟨hsound', hwaits', hfollowed'⟩ := ih hsound
    refine ⟨hsound', fun x hx => ?_, hfollowed.append hfollowed' hwaits'⟩
    rcases hwaits x hx with ⟨y, hy, ht⟩ | hx
    · exact .inl ⟨y, List.mem_append_left _ hy, ht⟩
    · rcases hwaits' x hx with ⟨y, hy, ht⟩ | hx
      · exact .inl ⟨y, List.mem_append_right _ hy, ht⟩
      · exact .inr hx

/-- Nothing waits in a scheduler that is idle. -/
theorem not_waits_of_isIdle (h : s.isIdle) (x : Entity) : ¬ s.Waits x := by
  have hsize : s.queue.requests.size = 0 := by
    have hpending := of_decide_eq_true h
    unfold pending Queue.size at hpending
    omega
  simp [Waits, Queue.pendingFor?_eq, Std.ExtTreeMap.eq_empty_iff_size_eq_zero.2 hsize]

/-- Anything is true of all that waits in a scheduler that is idle. -/
theorem all_of_isIdle (h : s.isIdle) (P : Request → Prop) : s.queue.All P := by
  intro t r hr
  have hwaits := not_waits_of_isIdle h t
  rw [Waits, hr] at hwaits
  exact absurd rfl hwaits

theorem unread_of_isIdle (h : s.isIdle) : s.inbox.unread = [] := by
  have hpending := of_decide_eq_true h
  unfold pending at hpending
  exact List.length_eq_zero_iff.1 (Nat.eq_zero_of_add_eq_zero_left hpending)

/-- Whatever operations made a scheduler, and whatever the applier does in a drain of it: the report
lists the services of the drain, and after each request that was applied, every consumer of what it
affects is served in the same drain, or a request for it is pending when the drain returns. So once
the scheduler is idle, every consumer of everything that was ever applied was served after it. -/
theorem consumers_served_or_pending (settings : PropagationSettings) (ops : List Op) :
    let (served, s) := history ops { settings }
    (∀ {τ : Type} (applier : Applier τ) (state : τ),
      let (report, s', _) := s.drain applier state
      report.applied = (s.services applier state).filterMap Service.applied? ∧
      report.failed = (s.services applier state).filterMap Service.failure? ∧
      Followed (fun c => ∃ r, s'.queue.pendingFor? c = some r ∧ r.target = c)
        (s.services applier state)) ∧
    (s.isIdle → Followed (fun _ => False) served) := by
  obtain ⟨hsound, -, hfollowed⟩ := history_spec (Sound.new settings) ops
  refine ⟨fun applier state => ?_, fun hidle before x after heq hok e he c hc => ?_⟩
  · obtain ⟨happlied, hfailed⟩ := report_drain applier state hsound
    obtain ⟨hsound', -, -, hfollowed'⟩ := drain_spec applier state hsound
    refine ⟨happlied, hfailed, fun before x after heq hok e he c hc => ?_⟩
    refine (hfollowed' before x after heq hok e he c hc).imp_right fun hwaits => ?_
    obtain ⟨r, hr⟩ := Option.isSome_iff_exists.1 hwaits
    exact ⟨r, hr, hsound'.numbered.indexed.target_eq hr⟩
  · refine (hfollowed before x after heq hok e he c hc).imp_right fun hwaits => ?_
    exact not_waits_of_isIdle hidle c hwaits

end Parametric.Scheduler
