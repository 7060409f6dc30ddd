import Parametric.Proofs.Update.Moves

/-!
# Conservation of requests

Numbers are given out in order, from 1 on. Each one that was given out is always in one place: it is
the number of a submission in the inbox, of a waiting request, or of a withdrawn request that no
report names yet, or it stands once in one report, as applied, failed or superseded
(`Desk.Conserved`, kept by every move). The requests of a report follow from changes that were
scheduled (`Desk.Rooted`). Both hold after every history (`requests_conserved`).
-/

namespace Parametric

/-! ## Numbers in the queue -/

namespace Queue

variable {q q' : Queue}

/-- A push adds a number and may withdraw another one. -/
theorem keys_push (hq : q.Indexed) {r : Request} (hid : q.requests[r.id]? = none) :
    ((q.push r).2.requests.keys ++ ((q.push r).1.map Request.id).toList).Perm
      (r.id :: q.requests.keys) := by
  have hinsert : (q.push r).2.requests.keys.Perm (r.id :: (q.supersede r.target).2.requests.keys) :=
    Table.keys_insert_perm (hq.requests_supersede hid) r
  have hsupersede : ((q.supersede r.target).2.requests.keys ++
      ((q.supersede r.target).1.map Request.id).toList).Perm q.requests.keys := by
    unfold supersede
    cases hpending : q.pending[r.target]? with
    | none => simp
    | some id =>
      obtain ⟨r', hr', -⟩ := hq.pending hpending
      simp only [get?, hr', requests_markStale, Option.map_some, Option.toList_some,
        (hq.requests hr').1]
      exact (List.perm_append_singleton _ _).trans (Table.cons_keys_erase_perm hr')
  exact (hinsert.append_right _).trans (hsupersede.cons r.id)

theorem push_of_none (hq : q.Indexed) {r : Request} (hwaits : q.pendingFor? r.target = none) :
    (q.push r).1 = none := by
  simp [push, supersede, hq.pendingFor?_eq_none_iff.1 hwaits]

theorem keys_merge (hq : q.Indexed) {t : Entity} {r : Request} (hwaits : q.pendingFor? t = some r)
    (priority : Priority) (payload : Payload) :
    (q.merge t priority payload).2.requests.keys.Perm q.requests.keys := by
  have hinsert := Table.keys_insert_perm_of_some (hq.pendingFor?_eq_some_iff.1 hwaits).1
    (r.absorb priority payload)
  simp only [hq.merge_some hwaits]
  split
  · rw [requests_markStale]
    exact hinsert
  · exact hinsert

theorem keys_pop_none (hpop : q.pop = (none, q')) : q'.requests = q.requests := by
  unfold pop at hpop
  rcases popBands_spec q Priority.all with ⟨-, hrequests, -⟩ | ⟨id, r, hr, -⟩
  · rw [hpop] at hrequests
    exact hrequests
  · rw [hpop] at hr
    cases hr

theorem keys_pop_some (hq : q.Indexed) {r : Request} (hpop : q.pop = (some r, q')) :
    (r.id :: q'.requests.keys).Perm q.requests.keys := by
  unfold pop at hpop
  rcases popBands_spec q Priority.all with ⟨hnone, -⟩ | ⟨id, r', hr', hr, hrequests, -⟩
  · rw [hpop] at hnone
    cases hnone
  · rw [hpop] at hr' hrequests
    cases hr'
    rw [hrequests, (hq.requests hr).1]
    exact Table.cons_keys_erase_perm hr

/-- A number of a line is one of its band that is not stale. -/
theorem map_id_line (hq : q.Indexed) (p : Priority) :
    (q.line p).map Request.id = (q.bands.get p).filter (q.isLive p) := by
  rw [line, List.map_filterMap, ← List.filterMap_eq_filter]
  refine List.filterMap_congr fun id _ => ?_
  rw [Option.guard, isLive_eq]
  cases hr : q.standing? p id with
  | none => rfl
  | some r => simp [(hq.requests (standing?_eq_some_iff.1 hr).1).1]

/-- The waiting requests in the order of service. -/
def inOrder (q : Queue) : List Request := Priority.all.flatMap q.line

/-- Each waiting request stands once in the order of service. -/
theorem inOrder_perm (hq : q.Indexed) (hb : q.Banded) :
    (q.inOrder.map Request.id).Perm q.requests.keys := by
  have hmem : ∀ id, id ∈ q.inOrder.map Request.id ↔ id ∈ q.requests.keys := by
    intro id
    rw [Table.mem_keys_iff, List.mem_map]
    constructor
    · rintro ⟨r, hr, rfl⟩
      obtain ⟨p, -, hr⟩ := List.mem_flatMap.1 hr
      simp [((mem_line_iff hq hb).1 hr).1]
    · intro hsome
      obtain ⟨r, hr⟩ := Option.isSome_iff_exists.1 hsome
      obtain ⟨rfl, -⟩ := hq.requests hr
      exact ⟨r, List.mem_flatMap.2 ⟨r.priority, by cases r.priority <;> decide,
        (mem_line_iff hq hb).2 ⟨hr, rfl⟩⟩, rfl⟩
  refine (List.perm_ext_iff_of_nodup ?_ (Table.nodup_keys _)).2 hmem
  rw [inOrder, List.map_flatMap, List.nodup_flatMap]
  refine ⟨fun p _ => ?_, ?_⟩
  · rw [map_id_line hq]
    exact (hb.nodup p).filter _
  · refine (show Priority.all.Nodup by decide).imp fun {p p'} hne => ?_
    refine List.disjoint_left.2 fun id hid hid' => hne ?_
    obtain ⟨r, hr, rfl⟩ := List.mem_map.1 hid
    obtain ⟨r', hr', heq⟩ := List.mem_map.1 hid'
    obtain ⟨hr, hp⟩ := (mem_line_iff hq hb).1 hr
    obtain ⟨hr', hp'⟩ := (mem_line_iff hq hb).1 hr'
    rw [heq, hr] at hr'
    rw [← hp, ← hp', Option.some.inj hr']

end Queue

/-! ## Conservation -/

namespace Desk

variable {roots : RequestId → Prop} {d d' : Desk}

/-- The numbers on the desk. -/
def numbers (d : Desk) : List RequestId :=
  d.submissions.map Submission.id ++ d.queue.requests.keys ++ d.superseded ++ d.done

/-- The numbers on the desk are those that were given out, each of them once. -/
def Conserved (d : Desk) : Prop := 1 ≤ d.next ∧ d.numbers.Perm (List.range' 1 (d.next - 1))

/-- A move keeps the numbers, or gives the next one out. -/
theorem Move.numbers (hmove : Move roots d d') (hd : d.Orderly) :
    d'.next = d.next ∧ d'.numbers.Perm d.numbers ∨
    d'.next = d.next + 1 ∧ d'.numbers.Perm (d.next :: d.numbers) := by
  cases hmove with
  | accept hid hkind hperm =>
    refine .inr ⟨rfl, ?_⟩
    rw [← hid]
    exact (((hperm.map _).append_right _).append_right _).append_right _
  | @schedule c rest hsubmissions hroot =>
    refine .inl ⟨rfl, List.perm_iff_count.2 fun x => ?_⟩
    have hnone := (hd.fresh c (hsubmissions ▸ List.mem_cons_self)).2
    have hcount := (Queue.keys_push hd.indexed (r := c.request) hnone).count_eq x
    simp only [Desk.numbers, hsubmissions, List.count_append, List.count_cons, List.map_cons,
      Submission.request] at hcount ⊢
    omega
  | merge hwaits priority payload =>
    exact .inl ⟨rfl, (((Queue.keys_merge hd.indexed hwaits priority payload).append_left
      _).append_right _).append_right _⟩
  | @recompute r hid hwaits hroot hlt =>
    refine .inr ⟨rfl, List.perm_iff_count.2 fun x => ?_⟩
    have hnone : d.queue.requests[r.id]? = none := hid ▸ hd.getElem?_next
    have hcount := (Queue.keys_push hd.indexed hnone).count_eq x
    rw [Queue.push_of_none hd.indexed hwaits] at hcount
    simp only [Desk.numbers, ← hid, List.count_append, List.count_cons, List.count_nil,
      Option.map_none, Option.toList_none] at hcount ⊢
    omega
  | sweep hpop =>
    refine .inl ⟨rfl, ?_⟩
    simp only [Desk.numbers, Queue.keys_pop_none hpop]
    exact List.Perm.refl _
  | serve hpop =>
    refine .inl ⟨rfl, List.perm_iff_count.2 fun x => ?_⟩
    have hcount := (Queue.keys_pop_some hd.indexed hpop).count_eq x
    simp only [Desk.numbers, List.count_append, List.count_cons, List.count_nil] at hcount ⊢
    omega
  | report hdone =>
    refine .inl ⟨rfl, List.perm_iff_count.2 fun x => ?_⟩
    have hcount := hdone.count_eq x
    simp only [Desk.numbers, List.count_append, List.count_nil] at hcount ⊢
    omega

theorem Move.conserved (hmove : Move roots d d') (hd : d.Orderly) (h : d.Conserved) :
    d'.Conserved := by
  obtain ⟨hpos, hperm⟩ := h
  rcases hmove.numbers hd with ⟨hnext, hnumbers⟩ | ⟨hnext, hnumbers⟩
  · rw [Conserved, hnext]
    exact ⟨hpos, hnumbers.trans hperm⟩
  · refine ⟨by omega, hnumbers.trans ?_⟩
    have hrange : List.range' 1 (d'.next - 1) = List.range' 1 (d.next - 1) ++ [d.next] := by
      rw [show d'.next - 1 = d.next - 1 + 1 by omega, List.range'_concat]
      congr 2
      omega
    rw [hrange]
    exact (hperm.cons _).trans (List.perm_append_singleton _ _).symm

/-- Every waiting request follows from an earlier change that satisfies `roots`. -/
def Rooted (roots : RequestId → Prop) (d : Desk) : Prop :=
  ∀ t r, d.queue.pendingFor? t = some r → roots r.root ∧ r.root ≤ r.id

theorem Move.rooted (hmove : Move roots d d') (hd : d.Orderly) (h : d.Rooted roots) :
    d'.Rooted roots := by
  cases hmove with
  | accept => exact h
  | @schedule c rest hsubmissions hroot =>
    intro t r hr
    have hnone := (hd.fresh c (hsubmissions ▸ List.mem_cons_self)).2
    rw [(hd.indexed.push (r := c.request) hnone).2] at hr
    split at hr
    · cases hr
      exact ⟨hroot, Nat.le_refl _⟩
    · exact h t r hr
  | @merge t r hwaits priority payload =>
    intro t' r' hr'
    have hmerge := hd.indexed.merge t priority payload
    rw [hwaits] at hmerge
    rw [hmerge.2.2] at hr'
    split at hr'
    · cases hr'
      exact h t r hwaits
    · exact h t' r' hr'
  | recompute hid hwaits hroot hlt =>
    intro t r hr
    rw [(hd.indexed.push (hid ▸ hd.getElem?_next)).2] at hr
    split at hr
    · cases hr
      exact ⟨hroot, hid ▸ Nat.le_of_lt hlt⟩
    · exact h t r hr
  | sweep hpop =>
    intro t r hr
    exact h t r ((hd.indexed.pop_none hpop).2 t ▸ hr)
  | serve hpop =>
    intro t r hr
    rw [(hd.indexed.pop_some hpop).2.2] at hr
    split at hr
    · cases hr
    · exact h t r hr
  | report => exact h

/-- The queue is in order, each number is in one place, and every request follows from a change. -/
structure Accounted (roots : RequestId → Prop) (d : Desk) : Prop where
  orderly : d.Orderly
  conserved : d.Conserved
  rooted : d.Rooted roots

theorem Accounted.empty : Accounted roots ⟨{}, [], [], 1, []⟩ :=
  ⟨.empty, ⟨Nat.le_refl _, List.Perm.refl _⟩, by simp [Rooted, Queue.pendingFor?_eq]⟩

theorem Moves.accounted (hmoves : Moves roots d d') (hd : d.Accounted roots) :
    d'.Accounted roots := by
  induction hmoves with
  | refl => exact hd
  | tail _ hmove ih =>
    exact ⟨hmove.orderly ih.orderly, hmove.conserved ih.orderly ih.conserved,
      hmove.rooted ih.orderly ih.rooted⟩

end Desk

/-! ## Drains -/

/-- The numbers that a report names. -/
def Report.numbers (r : Report) : List RequestId :=
  r.applied.map Applied.request ++ r.failed.map Failure.request ++ r.superseded

/-- What a report says of each request is about one that follows from an earlier change. -/
def Report.Rooted (roots : RequestId → Prop) (r : Report) : Prop :=
  (∀ x ∈ r.applied, roots x.root ∧ x.root ≤ x.request) ∧
  ∀ x ∈ r.failed, roots x.root ∧ x.root ≤ x.request

namespace Scheduler

open Desk (Moves)

variable {roots : RequestId → Prop} {s : Scheduler} {done : List RequestId}

namespace Drain

variable {τ : Type} (applier : Applier τ) {d : Drain τ}

/-- The submissions that are read while none waits or `limit` requests are served. -/
def read : Nat → Drain τ → List Submission
  | 0, d => d.scheduler.inbox.unread
  | limit + 1, d =>
    let s := d.scheduler.readInbox
    d.scheduler.inbox.unread ++ match s.queue.pop with
      | (none, _) => []
      | (some r, queue) => read limit (serve applier { d with scheduler := { s with queue } } r)

/-- A request that is popped once the inbox is read follows from an earlier change, and then it is
done with. -/
theorem moves_served (hd : (d.scheduler.desk [] done).Accounted roots)
    (hroots : ∀ c ∈ d.scheduler.inbox.unread, c.kind ≠ .recompute → roots c.id) {r : Request}
    {queue : Queue} (hpop : d.scheduler.readInbox.queue.pop = (some r, queue)) :
    Moves roots (d.scheduler.desk [] done)
      ((serve applier (d.popped queue) r).scheduler.desk [] (done ++ [r.id])) ∧
    roots r.root ∧ r.root ≤ r.id := by
  have hread := moves_readInbox hd.orderly hroots
  have hd' := hread.accounted hd
  obtain ⟨hwaits, -⟩ := hd'.orderly.indexed.pop_some hpop
  obtain ⟨hroot, hle⟩ := hd'.rooted _ _ hwaits
  have hlt : r.id < d.scheduler.readInbox.inbox.nextId :=
    hd'.orderly.queued (hd'.orderly.indexed.pendingFor?_eq_some_iff.1 hwaits).1
  have hpopped : Moves roots (d.scheduler.desk [] done)
      ((d.popped queue).scheduler.desk [] (done ++ [r.id])) :=
    hread.tail (.serve hpop)
  exact ⟨hpopped.trans (moves_serve applier (hpopped.orderly hd.orderly) hroot
    (Nat.lt_of_le_of_lt hle hlt)), hroot, hle⟩

theorem moves_serveAll (limit : Nat) (hd : (d.scheduler.desk [] done).Accounted roots)
    (hroots : ∀ c ∈ read applier limit d, c.kind ≠ .recompute → roots c.id) :
    Moves roots (d.scheduler.desk [] done) ((serveAll applier limit d).scheduler.desk []
      (done ++ (services applier limit d).map fun x => x.request.id)) ∧
    ∀ x ∈ services applier limit d, roots x.request.root ∧ x.request.root ≤ x.request.id := by
  induction limit generalizing d done with
  | zero =>
    simp only [services, List.map_nil, List.append_nil]
    exact ⟨moves_readInbox hd.orderly hroots, by simp⟩
  | succ limit ih =>
    simp only [read, List.forall_mem_append] at hroots
    cases hpop : d.scheduler.readInbox.queue.pop with
    | mk request queue =>
      cases request with
      | none =>
        obtain ⟨hall, hservices⟩ := serveAll_of_pop_none applier limit hpop
        rw [hall, hservices]
        simp only [List.map_nil, List.append_nil]
        exact ⟨(moves_readInbox hd.orderly hroots.1).tail (.sweep hpop), by simp⟩
      | some r =>
        obtain ⟨hall, hservices⟩ := serveAll_of_pop_some applier limit hpop
        obtain ⟨hserve, hroot, hle⟩ := moves_served applier hd hroots.1 hpop
        have hrest := hroots.2
        rw [hpop] at hrest
        obtain ⟨hmoves, hrooted⟩ := ih (hserve.accounted hd) hrest
        rw [hall, hservices, List.map_cons, List.append_cons]
        exact ⟨hserve.trans hmoves, List.forall_mem_cons.2 ⟨⟨hroot, hle⟩, hrooted⟩⟩

end Drain

/-- A service is reported as applied or as failed, and not both. -/
theorem perm_services (served : List Service) :
    ((served.filterMap Service.applied?).map Applied.request ++
      (served.filterMap Service.failure?).map Failure.request).Perm
      (served.map fun x => x.request.id) := by
  induction served with
  | nil => exact .nil
  | cons x served ih =>
    cases hresult : x.result with
    | ok outcome => simpa [Service.applied?, Service.failure?, hresult] using ih.cons x.request.id
    | error e =>
      simp only [List.filterMap_cons, Service.applied?, Service.failure?, hresult, List.map_cons]
      exact List.perm_middle.trans (ih.cons x.request.id)

/-- A drain moves the requests that it serves into its report. -/
theorem moves_drain {τ : Type} (applier : Applier τ) (state : τ) (hsound : s.Sound)
    (hs : (s.desk [] done).Accounted roots)
    (hroots : ∀ c ∈ Drain.read applier s.settings.maxServed ⟨s, state, {}⟩,
      c.kind ≠ .recompute → roots c.id) :
    Moves roots (s.desk [] done) ((s.drain applier state).2.1.desk []
      (done ++ (s.drain applier state).1.numbers)) ∧
    (s.drain applier state).1.Rooted roots := by
  obtain ⟨hserved, hrooted⟩ := Drain.moves_serveAll applier s.settings.maxServed
    (d := ⟨s, state, {}⟩) hs hroots
  have hflushed : Moves roots _ _ := hserved.trans (Drain.moves_flushAll applier _ _)
  obtain ⟨happlied, hfailed⟩ := report_drain applier state hsound
  have hentries : ((s.drain applier state).1.applied.map Applied.request ++
      (s.drain applier state).1.failed.map Failure.request).Perm
      ((s.services applier state).map fun x => x.request.id) := by
    rw [happlied, hfailed]
    exact perm_services _
  have hnumbers : (done ++ (s.drain applier state).1.numbers).Perm
      (done ++ ((s.services applier state).map fun x => x.request.id) ++
        (s.drain applier state).1.superseded) := by
    rw [List.append_assoc]
    exact (hentries.append_right _).append_left _
  refine ⟨hflushed.tail (.report hnumbers), fun x hx => ?_, fun x hx => ?_⟩
  · rw [happlied] at hx
    obtain ⟨y, hy, heq⟩ := List.mem_filterMap.1 hx
    unfold Service.applied? at heq
    split at heq
    · cases heq
      exact hrooted y hy
    · cases heq
  · rw [hfailed] at hx
    obtain ⟨y, hy, heq⟩ := List.mem_filterMap.1 hx
    unfold Service.failure? at heq
    split at heq
    · cases heq
    · cases heq
      exact hrooted y hy

/-! ## Histories -/

namespace Op

/-- The report of an operation, if it is a drain. -/
def reports (s : Scheduler) : Op → List Report
  | drain applier state => [(s.drain applier state).1]
  | _ => []

/-- The changes that an operation schedules. -/
def scheduled (s : Scheduler) : Op → List Submission
  | propagate change =>
    match s.inbox.accept change with
    | .ok (c, _) => [c]
    | .error _ => []
  | drain applier state => Drain.read applier s.settings.maxServed ⟨s, state, {}⟩
  | _ => []

theorem moves_apply (op : Op) (hsound : s.Sound) (hs : (s.desk [] done).Accounted roots)
    (hroots : ∀ c ∈ op.scheduled s, c.kind ≠ .recompute → roots c.id) :
    Moves roots (s.desk [] done)
      ((op.apply s).desk [] (done ++ (op.reports s).flatMap Report.numbers)) ∧
    ∀ r ∈ op.reports s, r.Rooted roots := by
  cases op with
  | drain applier state =>
    obtain ⟨hmoves, hrooted⟩ := moves_drain applier state hsound hs hroots
    simp only [reports, List.flatMap_cons, List.flatMap_nil, List.append_nil,
      List.forall_mem_singleton]
    exact ⟨hmoves, hrooted⟩
  | propagate change =>
    simp only [reports, List.flatMap_nil, List.append_nil]
    refine ⟨?_, by simp⟩
    simp only [apply, afterChange, Scheduler.propagate]
    rcases s.inbox.accept_eq change with ⟨e, he⟩ | ⟨target, hkind, -, hok⟩
    · rw [he]
      exact .refl
    · rw [hok]
      let c : Submission := ⟨s.inbox.nextId, target, change.kind, change.payload, change.priority⟩
      have haccept : Moves roots (s.desk [] done) (s.accepted.desk [c] done) :=
        .single (.accept rfl hkind (List.Perm.refl _))
      have hroot : roots c.id := hroots c (by simp [scheduled, hok, c]) hkind
      exact haccept.trans (moves_schedule (haccept.orderly hs.orderly) hroot)
  | submit change =>
    simp only [reports, List.flatMap_nil, List.append_nil]
    exact ⟨moves_submit s done change, by simp⟩
  | add p c edge =>
    simp only [reports, List.flatMap_nil, List.append_nil, apply]
    refine ⟨?_, by simp⟩
    cases s.graph.add p c edge <;> exact .refl
  | removeConsumer => exact ⟨by simpa [reports] using .refl, by simp [reports]⟩
  | removeObject => exact ⟨by simpa [reports] using .refl, by simp [reports]⟩
  | replaceProducers => exact ⟨by simpa [reports] using .refl, by simp [reports]⟩

end Op

/-- The reports of all drains. -/
def reports : List Op → Scheduler → List Report
  | [], _ => []
  | op :: ops, s => op.reports s ++ reports ops (op.apply s)

/-- The changes that operations schedule. -/
def scheduled : List Op → Scheduler → List Submission
  | [], _ => []
  | op :: ops, s => op.scheduled s ++ scheduled ops (op.apply s)

theorem moves_history (ops : List Op) (hsound : s.Sound) (hs : (s.desk [] done).Accounted roots)
    (hroots : ∀ c ∈ scheduled ops s, c.kind ≠ .recompute → roots c.id) :
    Moves roots (s.desk [] done)
      ((history ops s).2.desk [] (done ++ (reports ops s).flatMap Report.numbers)) ∧
    ∀ r ∈ reports ops s, r.Rooted roots := by
  induction ops generalizing s done with
  | nil =>
    simp only [reports, List.flatMap_nil, List.append_nil]
    exact ⟨.refl, by simp⟩
  | cons op ops ih =>
    simp only [scheduled, List.forall_mem_append] at hroots
    obtain ⟨hmoves, hrooted⟩ := op.moves_apply hsound hs hroots.1
    obtain ⟨hmoves', hrooted'⟩ := ih (op.apply_spec hsound).1 (hmoves.accounted hs) hroots.2
    simp only [reports, List.flatMap_append, ← List.append_assoc]
    exact ⟨hmoves.trans hmoves', List.forall_mem_append.2 ⟨hrooted, hrooted'⟩⟩

/-- The desk after every history, with the changes that were scheduled as the roots. -/
theorem accounted_history (settings : PropagationSettings) (ops : List Op) :
    let roots := fun id => ∃ c ∈ scheduled ops { settings }, c.kind ≠ .recompute ∧ c.id = id
    ((history ops { settings }).2.desk [] ((reports ops { settings }).flatMap
      Report.numbers)).Accounted roots ∧
    ∀ r ∈ reports ops { settings }, r.Rooted roots := by
  intro roots
  have hempty : (desk { settings } [] []).Accounted roots := .empty
  obtain ⟨hmoves, hrooted⟩ := moves_history ops (.new settings) hempty
    fun c hc hkind => ⟨c, hc, hkind, rfl⟩
  exact ⟨hmoves.accounted hempty, hrooted⟩

/-- Whatever operations made a scheduler: every number that was given out is in one place, that of
an unread submission, of a waiting request, of a withdrawn request that no report names yet, or of
one entry of one report. The waiting requests are those that drains can serve. And what a report
applied or failed follows from an earlier change that was asked for from outside. -/
theorem requests_conserved (settings : PropagationSettings) (ops : List Op) :
    let s := (history ops { settings }).2
    (s.inbox.unread.map Submission.id ++ s.queue.requests.keys ++ s.superseded ++
      (reports ops { settings }).flatMap Report.numbers).Perm
        (List.range' 1 (s.inbox.nextId - 1)) ∧
    (s.queue.inOrder.map Request.id).Perm s.queue.requests.keys ∧
    ∀ r ∈ reports ops { settings }, r.Rooted fun id =>
      ∃ c ∈ scheduled ops { settings }, c.kind ≠ .recompute ∧ c.id = id := by
  obtain ⟨hdesk, hrooted⟩ := accounted_history settings ops
  exact ⟨hdesk.conserved.2, Queue.inOrder_perm hdesk.orderly.indexed hdesk.orderly.banded, hrooted⟩

end Scheduler

end Parametric
