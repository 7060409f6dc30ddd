import Mathlib.Logic.Relation
import Parametric.Proofs.Update.History
import Parametric.Proofs.Update.Line

/-!
# The moves of a scheduler

Every number that a scheduler gives out is on its `Desk`: it is the number of a submission that is
not scheduled, of a waiting request, of a request that was withdrawn, or of one that is done with.
Whatever a scheduler does is a sequence of few moves on the desk (`Desk.Move`): a change is accepted
or scheduled, a recompute is folded into a waiting request or gets one of its own, and the next
request is served. So a fact that each move keeps holds after every drain (`moves_drain`) and after
every change. One such fact is that the queue is in order (`Desk.Orderly`).
-/

namespace Parametric

open Relation (ReflTransGen)

/-! ## Queues in order -/

/-- The numbers are in use once, every request stands in its line, neither a new number nor that of
a submission is in a band, and no submission is a recompute. -/
structure Orderly (q : Queue) (rest : List Submission) (next : RequestId) : Prop extends
    Numbered q rest next where
  banded : q.Banded
  unusedNext : ∀ id, next ≤ id → q.Unused id
  unusedRest : ∀ c ∈ rest, q.Unused c.id
  external : ∀ c ∈ rest, c.kind ≠ .recompute

namespace Orderly

variable {q q' : Queue} {rest : List Submission} {next next' : RequestId}

theorem empty : Orderly {} [] 1 :=
  ⟨⟨.empty, by simp, by simp, .nil⟩, .empty, fun _ _ p => by cases p <;> exact List.not_mem_nil,
    by simp, by simp⟩

/-- A request with an unused number is pushed. -/
theorem push (h : Orderly q rest next) {r : Request} (hunused : q.Unused r.id)
    (hrest : ∀ c ∈ rest, c.id ≠ r.id) (hnext : next ≤ next') (hlt : r.id < next') :
    Orderly (q.push r).2 rest next' := by
  have hnone : q.requests[r.id]? = none := by
    cases hr : q.requests[r.id]? with
    | none => rfl
    | some r' => exact absurd (h.banded.mem hr) (hunused _)
  obtain ⟨hindexed, hpendingFor⟩ := h.indexed.push hnone
  obtain ⟨hbanded, hpush, -⟩ := Queue.push_line h.indexed h.banded hunused
  refine ⟨h.toNumbered.change hindexed hnext fun t r' hr' => ?_, hbanded, fun id hid => ?_,
    fun c hc => hpush c.id (hrest c hc) (h.unusedRest c hc), h.external⟩
  · rw [hpendingFor] at hr'
    split at hr'
    · cases hr'
      exact .inr ⟨hlt, hrest⟩
    · exact .inl ⟨r', hr', rfl⟩
  · exact hpush id (Nat.ne_of_gt (Nat.lt_of_lt_of_le hlt hid))
      (h.unusedNext id (Nat.le_trans hnext hid))

theorem merge (h : Orderly q rest next) {t : Entity} {r : Request}
    (hwaits : q.pendingFor? t = some r) (priority : Priority) (payload : Payload) :
    Orderly (q.merge t priority payload).2 rest next := by
  have hmerge := h.indexed.merge t priority payload
  rw [hwaits] at hmerge
  obtain ⟨-, hindexed, hpendingFor⟩ := hmerge
  obtain ⟨hbanded, hunused, -⟩ := Queue.merge_line h.indexed h.banded hwaits priority payload
  refine ⟨h.toNumbered.change hindexed (Nat.le_refl _) fun t' r' hr' => ?_, hbanded,
    fun id hid => hunused id (h.unusedNext id hid), fun c hc => hunused c.id (h.unusedRest c hc),
    h.external⟩
  rw [hpendingFor] at hr'
  split at hr'
  next heq =>
    cases hr'
    exact .inl ⟨r, heq ▸ hwaits, rfl⟩
  next => exact .inl ⟨r', hr', rfl⟩

theorem pop (h : Orderly q rest next) {served : Option Request} (hpop : q.pop = (served, q')) :
    Orderly q' rest next := by
  have hkept : q'.Banded ∧ (∀ id, q.Unused id → q'.Unused id) ∧ q'.Indexed ∧
      ∀ t r, q'.pendingFor? t = some r → q.pendingFor? t = some r := by
    cases served with
    | none =>
      obtain ⟨hindexed, hsame⟩ := h.indexed.pop_none hpop
      obtain ⟨-, hbanded, hunused⟩ := Queue.pop_line_none h.banded hpop
      exact ⟨hbanded, hunused, hindexed, fun t r hr => hsame t ▸ hr⟩
    | some r =>
      obtain ⟨-, hindexed, hrest⟩ := h.indexed.pop_some hpop
      obtain ⟨-, -, -, hbanded, hunused, -⟩ := Queue.pop_line_some h.banded hpop
      refine ⟨hbanded, hunused, hindexed, fun t r' hr' => ?_⟩
      rw [hrest] at hr'
      split at hr'
      · cases hr'
      · exact hr'
  obtain ⟨hbanded, hunused, hindexed, hold⟩ := hkept
  exact ⟨h.toNumbered.change hindexed (Nat.le_refl _) fun t r hr => .inl ⟨r, hold t r hr, rfl⟩,
    hbanded, fun id hid => hunused id (h.unusedNext id hid),
    fun c hc => hunused c.id (h.unusedRest c hc), h.external⟩

/-- A submission gets the next number. -/
theorem accept (h : Orderly q rest next) {c : Submission} (hid : c.id = next)
    (hkind : c.kind ≠ .recompute) {rest' : List Submission} (hperm : rest'.Perm (c :: rest)) :
    Orderly q rest' (next + 1) := by
  subst hid
  refine ⟨(h.toNumbered.cons c.target c.kind c.payload c.priority).perm hperm.symm, h.banded,
    fun id hid => h.unusedNext id (Nat.le_of_succ_le hid), fun d hd => ?_, fun d hd => ?_⟩
  · rcases List.mem_cons.1 (hperm.mem_iff.1 hd) with rfl | hd
    · exact h.unusedNext _ (Nat.le_refl _)
    · exact h.unusedRest d hd
  · rcases List.mem_cons.1 (hperm.mem_iff.1 hd) with rfl | hd
    · exact hkind
    · exact h.external d hd

/-- The first submission is scheduled. -/
theorem schedule {c : Submission} (h : Orderly q (c :: rest) next) :
    Orderly (q.push c.request).2 rest next := by
  obtain ⟨hdistinct, hrest⟩ := List.pairwise_cons.1 h.distinct
  have htail : Orderly q rest next :=
    ⟨⟨h.indexed, h.queued, fun d hd => h.fresh d (List.mem_cons_of_mem _ hd), hrest⟩, h.banded,
      h.unusedNext, fun d hd => h.unusedRest d (List.mem_cons_of_mem _ hd),
      fun d hd => h.external d (List.mem_cons_of_mem _ hd)⟩
  exact htail.push (r := c.request) (h.unusedRest c List.mem_cons_self)
    (fun d hd heq => hdistinct d hd heq.symm) (Nat.le_refl _) (h.fresh c List.mem_cons_self).1

/-- A recompute gets the next number. -/
theorem recompute (h : Orderly q rest next) {r : Request} (hid : r.id = next) :
    Orderly (q.push r).2 rest (next + 1) := by
  subst hid
  exact h.push (h.unusedNext _ (Nat.le_refl _)) (fun c hc => Nat.ne_of_lt (h.fresh c hc).1)
    (Nat.le_succ _) (Nat.lt_succ_self _)

end Orderly

/-! ## Moves -/

/-- Where the numbers of a scheduler are. -/
structure Desk where
  queue : Queue
  /-- The submissions that are not scheduled. -/
  submissions : List Submission
  /-- The withdrawn requests that no report names yet. -/
  superseded : List RequestId
  next : Nat
  /-- The numbers that are done with. -/
  done : List RequestId

namespace Desk

def Orderly (d : Desk) : Prop := Parametric.Orderly d.queue d.submissions d.next

/-- A move on the desk. The changes that recomputes follow from satisfy `roots`. -/
inductive Move (roots : RequestId → Prop) : Desk → Desk → Prop
  /-- A change is accepted as a submission. -/
  | accept {d : Desk} {c : Submission} {submissions : List Submission} (hid : c.id = d.next)
      (hkind : c.kind ≠ .recompute) (hperm : submissions.Perm (c :: d.submissions)) :
      Move roots d { d with submissions, next := d.next + 1 }
  /-- A submission becomes a request, which may take the place of another one. -/
  | schedule {d : Desk} {c : Submission} {rest : List Submission}
      (hsubmissions : d.submissions = c :: rest) (hroot : roots c.id) :
      Move roots d { d with
        queue := (d.queue.push c.request).2
        submissions := rest
        superseded := d.superseded ++ ((d.queue.push c.request).1.map Request.id).toList }
  /-- Work is folded into a waiting request. -/
  | merge {d : Desk} {t : Entity} {r : Request} (hwaits : d.queue.pendingFor? t = some r)
      (priority : Priority) (payload : Payload) :
      Move roots d { d with queue := (d.queue.merge t priority payload).2 }
  /-- A recompute gets a request. -/
  | recompute {d : Desk} {r : Request} (hid : r.id = d.next)
      (hnone : d.queue.pendingFor? r.target = none) (hroot : roots r.root) (hlt : r.root < d.next) :
      Move roots d { d with queue := (d.queue.push r).2, next := d.next + 1 }
  /-- There is no request to serve. -/
  | sweep {d : Desk} {queue : Queue} (hpop : d.queue.pop = (none, queue)) :
      Move roots d { d with queue }
  /-- A request is served. -/
  | serve {d : Desk} {r : Request} {queue : Queue} (hpop : d.queue.pop = (some r, queue)) :
      Move roots d { d with queue, done := d.done ++ [r.id] }
  /-- A report names the requests that were withdrawn. -/
  | report {d : Desk} {done : List RequestId} (hdone : done.Perm (d.done ++ d.superseded)) :
      Move roots d { d with superseded := [], done }

abbrev Moves (roots : RequestId → Prop) : Desk → Desk → Prop := ReflTransGen (Move roots)

variable {roots : RequestId → Prop} {d d' : Desk}

theorem Move.orderly (hmove : Move roots d d') (hd : d.Orderly) : d'.Orderly := by
  cases hmove with
  | accept hid hkind hperm => exact Orderly.accept hd hid hkind hperm
  | schedule hsubmissions hroot =>
    unfold Desk.Orderly at hd
    rw [hsubmissions] at hd
    exact hd.schedule
  | merge hwaits priority payload => exact Orderly.merge hd hwaits priority payload
  | recompute hid => exact Orderly.recompute hd hid
  | sweep hpop => exact Orderly.pop hd hpop
  | serve hpop => exact Orderly.pop hd hpop
  | report => exact hd

theorem Moves.orderly (hmoves : Moves roots d d') (hd : d.Orderly) : d'.Orderly := by
  induction hmoves with
  | refl => exact hd
  | tail _ hmove ih => exact hmove.orderly ih

theorem Moves.next_le (hmoves : Moves roots d d') : d.next ≤ d'.next := by
  induction hmoves with
  | refl => exact Nat.le_refl _
  | tail _ hmove ih =>
    cases hmove with
    | accept => exact Nat.le_succ_of_le ih
    | recompute => exact Nat.le_succ_of_le ih
    | _ => exact ih

end Desk

/-! ## What a scheduler does -/

namespace Scheduler

open Desk (Moves)

/-- The desk of a scheduler, with the submissions `read` that it has taken out of its inbox and not
scheduled yet. -/
def desk (s : Scheduler) (read : List Submission) (done : List RequestId) : Desk :=
  ⟨s.queue, read ++ s.inbox.unread, s.superseded, s.inbox.nextId, done⟩

variable {roots : RequestId → Prop} {s : Scheduler} {read : List Submission}
  {done : List RequestId}

theorem moves_enqueueRecompute (hs : (s.desk read done).Orderly) {root : RequestId}
    (hroot : roots root) (hlt : root < s.inbox.nextId) (trigger : Entity) (value : Option Value)
    (priority : Priority) (consumer : Entity) :
    Moves roots (s.desk read done)
      ((s.enqueueRecompute trigger value priority root consumer).desk read done) := by
  cases hwaits : s.queue.pendingFor? consumer with
  | none =>
    rw [enqueueRecompute_of_none hs.indexed hwaits]
    exact .single (.recompute (r := ⟨s.inbox.nextId, root, consumer, .recompute,
      .recompute consumer.property trigger value, priority, .queued⟩) rfl hwaits hroot hlt)
  | some r =>
    rw [enqueueRecompute_of_some hs.indexed hwaits]
    exact .single (.merge hwaits priority (.recompute consumer.property trigger value))

theorem moves_foldl_enqueueRecompute (hs : (s.desk read done).Orderly) {root : RequestId}
    (hroot : roots root) (hlt : root < s.inbox.nextId) (trigger : Entity) (value : Option Value)
    (priority : Priority) (consumers : List Entity) :
    Moves roots (s.desk read done)
      ((consumers.foldl (enqueueRecompute · trigger value priority root) s).desk read done) := by
  induction consumers generalizing s with
  | nil => exact .refl
  | cons c consumers ih =>
    have hfirst := moves_enqueueRecompute hs hroot hlt trigger value priority c
    exact hfirst.trans (ih (hfirst.orderly hs) (Nat.lt_of_lt_of_le hlt hfirst.next_le))

theorem moves_schedule {c : Submission} (hs : (s.desk (c :: read) done).Orderly)
    (hroot : roots c.id) :
    Moves roots (s.desk (c :: read) done) ((s.schedule c).desk read done) := by
  have hlt : c.id < s.inbox.nextId := (hs.fresh c List.mem_cons_self).1
  have hfirst : Moves roots (s.desk (c :: read) done) _ := .single (.schedule rfl hroot)
  exact hfirst.trans (moves_foldl_enqueueRecompute (s := { s with
      queue := (s.queue.push c.request).2
      superseded := s.superseded ++ ((s.queue.push c.request).1.map Request.id).toList })
    (hfirst.orderly hs) hroot hlt c.target none c.priority _)

theorem moves_foldl_schedule (hs : (s.desk read done).Orderly)
    (hroots : ∀ c ∈ read, c.kind ≠ .recompute → roots c.id) :
    Moves roots (s.desk read done) ((read.foldl schedule s).desk [] done) := by
  induction read generalizing s with
  | nil => exact .refl
  | cons c read ih =>
    have hfirst := moves_schedule hs
      (hroots c List.mem_cons_self (hs.external c List.mem_cons_self))
    exact hfirst.trans (ih (hfirst.orderly hs) fun d hd => hroots d (List.mem_cons_of_mem _ hd))

theorem moves_readInbox (hs : (s.desk [] done).Orderly)
    (hroots : ∀ c ∈ s.inbox.unread, c.kind ≠ .recompute → roots c.id) :
    Moves roots (s.desk [] done) (s.readInbox.desk [] done) := by
  have heq : s.desk [] done =
      Scheduler.desk { s with inbox := { s.inbox with unread := [] } } s.inbox.unread done := by
    simp [desk]
  rw [heq] at hs ⊢
  exact moves_foldl_schedule hs hroots

theorem moves_submit (s : Scheduler) (done : List RequestId) (c : Change) :
    Moves roots (s.desk [] done) ((s.submit c).2.desk [] done) := by
  simp only [submit, Inbox.submit]
  rcases s.inbox.accept_eq c with ⟨e, he⟩ | ⟨target, hkind, -, hok⟩
  · rw [he]
  · rw [hok]
    exact .single (.accept rfl hkind (List.perm_append_singleton _ _))

theorem moves_run {τ : Type} (reply : Reply τ) (s : Scheduler) (done : List RequestId) :
    Moves roots (s.desk [] done)
      (Scheduler.desk { s with inbox := (reply.run s.inbox).2.2 } [] done) := by
  induction reply generalizing s with
  | done result state => exact .refl
  | submit change next ih => exact (moves_submit s done change).trans (ih _ (s.submit change).2)

theorem moves_foldl_submit (changes : List Change) (s : Scheduler) (done : List RequestId) :
    Moves roots (s.desk [] done) (Scheduler.desk
      { s with inbox := changes.foldl (fun inbox c => (inbox.submit c).2) s.inbox } [] done) := by
  induction changes generalizing s with
  | nil => exact .refl
  | cons c changes ih => exact (moves_submit s done c).trans (ih (s.submit c).2)

theorem moves_cascade (hs : (s.desk [] done).Orderly) {r : Request} (hroot : roots r.root)
    (hlt : r.root < s.inbox.nextId) (o : Outcome) :
    Moves roots (s.desk [] done) ((s.cascade r o).desk [] done) := by
  unfold cascade
  generalize r.affected = affected
  induction affected generalizing s with
  | nil => exact .refl
  | cons e affected ih =>
    have hfirst := moves_foldl_enqueueRecompute hs hroot hlt e o.value r.priority
      (s.graph.consumersOf e)
    exact hfirst.trans (ih (hfirst.orderly hs) (Nat.lt_of_lt_of_le hlt hfirst.next_le))

/-! ## Drains -/

namespace Drain

variable {τ : Type} (applier : Applier τ) {d : Drain τ}

theorem moves_flush (d : Drain τ) (done : List RequestId) (parent : ObjectId)
    (children : ChildBounds) : Moves roots (d.scheduler.desk [] done)
      ((d.flush applier parent children).scheduler.desk [] done) := by
  have hmoves : Moves roots (d.scheduler.desk [] done) _ :=
    moves_foldl_submit (applier.boundsChanges parent children d.state) d.scheduler done
  unfold flush
  cases happly : applier.applyBounds parent children d.state with
  | mk result state => cases result <;> exact hmoves

theorem moves_contribute (d : Drain τ) (done : List RequestId) (c : Contribution) :
    Moves roots (d.scheduler.desk [] done) ((d.contribute applier c).scheduler.desk [] done) := by
  unfold contribute
  split
  · exact .refl
  · exact moves_flush applier d done _ _

theorem moves_serve (hd : (d.scheduler.desk [] done).Orderly) {r : Request} (hroot : roots r.root)
    (hlt : r.root < d.scheduler.inbox.nextId) :
    Moves roots (d.scheduler.desk [] done) ((serve applier d r).scheduler.desk [] done) := by
  have hrun : Moves roots (d.scheduler.desk [] done) _ :=
    moves_run (applier.apply { r with state := .processing } d.state) d.scheduler done
  unfold serve
  cases hanswer : (applier.apply { r with state := .processing } d.state).run d.scheduler.inbox with
  | mk result rest =>
    obtain ⟨state, inbox⟩ := rest
    rw [hanswer] at hrun
    cases result with
    | error e => exact hrun
    | ok outcome =>
      have hcascade := hrun.trans (moves_cascade (hrun.orderly hd) hroot
        (Nat.lt_of_lt_of_le hlt hrun.next_le) outcome)
      dsimp only
      cases outcome.bounds with
      | none => exact hcascade
      | some c => exact hcascade.trans (moves_contribute applier
          { d with state, scheduler := { d.scheduler with inbox }.cascade r outcome } done c)

theorem moves_flushAll (d : Drain τ) (done : List RequestId) :
    Moves roots (d.scheduler.desk [] done) ((d.flushAll applier).scheduler.desk [] done) := by
  have hall : ∀ (parents : List (ObjectId × ChildBounds)) (d : Drain τ),
      Moves roots (d.scheduler.desk [] done)
        ((parents.foldl (fun d p => d.flush applier p.1 p.2) d).scheduler.desk [] done) := by
    intro parents
    induction parents with
    | nil => exact fun _ => .refl
    | cons p parents ih => exact fun d => (moves_flush applier d done p.1 p.2).trans (ih _)
  exact hall d.scheduler.bounds.parents.toList
    { d with scheduler := { d.scheduler with bounds := {} } }

end Drain

end Scheduler

end Parametric
