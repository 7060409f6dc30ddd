import Parametric.Proofs.Update.Split

/-!
# The attempts of a drain

A drain attempts one request after another, whatever came of the ones before
(`Drain.attempts`). It stops before its limit only when nothing waits (`Drain.attempts_full`). With
an applier that submits nothing, an attempt that fails leaves the scheduler as it is
(`Attempt.scheduler_of_error`), so each request that waits then is attempted later or waits at the
end (`Drain.attempted_or_left`).
-/

namespace Parametric

namespace Desk

variable {roots : RequestId → Prop} {d d' : Desk}

/-- No number leaves the desk. -/
theorem Moves.numbers_subset (hmoves : Moves roots d d') (hd : d.Orderly) :
    d.numbers ⊆ d'.numbers := by
  induction hmoves with
  | refl => exact fun _ hx => hx
  | tail hbefore hmove ih =>
    intro x hx
    rcases hmove.numbers (Moves.orderly hbefore hd) with ⟨-, hperm⟩ | ⟨-, hperm⟩
    · exact hperm.mem_iff.2 (ih hx)
    · exact hperm.mem_iff.2 (List.mem_cons_of_mem _ (ih hx))

/-- The number of a waiting request is nowhere else. -/
theorem Conserved.waits_once (h : d.Conserved) {id : RequestId}
    (hid : id ∈ d.queue.requests.keys) : id ∉ d.superseded ∧ id ∉ d.done := by
  have hnodup : d.numbers.Nodup := h.2.nodup_iff.2 List.nodup_range'
  rw [numbers, List.nodup_append, List.nodup_append] at hnodup
  obtain ⟨⟨-, -, hsuperseded⟩, -, hdone⟩ := hnodup
  have hwaits := List.mem_append_right (d.submissions.map Submission.id) hid
  exact ⟨fun h => hsuperseded id hwaits id h rfl,
    fun h => hdone id (List.mem_append_left _ hwaits) id h rfl⟩

end Desk

namespace Scheduler

/-- A request whose turn has come, and the drain in progress. -/
structure Attempt (τ : Type) where
  before : Drain τ
  request : Request

namespace Attempt

variable {τ : Type} (applier : Applier τ) (a : Attempt τ)

/-- What comes of an attempt. -/
def result : Except ApplyError Outcome := (a.before.answer applier a.request).1

/-- The drain after an attempt. -/
def after : Drain τ := a.before.serve applier a.request

/-- An attempt as it is reported. -/
def service : Service := ⟨a.before.scheduler.graph, a.request, a.result applier⟩

variable {applier a}

/-- One that fails is reported. -/
theorem after_of_error {reason : ApplyError} (h : a.result applier = .error reason) :
    a.after applier =
      { state := (a.before.answer applier a.request).2.1
        scheduler := { a.before.scheduler with inbox := (a.before.answer applier a.request).2.2 }
        report := { a.before.report with
          failed := a.before.report.failed ++
            [⟨a.request.id, a.request.root, a.request.target, reason⟩] } } := by
  unfold after Drain.serve
  unfold result Drain.answer at h
  simp only [Drain.answer, h]

theorem scheduler_of_error (hreserved : applier.Reserved) {reason : ApplyError}
    (h : a.result applier = .error reason) :
    (a.after applier).scheduler = a.before.scheduler := by
  rw [after_of_error h]
  dsimp only
  rw [show (a.before.answer applier a.request).2.2 = a.before.scheduler.inbox from
    hreserved.apply _ _ _]

end Attempt

namespace Drain

variable {τ : Type} (applier : Applier τ)

/-- The requests that are attempted until none waits or `limit` are served. -/
def attempts : Nat → Drain τ → List (Attempt τ)
  | 0, _ => []
  | limit + 1, d =>
    match d.scheduler.readInbox.queue.pop with
    | (none, _) => []
    | (some r, queue) => ⟨d.popped queue, r⟩ :: attempts limit (serve applier (d.popped queue) r)

variable {applier} {d : Drain τ} {a : Attempt τ} {limit : Nat} {earlier later : List (Attempt τ)}

/-- The services of a drain are its attempts. -/
theorem services_eq_map (limit : Nat) (d : Drain τ) :
    services applier limit d = (attempts applier limit d).map (Attempt.service applier) := by
  induction limit generalizing d with
  | zero => rfl
  | succ limit ih =>
    unfold attempts
    cases hpop : d.scheduler.readInbox.queue.pop with
    | mk request queue =>
      cases request with
      | none => exact (serveAll_of_pop_none applier limit hpop).2
      | some r =>
        rw [(serveAll_of_pop_some applier limit hpop).2, ih]
        rfl

/-- A drain that does not reach its limit ends with nothing to serve. -/
theorem attempts_full (limit : Nat) (d : Drain τ) : (attempts applier limit d).length = limit ∨
    ∃ q : Queue, q.pop = (none, (serveAll applier limit d).scheduler.queue) := by
  induction limit generalizing d with
  | zero => exact .inl rfl
  | succ limit ih =>
    unfold attempts
    cases hpop : d.scheduler.readInbox.queue.pop with
    | mk request queue =>
      cases request with
      | none =>
        rw [(serveAll_of_pop_none applier limit hpop).1]
        exact .inr ⟨_, hpop⟩
      | some r =>
        rw [(serveAll_of_pop_some applier limit hpop).1]
        exact (ih _).imp_left (congrArg (· + 1))

/-! ## What comes of the other requests -/

/-- The first attempt is that of the next request, and the others follow it. -/
theorem attempts_eq_cons (h : attempts applier limit d = a :: later) :
    ∃ n queue, limit = n + 1 ∧ d.scheduler.readInbox.queue.pop = (some a.request, queue) ∧
      a.before = d.popped queue ∧ attempts applier n (a.after applier) = later := by
  cases limit with
  | zero => cases h
  | succ n =>
    unfold attempts at h
    split at h
    · cases h
    next r queue hpop =>
      cases h
      exact ⟨n, queue, rfl, hpop, rfl, rfl⟩

/-- After an attempt the drain goes on with the later ones. -/
theorem attempts_split (h : attempts applier limit d = earlier ++ a :: later) :
    ∃ n, attempts applier n (a.after applier) = later ∧
      serveAll applier n (a.after applier) = serveAll applier limit d := by
  induction earlier generalizing limit d with
  | nil =>
    obtain ⟨n, queue, rfl, hpop, hbefore, hlater⟩ := attempts_eq_cons h
    refine ⟨n, hlater, ?_⟩
    rw [(serveAll_of_pop_some applier n hpop).1, ← hbefore]
    rfl
  | cons b earlier ih =>
    obtain ⟨n, queue, rfl, hpop, hbefore, hrest⟩ := attempts_eq_cons h
    obtain ⟨m, hlater, hall⟩ := ih hrest
    refine ⟨m, hlater, hall.trans ?_⟩
    rw [(serveAll_of_pop_some applier n hpop).1, ← hbefore]
    rfl

/-- At each attempt the inbox is read, and every number is in one place. -/
theorem inUse_attempts (limit : Nat) (hd : d.scheduler.InUse) :
    ∀ a ∈ attempts applier limit d,
      a.before.scheduler.InUse ∧ a.before.scheduler.inbox.unread = [] := by
  induction limit generalizing d with
  | zero => exact fun a ha => absurd ha List.not_mem_nil
  | succ limit ih =>
    obtain ⟨hsound, done, haccounted⟩ := hd
    obtain ⟨hread, -, hunread, -⟩ := readInbox_spec hsound
    unfold attempts
    split
    · exact fun a ha => absurd ha List.not_mem_nil
    next r queue hpop =>
      have hsound' := (pop_spec hread hpop).1
      have hpopped : Desk.Moves (fun _ => True) (d.scheduler.desk [] done)
          ((d.popped queue).scheduler.desk [] (done ++ [r.id])) :=
        (moves_readInbox haccounted.orderly fun _ _ _ => trivial).tail (.serve hpop)
      have hserved := (moves_served applier haccounted (fun _ _ _ => trivial) hpop).1
      have hkeeps := (waits_serve applier (d := d.popped queue) hsound' r).1
      exact List.forall_mem_cons.2 ⟨⟨⟨hsound', _, hpopped.accounted haccounted⟩, hunread⟩,
        ih ⟨hkeeps.sound, _, hserved.accounted haccounted⟩⟩

/-- Each request that waits when an attempt fails is attempted later, or waits at the end. -/
theorem attempted_or_left (hreserved : applier.Reserved) (hd : d.scheduler.InUse)
    (h : attempts applier limit d = earlier ++ a :: later) {reason : ApplyError}
    (hfails : a.result applier = .error reason) {id : RequestId}
    (hwaits : id ∈ a.before.scheduler.queue.requests.keys) :
    (∃ b ∈ later, b.request.id = id) ∨
      id ∈ (serveAll applier limit d).scheduler.queue.requests.keys := by
  have hmem : a ∈ attempts applier limit d := by simp [h]
  obtain ⟨⟨-, done, haccounted⟩, hunread⟩ := inUse_attempts limit hd a hmem
  obtain ⟨n, hlater, hall⟩ := attempts_split h
  rw [← Attempt.scheduler_of_error hreserved hfails] at hunread haccounted hwaits
  obtain ⟨hunread', hsuperseded⟩ := unread_serveAll hreserved n hunread
  obtain ⟨hmoves, -⟩ := moves_serveAll applier n haccounted fun _ _ _ => trivial
  obtain ⟨hnotSuperseded, hnotDone⟩ := haccounted.conserved.waits_once hwaits
  -- Its number is still on the desk, and nothing is read or withdrawn in the rest of the drain.
  have hnumber := hmoves.numbers_subset haccounted.orderly
    (List.mem_append_left _ (List.mem_append_left _ (List.mem_append_right _ hwaits)))
  rw [services_eq_map, hlater, hall] at hnumber
  rw [hall] at hunread' hsuperseded
  simp only [Desk.numbers, desk, hunread', hsuperseded, List.mem_append, List.map_map,
    List.append_nil, List.map_nil, List.not_mem_nil, false_or] at hnumber
  rcases hnumber with (hleft | hwithdrawn) | hdone | hattempted
  · exact .inr hleft
  · exact absurd hwithdrawn hnotSuperseded
  · exact absurd hdone hnotDone
  · obtain ⟨b, hb, rfl⟩ := List.mem_map.1 hattempted
    exact .inl ⟨b, hb, rfl⟩

end Drain

end Scheduler

end Parametric
