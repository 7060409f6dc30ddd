import Parametric.Proofs.Graph.Downstream
import Parametric.Proofs.Update.Queue
import Parametric.Update.Scheduler

/-!
# What waits in a scheduler

A scheduler is `Sound` when its graph is, its queue is indexed, and no number is in use twice, be it
of a waiting request or of a submission that was not read (`Numbered`). Scheduling then only adds to
what waits: `schedule` and `cascade` make the entities wait that follow from a change, and nothing
stops waiting (`Waits`). What the waiting requests look like is kept when it holds of every
recompute and does not depend on what was folded in (`Request.Stable`).
-/

namespace Parametric

/-- Every recompute has the property, and folding a recompute in does not change it. -/
structure Request.Stable (P : Request → Prop) : Prop where
  recompute : ∀ r, r.kind = .recompute → P r
  absorb : ∀ r priority payload, payload.isRecompute → P r → P (r.absorb priority payload)

/-- A property that is stable may be left open for the requests of one target. -/
theorem Request.Stable.or_target {P : Request → Prop} (h : Request.Stable P) (t : Entity) :
    Request.Stable fun r => r.target = t ∨ P r :=
  ⟨fun r hr => .inr (h.recompute r hr), fun r priority payload hpayload hr =>
    hr.imp (fun h => h) (h.absorb r priority payload hpayload)⟩

/-- The request for a change. -/
def Submission.request (c : Submission) : Request :=
  ⟨c.id, c.id, c.target, c.kind, c.payload, c.priority, .queued⟩

/-- All requests of a queue have a property. -/
def Queue.All (P : Request → Prop) (q : Queue) : Prop := ∀ t r, q.pendingFor? t = some r → P r

/-- The queue is indexed, and its requests and the submissions `rest` have different numbers below
`next`. -/
structure Numbered (q : Queue) (rest : List Submission) (next : RequestId) : Prop where
  indexed : q.Indexed
  queued : ∀ {id : RequestId} {r : Request}, q.requests[id]? = some r → id < next
  fresh : ∀ c ∈ rest, c.id < next ∧ q.requests[c.id]? = none
  distinct : rest.Pairwise fun c d => c.id ≠ d.id

namespace Numbered

variable {q q' : Queue} {rest : List Submission} {next : RequestId}

theorem getElem?_next (h : Numbered q rest next) : q.requests[next]? = none := by
  cases hr : q.requests[next]? with
  | none => rfl
  | some r => exact absurd (h.queued hr) (Nat.lt_irrefl next)

/-- A submission gets the next number. -/
theorem cons (h : Numbered q rest next) (target : Entity) (kind : ChangeKind) (payload : Payload)
    (priority : Priority) :
    Numbered q (⟨next, target, kind, payload, priority⟩ :: rest) (next + 1) := by
  refine ⟨h.indexed, fun hr => Nat.lt_succ_of_lt (h.queued hr), fun d hd => ?_, ?_⟩
  · rcases List.mem_cons.1 hd with rfl | hd
    · exact ⟨Nat.lt_succ_self _, h.getElem?_next⟩
    · exact ⟨Nat.lt_succ_of_lt (h.fresh d hd).1, (h.fresh d hd).2⟩
  · exact List.pairwise_cons.2 ⟨fun d hd => Nat.ne_of_gt (h.fresh d hd).1, h.distinct⟩

/-- In which order submissions came does not matter. -/
theorem perm {rest' : List Submission} (h : Numbered q rest next) (hperm : rest.Perm rest') :
    Numbered q rest' next :=
  ⟨h.indexed, h.queued, fun c hc => h.fresh c (hperm.mem_iff.2 hc),
    (hperm.pairwise_iff fun h => h.symm).1 h.distinct⟩

/-- Requests may change and go, and one may come with a number that no submission has. -/
theorem change (h : Numbered q rest next) (hindexed : q'.Indexed) {next' : RequestId}
    (hnext : next ≤ next') (hids : ∀ t r, q'.pendingFor? t = some r →
      (∃ r', q.pendingFor? t = some r' ∧ r'.id = r.id) ∨ r.id < next' ∧ ∀ c ∈ rest, c.id ≠ r.id) :
    Numbered q' rest next' := by
  have hold : ∀ {t r}, q.pendingFor? t = some r → r.id < next ∧ ∀ c ∈ rest, c.id ≠ r.id := by
    intro t r hr
    have hreq := (h.indexed.pendingFor?_eq_some_iff.1 hr).1
    refine ⟨h.queued hreq, fun c hc heq => ?_⟩
    rw [← heq, (h.fresh c hc).2] at hreq
    cases hreq
  have hnew : ∀ {id : RequestId} {r : Request}, q'.requests[id]? = some r →
      id < next' ∧ ∀ c ∈ rest, c.id ≠ id := by
    intro id r hr
    have hid := (hindexed.requests hr).1
    have hwaits := hindexed.pendingFor?_eq_some_iff.2 ⟨hid.symm ▸ hr, rfl⟩
    rw [← hid]
    rcases hids _ _ hwaits with ⟨r', hr', heq⟩ | hfresh
    · rw [← heq]
      exact ⟨Nat.lt_of_lt_of_le (hold hr').1 hnext, (hold hr').2⟩
    · exact hfresh
  refine ⟨hindexed, fun hr => (hnew hr).1, fun c hc => ⟨?_, ?_⟩, h.distinct⟩
  · exact Nat.lt_of_lt_of_le (h.fresh c hc).1 hnext
  · cases hr : q'.requests[c.id]? with
    | none => rfl
    | some r => exact absurd rfl ((hnew hr).2 c hc)

/-- A submission becomes the request that waits for its target. -/
theorem push {c : Submission} (h : Numbered q (c :: rest) next) :
    Numbered (q.push c.request).2 rest next ∧
      ∀ x, (q.push c.request).2.pendingFor? x =
        if c.target = x then some c.request else q.pendingFor? x := by
  obtain ⟨hlt, hnone⟩ := h.fresh c List.mem_cons_self
  obtain ⟨hdistinct, hrest⟩ := List.pairwise_cons.1 h.distinct
  have htail : Numbered q rest next :=
    ⟨h.indexed, h.queued, fun d hd => h.fresh d (List.mem_cons_of_mem _ hd), hrest⟩
  obtain ⟨hindexed, hpendingFor⟩ := h.indexed.push (r := c.request) hnone
  refine ⟨htail.change hindexed (Nat.le_refl _) fun t r hr => ?_, hpendingFor⟩
  rw [hpendingFor] at hr
  split at hr
  · cases hr
    exact .inr ⟨hlt, fun d hd heq => hdistinct d hd heq.symm⟩
  · exact .inl ⟨r, hr, rfl⟩

end Numbered

/-- A change that is taken gets the next number; one that is refused leaves the inbox as it is. -/
theorem Inbox.accept_eq (i : Inbox) (c : Change) : (∃ e, i.accept c = .error e) ∨
    ∃ target, c.kind ≠ .recompute ∧ c.kind.target c.object c.payload = .ok target ∧
      i.accept c = .ok (⟨i.nextId, target, c.kind, c.payload, c.priority⟩,
        { i with nextId := i.nextId + 1 }) := by
  unfold accept
  split
  · exact .inl ⟨_, rfl⟩
  next hkind =>
    cases htarget : c.kind.target c.object c.payload with
    | error e => exact .inl ⟨e, rfl⟩
    | ok target => exact .inr ⟨target, hkind, rfl, rfl⟩

theorem Numbered.submit {q : Queue} {i : Inbox} (h : Numbered q i.unread i.nextId) (c : Change) :
    Numbered q (i.submit c).2.unread (i.submit c).2.nextId := by
  unfold Inbox.submit
  rcases i.accept_eq c with ⟨e, he⟩ | ⟨target, -, -, hok⟩
  · rw [he]
    exact h
  · rw [hok]
    exact (h.cons target c.kind c.payload c.priority).perm (List.perm_append_singleton _ _).symm

theorem Numbered.run {q : Queue} {τ : Type} (reply : Reply τ) {i : Inbox}
    (h : Numbered q i.unread i.nextId) :
    Numbered q (reply.run i).2.2.unread (reply.run i).2.2.nextId := by
  induction reply generalizing i with
  | done result state => exact h
  | submit change next ih => exact ih _ (h.submit change)

namespace Scheduler

variable {s : Scheduler} {rest : List Submission}

/-- The scheduler once a submission has taken the next number. -/
def accepted (s : Scheduler) : Scheduler :=
  { s with inbox := { s.inbox with nextId := s.inbox.nextId + 1 } }

/-- A request waits for `t`. -/
def Waits (s : Scheduler) (t : Entity) : Prop := (s.queue.pendingFor? t).isSome

/-- Binding a consumer changes the graph only. -/
theorem frame_replaceProducers {s s' : Scheduler} {consumer : Entity}
    {edges : List (Entity × Edge)} {bound : Except CycleError Unit}
    (h : s.replaceProducers consumer edges = (bound, s')) :
    s'.queue = s.queue ∧ s'.inbox = s.inbox := by
  cases h
  exact ⟨rfl, rfl⟩

theorem waits_replaceProducers {s s' : Scheduler} {consumer : Entity}
    {edges : List (Entity × Edge)} {bound : Except CycleError Unit}
    (h : s.replaceProducers consumer edges = (bound, s')) (e : Entity) (he : s.Waits e) :
    s'.Waits e := by
  rwa [Waits, (frame_replaceProducers h).1]

/-- The graph is sound, and no number is in use twice. -/
structure Sound (s : Scheduler) : Prop where
  graph : s.graph.Sound
  numbered : Numbered s.queue s.inbox.unread s.inbox.nextId

theorem Sound.new (settings : PropagationSettings) : Sound { settings } :=
  ⟨.empty, .empty, by simp, by simp, .nil⟩

/-! ## Recomputes -/

/-- The request for a consumer after a recompute of it was asked for. -/
def recompute (s : Scheduler) (trigger : Entity) (value : Option Value) (priority : Priority)
    (root : RequestId) (consumer : Entity) : Request :=
  let payload : Payload := .recompute consumer.property trigger value
  match s.queue.pendingFor? consumer with
  | some r => r.absorb priority payload
  | none => ⟨s.inbox.nextId, root, consumer, .recompute, payload, priority, .queued⟩

/-- A consumer that nothing waits for gets a request of its own. -/
theorem enqueueRecompute_of_none (hs : s.queue.Indexed) {consumer : Entity}
    (hwaits : s.queue.pendingFor? consumer = none) (trigger : Entity) (value : Option Value)
    (priority : Priority) (root : RequestId) :
    s.enqueueRecompute trigger value priority root consumer =
      { s with
        queue := (s.queue.push ⟨s.inbox.nextId, root, consumer, .recompute,
          .recompute consumer.property trigger value, priority, .queued⟩).2
        inbox := { s.inbox with nextId := s.inbox.nextId + 1 } } := by
  simp only [enqueueRecompute, hs.merge_none hwaits]

/-- A recompute of a consumer that a request waits for is folded into that request. -/
theorem enqueueRecompute_of_some (hs : s.queue.Indexed) {consumer : Entity} {r : Request}
    (hwaits : s.queue.pendingFor? consumer = some r) (trigger : Entity) (value : Option Value)
    (priority : Priority) (root : RequestId) :
    s.enqueueRecompute trigger value priority root consumer =
      { s with queue := (s.queue.merge consumer priority
          (.recompute consumer.property trigger value)).2 } := by
  simp only [enqueueRecompute, hs.merge_some hwaits]

/-- All that a recompute changes is the request of its target and the next number. -/
theorem enqueueRecompute_spec (hs : Numbered s.queue rest s.inbox.nextId) (trigger : Entity)
    (value : Option Value) (priority : Priority) (root : RequestId) (consumer : Entity) :
    ∃ queue next, s.enqueueRecompute trigger value priority root consumer =
        { s with queue, inbox := { s.inbox with nextId := next } } ∧
      Numbered queue rest next ∧ ∀ x, queue.pendingFor? x =
        if consumer = x then some (s.recompute trigger value priority root consumer)
        else s.queue.pendingFor? x := by
  cases hwaits : s.queue.pendingFor? consumer with
  | none =>
    simp only [recompute, hwaits]
    refine ⟨_, _, enqueueRecompute_of_none hs.indexed hwaits trigger value priority root, ?_⟩
    obtain ⟨hindexed, hpendingFor⟩ := hs.indexed.push (r := ⟨s.inbox.nextId, root, consumer,
      .recompute, .recompute consumer.property trigger value, priority, .queued⟩) hs.getElem?_next
    refine ⟨hs.change hindexed (Nat.le_succ _) fun t r hr => ?_, hpendingFor⟩
    rw [hpendingFor] at hr
    split at hr
    · cases hr
      exact .inr ⟨Nat.lt_succ_self _, fun c hc => Nat.ne_of_lt (hs.fresh c hc).1⟩
    · exact .inl ⟨r, hr, rfl⟩
  | some r =>
    have hmerge := hs.indexed.merge consumer priority (.recompute consumer.property trigger value)
    simp only [hwaits] at hmerge
    obtain ⟨-, hindexed, hpendingFor⟩ := hmerge
    refine ⟨_, s.inbox.nextId,
      enqueueRecompute_of_some hs.indexed hwaits trigger value priority root,
      hs.change hindexed (Nat.le_refl _) fun t r' hr' => ?_, ?_⟩
    · rw [hpendingFor] at hr'
      split at hr'
      next heq =>
        cases hr'
        exact .inl ⟨r, heq ▸ hwaits, rfl⟩
      next => exact .inl ⟨r', hr', rfl⟩
    · simpa only [recompute, hwaits] using hpendingFor

/-- Recomputes of some consumers add these to what waits and change nothing else but the waiting
requests and the next number. -/
theorem foldl_enqueueRecompute (hs : Numbered s.queue rest s.inbox.nextId) (trigger : Entity)
    (value : Option Value) (priority : Priority) (root : RequestId) (consumers : List Entity) :
    ∃ queue next, consumers.foldl (enqueueRecompute · trigger value priority root) s =
        { s with queue, inbox := { s.inbox with nextId := next } } ∧
      Numbered queue rest next ∧
      (∀ x, (queue.pendingFor? x).isSome ↔ x ∈ consumers ∨ s.Waits x) ∧
      ∀ P : Request → Prop, Request.Stable P → s.queue.All P → queue.All P := by
  induction consumers generalizing s with
  | nil => exact ⟨s.queue, s.inbox.nextId, rfl, hs, by simp [Waits], fun _ _ h => h⟩
  | cons c consumers ih =>
    obtain ⟨queue, next, heq, hnumbered, hpendingFor⟩ :=
      enqueueRecompute_spec hs trigger value priority root c
    rw [List.foldl_cons, heq]
    obtain ⟨queue', next', heq', hnumbered', hwaits', hall'⟩ :=
      ih (s := { s with queue, inbox := { s.inbox with nextId := next } }) hnumbered
    refine ⟨queue', next', heq', hnumbered', fun x => ?_, fun P hP hall => hall' P hP ?_⟩
    · rw [hwaits', Waits, hpendingFor, List.mem_cons]
      by_cases hx : c = x
      · simp [hx]
      · simp [hx, Ne.symm hx, Waits]
    · intro t r hr
      rw [hpendingFor] at hr
      split at hr
      · cases hr
        unfold recompute
        cases hold : s.queue.pendingFor? c with
        | none => exact hP.recompute _ rfl
        | some old => exact hP.absorb _ _ _ rfl (hall c old hold)
      · exact hall t r hr

/-! ## Changes -/

/-- After a change its target waits and all that follows from it, and what waited before still
does. -/
theorem schedule_spec {c : Submission} (hs : Numbered s.queue (c :: rest) s.inbox.nextId) :
    ∃ queue next superseded, s.schedule c =
        { s with queue, superseded, inbox := { s.inbox with nextId := next } } ∧
      Numbered queue rest next ∧
      (∀ x, (queue.pendingFor? x).isSome ↔
        c.target = x ∨ x ∈ s.graph.downstream c.request.affected ∨ s.Waits x) ∧
      ∀ P : Request → Prop, Request.Stable P → P c.request → s.queue.All P → queue.All P := by
  obtain ⟨hpushed, hpendingFor⟩ := hs.push
  let superseded := s.superseded ++ ((s.queue.push c.request).1.map Request.id).toList
  obtain ⟨queue, next, heq, hnumbered, hwaits, hall⟩ := foldl_enqueueRecompute
    (s := { s with queue := (s.queue.push c.request).2, superseded }) hpushed c.target none
    c.priority c.id (s.graph.downstream c.request.affected)
  refine ⟨queue, next, superseded, heq, hnumbered, fun x => ?_, fun P hP hc hold => hall P hP ?_⟩
  · rw [hwaits, Waits, hpendingFor]
    by_cases hx : c.target = x
    · simp [hx, Submission.request]
    · simp [hx, Submission.request, Waits]
  · intro t r hr
    rw [hpendingFor] at hr
    split at hr
    · cases hr
      exact hc
    · exact hold t r hr

/-- The submissions of the inbox are scheduled in turn. -/
theorem foldl_schedule (hs : Numbered s.queue rest s.inbox.nextId) :
    ∃ queue next superseded, rest.foldl schedule s =
        { s with queue, superseded, inbox := { s.inbox with nextId := next } } ∧
      Numbered queue [] next ∧ (∀ x, s.Waits x → (queue.pendingFor? x).isSome) := by
  induction rest generalizing s with
  | nil => exact ⟨s.queue, s.inbox.nextId, s.superseded, rfl, hs, fun _ h => h⟩
  | cons c rest ih =>
    obtain ⟨queue, next, superseded, heq, hnumbered, hwaits, -⟩ := schedule_spec hs
    obtain ⟨queue', next', superseded', heq', hnumbered', hwaits'⟩ :=
      ih (s := { s with queue, superseded, inbox := { s.inbox with nextId := next } }) hnumbered
    rw [List.foldl_cons, heq]
    exact ⟨queue', next', superseded', heq', hnumbered',
      fun x hx => hwaits' x ((hwaits x).2 (.inr (.inr hx)))⟩

/-- Reading the inbox empties it, keeps the graph, and nothing stops waiting. -/
theorem readInbox_spec (hs : s.Sound) :
    s.readInbox.Sound ∧ s.readInbox.graph = s.graph ∧ s.readInbox.inbox.unread = [] ∧
      ∀ x, s.Waits x → s.readInbox.Waits x := by
  obtain ⟨queue, next, superseded, heq, hnumbered, hwaits⟩ :=
    foldl_schedule (s := { s with inbox := { s.inbox with unread := [] } }) hs.numbered
  rw [readInbox, heq]
  exact ⟨⟨hs.graph, hnumbered⟩, rfl, rfl, hwaits⟩

theorem readInbox_eq (h : s.inbox.unread = []) : s.readInbox = s := by
  have hinbox : { s.inbox with unread := [] } = s.inbox := by rw [← h]
  simp only [readInbox, h, List.foldl_nil, hinbox]

/-- What a request changed makes its consumers wait. -/
theorem cascade_spec (hs : Numbered s.queue rest s.inbox.nextId) (r : Request) (o : Outcome) :
    ∃ queue next, s.cascade r o = { s with queue, inbox := { s.inbox with nextId := next } } ∧
      Numbered queue rest next ∧
      (∀ x, (queue.pendingFor? x).isSome ↔
        (∃ e ∈ r.affected, x ∈ s.graph.consumersOf e) ∨ s.Waits x) ∧
      ∀ P : Request → Prop, Request.Stable P → s.queue.All P → queue.All P := by
  unfold cascade
  generalize r.affected = affected
  induction affected generalizing s with
  | nil => exact ⟨s.queue, s.inbox.nextId, rfl, hs, by simp [Waits], fun _ _ h => h⟩
  | cons e affected ih =>
    obtain ⟨queue, next, heq, hnumbered, hwaits, hall⟩ :=
      foldl_enqueueRecompute hs e o.value r.priority r.root (s.graph.consumersOf e)
    obtain ⟨queue', next', heq', hnumbered', hwaits', hall'⟩ :=
      ih (s := { s with queue, inbox := { s.inbox with nextId := next } }) hnumbered
    rw [List.foldl_cons, heq]
    refine ⟨queue', next', heq', hnumbered', fun x => ?_,
      fun P hP hold => hall' P hP (hall P hP hold)⟩
    rw [hwaits', Waits, hwaits]
    simp only [List.mem_cons, exists_eq_or_imp, or_assoc]
    exact or_left_comm

/-! ## The request for one target -/

/-- The queue after a change is pushed and before what follows from it. -/
def pushed (s : Scheduler) (c : Submission) : Scheduler :=
  { s with
    queue := (s.queue.push c.request).2
    superseded := s.superseded ++ ((s.queue.push c.request).1.map Request.id).toList }

theorem schedule_eq (s : Scheduler) (c : Submission) : s.schedule c =
    (s.graph.downstream c.request.affected).foldl
      (enqueueRecompute · c.target none c.priority c.id) (s.pushed c) := rfl

/-- A request that satisfies `Q` waits for `t`. -/
def WaitsAs (s : Scheduler) (t : Entity) (Q : Request → Prop) : Prop :=
  ∃ r, s.queue.pendingFor? t = some r ∧ Q r

namespace WaitsAs

variable {t : Entity} {Q : Request → Prop}
  (hQ : ∀ r priority payload, payload.isRecompute → Q r → Q (r.absorb priority payload))
include hQ

/-- Recomputes are folded into the request that waits. -/
theorem foldl_enqueueRecompute (hs : Numbered s.queue rest s.inbox.nextId) (trigger : Entity)
    (value : Option Value) (priority : Priority) (root : RequestId) (consumers : List Entity)
    (h : s.WaitsAs t Q) :
    (consumers.foldl (enqueueRecompute · trigger value priority root) s).WaitsAs t Q := by
  induction consumers generalizing s with
  | nil => exact h
  | cons c consumers ih =>
    obtain ⟨queue, next, heq, hnumbered, hpendingFor⟩ :=
      enqueueRecompute_spec hs trigger value priority root c
    rw [List.foldl_cons, heq]
    refine ih hnumbered ?_
    obtain ⟨r, hr, hQr⟩ := h
    unfold WaitsAs
    dsimp only
    rw [hpendingFor]
    split
    next heq =>
      refine ⟨_, rfl, ?_⟩
      rw [recompute, heq, hr]
      exact hQ _ _ _ rfl hQr
    next => exact ⟨r, hr, hQr⟩

/-- A change of another target leaves the request that waits, and one of the same target takes its
place. -/
theorem schedule {c : Submission} (hs : Numbered s.queue (c :: rest) s.inbox.nextId)
    (h : if c.target = t then Q c.request else s.WaitsAs t Q) : (s.schedule c).WaitsAs t Q := by
  obtain ⟨hpushed, hpendingFor⟩ := hs.push
  rw [schedule_eq]
  refine foldl_enqueueRecompute (s := s.pushed c) hQ hpushed _ _ _ _ _ ?_
  show ∃ r, (s.queue.push c.request).2.pendingFor? t = some r ∧ Q r
  rw [hpendingFor]
  split at h
  next htarget => exact ⟨c.request, if_pos htarget, h⟩
  next htarget => rwa [if_neg htarget]

theorem foldl_schedule (hs : Numbered s.queue rest s.inbox.nextId)
    (hrest : ∀ c ∈ rest, c.target = t → Q c.request) (h : s.WaitsAs t Q) :
    (rest.foldl Scheduler.schedule s).WaitsAs t Q := by
  induction rest generalizing s with
  | nil => exact h
  | cons c rest ih =>
    obtain ⟨hc, hrest⟩ := List.forall_mem_cons.1 hrest
    obtain ⟨queue, next, superseded, heq, hnumbered, -⟩ := schedule_spec hs
    have hfirst : (s.schedule c).WaitsAs t Q := by
      refine schedule hQ hs ?_
      split
      next htarget => exact hc htarget
      next => exact h
    rw [heq] at hfirst
    rw [List.foldl_cons, heq]
    exact ih hnumbered hrest hfirst

theorem cascade (hs : Numbered s.queue rest s.inbox.nextId) (r : Request) (o : Outcome)
    (h : s.WaitsAs t Q) : (s.cascade r o).WaitsAs t Q := by
  unfold Scheduler.cascade
  generalize r.affected = affected
  induction affected generalizing s with
  | nil => exact h
  | cons e affected ih =>
    obtain ⟨queue, next, heq, hnumbered, -⟩ := Scheduler.foldl_enqueueRecompute hs e o.value
      r.priority r.root (s.graph.consumersOf e)
    have hfirst := foldl_enqueueRecompute hQ hs e o.value r.priority r.root
      (s.graph.consumersOf e) h
    rw [heq] at hfirst
    rw [List.foldl_cons, heq]
    exact ih hnumbered hfirst

end WaitsAs

end Scheduler

end Parametric
