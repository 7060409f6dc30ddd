import Parametric.Proofs.Update.Conservation

/-!
# Cascades

In an idle scheduler a change is put at the head of a line, and behind it a recompute for everything
that follows from it, producers before consumers (`stage_schedule`). Serving a request then changes
the reasons in the line and nothing else (`Stage.serve`): all consumers of what it changed still
wait behind it, so their requests absorb its value where they stand. So a drain serves each follower
once, in the order of the graph, with the last change of one of its producers as the reason
(`services_of_stage`, `cascade_served_once`).
-/

namespace Parametric

/-! ## Reasons -/

/-- The last of some changes that a consumer depends on. -/
def Graph.lastChange? (g : Graph) (changes : List (Entity × Option Value)) (consumer : Entity) :
    Option (Entity × Option Value) :=
  (changes.filter fun change => consumer ∈ g.consumersOf change.1).getLast?

theorem Graph.lastChange?_append (g : Graph) (xs ys : List (Entity × Option Value))
    (consumer : Entity) : g.lastChange? (xs ++ ys) consumer =
      (g.lastChange? ys consumer).or (g.lastChange? xs consumer) := by
  rw [lastChange?, List.filter_append, List.getLast?_append]
  rfl

/-- The producers that a request changed, each with the value of its outcome. -/
def Scheduler.Service.changes (x : Service) : List (Entity × Option Value) :=
  match x.result with
  | .ok outcome => x.request.affected.map (·, outcome.value)
  | .error _ => []

namespace Request

/-- The recompute with a producer as the reason. -/
def blame (r : Request) (change : Entity × Option Value) : Request :=
  { r with payload := .recompute r.target.property change.1 change.2 }

/-- The request after some changes: the last one that it depends on is its reason. -/
def follow (g : Graph) (changes : List (Entity × Option Value)) (r : Request) : Request :=
  ((g.lastChange? changes r.target).map r.blame).getD r

/-- The recompute of a target that follows from `root` after some requests were served. -/
def consequence (g : Graph) (root : Request) (served : List Scheduler.Service) (id : RequestId)
    (target : Entity) : Request :=
  let reason :=
    (g.lastChange? (served.flatMap Scheduler.Service.changes) target).getD (root.target, none)
  ⟨id, root.id, target, .recompute, .recompute target.property reason.1 reason.2, root.priority,
    .queued⟩

theorem absorb_of_isRecompute {r : Request} {payload : Payload} (hr : r.payload.isRecompute)
    (hpayload : payload.isRecompute) : r.absorb r.priority payload = { r with payload } := by
  simp [absorb, hr, hpayload]

variable {g : Graph}

@[simp]
theorem target_follow (changes : List (Entity × Option Value)) (r : Request) :
    (r.follow g changes).target = r.target := by
  unfold follow
  cases g.lastChange? changes r.target <;> rfl

theorem follow_append (xs ys : List (Entity × Option Value)) (r : Request) :
    r.follow g (xs ++ ys) = (r.follow g xs).follow g ys := by
  unfold follow
  rw [Graph.lastChange?_append]
  cases hx : g.lastChange? xs r.target <;> cases hy : g.lastChange? ys r.target <;>
    simp [blame, hy]

theorem follow_consequence (root : Request) (served : List Scheduler.Service)
    (x : Scheduler.Service) (id : RequestId) (target : Entity) :
    (consequence g root served id target).follow g x.changes =
      consequence g root (served ++ [x]) id target := by
  simp only [follow, consequence, List.flatMap_append, Graph.lastChange?_append,
    List.flatMap_cons, List.flatMap_nil, List.append_nil]
  cases g.lastChange? x.changes target <;> rfl

end Request

/-- The applier submits nothing. -/
structure Applier.Quiet {τ : Type} (applier : Applier τ) : Prop where
  apply : ∀ r state, ∃ result state', applier.apply r state = .done result state'
  boundsChanges : ∀ parent children state, applier.boundsChanges parent children state = []

/-! ## Folding recomputes into a line -/

namespace Scheduler

variable {s : Scheduler} {unread : List Submission} {next : RequestId}

/-- A recompute that is as urgent as the one that waits changes the reason of that one. -/
theorem blame_line (hs : Orderly s.queue unread next) {r : Request}
    (hr : r ∈ s.queue.line r.priority) (hpayload : r.payload.isRecompute)
    (change : Entity × Option Value) (root : RequestId) :
    ∃ queue, s.enqueueRecompute change.1 change.2 r.priority root r.target = { s with queue } ∧
      Orderly queue unread next ∧
      ∀ p, queue.line p = (s.queue.line p).map fun x => if x.target = r.target then x.blame change
        else x := by
  have hwaits := (Queue.exists_mem_line_iff hs.indexed hs.banded).1 hr
  let payload : Payload := .recompute r.target.property change.1 change.2
  have habsorb : r.absorb r.priority payload = r.blame change :=
    Request.absorb_of_isRecompute hpayload rfl
  obtain ⟨-, -, hline⟩ := Queue.merge_line hs.indexed hs.banded hwaits r.priority payload
  refine ⟨_, enqueueRecompute_of_some hs.indexed hwaits change.1 change.2 r.priority root,
    hs.merge hwaits r.priority payload, fun p => ?_⟩
  rw [hline (Nat.lt_irrefl _)]
  refine List.map_congr_left fun x hx => ?_
  by_cases htarget : x.target = r.target
  · have hx' := (Queue.mem_line_iff hs.indexed hs.banded).1 hx
    have hxr : x = r := by
      rw [← hx'.2] at hx
      have := (Queue.exists_mem_line_iff hs.indexed hs.banded).1 hx
      rw [htarget, hwaits] at this
      exact (Option.some.inj this).symm
    rw [if_pos htarget, if_pos htarget, habsorb, hxr]
  · rw [if_neg htarget, if_neg htarget]

/-- The consumers in a list wait in a line, for recomputes. -/
def Lined (s : Scheduler) (p : Priority) (consumers : List Entity) : Prop :=
  ∀ c ∈ consumers, ∃ r ∈ s.queue.line p, r.target = c ∧ r.payload.isRecompute

theorem Lined.follow {p : Priority} {consumers : List Entity} (h : s.Lined p consumers)
    {s' : Scheduler} {f : Request → Request} (hline : s'.queue.line p = (s.queue.line p).map f)
    (htarget : ∀ r, (f r).target = r.target)
    (hpayload : ∀ r, r.payload.isRecompute → (f r).payload.isRecompute) : s'.Lined p consumers := by
  intro c hc
  obtain ⟨r, hr, rfl, hrec⟩ := h c hc
  exact ⟨f r, hline ▸ List.mem_map_of_mem hr, htarget r, hpayload r hrec⟩

/-- Recomputes of consumers that wait in the line change their reasons. -/
theorem foldl_blame_line (hs : Orderly s.queue unread next) {p : Priority} {consumers : List Entity}
    (hlined : s.Lined p consumers) (change : Entity × Option Value) (root : RequestId) :
    ∃ queue, consumers.foldl (enqueueRecompute · change.1 change.2 p root) s = { s with queue } ∧
      Orderly queue unread next ∧
      ∀ p', queue.line p' = (s.queue.line p').map fun x =>
        if x.target ∈ consumers then x.blame change else x := by
  induction consumers generalizing s with
  | nil => exact ⟨s.queue, rfl, hs, by simp⟩
  | cons c consumers ih =>
    obtain ⟨r, hr, rfl, hrec⟩ := hlined c List.mem_cons_self
    obtain ⟨-, rfl⟩ := (Queue.mem_line_iff hs.indexed hs.banded).1 hr
    obtain ⟨queue, heq, hs', hline⟩ := blame_line hs hr hrec change root
    have hlined' : Lined { s with queue } r.priority consumers := by
      refine Lined.follow (fun c hc => hlined c (List.mem_cons_of_mem _ hc)) (hline _)
        (fun x => ?_) fun x hx => ?_
      · split <;> rfl
      · split
        · rfl
        · exact hx
    obtain ⟨queue', heq', hs'', hline'⟩ := ih (s := { s with queue }) hs' hlined'
    refine ⟨queue', ?_, hs'', fun p' => ?_⟩
    · rw [List.foldl_cons, heq, heq']
    · rw [hline', hline, List.map_map]
      refine List.map_congr_left fun x _ => ?_
      by_cases hx : x.target = r.target
      · by_cases hmem : r.target ∈ consumers <;> simp [hx, hmem, Request.blame]
      · simp [hx]

/-- What a request changed becomes the reason of all that waits for it in the line. -/
theorem cascade_line (hs : Orderly s.queue unread next) (r : Request) (o : Outcome)
    (hlined : ∀ e ∈ r.affected, s.Lined r.priority (s.graph.consumersOf e)) :
    ∃ queue, s.cascade r o = { s with queue } ∧
      Orderly queue unread next ∧
      ∀ p, queue.line p =
        (s.queue.line p).map (Request.follow s.graph (r.affected.map (·, o.value))) := by
  unfold cascade
  generalize r.affected = affected at hlined ⊢
  induction affected generalizing s with
  | nil =>
    exact ⟨s.queue, rfl, hs, fun p => (List.map_id' _).symm⟩
  | cons e affected ih =>
    obtain ⟨queue, heq, hs', hline⟩ :=
      foldl_blame_line hs (hlined e List.mem_cons_self) (e, o.value) r.root
    have hfollow : ∀ p, queue.line p =
        (s.queue.line p).map (Request.follow s.graph [(e, o.value)]) := by
      intro p
      rw [hline]
      refine List.map_congr_left fun x _ => ?_
      by_cases hx : x.target ∈ s.graph.consumersOf e <;>
        simp [Request.follow, Graph.lastChange?, hx]
    have hlined' : ∀ e' ∈ affected,
        Lined { s with queue } r.priority (s.graph.consumersOf e') := by
      intro e' he'
      refine (hlined e' (List.mem_cons_of_mem _ he')).follow (hline _) (fun x => ?_) fun x hx => ?_
      · split <;> rfl
      · split
        · rfl
        · exact hx
    obtain ⟨queue', heq', hs'', hline'⟩ := ih (s := { s with queue }) hs' hlined'
    refine ⟨queue', ?_, hs'', fun p => ?_⟩
    · rw [List.foldl_cons, heq, heq']
    · rw [hline', hfollow, List.map_map, List.map_cons]
      exact List.map_congr_left fun x _ =>
        (Request.follow_append [(e, o.value)] (affected.map (·, o.value)) x).symm

/-! ## Serving a line -/

/-- All that waits is one line. -/
structure Stage (g : Graph) (p : Priority) (s : Scheduler) (rest : List Request) : Prop where
  orderly : Orderly s.queue s.inbox.unread s.inbox.nextId
  unread : s.inbox.unread = []
  graph : s.graph = g
  line : ∀ p', s.queue.line p' = if p = p' then rest else []

namespace Stage

variable {g : Graph} {p : Priority} {rest : List Request} {r : Request}

theorem pop_nil (h : Stage g p s []) : s.readInbox.queue.pop.1 = none := by
  rw [readInbox_eq h.unread]
  cases hpop : s.queue.pop with
  | mk request queue =>
    cases request with
    | none => rfl
    | some r =>
      obtain ⟨rest, hline, -⟩ := Queue.pop_line_some h.orderly.banded hpop
      simp [h.line] at hline

theorem pop_cons (h : Stage g p s (r :: rest)) : ∃ queue, s.readInbox.queue.pop = (some r, queue) ∧
    Stage g p { s.readInbox with queue } rest := by
  rw [readInbox_eq h.unread]
  cases hpop : s.queue.pop with
  | mk request queue =>
    cases request with
    | none =>
      have hnone := (Queue.pop_line_none h.orderly.banded hpop).1 p
      simp [h.line] at hnone
    | some r' =>
      obtain ⟨rest', hline, -, -, -, hlines⟩ := Queue.pop_line_some h.orderly.banded hpop
      rw [h.line] at hline
      split at hline
      next hp =>
        obtain ⟨rfl, rfl⟩ := List.cons.inj hline
        refine ⟨queue, rfl, h.orderly.pop hpop, h.unread, h.graph, fun p' => ?_⟩
        rw [hlines, ← hp, h.line]
        split <;> rfl
      next => cases hline

theorem contribute {τ : Type} {applier : Applier τ} (hquiet : applier.Quiet) {d : Drain τ}
    (h : Stage g p d.scheduler rest) (c : Contribution) :
    Stage g p (d.contribute applier c).scheduler rest := by
  have hflush : ∀ parent children, (d.flush applier parent children).scheduler = d.scheduler := by
    intro parent children
    simp only [Drain.flush, hquiet.boundsChanges, List.foldl_nil]
    split <;> rfl
  unfold Drain.contribute
  split
  · exact ⟨h.orderly, h.unread, h.graph, h.line⟩
  · rw [hflush]
    exact h

/-- Serving a request whose consumers all wait changes only their reasons. -/
theorem serve {τ : Type} {applier : Applier τ} (hquiet : applier.Quiet) {d : Drain τ}
    (h : Stage g r.priority d.scheduler rest)
    (hconsumers : ∀ e ∈ r.affected, ∀ c ∈ g.consumersOf e,
      ∃ x ∈ rest, x.target = c ∧ x.payload.isRecompute) :
    Stage g r.priority (Drain.serve applier d r).scheduler
      (rest.map (Request.follow g (Service.changes ⟨g, r, (d.answer applier r).1⟩))) := by
  obtain ⟨result, state, happly⟩ := hquiet.apply { r with state := .processing } d.state
  simp only [Drain.serve, Drain.answer, happly, Reply.run, Service.changes]
  cases result with
  | error e =>
    rw [show Request.follow g [] = id from rfl, List.map_id]
    exact h
  | ok outcome =>
    have hlined : ∀ e ∈ r.affected,
        d.scheduler.Lined r.priority (d.scheduler.graph.consumersOf e) := by
      intro e he c hc
      rw [h.line, if_pos rfl]
      exact hconsumers e he c (h.graph ▸ hc)
    obtain ⟨queue, heq, horderly, hline⟩ := cascade_line h.orderly r outcome hlined
    have hcascade : Stage g r.priority (d.scheduler.cascade r outcome)
        (rest.map (Request.follow g (r.affected.map (·, outcome.value)))) := by
      rw [heq]
      refine ⟨horderly, h.unread, h.graph, fun p' => ?_⟩
      rw [hline, h.line, h.graph]
      split <;> rfl
    dsimp only
    cases outcome.bounds with
    | none => exact hcascade
    | some c =>
      exact contribute hquiet (d := ⟨d.scheduler.cascade r outcome, state, d.report⟩) hcascade c

end Stage

/-! ## Serving the followers -/

variable {g : Graph} {τ : Type} {applier : Applier τ}

/-- A line of recomputes that follow from `root`: producers come first, and with each of them its
consumers wait, all for the last reason there was. -/
structure Following (g : Graph) (root : Request) (served : List Service) (rest : List Request) :
    Prop where
  ordered : rest.Pairwise fun x y => x.target ≠ y.target ∧ ¬ g.Feeds y.target x.target
  closed : ∀ x ∈ rest, ∀ c ∈ g.consumersOf x.target, c ∈ rest.map Request.target
  reason : ∀ x ∈ rest, x = .consequence g root served x.id x.target

namespace Following

variable {root r : Request} {served : List Service} {rest : List Request}

theorem tail (hg : g.Sound) (h : Following g root served (r :: rest)) :
    (∀ c ∈ g.consumersOf r.target, c ∈ rest.map Request.target) ∧ Following g root served rest := by
  obtain ⟨hfirst, hordered⟩ := List.pairwise_cons.1 h.ordered
  have hclosed : ∀ x ∈ r :: rest, ∀ c ∈ g.consumersOf x.target, c ∈ rest.map Request.target := by
    intro x hx c hc
    have hmem := h.closed x hx c hc
    rw [List.map_cons, List.mem_cons] at hmem
    refine hmem.resolve_left ?_
    rintro rfl
    have hfeeds := hg.toIndexed.mem_consumersOf.1 hc
    rcases List.mem_cons.1 hx with rfl | hx
    · exact hg.acyclic _ (.single hfeeds)
    · exact (hfirst x hx).2 hfeeds
  exact ⟨hclosed r List.mem_cons_self, hordered,
    fun x hx => hclosed x (List.mem_cons_of_mem _ hx),
    fun x hx => h.reason x (List.mem_cons_of_mem _ hx)⟩

theorem map_target_follow (changes : List (Entity × Option Value)) (rest : List Request) :
    (rest.map (Request.follow g changes)).map Request.target = rest.map Request.target := by
  rw [List.map_map]
  exact List.map_congr_left fun x _ => Request.target_follow _ _

theorem follow (h : Following g root served rest) (x : Service) :
    Following g root (served ++ [x]) (rest.map (Request.follow g x.changes)) := by
  refine ⟨?_, fun y hy c hc => ?_, fun y hy => ?_⟩
  · rw [List.pairwise_map]
    simpa only [Request.target_follow] using h.ordered
  · rw [map_target_follow]
    obtain ⟨z, hz, rfl⟩ := List.mem_map.1 hy
    rw [Request.target_follow] at hc
    exact h.closed z hz c hc
  · obtain ⟨z, hz, rfl⟩ := List.mem_map.1 hy
    have hreason : z.follow g x.changes = .consequence g root (served ++ [x]) z.id z.target := by
      rw [← Request.follow_consequence, ← h.reason z hz]
    rw [hreason]
    rfl

theorem exists_of_mem (h : Following g root served rest) {c : Entity}
    (hc : c ∈ rest.map Request.target) : ∃ x ∈ rest, x.target = c ∧ x.payload.isRecompute := by
  obtain ⟨x, hx, rfl⟩ := List.mem_map.1 hc
  refine ⟨x, hx, rfl, ?_⟩
  rw [h.reason x hx]
  rfl

end Following

/-- The first request of a line is served when its consumers wait behind it. -/
theorem services_cons (hquiet : applier.Quiet) {r : Request} {rest : List Request} {d : Drain τ}
    (limit : Nat) (h : Stage g r.priority d.scheduler (r :: rest))
    (hconsumers : ∀ e ∈ r.affected, ∀ c ∈ g.consumersOf e,
      ∃ x ∈ rest, x.target = c ∧ x.payload.isRecompute) :
    ∃ x d', Drain.services applier (limit + 1) d = x :: Drain.services applier limit d' ∧
      x.request = r ∧
      Stage g r.priority d'.scheduler (rest.map (Request.follow g x.changes)) := by
  obtain ⟨queue, hpop, hpopped⟩ := h.pop_cons
  exact ⟨_, _, (Drain.serveAll_of_pop_some applier limit hpop).2, rfl,
    Stage.serve hquiet (d := d.popped queue) hpopped hconsumers⟩

/-- A line of followers is served in its order, each request with the last reason before it. -/
theorem services_of_stage (hquiet : applier.Quiet) (hg : g.Sound) {root : Request}
    {served : List Service} {limit : Nat} {rest : List Request} {d : Drain τ}
    (hlimit : rest.length ≤ limit) (hstage : Stage g root.priority d.scheduler rest)
    (hrest : Following g root served rest) :
    (Drain.services applier limit d).map (fun x => x.request.target) = rest.map Request.target ∧
    ∀ before x after, Drain.services applier limit d = before ++ x :: after →
      x.request = .consequence g root (served ++ before) x.request.id x.request.target := by
  induction limit generalizing rest served d with
  | zero =>
    cases List.length_eq_zero_iff.1 (Nat.le_zero.1 hlimit)
    simp [Drain.services]
  | succ limit ih =>
    cases rest with
    | nil =>
      have hpop := hstage.pop_nil
      cases hqueue : d.scheduler.readInbox.queue.pop with
      | mk request queue =>
        rw [hqueue] at hpop
        cases hpop
        rw [(Drain.serveAll_of_pop_none applier limit hqueue).2]
        simp
    | cons r rest =>
      obtain ⟨hclosed, hfollowing⟩ := hrest.tail hg
      have hreason := hrest.reason r List.mem_cons_self
      have hpriority : r.priority = root.priority := by rw [hreason]; rfl
      have haffected : r.affected = [r.target] := by rw [hreason]; rfl
      obtain ⟨x, d', hservices, rfl, hstage'⟩ := services_cons hquiet limit (hpriority ▸ hstage)
        fun e he c hc => by
          rw [haffected, List.mem_singleton] at he
          exact hfollowing.exists_of_mem (hclosed c (he ▸ hc))
      obtain ⟨htargets, hreasons⟩ :=
        ih (by simpa using hlimit) (hpriority ▸ hstage') (hfollowing.follow x)
      rw [hservices]
      refine ⟨?_, fun before y after heq => ?_⟩
      · rw [List.map_cons, htargets, Following.map_target_follow, List.map_cons]
      · cases before with
        | nil =>
          obtain ⟨rfl, -⟩ := List.cons.inj heq
          rw [List.append_nil]
          exact hreason
        | cons z before =>
          obtain ⟨rfl, hlater⟩ := List.cons.inj heq
          rw [List.append_cons]
          exact hreasons before y after hlater

/-! ## Scheduling the followers -/

/-- Consumers that nothing waits for are put behind each other at the end of the line. -/
theorem foldl_enqueueRecompute_fresh (hs : Orderly s.queue unread s.inbox.nextId)
    {consumers : List Entity} (hnodup : consumers.Nodup)
    (hfresh : ∀ c ∈ consumers, s.queue.pendingFor? c = none) (root : Request) :
    ∃ queue next rest, consumers.foldl
        (enqueueRecompute · root.target none root.priority root.id) s =
          { s with queue, inbox := { s.inbox with nextId := next } } ∧
      Orderly queue unread next ∧ rest.map Request.target = consumers ∧
      (∀ r ∈ rest, r = .consequence s.graph root [] r.id r.target) ∧
      ∀ p, queue.line p = s.queue.line p ++ if root.priority = p then rest else [] := by
  induction consumers generalizing s with
  | nil => exact ⟨s.queue, s.inbox.nextId, [], rfl, hs, rfl, by simp, by simp⟩
  | cons c consumers ih =>
    obtain ⟨hc, hnodup⟩ := List.nodup_cons.1 hnodup
    have hwaits := hfresh c List.mem_cons_self
    let r : Request := .consequence s.graph root [] s.inbox.nextId c
    have hfirst : s.enqueueRecompute root.target none root.priority root.id c = { s with
        queue := (s.queue.push r).2, inbox := { s.inbox with nextId := s.inbox.nextId + 1 } } :=
      enqueueRecompute_of_none hs.indexed hwaits root.target none root.priority root.id
    have hunused : s.queue.Unused r.id := hs.unusedNext _ (Nat.le_refl _)
    obtain ⟨-, -, hline⟩ := Queue.push_line hs.indexed hs.banded hunused
    obtain ⟨-, hpendingFor⟩ := hs.indexed.push (r := r) hs.getElem?_next
    obtain ⟨queue, next, rest, heq, hs', htargets, hreasons, hlines⟩ := ih
      (s := { s with
        queue := (s.queue.push r).2, inbox := { s.inbox with nextId := s.inbox.nextId + 1 } })
      (hs.recompute rfl) hnodup fun d hd => by
        rw [hpendingFor, if_neg]
        · exact hfresh d (List.mem_cons_of_mem _ hd)
        · rintro rfl
          exact hc hd
    refine ⟨queue, next, r :: rest, ?_, hs', ?_, List.forall_mem_cons.2 ⟨rfl, hreasons⟩,
      fun p => ?_⟩
    · rw [List.foldl_cons, hfirst, heq]
    · rw [List.map_cons, htargets]
      rfl
    · rw [hlines, hline hwaits, List.append_assoc]
      congr 1
      change (if root.priority = p then [r] else []) ++ _ = _
      split <;> rfl

/-- Nothing is in the line of an idle scheduler. -/
theorem stage_of_isIdle (hs : Orderly s.queue s.inbox.unread s.inbox.nextId) (hidle : s.isIdle) :
    s.inbox.unread = [] ∧ (∀ p, s.queue.line p = []) ∧ ∀ t, s.queue.pendingFor? t = none := by
  have hpending : ∀ t, s.queue.pendingFor? t = none := by
    intro t
    simpa [Waits] using not_waits_of_isIdle hidle t
  refine ⟨?_, fun p => ?_, hpending⟩
  · have := of_decide_eq_true hidle
    unfold pending at this
    exact List.length_eq_zero_iff.1 (by omega)
  · refine List.eq_nil_iff_forall_not_mem.2 fun r hr => ?_
    obtain ⟨-, rfl⟩ := (Queue.mem_line_iff hs.indexed hs.banded).1 hr
    rw [Queue.exists_mem_line_iff hs.indexed hs.banded, hpending] at hr
    cases hr

/-- After a change the line has its request, and the followers behind it in the order of the
graph. -/
theorem stage_schedule {c : Submission} (hg : s.graph.Sound)
    (hs : Orderly s.queue [c] s.inbox.nextId) (hunread : s.inbox.unread = [])
    (hline : ∀ p, s.queue.line p = []) (hpending : ∀ t, s.queue.pendingFor? t = none)
    (hroots : ∀ x, s.graph.Follows c.request.affected x →
      x ∉ c.request.affected ∧ x ≠ c.target) :
    ∃ rest, Stage s.graph c.priority (s.schedule c) (c.request :: rest) ∧
      Following s.graph c.request [] rest ∧
      (∀ x, x ∈ rest.map Request.target ↔ s.graph.Follows c.request.affected x) ∧
      (s.schedule c).settings = s.settings := by
  have hmem := Graph.mem_downstream_iff_follows hg fun x hx => (hroots x hx).1
  have hpairwise := Graph.pairwise_downstream hg c.request.affected
  obtain ⟨hbanded, -, hpush⟩ := Queue.push_line hs.indexed hs.banded (r := c.request)
    (hs.unusedRest c List.mem_cons_self)
  obtain ⟨-, hpendingFor⟩ := hs.indexed.push (r := c.request) (hs.fresh c List.mem_cons_self).2
  obtain ⟨queue, next, rest, heq, horderly, htargets, hreasons, hlines⟩ :=
    foldl_enqueueRecompute_fresh (s := { s with
        queue := (s.queue.push c.request).2
        superseded := s.superseded ++ ((s.queue.push c.request).1.map Request.id).toList })
      hs.schedule (hpairwise.imp And.left) (fun x hx => by
        rw [hpendingFor, if_neg, hpending]
        exact ((hroots x ((hmem x).1 hx)).2).symm) c.request
  have hschedule : s.schedule c = { s with
      queue, inbox := { s.inbox with nextId := next }
      superseded := s.superseded ++ ((s.queue.push c.request).1.map Request.id).toList } := heq
  refine ⟨rest, ?_, ⟨?_, fun x hx d hd => ?_, hreasons⟩, fun x => ?_, ?_⟩
  · rw [hschedule]
    refine ⟨hunread ▸ horderly, hunread, rfl, fun p => ?_⟩
    rw [hlines, hpush (hpending _), hline]
    change [] ++ (if c.priority = p then [c.request] else []) ++
      (if c.priority = p then rest else []) = _
    split <;> rfl
  · rw [← htargets, List.pairwise_map] at hpairwise
    exact hpairwise
  · rw [htargets, hmem]
    have hx : x.target ∈ s.graph.downstream c.request.affected :=
      htargets ▸ List.mem_map_of_mem hx
    obtain ⟨e, he, hpath⟩ := (hmem _).1 hx
    exact ⟨e, he, hpath.tail (hg.toIndexed.mem_consumersOf.1 hd)⟩
  · rw [htargets, hmem]
  · rw [hschedule]

/-- A change of an idle scheduler, where neither a changed entity nor the target of the request
follows from the change, with a limit that suffices and an applier that submits nothing: whatever
fails, the next drain serves the change first and then every follower once, after all of its
producers that are served. Each recompute names the change as its root, and the last of its
producers that was applied before it as its reason, with the value of that application. -/
theorem cascade_served_once (settings : PropagationSettings) (ops : List Op) (change : Change)
    (target : Entity) (consumers : List Entity) {τ : Type} (applier : Applier τ) (state : τ) :
    let s := (history ops { settings }).2
    let id := s.inbox.nextId
    let affected := change.kind.affected target change.payload
    s.isIdle → change.kind ≠ .recompute →
    change.kind.target change.object change.payload = .ok target →
    (∀ x, s.graph.Follows affected x → x ∉ affected ∧ x ≠ target) →
    consumers.Nodup → (∀ x, x ∈ consumers ↔ s.graph.Follows affected x) →
    1 + consumers.length ≤ s.settings.maxServed → applier.Quiet →
    ∃ s', s.propagate change = .ok (id, s') ∧
      ∃ root rest, s'.services applier state = root :: rest ∧
        root.request = ⟨id, id, target, change.kind, change.payload, change.priority, .queued⟩ ∧
        (rest.map fun x => x.request.target).Perm consumers ∧
        (rest.Pairwise fun x y => ¬ s.graph.Feeds y.request.target x.request.target) ∧
        (∀ before x after, rest = before ++ x :: after → x.request =
          .consequence s.graph root.request (root :: before) x.request.id x.request.target) ∧
        (s'.drain applier state).1.applied = (root :: rest).filterMap Service.applied? ∧
        (s'.drain applier state).1.failed = (root :: rest).filterMap Service.failure? := by
  intro s id affected hidle hkind htarget hroots hnodup hconsumers hlimit hquiet
  obtain ⟨hsound, -⟩ := history_spec (Sound.new settings) ops
  have hs : Orderly s.queue s.inbox.unread s.inbox.nextId :=
    (accounted_history settings ops).1.orderly
  obtain ⟨hunread, hline, hpending⟩ := stage_of_isIdle hs hidle
  let c : Submission := ⟨id, target, change.kind, change.payload, change.priority⟩
  let accepted : Scheduler := { s with inbox := { s.inbox with nextId := id + 1 } }
  have hpropagate : s.propagate change = .ok (id, accepted.schedule c) := by
    have haccept : s.inbox.accept change = .ok (c, accepted.inbox) := by
      simp only [Inbox.accept, hkind, if_false, htarget]
      rfl
    rw [propagate, haccept]
    rfl
  have haccepted : Orderly accepted.queue [c] accepted.inbox.nextId :=
    hs.accept rfl hkind (by rw [hunread])
  obtain ⟨rest, hstage, hfollowing, hmem, hsettings⟩ :=
    stage_schedule (s := accepted) hsound.graph haccepted hunread hline hpending hroots
  have htargets : (rest.map Request.target).Perm consumers := by
    refine (List.perm_ext_iff_of_nodup ?_ hnodup).2 fun x => (hmem x).trans (hconsumers x).symm
    exact List.pairwise_map.2 (hfollowing.ordered.imp And.left)
  have hafter : s.afterChange change = accepted.schedule c := by rw [afterChange, hpropagate]
  have hreport := report_drain applier state (hafter ▸ (keeps_propagate hsound change).sound)
  obtain ⟨limit, hmax⟩ : ∃ limit, s.settings.maxServed = limit + 1 :=
    Nat.exists_eq_succ_of_ne_zero (by omega)
  -- The change is served first, and its consumers wait behind it.
  obtain ⟨x, d, hservices, hrequest, hstage'⟩ := services_cons hquiet
    (d := ⟨accepted.schedule c, state, {}⟩) limit hstage fun e he y hy =>
      hfollowing.exists_of_mem ((hmem y).2
        ⟨e, he, .single (hsound.graph.toIndexed.mem_consumersOf.1 hy)⟩)
  have hlength : (rest.map (Request.follow s.graph x.changes)).length ≤ limit := by
    have := htargets.length_eq
    simp only [List.length_map] at this ⊢
    omega
  obtain ⟨hserved, hreasons⟩ :=
    services_of_stage hquiet hsound.graph hlength hstage' (hfollowing.follow x)
  rw [Following.map_target_follow] at hserved
  have hall : (accepted.schedule c).services applier state =
      x :: Drain.services applier limit d := by
    rw [Scheduler.services, hsettings, hmax]
    exact hservices
  refine ⟨accepted.schedule c, hpropagate, x, _, hall, hrequest, hserved ▸ htargets, ?_,
    hrequest ▸ hreasons, hall ▸ hreport⟩
  have hordered : (rest.map Request.target).Pairwise fun a b => ¬ s.graph.Feeds b a :=
    List.pairwise_map.2 (hfollowing.ordered.imp And.right)
  rw [← hserved] at hordered
  exact List.pairwise_map.1 hordered

/-- In a diamond where one side fails, everything is still served once. -/
theorem diamond_served_once :
    let edge (p c : ObjectId) : Op := .add ⟨p, "v"⟩ ⟨c, "v"⟩ ⟨.reference, none⟩
    let s := (history [edge "a" "b", edge "a" "c", edge "b" "d", edge "c" "d"]
      { settings := {} }).2
    let change : Change := { object := "a", kind := .property, payload := .property "v" none }
    let applier : Applier Unit := {
      apply r _ := .done (if r.target.object = "c" then .error (.failed "") else .ok {}) ()
      applyBounds _ _ _ := (.ok (), ()) }
    ∃ s', s.propagate change = .ok (1, s') ∧ ∃ root rest, s'.services applier () = root :: rest ∧
      root.request.target = ⟨"a", "v"⟩ ∧
      (rest.map fun x => x.request.target).Perm [⟨"b", "v"⟩, ⟨"c", "v"⟩, ⟨"d", "v"⟩] := by
  intro edge s change applier
  let a : Entity := ⟨"a", "v"⟩
  have hg : s.graph.Sound := (history_spec (Sound.new {}) _).1.graph
  have hdownstream : s.graph.downstream [a] = [⟨"b", "v"⟩, ⟨"c", "v"⟩, ⟨"d", "v"⟩] := by
    decide +kernel
  have hself : ∀ x, s.graph.Follows [a] x → x ∉ [a] ∧ x ≠ a := by
    intro x hx
    obtain ⟨e, he, hpath⟩ := hx
    rw [List.mem_singleton] at he ⊢
    subst he
    refine (and_self_iff).2 ?_
    rintro rfl
    exact hg.acyclic _ hpath
  have hfollows := Graph.mem_downstream_iff_follows hg fun x hx => (hself x hx).1
  rw [hdownstream] at hfollows
  obtain ⟨s', hpropagate, root, rest, hservices, hroot, hperm, -⟩ :=
    cascade_served_once {} [edge "a" "b", edge "a" "c", edge "b" "d", edge "c" "d"] change a _
      applier () (by decide) (by decide) rfl hself (by decide) hfollows (by decide)
      ⟨fun _ _ => ⟨_, _, rfl⟩, fun _ _ _ => rfl⟩
  have hid : s.inbox.nextId = 1 := by decide
  exact ⟨s', hid ▸ hpropagate, root, rest, hservices, by rw [hroot], hperm⟩

end Scheduler

end Parametric
