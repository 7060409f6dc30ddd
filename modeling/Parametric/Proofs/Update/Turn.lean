import Parametric.Proofs.Update.Moves

/-!
# The turn of a request

`Queue.targets` lists the targets of a priority in the order of service. A push puts its request at
the end of a line (`line_push`), and work that is folded into a waiting request leaves it where it
stands or moves it to the end of a more urgent line (`line_merge`). So while a request waits, what is
served before it can be kept track of (`Queue.Turn`): the targets ahead of it in its line only get
fewer, and what is more urgent came with urgent work. Whatever is scheduled keeps this, if it is not
about the target of the request (`Scheduler.InTurn`).
-/

namespace Parametric

theorem Priority.trichotomy (p q : Priority) : p < q ∨ p = q ∨ q < p := by
  cases p <;> cases q <;> decide

namespace Queue

variable {q q' : Queue} {p : Priority} {t : Entity} {r : Request}

/-- The targets of the requests of a priority in the order of service. -/
def targets (q : Queue) (p : Priority) : List Entity := (q.line p).map Request.target

theorem requests_of_unused (hb : q.Banded) {id : RequestId} (hunused : q.Unused id) :
    q.requests[id]? = none := by
  cases hr : q.requests[id]? with
  | none => rfl
  | some r => exact absurd (hb.mem hr) (hunused _)

/-- Nothing is taken off a line when nothing waits for the target. -/
theorem filter_line_of_none (hq : q.Indexed) (hb : q.Banded) (hnone : q.pendingFor? t = none)
    (p : Priority) : (q.line p).filter (·.target ≠ t) = q.line p := by
  refine List.filter_eq_self.2 fun r hr => decide_eq_true fun heq => ?_
  have hwaits := (exists_mem_line_iff hq hb).1 (((mem_line_iff hq hb).1 hr).2.symm ▸ hr)
  rw [heq, hnone] at hwaits
  cases hwaits

/-- Passing over one request takes it off a line. -/
theorem line_passing (hq : q.Indexed) {id : RequestId} (hr : q.requests[id]? = some r)
    (p : Priority) (ids : List RequestId) :
    (ids.filterMap fun x => if id = x then none else q.standing? p x) =
      (ids.filterMap (q.standing? p)).filter (·.target ≠ r.target) := by
  rw [List.filter_filterMap]
  refine List.filterMap_congr fun x _ => ?_
  cases hx : q.standing? p x with
  | none => simp
  | some y =>
    obtain ⟨hy, -⟩ := standing?_eq_some_iff.1 hx
    have hsame : y.target = r.target ↔ id = x := by
      rw [← hq.target_eq_iff hr (hq.requests hy).2]
      exact eq_comm
    by_cases hid : id = x
    · simp [hid, Option.filter, hsame.2 hid]
    · simp [hid, Option.filter, mt hsame.1 hid]

theorem line_supersede (hq : q.Indexed) (hb : q.Banded) (t : Entity) (p : Priority) :
    (q.supersede t).2.line p = (q.line p).filter (·.target ≠ t) := by
  cases hwaits : q.pendingFor? t with
  | none =>
    obtain ⟨-, -, hline⟩ := supersede_line hq hb t
    rw [filter_line_of_none hq hb hwaits, hline hwaits]
  | some r =>
    obtain ⟨hr, rfl⟩ := hq.pendingFor?_eq_some_iff.1 hwaits
    let erased : Queue := { q with
      pending := q.pending.erase r.target, requests := q.requests.erase r.id }
    have hqueue : (q.supersede r.target).2 = markStale erased := by
      simp only [supersede, (hq.requests hr).2, get?, hr, erased]
    have hline : (markStale erased).line p = erased.line p :=
      line_compact { erased with stale := erased.stale + 1 } p
    rw [hqueue, hline, line, line, ← line_passing hq hr]
    exact List.filterMap_congr fun x _ => standing?_erase rfl p x

/-- A pushed request leaves its old place and goes to the end of its line. -/
theorem line_push (hq : q.Indexed) (hb : q.Banded) (hunused : q.Unused r.id) (p : Priority) :
    (q.push r).2.line p =
      (q.line p).filter (·.target ≠ r.target) ++ if r.priority = p then [r] else [] := by
  obtain ⟨-, hsupersede, -⟩ := supersede_line hq hb r.target
  rw [← line_supersede hq hb]
  exact line_insert (hsupersede r.id hunused) rfl rfl p

/-- Work that is more urgent moves the waiting request to the end of its line, other work changes it
where it stands. -/
theorem line_merge (hq : q.Indexed) (hb : q.Banded) (hwaits : q.pendingFor? t = some r)
    (priority : Priority) (payload : Payload) (p : Priority) :
    (q.merge t priority payload).2.line p = if priority < r.priority
      then (q.line p).filter (·.target ≠ t) ++
        if priority = p then [r.absorb priority payload] else []
      else (q.line p).map fun x => if x.target = t then r.absorb priority payload else x := by
  obtain ⟨hr, rfl⟩ := hq.pendingFor?_eq_some_iff.1 hwaits
  split
  next hp =>
    have hmerge := hq.merge_some hwaits priority payload
    dsimp only at hmerge
    rw [hmerge, if_pos hp]
    let moved : Queue := { q with
      bands := q.bands.push priority r.id
      requests := q.requests.insert r.id (r.absorb priority payload) }
    have hline : (markStale moved).line p = moved.line p :=
      line_compact { moved with stale := moved.stale + 1 } p
    have hpriority : (r.absorb priority payload).priority = priority := by
      simp [Request.absorb, hp]
    have hstanding : ∀ x, moved.standing? p x =
        if r.id = x then if priority = p then some (r.absorb priority payload) else none
        else q.standing? p x := by
      intro x
      rw [standing?_insert rfl, hpriority]
    have hold : (q.bands.get p).filterMap (moved.standing? p) =
        (q.bands.get p).filterMap fun x => if r.id = x then none else q.standing? p x := by
      refine List.filterMap_congr fun x hx => ?_
      rw [hstanding]
      split
      next hid =>
        rw [if_neg]
        rintro rfl
        exact hb.notMem hr hp (hid ▸ hx)
      next => rfl
    show (markStale moved).line p = _
    rw [hline, line, show moved.bands = q.bands.push priority r.id from rfl, get_push,
      List.filterMap_append, hold, line_passing hq hr]
    congr 1
    split
    next h =>
      rw [List.filterMap_cons, hstanding, if_pos rfl, if_pos h]
      rfl
    next => rfl
  next hp =>
    obtain ⟨-, -, hline⟩ := merge_line hq hb hwaits priority payload
    exact hline hp p

theorem targets_filter (rs : List Request) (t : Entity) :
    (rs.filter (·.target ≠ t)).map Request.target = (rs.map Request.target).filter (· ≠ t) := by
  rw [List.filter_map]
  rfl

theorem targets_supersede (hq : q.Indexed) (hb : q.Banded) (t : Entity) (p : Priority) :
    (q.supersede t).2.targets p = (q.targets p).filter (· ≠ t) := by
  rw [targets, line_supersede hq hb, targets_filter, targets]

theorem targets_push (hq : q.Indexed) (hb : q.Banded) (hunused : q.Unused r.id) (p : Priority) :
    (q.push r).2.targets p =
      (q.targets p).filter (· ≠ r.target) ++ if r.priority = p then [r.target] else [] := by
  rw [targets, line_push hq hb hunused, List.map_append, targets_filter, targets]
  split <;> rfl

theorem targets_merge (hq : q.Indexed) (hb : q.Banded) (hwaits : q.pendingFor? t = some r)
    (priority : Priority) (payload : Payload) (p : Priority) :
    (q.merge t priority payload).2.targets p = if priority < r.priority
      then (q.targets p).filter (· ≠ t) ++ if priority = p then [t] else [] else q.targets p := by
  have hr : r.target = t := hq.target_eq hwaits
  have htarget : (r.absorb priority payload).target = t := hr
  rw [targets, line_merge hq hb hwaits]
  split
  · rw [List.map_append, targets_filter, targets]
    split
    · rw [List.map_singleton, htarget]
    · rfl
  · rw [List.map_map, targets]
    refine List.map_congr_left fun x _ => ?_
    rw [Function.comp_apply]
    split
    next hx => rw [htarget, hx]
    next => rfl

/-! ## What is served before a request -/

/-- Something more urgent than `p` waits only if there is `hurry`. -/
def Within (q : Queue) (p : Priority) (hurry : Prop) : Prop :=
  ∀ t r, q.pendingFor? t = some r → r.priority < p → hurry

/-- The request `m` waits. The targets ahead of it in its line are `early`, and something more
urgent waits only if there is `hurry`. -/
structure Turn (q : Queue) (m : Request) (early : Entity → Prop) (hurry : Prop) : Prop where
  waits : q.pendingFor? m.target = some m
  ahead : ∃ before after, q.targets m.priority = before ++ m.target :: after ∧
    ∀ e ∈ before, early e
  within : q.Within m.priority hurry

variable {m : Request} {early : Entity → Prop} {hurry : Prop}

theorem Within.push (h : q.Within p hurry) (hq : q.Indexed) (hid : q.requests[r.id]? = none)
    (hr : r.priority < p → hurry) : (q.push r).2.Within p hurry := by
  intro t r' hr' hp
  rw [(hq.push hid).2] at hr'
  split at hr'
  · cases hr'
    exact hr hp
  · exact h t r' hr' hp

theorem Within.merge (h : q.Within p hurry) (hq : q.Indexed) (hwaits : q.pendingFor? t = some r)
    {priority : Priority} (payload : Payload) (ht : priority < p → hurry) :
    (q.merge t priority payload).2.Within p hurry := by
  have hmerge := hq.merge t priority payload
  rw [hwaits] at hmerge
  intro t' r' hr' hp
  rw [hmerge.2.2] at hr'
  split at hr'
  · cases hr'
    by_cases hlt : priority < r.priority
    · have hpriority : (r.absorb priority payload).priority = priority := by
        simp [Request.absorb, hlt]
      exact ht (hpriority ▸ hp)
    · have hpriority : (r.absorb priority payload).priority = r.priority := by
        simp [Request.absorb, hlt]
      exact h t r hwaits (hpriority ▸ hp)
  · exact h t' r' hr' hp

namespace Turn

theorem mono {early' : Entity → Prop} (h : q.Turn m early hurry)
    (hearly : ∀ e, early e → early' e) : q.Turn m early' hurry := by
  obtain ⟨before, after, heq, hbefore⟩ := h.ahead
  exact ⟨h.waits, ⟨before, after, heq, fun e he => hearly e (hbefore e he)⟩, h.within⟩

/-- Taking a target off and putting targets at the end leaves no more ahead of the request. -/
theorem ahead_filter (h : q.Turn m early hurry) (hne : t ≠ m.target) {ts new : List Entity}
    (hts : ts = (q.targets m.priority).filter (· ≠ t) ++ new) :
    ∃ before after, ts = before ++ m.target :: after ∧ ∀ e ∈ before, early e ∧ e ≠ t := by
  obtain ⟨before, after, heq, hbefore⟩ := h.ahead
  refine ⟨before.filter (· ≠ t), after.filter (· ≠ t) ++ new, ?_, fun e he => ?_⟩
  · rw [hts, heq, List.filter_append, List.append_assoc]
    simp [hne.symm]
  · obtain ⟨he, hkept⟩ := List.mem_filter.1 he
    exact ⟨hbefore e he, of_decide_eq_true hkept⟩

/-- A request for another target is behind afterwards, unless it is more urgent. -/
theorem push (h : q.Turn m early hurry) (hq : q.Indexed) (hb : q.Banded)
    (hunused : q.Unused r.id) (hne : r.target ≠ m.target) (hr : r.priority < m.priority → hurry) :
    (q.push r).2.Turn m (fun e => early e ∧ e ≠ r.target) hurry := by
  have hid := requests_of_unused hb hunused
  refine ⟨?_, h.ahead_filter hne (targets_push hq hb hunused _), h.within.push hq hid hr⟩
  rw [(hq.push hid).2, if_neg hne]
  exact h.waits

/-- Work on another target leaves it where it is or moves it behind, unless it is more urgent. -/
theorem merge (h : q.Turn m early hurry) (hq : q.Indexed) (hb : q.Banded)
    (hwaits : q.pendingFor? t = some r) (hne : t ≠ m.target) {priority : Priority}
    (payload : Payload) (ht : priority < m.priority → hurry) :
    (q.merge t priority payload).2.Turn m early hurry := by
  have hmerge := hq.merge t priority payload
  rw [hwaits] at hmerge
  refine ⟨?_, ?_, h.within.merge hq hwaits payload ht⟩
  · rw [hmerge.2.2, if_neg hne]
    exact h.waits
  · have htargets := targets_merge hq hb hwaits priority payload m.priority
    split at htargets
    next =>
      obtain ⟨before, after, heq, hbefore⟩ := h.ahead_filter hne htargets
      exact ⟨before, after, heq, fun e he => (hbefore e he).1⟩
    next => exact htargets ▸ h.ahead

/-- A request that is pushed has what waits in its line ahead of it. -/
theorem start (hwithin : q.Within r.priority hurry) (hq : q.Indexed) (hb : q.Banded)
    (hunused : q.Unused r.id) :
    (q.push r).2.Turn r
      (fun e => e ≠ r.target ∧ ∃ r', q.pendingFor? e = some r' ∧ r'.priority = r.priority)
      hurry := by
  have hid := requests_of_unused hb hunused
  refine ⟨?_, ⟨(q.targets r.priority).filter (· ≠ r.target), [], ?_, fun e he => ?_⟩,
    hwithin.push hq hid fun hlt => absurd hlt (Nat.lt_irrefl _)⟩
  · rw [(hq.push hid).2, if_pos rfl]
  · rw [targets_push hq hb hunused, if_pos rfl]
  · obtain ⟨he, hne⟩ := List.mem_filter.1 he
    obtain ⟨r', hr', rfl⟩ := List.mem_map.1 he
    have hline := (mem_line_iff hq hb).1 hr'
    exact ⟨of_decide_eq_true hne, r', (exists_mem_line_iff hq hb).1 (hline.2.symm ▸ hr'), hline.2⟩

/-- While the request waits, something is served: the request itself, or what is ahead of it. -/
theorem pop (h : q.Turn m early hurry) (hq : q.Indexed) (hb : q.Banded)
    {served : Option Request} (hpop : q.pop = (served, q')) :
    served = some m ∨ ∃ r, served = some r ∧ r.target ≠ m.target ∧
      (r.priority < m.priority ∧ hurry ∨ r.priority = m.priority ∧ early r.target) ∧
      q'.Turn m early hurry := by
  have hline : m ∈ q.line m.priority := (exists_mem_line_iff hq hb).2 h.waits
  cases served with
  | none =>
    obtain ⟨hempty, -⟩ := pop_line_none hb hpop
    rw [hempty] at hline
    cases hline
  | some r =>
    obtain ⟨hwaits, -, hpendingFor⟩ := hq.pop_some hpop
    obtain ⟨rest, hfirst, hempty, -, -, hlines⟩ := pop_line_some hb hpop
    by_cases hm : r.target = m.target
    · rw [hm, h.waits, Option.some.injEq] at hwaits
      exact .inl (hwaits ▸ rfl)
    · have hpending : q'.pendingFor? m.target = some m := by
        rw [hpendingFor, if_neg hm]
        exact h.waits
      have hwithin : q'.Within m.priority hurry := by
        intro t r' hr' hp
        rw [hpendingFor] at hr'
        split at hr'
        · cases hr'
        · exact h.within t r' hr' hp
      refine .inr ⟨r, rfl, hm, ?_⟩
      by_cases hp : r.priority = m.priority
      · -- The first of the line is ahead of the request, and the others stay ahead.
        obtain ⟨before, after, heq, hbefore⟩ := h.ahead
        have htargets : q.targets m.priority = r.target :: rest.map Request.target := by
          rw [targets, ← hp, hfirst, List.map_cons]
        rw [htargets] at heq
        cases before with
        | nil => exact absurd (List.cons.inj heq).1 hm
        | cons e before =>
          obtain ⟨rfl, hrest⟩ := List.cons.inj heq
          refine ⟨.inr ⟨hp, hbefore _ List.mem_cons_self⟩, hpending, ⟨before, after, ?_,
            fun e he => hbefore e (List.mem_cons_of_mem _ he)⟩, hwithin⟩
          rw [targets, hlines, if_pos hp, hrest]
          rfl
      · have hlt : r.priority < m.priority := by
          refine (r.priority.trichotomy m.priority).resolve_right fun h => ?_
          rw [hempty _ (h.resolve_left hp)] at hline
          cases hline
        refine ⟨.inl ⟨hlt, h.within _ r hwaits hlt⟩, hpending, ?_, hwithin⟩
        obtain ⟨before, after, heq, hbefore⟩ := h.ahead
        exact ⟨before, after, by rw [targets, hlines, if_neg hp]; exact heq, hbefore⟩

end Turn

end Queue

/-! ## Scheduling -/

/-- Recomputes of one priority keep `P`. -/
structure Request.StableAt (priority : Priority) (P : Request → Prop) : Prop where
  recompute : ∀ r : Request, r.kind = .recompute → r.priority = priority → P r
  absorb : ∀ (r : Request) (payload : Payload), payload.isRecompute → P r →
    P (r.absorb priority payload)

theorem Request.Stable.at {P : Request → Prop} (h : Request.Stable P) (priority : Priority) :
    Request.StableAt priority P :=
  ⟨fun r hr _ => h.recompute r hr, fun r payload hpayload => h.absorb r priority payload hpayload⟩

/-- A request that absorbs another one has the priority of one of the two. -/
theorem Request.stableAt_mem {priority : Priority} {ps : List Priority} (hp : priority ∈ ps) :
    Request.StableAt priority fun r => r.priority ∈ ps := by
  refine ⟨fun r _ heq => heq ▸ hp, fun r payload _ hr => ?_⟩
  show (if priority < r.priority then priority else r.priority) ∈ ps
  split
  · exact hp
  · exact hr

theorem Request.StableAt.and {priority : Priority} {P Q : Request → Prop}
    (hP : Request.StableAt priority P) (hQ : Request.StableAt priority Q) :
    Request.StableAt priority fun r => P r ∧ Q r :=
  ⟨fun r hr heq => ⟨hP.recompute r hr heq, hQ.recompute r hr heq⟩, fun r payload hpayload hr =>
    ⟨hP.absorb r payload hpayload hr.1, hQ.absorb r payload hpayload hr.2⟩⟩

namespace Scheduler

/-- The queue is in order, and the request `m` has its turn in it. -/
structure InTurn (s : Scheduler) (rest : List Submission) (m : Request) (early : Entity → Prop)
    (hurry : Prop) : Prop where
  orderly : Orderly s.queue rest s.inbox.nextId
  turn : s.queue.Turn m early hurry

variable {s : Scheduler} {rest : List Submission} {m : Request} {early : Entity → Prop}
  {hurry : Prop} {priority : Priority} {trigger : Entity} {value : Option Value} {root : RequestId}

theorem orderly_enqueueRecompute (hs : Orderly s.queue rest s.inbox.nextId) (c : Entity) :
    Orderly (s.enqueueRecompute trigger value priority root c).queue rest
      (s.enqueueRecompute trigger value priority root c).inbox.nextId := by
  cases hwaits : s.queue.pendingFor? c with
  | none =>
    rw [enqueueRecompute_of_none hs.indexed hwaits]
    exact hs.recompute rfl
  | some r =>
    rw [enqueueRecompute_of_some hs.indexed hwaits]
    exact hs.merge hwaits _ _

theorem orderly_foldl_enqueueRecompute (hs : Orderly s.queue rest s.inbox.nextId)
    (consumers : List Entity) :
    let s' := consumers.foldl (enqueueRecompute · trigger value priority root) s
    Orderly s'.queue rest s'.inbox.nextId := by
  induction consumers generalizing s with
  | nil => exact hs
  | cons c consumers ih => exact ih (orderly_enqueueRecompute hs c)

theorem orderly_schedule {c : Submission} (hs : Orderly s.queue (c :: rest) s.inbox.nextId) :
    Orderly (s.schedule c).queue rest (s.schedule c).inbox.nextId := by
  rw [schedule_eq]
  exact orderly_foldl_enqueueRecompute (s := s.pushed c) hs.schedule _

/-- Recomputes keep what all waiting requests satisfy, if it is stable at their priority. -/
theorem all_foldl_enqueueRecompute {P : Request → Prop} (hP : Request.StableAt priority P)
    (hs : Orderly s.queue rest s.inbox.nextId) (hall : s.queue.All P) (consumers : List Entity) :
    (consumers.foldl (enqueueRecompute · trigger value priority root) s).queue.All P := by
  induction consumers generalizing s with
  | nil => exact hall
  | cons c consumers ih =>
    refine ih (orderly_enqueueRecompute hs c) fun t r hr => ?_
    obtain ⟨queue, next, heq, -, hpendingFor⟩ :=
      enqueueRecompute_spec hs.toNumbered trigger value priority root c
    dsimp only at hr
    rw [heq] at hr
    have hr : queue.pendingFor? t = some r := hr
    rw [hpendingFor] at hr
    split at hr
    · cases hr
      unfold recompute
      cases hold : s.queue.pendingFor? c with
      | none => exact hP.recompute _ rfl rfl
      | some old => exact hP.absorb _ _ rfl (hall c old hold)
    · exact hall t r hr

theorem all_schedule {P : Request → Prop} {c : Submission} (hP : Request.StableAt c.priority P)
    (hs : Orderly s.queue (c :: rest) s.inbox.nextId) (hall : s.queue.All P) (hc : P c.request) :
    (s.schedule c).queue.All P := by
  rw [schedule_eq]
  refine all_foldl_enqueueRecompute (s := s.pushed c) hP hs.schedule (fun t r hr => ?_) _
  have hunused : s.queue.requests[c.request.id]? = none :=
    Queue.requests_of_unused hs.banded (hs.unusedRest c List.mem_cons_self)
  have hr : (s.queue.push c.request).2.pendingFor? t = some r := hr
  rw [(hs.indexed.push hunused).2] at hr
  split at hr
  · cases hr
    exact hc
  · exact hall t r hr

namespace InTurn

theorem mono {early' : Entity → Prop} (h : s.InTurn rest m early hurry)
    (hearly : ∀ e, early e → early' e) : s.InTurn rest m early' hurry :=
  ⟨h.orderly, h.turn.mono hearly⟩

theorem enqueueRecompute (h : s.InTurn rest m early hurry) {c : Entity} (hc : c ≠ m.target)
    (hpriority : priority < m.priority → hurry) :
    (s.enqueueRecompute trigger value priority root c).InTurn rest m early hurry := by
  refine ⟨orderly_enqueueRecompute h.orderly c, ?_⟩
  cases hwaits : s.queue.pendingFor? c with
  | none =>
    rw [enqueueRecompute_of_none h.orderly.indexed hwaits]
    exact (h.turn.push h.orderly.indexed h.orderly.banded
      (h.orderly.unusedNext _ (Nat.le_refl _)) hc hpriority).mono fun _ he => he.1
  | some r =>
    rw [enqueueRecompute_of_some h.orderly.indexed hwaits]
    exact h.turn.merge h.orderly.indexed h.orderly.banded hwaits hc _ hpriority

theorem foldl_enqueueRecompute (h : s.InTurn rest m early hurry) {consumers : List Entity}
    (hconsumers : ∀ c ∈ consumers, c ≠ m.target) (hpriority : priority < m.priority → hurry) :
    (consumers.foldl (Scheduler.enqueueRecompute · trigger value priority root) s).InTurn rest m
      early hurry := by
  induction consumers generalizing s with
  | nil => exact h
  | cons c consumers ih =>
    obtain ⟨hc, hrest⟩ := List.forall_mem_cons.1 hconsumers
    exact ih (h.enqueueRecompute hc hpriority) hrest

/-- The consumers of what was served are recomputed with its priority. -/
theorem cascade (h : s.InTurn rest m early hurry) {r : Request} (o : Outcome)
    (hconsumers : ∀ p ∈ r.affected, ∀ c ∈ s.graph.consumersOf p, c ≠ m.target)
    (hpriority : r.priority < m.priority → hurry) :
    (s.cascade r o).InTurn rest m early hurry := by
  unfold Scheduler.cascade
  generalize r.affected = affected at hconsumers
  induction affected generalizing s with
  | nil => exact h
  | cons p affected ih =>
    obtain ⟨hp, hrest⟩ := List.forall_mem_cons.1 hconsumers
    obtain ⟨queue, next, heq, -⟩ := Scheduler.foldl_enqueueRecompute h.orderly.toNumbered p o.value
      r.priority r.root (s.graph.consumersOf p)
    have hfirst : ((s.graph.consumersOf p).foldl (Scheduler.enqueueRecompute · p o.value r.priority
        r.root) s).InTurn rest m early hurry := h.foldl_enqueueRecompute hp hpriority
    rw [List.foldl_cons]
    rw [heq] at hfirst ⊢
    exact ih hfirst hrest

/-- A change of another target comes behind, unless it is more urgent. -/
theorem schedule {c : Submission} (horderly : Orderly s.queue (c :: rest) s.inbox.nextId)
    (h : s.queue.Turn m early hurry) (hne : c.target ≠ m.target)
    (hpriority : c.priority < m.priority → hurry)
    (hconsumers : ∀ x ∈ s.graph.downstream c.request.affected, x ≠ m.target) :
    (s.schedule c).InTurn rest m (fun e => early e ∧ e ≠ c.target) hurry := by
  rw [schedule_eq]
  refine foldl_enqueueRecompute (s := s.pushed c) ⟨horderly.schedule, ?_⟩ hconsumers hpriority
  exact h.push horderly.indexed horderly.banded (horderly.unusedRest c List.mem_cons_self) hne
    hpriority

/-- A change that is scheduled has ahead of it what waits with its priority. -/
theorem start {c : Submission} (horderly : Orderly s.queue (c :: rest) s.inbox.nextId)
    (hwithin : s.queue.Within c.priority hurry)
    (hconsumers : ∀ x ∈ s.graph.downstream c.request.affected, x ≠ c.target) :
    (s.schedule c).InTurn rest c.request
      (fun e => e ≠ c.target ∧ ∃ r, s.queue.pendingFor? e = some r ∧ r.priority = c.priority)
      hurry := by
  rw [schedule_eq]
  refine foldl_enqueueRecompute (s := s.pushed c) ⟨horderly.schedule, ?_⟩ hconsumers
    fun hlt => absurd hlt (Nat.lt_irrefl _)
  exact Queue.Turn.start hwithin horderly.indexed horderly.banded
    (horderly.unusedRest c List.mem_cons_self)

end InTurn

end Scheduler

end Parametric
