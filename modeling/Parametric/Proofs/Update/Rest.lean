import Mathlib.Algebra.BigOperators.Group.Finset.Basic
import Mathlib.Algebra.GroupWithZero.Nat
import Mathlib.Algebra.Order.BigOperators.Group.List
import Mathlib.Data.Finset.Card
import Parametric.Proofs.Update.History
import Parametric.Proofs.Update.Line

/-!
# Coming to rest

A request that is served makes the consumers of what it affects wait, and those come after it in the
graph, which has no cycles. So each request has an effort: one more than the efforts of all that it
can make wait (`Request.effort`). Serving a request takes its effort away from the sum over all that
waits, and adds less than that (`Scheduler.Due.serve`). When the applier submits nothing, each drain
that serves anything lowers the sum, until nothing waits (`Scheduler.Due.drain`).
-/

namespace Parametric

namespace Graph

variable {g : Graph} {p c : Entity}

/-- Less follows from a consumer than from its producer. -/
theorem Sound.card_downstream_lt (hg : g.Sound) (h : g.Feeds p c) :
    (g.downstream [c]).toFinset.card < (g.downstream [p]).toFinset.card := by
  have hmem : ∀ {x y : Entity}, y ∈ g.downstream [x] ↔
      y ≠ x ∧ Relation.ReflTransGen g.Feeds x y := fun {x y} => by
    simp [mem_downstream_iff hg]
  refine Finset.card_lt_card ⟨fun x hx => ?_, fun hsub => ?_⟩
  · obtain ⟨-, hpath⟩ := hmem.1 (List.mem_toFinset.1 hx)
    refine List.mem_toFinset.2 (hmem.2 ⟨?_, .head h hpath⟩)
    rintro rfl
    exact hg.acyclic x (.head' h hpath)
  · have hc : c ∈ g.downstream [p] := hmem.2 ⟨?_, .single h⟩
    · exact (hmem.1 (List.mem_toFinset.1 (hsub (List.mem_toFinset.2 hc)))).1 rfl
    · rintro rfl
      exact hg.acyclic c (.single h)

/-- No entity has an endless line of producers. -/
theorem Sound.wellFounded (hg : g.Sound) : WellFounded g.Feeds := by
  let consumers := (g.edges.keys.map Link.consumer).toFinset
  have hle : ∀ p, (g.downstream [p]).toFinset.card ≤ consumers.card := fun p => by
    refine Finset.card_le_card fun x hx => ?_
    obtain ⟨y, hfeeds⟩ := exists_feeds_of_mem_downstream hg (List.mem_toFinset.1 hx)
    exact List.mem_toFinset.2 (List.mem_map.2 ⟨⟨y, x⟩, Std.ExtTreeMap.mem_keys.2 hfeeds, rfl⟩)
  refine Subrelation.wf (fun {p c} h => ?_)
    (measure fun e => consumers.card - (g.downstream [e]).toFinset.card).wf
  have hlt := hg.card_downstream_lt h
  have hbound := hle p
  show consumers.card - _ < consumers.card - _
  omega

/-- The count of requests that computing an entity can lead to at most, itself included. -/
def effort (g : Graph) (hg : g.Sound) (e : Entity) : Nat :=
  1 + ((g.consumersOf e).attach.map fun c => g.effort hg c.1).sum
termination_by (g.downstream [e]).toFinset.card
decreasing_by exact hg.card_downstream_lt (hg.toIndexed.mem_consumersOf.1 c.2)

theorem effort_eq (hg : g.Sound) (e : Entity) :
    g.effort hg e = 1 + ((g.consumersOf e).map (g.effort hg)).sum := by
  have hattach : (g.consumersOf e).attach.map (fun c => g.effort hg c.1) =
      (g.consumersOf e).map (g.effort hg) := by
    rw [← Function.comp_def (g.effort hg), ← List.map_map, List.attach_map_subtype_val]
  rw [effort, hattach]

end Graph

namespace Request

variable {g : Graph} {r : Request}

/-- What a request affects is the same when a recompute is folded into it. -/
theorem affected_absorb (r : Request) (priority : Priority) {payload : Payload}
    (hpayload : payload.isRecompute) : (r.absorb priority payload).affected = r.affected := by
  unfold affected absorb
  split
  next hboth =>
    obtain ⟨hown, -⟩ := Bool.and_eq_true_iff.1 hboth
    cases hkind : r.kind with
    | hierarchy =>
      cases hp : r.payload <;> cases hq : payload <;>
        simp_all [Payload.isRecompute, ChangeKind.affected]
    | _ => rfl
  next => rfl

/-- The count of requests that serving a request can lead to at most, itself included. -/
def effort (hg : g.Sound) (r : Request) : Nat :=
  1 + (r.affected.map fun p => ((g.consumersOf p).map (g.effort hg)).sum).sum

theorem effort_absorb (hg : g.Sound) (r : Request) (priority : Priority) {payload : Payload}
    (hpayload : payload.isRecompute) : (r.absorb priority payload).effort hg = r.effort hg := by
  unfold effort
  rw [affected_absorb r priority hpayload]

theorem effort_pos (hg : g.Sound) (r : Request) : 0 < r.effort hg := Nat.lt_add_right _ Nat.one_pos

/-- Computing its target is all that a recompute leads to. -/
theorem effort_of_recompute (hg : g.Sound) (hkind : r.kind = .recompute) :
    r.effort hg = g.effort hg r.target := by
  have haffected : r.affected = [r.target] := by
    rw [affected, hkind]
    rfl
  rw [effort, haffected, Graph.effort_eq]
  rfl

end Request

namespace Queue

variable {g : Graph} {q q' : Queue} {t : Entity} {among : Finset Entity}

/-- The efforts of all requests that wait for some targets. -/
def effort (hg : g.Sound) (among : Finset Entity) (q : Queue) : Nat :=
  ∑ t ∈ among, (q.pendingFor? t).elim 0 (Request.effort hg)

/-- When the request for one target changes, its part of the sum does. -/
theorem effort_update (hg : g.Sound) (ht : t ∈ among) {m : Option Request}
    (h : ∀ x, q'.pendingFor? x = if t = x then m else q.pendingFor? x) :
    q'.effort hg among + (q.pendingFor? t).elim 0 (Request.effort hg) =
      q.effort hg among + m.elim 0 (Request.effort hg) := by
  have hrest : ∑ x ∈ among.erase t, (q'.pendingFor? x).elim 0 (Request.effort hg) =
      ∑ x ∈ among.erase t, (q.pendingFor? x).elim 0 (Request.effort hg) := by
    refine Finset.sum_congr rfl fun x hx => ?_
    rw [h, if_neg (Finset.mem_erase.1 hx).1.symm]
  unfold effort
  rw [← Finset.add_sum_erase among _ ht, ← Finset.add_sum_erase among _ ht, hrest, h, if_pos rfl]
  omega

/-! ## Queues with nothing to serve -/

theorem popBand_none {p : Priority} {ids : List RequestId} (hpop : q.popBand p ids = (none, q'))
    (p' : Priority) : q'.bands.get p' = if p = p' then [] else q.bands.get p' := by
  induction ids generalizing q with
  | nil =>
    cases hpop
    exact Bands.get_set q.bands p p' []
  | cons id ids ih =>
    rw [popBand] at hpop
    split at hpop
    next => exact ih (q := { q with stale := q.stale - 1 }) hpop
    next r _ =>
      split at hpop
      · cases hpop
      · exact ih (q := { q with stale := q.stale - 1 }) hpop

/-- A queue that gives no request from some bands leaves them empty. -/
theorem popBands_none {ps : List Priority} (hpop : q.popBands ps = (none, q')) (p : Priority) :
    q'.bands.get p = if p ∈ ps then [] else q.bands.get p := by
  induction ps generalizing q with
  | nil =>
    cases hpop
    rfl
  | cons p' ps ih =>
    rw [popBands] at hpop
    split at hpop
    · cases hpop
    next q'' hfirst =>
      rw [ih hpop, popBand_none hfirst p]
      simp only [List.mem_cons, eq_comm (a := p)]
      split <;> split <;> simp_all

/-- When a queue gave no request and its requests stand in their bands, it has none. -/
theorem size_of_pop_none (hpop : q.pop = (none, q')) (hb : q'.Banded) : q'.size = 0 := by
  refine Std.ExtTreeMap.eq_empty_iff_size_eq_zero.1 ?_
  refine Std.ExtTreeMap.ext_getElem? fun id => ?_
  rw [Std.ExtTreeMap.getElem?_empty]
  cases hr : q'.requests[id]? with
  | none => rfl
  | some r =>
    have hmem := hb.mem hr
    rw [popBands_none hpop, if_pos (by cases r.priority <;> decide)] at hmem
    cases hmem

end Queue

namespace Scheduler

variable {g : Graph} {s : Scheduler} {rest : List Submission} {among : Finset Entity}

/-! ## Recomputes -/

/-- A recompute adds at most its effort. -/
theorem effort_enqueueRecompute (hg : g.Sound) (hs : Numbered s.queue rest s.inbox.nextId)
    (trigger : Entity) (value : Option Value) (priority : Priority) (root : RequestId)
    {consumer : Entity} (hmem : consumer ∈ among) :
    (s.enqueueRecompute trigger value priority root consumer).queue.effort hg among ≤
      s.queue.effort hg among + g.effort hg consumer := by
  obtain ⟨queue, next, heq, -, hpendingFor⟩ :=
    enqueueRecompute_spec hs trigger value priority root consumer
  have hupdate := Queue.effort_update hg hmem hpendingFor
  rw [heq]
  cases hwaits : s.queue.pendingFor? consumer with
  | none =>
    have hnew : (s.recompute trigger value priority root consumer).effort hg =
        g.effort hg consumer := by
      rw [recompute, hwaits]
      exact Request.effort_of_recompute hg rfl
    rw [hwaits, Option.elim_none, Option.elim_some, hnew] at hupdate
    exact hupdate.le
  | some r =>
    have hsame : (s.recompute trigger value priority root consumer).effort hg = r.effort hg := by
      rw [recompute, hwaits]
      exact r.effort_absorb hg priority rfl
    rw [hwaits, Option.elim_some, Option.elim_some, hsame] at hupdate
    have hkept : queue.effort hg among = s.queue.effort hg among := Nat.add_right_cancel hupdate
    exact hkept.trans_le (Nat.le_add_right _ _)

theorem effort_foldl_enqueueRecompute (hg : g.Sound)
    (hs : Numbered s.queue rest s.inbox.nextId) (trigger : Entity) (value : Option Value)
    (priority : Priority) (root : RequestId) {consumers : List Entity}
    (hmem : ∀ c ∈ consumers, c ∈ among) :
    (consumers.foldl (enqueueRecompute · trigger value priority root) s).queue.effort hg among ≤
      s.queue.effort hg among + (consumers.map (g.effort hg)).sum := by
  induction consumers generalizing s with
  | nil => simp
  | cons c cs ih =>
    obtain ⟨hc, hcs⟩ := List.forall_mem_cons.1 hmem
    obtain ⟨queue, next, heq, hnumbered, -⟩ :=
      enqueueRecompute_spec hs trigger value priority root c
    have hfirst := effort_enqueueRecompute hg hs trigger value priority root hc
    have hs' : Numbered (s.enqueueRecompute trigger value priority root c).queue rest
        (s.enqueueRecompute trigger value priority root c).inbox.nextId := by
      rw [heq]
      exact hnumbered
    have hlater := ih hs' hcs
    rw [List.foldl_cons, List.map_cons, List.sum_cons]
    omega

/-- What a request makes wait adds less than the effort of the request. -/
theorem effort_cascade (hg : g.Sound) (hs : Numbered s.queue rest s.inbox.nextId)
    (hgraph : s.graph = g) (hmem : ∀ p c, g.Feeds p c → c ∈ among) (r : Request) (o : Outcome) :
    (s.cascade r o).queue.effort hg among < s.queue.effort hg among + r.effort hg := by
  suffices hle : (s.cascade r o).queue.effort hg among ≤ s.queue.effort hg among +
      (r.affected.map fun p => ((g.consumersOf p).map (g.effort hg)).sum).sum by
    unfold Request.effort
    omega
  unfold cascade
  generalize r.affected = affected
  induction affected generalizing s with
  | nil => simp
  | cons p affected ih =>
    have hconsumers : ∀ c ∈ s.graph.consumersOf p, c ∈ among := fun c hc =>
      hmem p c (hg.toIndexed.mem_consumersOf.1 (hgraph ▸ hc))
    obtain ⟨queue, next, heq, hnumbered, -⟩ :=
      foldl_enqueueRecompute hs p o.value r.priority r.root (s.graph.consumersOf p)
    have hfirst : queue.effort hg among ≤
        s.queue.effort hg among + ((g.consumersOf p).map (g.effort hg)).sum := by
      have hfirst := effort_foldl_enqueueRecompute hg hs p o.value r.priority r.root hconsumers
      rw [heq, hgraph] at hfirst
      exact hfirst
    have hlater := ih (s := { s with queue, inbox := { s.inbox with nextId := next } }) hnumbered
      hgraph
    rw [List.foldl_cons, heq, List.map_cons, List.sum_cons, ← Nat.add_assoc]
    exact hlater.trans (Nat.add_le_add_right hfirst _)

end Scheduler

/-- An applier submits no changes. -/
structure Applier.Reserved {τ : Type} (applier : Applier τ) : Prop where
  apply : ∀ (r : Request) (t : τ) (inbox : Inbox), ((applier.apply r t).run inbox).2.2 = inbox
  bounds : ∀ (parent : ObjectId) (children : ChildBounds) (t : τ),
    applier.boundsChanges parent children t = []

namespace Scheduler

variable {g : Graph} {s : Scheduler} {among : Finset Entity} {n : Nat}

/-! ## Drains -/

/-- In a sound scheduler with an empty inbox and the edges `g`, which serves requests in a drain,
all that waits or can come to wait is `among` some entities, and takes an effort of at most `n`. -/
structure Due (hg : g.Sound) (among : Finset Entity) (n : Nat) (s : Scheduler) : Prop where
  sound : s.Sound
  graph : s.graph = g
  unread : s.inbox.unread = []
  serves : 0 < s.settings.maxServed
  consumers : ∀ p c, g.Feeds p c → c ∈ among
  waits : ∀ t, s.Waits t → t ∈ among
  effort : s.queue.effort hg among ≤ n

/-- In every sound scheduler with an empty inbox some effort is due. -/
theorem exists_due (hs : s.Sound) (hunread : s.inbox.unread = [])
    (hserves : 0 < s.settings.maxServed) : ∃ among n, s.Due hs.graph among n := by
  let among : Finset Entity :=
    s.queue.pending.keys.toFinset ∪ (s.graph.edges.keys.map Link.consumer).toFinset
  refine ⟨among, _, hs, rfl, hunread, hserves, fun p c hc => ?_, fun t ht => ?_, Nat.le_refl _⟩
  · refine Finset.mem_union_right _ (List.mem_toFinset.2 ?_)
    exact List.mem_map.2 ⟨⟨p, c⟩, Std.ExtTreeMap.mem_keys.2 hc, rfl⟩
  · refine Finset.mem_union_left _ (List.mem_toFinset.2 (Std.ExtTreeMap.mem_keys.2 ?_))
    obtain ⟨r, hr⟩ := Option.isSome_iff_exists.1 ht
    rw [Queue.pendingFor?_eq, Option.bind_eq_some_iff] at hr
    obtain ⟨id, hid, -⟩ := hr
    exact Std.ExtTreeMap.mem_iff_isSome_getElem?.2 (hid ▸ rfl)

namespace Due

variable {hg : g.Sound}

theorem mono (h : s.Due hg among n) {m : Nat} (hle : n ≤ m) : s.Due hg among m :=
  { h with effort := h.effort.trans hle }

/-- Of a scheduler only the edges, the inbox, the settings and what waits matter. -/
theorem congr (h : s.Due hg among n) {s' : Scheduler} (hsound : s'.Sound)
    (hgraph : s'.graph = s.graph) (hunread : s'.inbox.unread = s.inbox.unread)
    (hsettings : s'.settings = s.settings)
    (hqueue : ∀ t, s'.queue.pendingFor? t = s.queue.pendingFor? t) : s'.Due hg among n where
  sound := hsound
  graph := hgraph.trans h.graph
  unread := hunread.trans h.unread
  serves := hsettings ▸ h.serves
  consumers := h.consumers
  waits t ht := h.waits t (by rwa [Waits, ← hqueue])
  effort := by
    unfold Queue.effort
    simp only [hqueue]
    exact h.effort

/-- When nothing waits nothing is to be done. -/
theorem of_isIdle (h : s.Due hg among n) (hidle : s.isIdle) : s.Due hg among 0 where
  __ := h
  effort := by
    refine (Finset.sum_eq_zero fun t _ => ?_).le
    have hwaits := not_waits_of_isIdle hidle t
    rw [Waits, Option.not_isSome_iff_eq_none] at hwaits
    rw [hwaits]
    rfl

/-- Serving a request leaves less to do. -/
theorem cascade (h : s.Due hg among n) {r : Request} {queue : Queue}
    (hpop : s.queue.pop = (some r, queue)) :
    (∃ m < n, Due hg among m { s with queue }) ∧
      ∀ o, ∃ m < n, Due hg among m (Scheduler.cascade { s with queue } r o) := by
  obtain ⟨hr, -, hpendingFor⟩ := h.sound.numbered.indexed.pop_some hpop
  obtain ⟨hsound, -⟩ := Drain.pop_spec h.sound hpop
  have htarget : r.target ∈ among := h.waits r.target (by rw [Waits, hr]; rfl)
  have hupdate : queue.effort hg among + r.effort hg = s.queue.effort hg among := by
    have hupdate := Queue.effort_update hg htarget hpendingFor
    rwa [hr, Option.elim_some, Option.elim_none, Nat.add_zero] at hupdate
  have hpos := r.effort_pos hg
  have hle := h.effort
  have hpopped : Due hg among (queue.effort hg among) { s with queue } := {
    sound := hsound
    graph := h.graph
    unread := h.unread
    serves := h.serves
    consumers := h.consumers
    waits := fun t ht => by
      rw [Waits, hpendingFor] at ht
      split at ht
      · cases ht
      · exact h.waits t ht
    effort := Nat.le_refl _ }
  refine ⟨⟨_, by omega, hpopped⟩, fun o => ?_⟩
  have hless : (Scheduler.cascade { s with queue } r o).queue.effort hg among <
      queue.effort hg among + r.effort hg :=
    effort_cascade hg hsound.numbered h.graph h.consumers r o
  obtain ⟨queue', next, heq, hnumbered, hwaits, -⟩ := cascade_spec hsound.numbered r o
  refine ⟨(Scheduler.cascade { s with queue } r o).queue.effort hg among, by omega, ?_⟩
  rw [heq]
  exact {
    sound := ⟨hsound.graph, hnumbered⟩
    graph := h.graph
    unread := h.unread
    serves := h.serves
    consumers := h.consumers
    waits := fun t ht => by
      rcases (hwaits t).1 ht with ⟨p, -, hp⟩ | ht
      · exact h.consumers p t (h.graph ▸ h.sound.graph.toIndexed.mem_consumersOf.1 hp)
      · exact hpopped.waits t ht
    effort := Nat.le_refl _ }

end Due

namespace Drain

variable {τ : Type} {applier : Applier τ} (hsilent : applier.Reserved) {d : Drain τ}
  {hg : g.Sound}
include hsilent

theorem scheduler_flush (d : Drain τ) (parent : ObjectId) (children : ChildBounds) :
    (d.flush applier parent children).scheduler = d.scheduler := by
  unfold flush
  rw [hsilent.bounds]
  cases applier.applyBounds parent children d.state with
  | mk result state => cases result <;> rfl

/-- Of a scheduler, serving a request that fails changes nothing, and else no more changes than a
cascade and the bounds that wait. -/
theorem scheduler_serve (d : Drain τ) (r : Request) :
    (d.answer applier r).1.isOk = false ∧ (serve applier d r).scheduler = d.scheduler ∨
      ∃ o bounds, (serve applier d r).scheduler = { d.scheduler.cascade r o with bounds } := by
  unfold answer serve
  have hinbox := hsilent.apply { r with state := .processing } d.state d.scheduler.inbox
  generalize (applier.apply { r with state := .processing } d.state).run d.scheduler.inbox = answer
    at hinbox
  obtain ⟨result, state, inbox⟩ := answer
  subst hinbox
  cases result with
  | error e => exact .inl ⟨rfl, rfl⟩
  | ok o =>
    refine .inr ⟨o, ?_⟩
    obtain ⟨value, bounds⟩ := o
    cases bounds with
    | none => exact ⟨_, rfl⟩
    | some c =>
      dsimp only
      unfold contribute
      split
      · exact ⟨_, rfl⟩
      · exact ⟨_, scheduler_flush hsilent _ _ _⟩

theorem due_serve (h : d.scheduler.Due hg among n) {r : Request} {queue : Queue}
    (hpop : d.scheduler.queue.pop = (some r, queue)) :
    ∃ m < n, (serve applier { d with scheduler := { d.scheduler with queue } } r).scheduler.Due hg
      among m := by
  obtain ⟨hpopped, hcascaded⟩ := h.cascade hpop
  rcases scheduler_serve hsilent { d with scheduler := { d.scheduler with queue } } r with
    ⟨-, heq⟩ | ⟨o, bounds, heq⟩
  · rw [heq]
    exact hpopped
  · obtain ⟨m, hm, hdue⟩ := hcascaded o
    rw [heq]
    exact ⟨m, hm, hdue.congr ⟨hdue.sound.graph, hdue.sound.numbered⟩ rfl rfl rfl fun _ => rfl⟩

/-- Serving requests leaves no more to do, and less unless there is nothing to serve. -/
theorem due_serveAll (limit : Nat) (h : d.scheduler.Due hg among n) :
    (serveAll applier limit d).scheduler.Due hg among n ∧
      (0 < limit → (∃ q : Queue, q.pop = (none, (serveAll applier limit d).scheduler.queue)) ∨
        ∃ m < n, (serveAll applier limit d).scheduler.Due hg among m) := by
  induction limit generalizing d n with
  | zero =>
    rw [serveAll, readInbox_eq h.unread]
    exact ⟨h, fun hlt => (Nat.lt_irrefl 0 hlt).elim⟩
  | succ limit ih =>
    rw [serveAll, readInbox_eq h.unread]
    cases hpop : d.scheduler.queue.pop with
    | mk served queue =>
      cases served with
      | none =>
        have hsame := (h.sound.numbered.indexed.pop_none hpop).2
        exact ⟨h.congr (keeps_pop_none h.sound hpop).sound rfl rfl rfl hsame,
          fun _ => .inl ⟨_, hpop⟩⟩
      | some r =>
        obtain ⟨m, hm, hdue⟩ := due_serve hsilent h hpop
        obtain ⟨hlater, -⟩ := ih hdue
        exact ⟨hlater.mono hm.le, fun _ => .inr ⟨m, hm, hlater⟩⟩

theorem scheduler_flushAll (d : Drain τ) :
    (d.flushAll applier).scheduler = { d.scheduler with bounds := {} } := by
  unfold flushAll
  suffices hfold : ∀ (parents : List (ObjectId × ChildBounds)) (d : Drain τ),
      (parents.foldl (fun d parent => d.flush applier parent.1 parent.2) d).scheduler =
        d.scheduler from hfold _ _
  intro parents
  induction parents with
  | nil => exact fun d => rfl
  | cons parent parents ih => exact fun d => (ih _).trans (scheduler_flush hsilent d _ _)

end Drain

/-- A drain leaves nothing, if its requests stand in their bands, or less than there was. -/
theorem Due.drain {hg : g.Sound} (h : s.Due hg among n) {τ : Type} {applier : Applier τ}
    (hsilent : applier.Reserved) (state : τ) :
    (s.drain applier state).2.1.Due hg among n ∧
      (((s.drain applier state).2.1.queue.Banded → (s.drain applier state).2.1.isIdle) ∨
        ∃ m < n, (s.drain applier state).2.1.Due hg among m) := by
  obtain ⟨hkept, hless⟩ := Drain.due_serveAll hsilent s.settings.maxServed
    (d := ⟨s, state, {}⟩) h
  have hscheduler : (s.drain applier state).2.1 = { (Drain.serveAll applier s.settings.maxServed
      ⟨s, state, {}⟩).scheduler with bounds := {}, superseded := [] } := by
    show { ((Drain.serveAll applier s.settings.maxServed ⟨s, state, {}⟩).flushAll
      applier).scheduler with superseded := [] } = _
    rw [Drain.scheduler_flushAll hsilent]
  generalize (Drain.serveAll applier s.settings.maxServed ⟨s, state, {}⟩).scheduler = served
    at hkept hless hscheduler
  have hdue : ∀ {m : Nat}, served.Due hg among m →
      (s.drain applier state).2.1.Due hg among m := by
    intro m hm
    rw [hscheduler]
    exact hm.congr ⟨hm.sound.graph, hm.sound.numbered⟩ rfl rfl rfl fun _ => rfl
  refine ⟨hdue hkept, (hless h.serves).imp (fun ⟨q, hpop⟩ hbanded => ?_)
    fun ⟨m, hm, hlater⟩ => ⟨m, hm, hdue hlater⟩⟩
  have hqueue : (s.drain applier state).2.1.queue = served.queue := by rw [hscheduler]
  rw [hqueue] at hbanded
  have hsize := Queue.size_of_pop_none hpop hbanded
  refine decide_eq_true ?_
  rw [pending, hqueue, hsize, (hdue hkept).unread]
  rfl

end Scheduler

end Parametric
