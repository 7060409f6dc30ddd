import Parametric.Proofs.Update.Scheduler

/-!
# What a drain serves

`Drain.services` lists the requests that a drain serves, each with the graph at the time and with
what came of it; the report says which of them were applied and which failed (`report_serveAll`).
Nothing stops waiting in a drain without being served (`Keeps`, `served_or_waits`), and what was
applied makes its consumers wait (`waits_serve`), so each consumer is served later or waits when the
drain is done (`served_or_waits`).
-/

namespace Parametric.Scheduler

/-- A request that was served. -/
structure Service where
  /-- The graph when it was served. -/
  graph : Graph
  request : Request
  result : Except ApplyError Outcome

namespace Service

/-- The entry of a report for a request that was applied. -/
def applied? (x : Service) : Option Applied :=
  match x.result with
  | .ok _ => some ⟨x.request.id, x.request.root, x.request.target⟩
  | .error _ => none

/-- The entry of a report for a request that failed. -/
def failure? (x : Service) : Option Failure :=
  match x.result with
  | .ok _ => none
  | .error e => some ⟨x.request.id, x.request.root, x.request.target, e⟩

end Service

/-! ## Steps that keep what waits -/

/-- Between two states the edges stay and nothing stops waiting. -/
structure Keeps (s s' : Scheduler) : Prop where
  sound : s'.Sound
  graph : s'.graph = s.graph
  waits : ∀ x, s.Waits x → s'.Waits x

namespace Keeps

variable {s s' s'' : Scheduler}

theorem refl (hs : s.Sound) : Keeps s s := ⟨hs, rfl, fun _ h => h⟩

theorem trans (h : Keeps s s') (h' : Keeps s' s'') : Keeps s s'' :=
  ⟨h'.sound, h'.graph.trans h.graph, fun x hx => h'.waits x (h.waits x hx)⟩

theorem readInbox (hs : s.Sound) : Keeps s s.readInbox := by
  obtain ⟨hsound, hgraph, -, hwaits⟩ := readInbox_spec hs
  exact ⟨hsound, hgraph, hwaits⟩

/-- What is in the inbox changes nothing. -/
theorem inbox (hs : s.Sound) {inbox : Inbox} (h : Numbered s.queue inbox.unread inbox.nextId) :
    Keeps s { s with inbox } :=
  ⟨⟨hs.graph, h⟩, rfl, fun _ h => h⟩

theorem cascade (hs : s.Sound) (r : Request) (o : Outcome) : Keeps s (s.cascade r o) := by
  obtain ⟨queue, next, heq, hnumbered, hwaits, -⟩ := cascade_spec hs.numbered r o
  rw [heq]
  exact ⟨⟨hs.graph, hnumbered⟩, rfl, fun x hx => (hwaits x).2 (.inr hx)⟩

end Keeps

namespace Drain

variable {τ : Type} (applier : Applier τ) {d : Drain τ}

/-- What the applier answers to a request. -/
def answer (d : Drain τ) (r : Request) : Except ApplyError Outcome × τ × Inbox :=
  (applier.apply { r with state := .processing } d.state).run d.scheduler.inbox

/-- The requests that are served until none waits or `limit` are served. -/
def services : Nat → Drain τ → List Service
  | 0, _ => []
  | limit + 1, d =>
    let s := d.scheduler.readInbox
    match s.queue.pop with
    | (none, _) => []
    | (some r, queue) =>
      let d := { d with scheduler := { s with queue } }
      ⟨s.graph, r, (d.answer applier r).1⟩ :: services limit (serve applier d r)

/-! ## One service -/

theorem keeps_flush (hd : d.scheduler.Sound) (parent : ObjectId) (children : ChildBounds) :
    Keeps d.scheduler (d.flush applier parent children).scheduler := by
  have hnumbered : ∀ (changes : List Change) (inbox : Inbox),
      Numbered d.scheduler.queue inbox.unread inbox.nextId →
      Numbered d.scheduler.queue (changes.foldl (fun i c => (i.submit c).2) inbox).unread
        (changes.foldl (fun i c => (i.submit c).2) inbox).nextId := by
    intro changes
    induction changes with
    | nil => exact fun _ h => h
    | cons c changes ih => exact fun inbox h => ih _ (h.submit c)
  have hinbox := Keeps.inbox hd
    (hnumbered (applier.boundsChanges parent children d.state) _ hd.numbered)
  unfold flush
  cases happly : applier.applyBounds parent children d.state with
  | mk result state => cases result <;> exact hinbox

theorem keeps_contribute (hd : d.scheduler.Sound) (c : Contribution) :
    Keeps d.scheduler (d.contribute applier c).scheduler := by
  unfold contribute
  split
  · exact ⟨⟨hd.graph, hd.numbered⟩, rfl, fun _ h => h⟩
  · exact keeps_flush applier hd _ _

/-- What a request that was applied affects makes its consumers wait. -/
theorem waits_serve (hd : d.scheduler.Sound) (r : Request) :
    Keeps d.scheduler (serve applier d r).scheduler ∧
      ((d.answer applier r).1.isOk → ∀ e ∈ r.affected, ∀ c ∈ d.scheduler.graph.consumersOf e,
        (serve applier d r).scheduler.Waits c) := by
  have hrun := Numbered.run (applier.apply { r with state := .processing } d.state) hd.numbered
  unfold answer serve
  cases hanswer : (applier.apply { r with state := .processing } d.state).run d.scheduler.inbox with
  | mk result rest =>
    obtain ⟨state, inbox⟩ := rest
    rw [hanswer] at hrun
    have hinbox := Keeps.inbox hd hrun
    cases result with
    | error e => exact ⟨hinbox, fun h => by cases h⟩
    | ok outcome =>
      obtain ⟨queue, next, heq, hnumbered, hwaits, -⟩ :=
        cascade_spec hinbox.sound.numbered r outcome
      have hcascade := hinbox.trans (.cascade hinbox.sound r outcome)
      have hserved : ∀ e ∈ r.affected, ∀ c ∈ d.scheduler.graph.consumersOf e,
          ({ d.scheduler with inbox }.cascade r outcome).Waits c := by
        intro e he c hc
        rw [heq]
        exact (hwaits c).2 (.inl ⟨e, he, hc⟩)
      -- Contributing bounds comes last and keeps the requests of the cascade.
      dsimp only
      cases outcome.bounds with
      | none => exact ⟨hcascade, fun _ => hserved⟩
      | some bounds =>
        have hlast := keeps_contribute applier
          (d := { d with state, scheduler := { d.scheduler with inbox }.cascade r outcome })
          hcascade.sound bounds
        exact ⟨hcascade.trans hlast, fun _ e he c hc => hlast.waits c (hserved e he c hc)⟩

/-! ## A whole drain -/

/-- Taking a request out of the queue stops only its target from waiting. -/
theorem pop_spec {s : Scheduler} (hs : s.Sound) {r : Request} {queue : Queue}
    (hpop : s.queue.pop = (some r, queue)) :
    Sound { s with queue } ∧ ∀ x, s.Waits x → x = r.target ∨ Waits { s with queue } x := by
  obtain ⟨-, hindexed, hpendingFor⟩ := hs.numbered.indexed.pop_some hpop
  refine ⟨⟨hs.graph, hs.numbered.change hindexed (Nat.le_refl _) fun t r' hr' => ?_⟩,
    fun x hx => ?_⟩
  · rw [hpendingFor] at hr'
    split at hr'
    · cases hr'
    · exact .inl ⟨r', hr', rfl⟩
  · by_cases heq : r.target = x
    · exact .inl heq.symm
    · refine .inr ?_
      rwa [Waits, hpendingFor, if_neg heq]

/-- When nothing is served nothing stops waiting. -/
theorem keeps_pop_none {s : Scheduler} (hs : s.Sound) {queue : Queue}
    (hpop : s.queue.pop = (none, queue)) : Keeps s { s with queue } := by
  obtain ⟨hindexed, hpendingFor⟩ := hs.numbered.indexed.pop_none hpop
  refine ⟨⟨hs.graph, hs.numbered.change hindexed (Nat.le_refl _) fun t r hr => ?_⟩, rfl,
    fun x hx => ?_⟩
  · exact .inl ⟨r, hpendingFor t ▸ hr, rfl⟩
  · rwa [Waits, hpendingFor]

/-- The state in which a request that was popped is served. -/
def popped (d : Drain τ) (queue : Queue) : Drain τ :=
  { d with scheduler := { d.scheduler.readInbox with queue } }

theorem serveAll_of_pop_none {queue : Queue} (limit : Nat)
    (hpop : d.scheduler.readInbox.queue.pop = (none, queue)) :
    serveAll applier (limit + 1) d = d.popped queue ∧ services applier (limit + 1) d = [] := by
  simp only [serveAll, services, hpop, popped, and_self]

theorem serveAll_of_pop_some {queue : Queue} {r : Request} (limit : Nat)
    (hpop : d.scheduler.readInbox.queue.pop = (some r, queue)) :
    serveAll applier (limit + 1) d = serveAll applier limit (serve applier (d.popped queue) r) ∧
    services applier (limit + 1) d =
      ⟨d.scheduler.readInbox.graph, r, ((d.popped queue).answer applier r).1⟩ ::
        services applier limit (serve applier (d.popped queue) r) := by
  simp only [serveAll, services, hpop, popped, and_self]

/-- What waits is served or waits still, the edges stay, and each service sees the same graph. -/
theorem served_or_waits (limit : Nat) (hd : d.scheduler.Sound) :
    (serveAll applier limit d).scheduler.Sound ∧
    (serveAll applier limit d).scheduler.graph = d.scheduler.graph ∧
    (∀ x, d.scheduler.Waits x → (∃ y ∈ services applier limit d, y.request.target = x) ∨
      (serveAll applier limit d).scheduler.Waits x) ∧
    ∀ y ∈ services applier limit d, y.graph = d.scheduler.graph := by
  induction limit generalizing d with
  | zero =>
    have hread := Keeps.readInbox hd
    exact ⟨hread.sound, hread.graph, fun x hx => .inr (hread.waits x hx),
      fun _ hy => absurd hy List.not_mem_nil⟩
  | succ limit ih =>
    have hread := Keeps.readInbox hd
    cases hpop : d.scheduler.readInbox.queue.pop with
    | mk request queue =>
      cases request with
      | none =>
        obtain ⟨hall, hservices⟩ := serveAll_of_pop_none applier limit hpop
        have hkeeps := hread.trans (keeps_pop_none hread.sound hpop)
        rw [hall, hservices]
        exact ⟨hkeeps.sound, hkeeps.graph, fun x hx => .inr (hkeeps.waits x hx), by simp⟩
      | some r =>
        obtain ⟨hall, hservices⟩ := serveAll_of_pop_some applier limit hpop
        rw [hall, hservices]
        obtain ⟨hsound, hpopped⟩ := pop_spec hread.sound hpop
        have hserve := (waits_serve applier (d := d.popped queue) hsound r).1
        obtain ⟨hsound', hgraph', hwaits', hsame'⟩ := ih hserve.sound
        have hgraph := hserve.graph.trans hread.graph
        refine ⟨hsound', hgraph'.trans hgraph, fun x hx => ?_, fun y hy => ?_⟩
        · rcases hpopped x (hread.waits x hx) with rfl | hx
          · exact .inl ⟨_, List.mem_cons_self, rfl⟩
          · rcases hwaits' x (hserve.waits x hx) with ⟨y, hy, ht⟩ | hx
            · exact .inl ⟨y, List.mem_cons_of_mem _ hy, ht⟩
            · exact .inr hx
        · rcases List.mem_cons.1 hy with rfl | hy
          · exact hread.graph
          · exact (hsame' y hy).trans hgraph

end Drain

/-! ## Consumers -/

/-- After each request that was applied, every consumer of what it affects is served, or waits at
the end. -/
def Followed (waits : Entity → Prop) (served : List Service) : Prop :=
  ∀ before x after, served = before ++ x :: after → x.result.isOk →
    ∀ e ∈ x.request.affected, ∀ c ∈ x.graph.consumersOf e,
      (∃ y ∈ after, y.request.target = c) ∨ waits c

namespace Followed

variable {waits waits' : Entity → Prop} {xs ys : List Service}

theorem nil : Followed waits [] := fun before x after h => by simp at h

theorem cons {x : Service} (hx : x.result.isOk → ∀ e ∈ x.request.affected,
      ∀ c ∈ x.graph.consumersOf e, (∃ y ∈ xs, y.request.target = c) ∨ waits c)
    (h : Followed waits xs) : Followed waits (x :: xs) := by
  intro before y after heq
  cases before with
  | nil =>
    cases heq
    exact hx
  | cons z before =>
    cases heq
    exact h before y after rfl

/-- Two runs, where what waits after the first is served in the second or waits after it. -/
theorem append (h : Followed waits xs) (h' : Followed waits' ys)
    (hlater : ∀ c, waits c → (∃ y ∈ ys, y.request.target = c) ∨ waits' c) :
    Followed waits' (xs ++ ys) := by
  induction xs with
  | nil => exact h'
  | cons x xs ih =>
    refine .cons (fun hok e he c hc => ?_) (ih fun before y after heq =>
      h (x :: before) y after (by rw [heq, List.cons_append]))
    rcases h [] x xs rfl hok e he c hc with ⟨y, hy, ht⟩ | hw
    · exact .inl ⟨y, List.mem_append_left _ hy, ht⟩
    · rcases hlater c hw with ⟨y, hy, ht⟩ | hw
      · exact .inl ⟨y, List.mem_append_right _ hy, ht⟩
      · exact .inr hw

end Followed

/-- In a drain each consumer of what was applied is served later, or waits at the end. -/
theorem Drain.followed {τ : Type} (applier : Applier τ) {d : Drain τ} (limit : Nat)
    (hd : d.scheduler.Sound) :
    Followed (serveAll applier limit d).scheduler.Waits (services applier limit d) := by
  induction limit generalizing d with
  | zero => exact .nil
  | succ limit ih =>
    have hread := Keeps.readInbox hd
    cases hpop : d.scheduler.readInbox.queue.pop with
    | mk request queue =>
      cases request with
      | none =>
        rw [(serveAll_of_pop_none applier limit hpop).2]
        exact .nil
      | some r =>
        obtain ⟨hall, hservices⟩ := serveAll_of_pop_some applier limit hpop
        rw [hall, hservices]
        obtain ⟨hserve, hconsumers⟩ := waits_serve applier (d := d.popped queue)
          (pop_spec hread.sound hpop).1 r
        obtain ⟨-, -, hlater, -⟩ := served_or_waits applier limit hserve.sound
        exact .cons (fun hok e he c hc => hlater c (hconsumers hok e he c hc)) (ih hserve.sound)

end Parametric.Scheduler
