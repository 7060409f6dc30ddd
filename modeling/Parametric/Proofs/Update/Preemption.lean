import Parametric.Proofs.Update.Draining
import Parametric.Proofs.Update.Ledger

/-!
# Urgent requests come first

Each step of a scheduler has a log, which lists what the step does to the queue. The log leads from
the queue before the step to the one after it, and from a ledger of the first to a ledger of the
second (`Queue.Logs`). So a ledger may be kept beside the scheduler over a whole history
(`logs_history`) and on into a drain (`Drain.logs_returned`), where a stamp says when a request came
to its band. What a drain serves next is the first entry of that ledger, once the submissions of
the last application have been read (`most_urgent_served_first`).
-/

namespace Parametric

/-! ## Logs of a queue -/

namespace Queue

theorem Op.run_append {σ : Type} (step : Op → σ → Answer × σ) (ops ops' : List Op) (s : σ) :
    (run step (ops ++ ops') s).2 = (run step ops' (run step ops s).2).2 := by
  induction ops generalizing s with
  | nil => rfl
  | cons op ops ih => exact ih (step op s).2

/-- The operations of `log` lead from one queue to another, and the ledgers go with them. -/
structure Logs (log : List Op) (q q' : Queue) : Prop where
  queue : (Op.run Op.onQueue log q).2 = q'
  ledger : ∀ l, Records q l → Records q' (Op.run Op.onLedger log l).2

namespace Logs

variable {log log' : List Op} {q q' q'' : Queue}

theorem nil (q : Queue) : Logs [] q q := ⟨rfl, fun _ h => h⟩

theorem append (h : Logs log q q') (h' : Logs log' q' q'') : Logs (log ++ log') q q'' where
  queue := by rw [Op.run_append, h.queue, h'.queue]
  ledger l hl := by
    rw [Op.run_append]
    exact h'.ledger _ (h.ledger l hl)

theorem single (op : Op) (hunused : ∀ id, op.number? = some id → q.Unused id) :
    Logs [op] q (op.onQueue q).2 :=
  ⟨rfl, fun _ h => (h.step op hunused).2.1⟩

end Logs

/-- What is popped is the request of an entry that comes before all others. -/
theorem Ledger.exists_of_pop {l l' : Ledger} {r : Request} (hpop : l.pop = (some r, l')) :
    ∃ x ∈ l.entries, x.request = r ∧ ∀ y ∈ l.entries, x.Before y := by
  unfold pop at hpop
  cases hfirst : l.first? with
  | none =>
    rw [hfirst] at hpop
    cases hpop
  | some x =>
    rw [hfirst] at hpop
    cases hpop
    have hall := List.find?_some hfirst
    exact ⟨x, List.mem_of_find?_eq_some hfirst, rfl,
      fun y hy => of_decide_eq_true (List.all_eq_true.1 hall y hy)⟩

end Queue

namespace Scheduler

open Queue (Logs Ledger Records)

/-! ## The log of each step -/

/-- The log of steps that are done in turn. -/
def logInTurn {α : Type} (step : Scheduler → α → Scheduler)
    (log : Scheduler → α → List Queue.Op) : Scheduler → List α → List Queue.Op
  | _, [] => []
  | s, a :: as => log s a ++ logInTurn step log (step s a) as

/-- A recompute is folded into the request that waits, or pushed. -/
def recomputeLog (s : Scheduler) (trigger : Entity) (value : Option Value) (priority : Priority)
    (root : RequestId) (consumer : Entity) : List Queue.Op :=
  let payload : Payload := .recompute consumer.property trigger value
  match s.queue.pendingFor? consumer with
  | some _ => [.merge consumer priority payload]
  | none => [.push ⟨s.inbox.nextId, root, consumer, .recompute, payload, priority, .queued⟩]

def recomputesLog (s : Scheduler) (trigger : Entity) (value : Option Value) (priority : Priority)
    (root : RequestId) (consumers : List Entity) : List Queue.Op :=
  logInTurn (enqueueRecompute · trigger value priority root)
    (recomputeLog · trigger value priority root) s consumers

def scheduleLog (s : Scheduler) (c : Submission) : List Queue.Op :=
  .push c.request :: (s.pushed c).recomputesLog c.target none c.priority c.id
    (s.graph.downstream c.request.affected)

def readInboxLog (s : Scheduler) : List Queue.Op :=
  logInTurn schedule scheduleLog { s with inbox := { s.inbox with unread := [] } } s.inbox.unread

def cascadeLog (s : Scheduler) (r : Request) (o : Outcome) : List Queue.Op :=
  logInTurn
    (fun s producer => (s.graph.consumersOf producer).foldl
      (enqueueRecompute · producer o.value r.priority r.root) s)
    (fun s producer => s.recomputesLog producer o.value r.priority r.root
      (s.graph.consumersOf producer)) s r.affected

namespace Drain

variable {τ : Type} (applier : Applier τ)

/-- Only what was applied has consequences for the queue. -/
def serveLog (d : Drain τ) (r : Request) : List Queue.Op :=
  match d.answer applier r with
  | (.error _, _) => []
  | (.ok outcome, _, inbox) => { d.scheduler with inbox }.cascadeLog r outcome

/-- A drain when `n` requests have been served and the last application has returned. -/
def returned : Nat → Drain τ → Drain τ
  | 0, d => d
  | n + 1, d =>
    let s := d.scheduler.readInbox
    match s.queue.pop with
    | (none, queue) => { d with scheduler := { s with queue } }
    | (some r, queue) => returned n (serve applier { d with scheduler := { s with queue } } r)

/-- The log of a drain until `n` requests have been served. -/
def log : Nat → Drain τ → List Queue.Op
  | 0, _ => []
  | n + 1, d =>
    let s := d.scheduler.readInbox
    d.scheduler.readInboxLog ++ .pop :: match s.queue.pop with
      | (none, _) => []
      | (some r, queue) =>
        let d := { d with scheduler := { s with queue } }
        d.serveLog applier r ++ log n (serve applier d r)

end Drain

/-- The log of an operation. Edits of the graph and submissions leave the queue alone. -/
def Op.log (s : Scheduler) : Op → List Queue.Op
  | propagate change =>
    match s.inbox.accept change with
    | .ok (c, inbox) => { s with inbox }.scheduleLog c
    | .error _ => []
  | drain applier state =>
    let d : Drain _ := ⟨s, state, {}⟩
    d.log applier s.settings.maxServed ++
      (d.returned applier s.settings.maxServed).scheduler.readInboxLog
  | _ => []

/-- The log of a history. -/
def log : List Op → Scheduler → List Queue.Op
  | [], _ => []
  | op :: ops, s => op.log s ++ log ops (op.apply s)

/-! ## The log of a step leads to the queue after it -/

theorem logs_inTurn {α : Type} {step : Scheduler → α → Scheduler}
    {log : Scheduler → α → List Queue.Op} {P : Scheduler → List α → Prop}
    (hstep : ∀ s a as, P s (a :: as) →
      Logs (log s a) s.queue (step s a).queue ∧ P (step s a) as)
    {s : Scheduler} {as : List α} (hs : P s as) :
    Logs (logInTurn step log s as) s.queue (as.foldl step s).queue := by
  induction as generalizing s with
  | nil => exact .nil _
  | cons a as ih =>
    obtain ⟨hfirst, hs'⟩ := hstep s a as hs
    exact hfirst.append (ih hs')

variable {s : Scheduler} {rest : List Submission}

theorem logs_enqueueRecompute (hs : Orderly s.queue rest s.inbox.nextId) (trigger : Entity)
    (value : Option Value) (priority : Priority) (root : RequestId) (consumer : Entity) :
    Logs (s.recomputeLog trigger value priority root consumer) s.queue
      (s.enqueueRecompute trigger value priority root consumer).queue := by
  unfold recomputeLog
  cases hwaits : s.queue.pendingFor? consumer with
  | some r =>
    rw [enqueueRecompute_of_some hs.indexed hwaits]
    exact .single (.merge consumer priority _) (by simp [Queue.Op.number?])
  | none =>
    rw [enqueueRecompute_of_none hs.indexed hwaits]
    refine .single (.push _) fun id hid => ?_
    cases hid
    exact hs.unusedNext _ (Nat.le_refl _)

theorem logs_recomputes (hs : Orderly s.queue rest s.inbox.nextId) (trigger : Entity)
    (value : Option Value) (priority : Priority) (root : RequestId) (consumers : List Entity) :
    Logs (s.recomputesLog trigger value priority root consumers) s.queue
      (consumers.foldl (enqueueRecompute · trigger value priority root) s).queue :=
  logs_inTurn (P := fun s _ => Orderly s.queue rest s.inbox.nextId)
    (fun _ c _ hs => ⟨logs_enqueueRecompute hs trigger value priority root c,
      orderly_enqueueRecompute hs c⟩) hs

theorem logs_schedule {c : Submission} (hs : Orderly s.queue (c :: rest) s.inbox.nextId) :
    Logs (s.scheduleLog c) s.queue (s.schedule c).queue := by
  have hpush : Logs [.push c.request] s.queue (s.pushed c).queue :=
    .single (.push c.request) fun id hid => by
      cases hid
      exact hs.unusedRest c List.mem_cons_self
  exact hpush.append (logs_recomputes (s := s.pushed c) hs.schedule ..)

theorem logs_readInbox (hs : Orderly s.queue s.inbox.unread s.inbox.nextId) :
    Logs s.readInboxLog s.queue s.readInbox.queue :=
  logs_inTurn (P := fun s rest => Orderly s.queue rest s.inbox.nextId)
    (fun _ _ _ hs => ⟨logs_schedule hs, orderly_schedule hs⟩)
    (s := { s with inbox := { s.inbox with unread := [] } }) hs

theorem logs_cascade (hs : Orderly s.queue rest s.inbox.nextId) (r : Request) (o : Outcome) :
    Logs (s.cascadeLog r o) s.queue (s.cascade r o).queue :=
  logs_inTurn (P := fun s _ => Orderly s.queue rest s.inbox.nextId)
    (fun _ _ _ hs => ⟨logs_recomputes hs .., orderly_foldl_enqueueRecompute hs _⟩) hs

/-! ## Drains -/

namespace Drain

variable {τ : Type} (applier : Applier τ) {d : Drain τ}

theorem logs_serve (hd : (d.scheduler.desk [] []).Orderly) (r : Request) :
    Logs (d.serveLog applier r) d.scheduler.queue (serve applier d r).scheduler.queue := by
  have hrun : Desk.Moves (fun _ => True) (d.scheduler.desk [] []) _ :=
    moves_run (applier.apply { r with state := .processing } d.state) d.scheduler []
  have hs := hrun.orderly hd
  unfold serveLog answer serve
  cases hanswer : (applier.apply { r with state := .processing } d.state).run d.scheduler.inbox with
  | mk result rest =>
    obtain ⟨state, inbox⟩ := rest
    rw [hanswer] at hs
    cases result with
    | error e => exact .nil _
    | ok outcome =>
      have hcascade := logs_cascade (s := { d.scheduler with inbox }) hs r outcome
      dsimp only
      cases outcome.bounds with
      | none => exact hcascade
      | some c =>
        obtain ⟨bounds, inbox', heq⟩ := exists_inbox_contribute applier
          ⟨{ d.scheduler with inbox }.cascade r outcome, state, d.report⟩ c
        dsimp only
        rw [heq]
        exact hcascade

theorem returned_of_pop_none {queue : Queue} (n : Nat)
    (hpop : d.scheduler.readInbox.queue.pop = (none, queue)) :
    returned applier (n + 1) d = d.popped queue ∧
      log applier (n + 1) d = d.scheduler.readInboxLog ++ [.pop] := by
  simp only [returned, log, hpop, popped, and_self]

theorem returned_of_pop_some {queue : Queue} {r : Request} (n : Nat)
    (hpop : d.scheduler.readInbox.queue.pop = (some r, queue)) :
    returned applier (n + 1) d = returned applier n (serve applier (d.popped queue) r) ∧
    log applier (n + 1) d = d.scheduler.readInboxLog ++ .pop :: ((d.popped queue).serveLog applier r
      ++ log applier n (serve applier (d.popped queue) r)) := by
  simp only [returned, log, hpop, popped, and_self]

theorem inUse_readInbox (hs : s.InUse) : s.readInbox.InUse := by
  obtain ⟨done, haccounted⟩ := hs.accounted
  have hmoves : Desk.Moves (fun _ => True) (s.desk [] done) (s.readInbox.desk [] done) :=
    moves_readInbox haccounted.orderly fun _ _ _ => trivial
  exact ⟨(readInbox_spec hs.sound).1, done, hmoves.accounted haccounted⟩

theorem inUse_popped_none (hd : d.scheduler.InUse) {queue : Queue}
    (hpop : d.scheduler.readInbox.queue.pop = (none, queue)) :
    (d.popped queue).scheduler.InUse := by
  have hread := inUse_readInbox hd
  obtain ⟨done, haccounted⟩ := hread.accounted
  have hmoves : Desk.Moves (fun _ => True) (d.scheduler.readInbox.desk [] done) _ :=
    .single (.sweep hpop)
  exact ⟨(keeps_pop_none hread.sound hpop).sound, done, hmoves.accounted haccounted⟩

theorem inUse_served (hd : d.scheduler.InUse) {r : Request} {queue : Queue}
    (hpop : d.scheduler.readInbox.queue.pop = (some r, queue)) :
    (serve applier (d.popped queue) r).scheduler.InUse := by
  obtain ⟨done, haccounted⟩ := hd.accounted
  obtain ⟨hmoves, -⟩ := moves_served applier haccounted (fun _ _ _ => trivial) hpop
  obtain ⟨hsound, -⟩ := pop_spec (readInbox_spec hd.sound).1 hpop
  exact ⟨(waits_serve applier (d := d.popped queue) hsound r).1.sound, _,
    hmoves.accounted haccounted⟩

/-- The log of a drain leads to the queue at the return of each application. -/
theorem logs_returned (hd : d.scheduler.InUse) (n : Nat) :
    (returned applier n d).scheduler.InUse ∧
      Logs (log applier n d) d.scheduler.queue (returned applier n d).scheduler.queue := by
  induction n generalizing d with
  | zero => exact ⟨hd, .nil _⟩
  | succ n ih =>
    have hread := logs_readInbox hd.orderly
    have hread' := inUse_readInbox hd
    have hpopped : Logs [.pop] d.scheduler.readInbox.queue d.scheduler.readInbox.queue.pop.2 :=
      .single .pop (by simp [Queue.Op.number?])
    cases hpop : d.scheduler.readInbox.queue.pop with
    | mk request queue =>
      rw [hpop] at hpopped
      cases request with
      | none =>
        obtain ⟨hreturned, hlog⟩ := returned_of_pop_none applier n hpop
        rw [hreturned, hlog]
        exact ⟨inUse_popped_none hd hpop, hread.append hpopped⟩
      | some r =>
        obtain ⟨hreturned, hlog⟩ := returned_of_pop_some applier n hpop
        have hserve := logs_serve applier (d := d.popped queue) (hread'.orderly.pop hpop) r
        obtain ⟨hinUse, hrest⟩ := ih (inUse_served applier hd hpop)
        rw [hreturned, hlog]
        exact ⟨hinUse, hread.append (hpopped.append (hserve.append hrest))⟩

/-- A drain serves its requests and reads what the last one submitted. -/
theorem scheduler_serveAll (hd : d.scheduler.InUse) (n : Nat) :
    (serveAll applier n d).scheduler = (returned applier n d).scheduler.readInbox := by
  induction n generalizing d with
  | zero => rfl
  | succ n ih =>
    cases hpop : d.scheduler.readInbox.queue.pop with
    | mk request queue =>
      cases request with
      | none =>
        rw [(serveAll_of_pop_none applier n hpop).1, (returned_of_pop_none applier n hpop).1]
        exact (readInbox_eq (s := (d.popped queue).scheduler) (readInbox_spec hd.sound).2.2.1).symm
      | some r =>
        rw [(serveAll_of_pop_some applier n hpop).1, (returned_of_pop_some applier n hpop).1]
        exact ih (inUse_served applier hd hpop)

/-- The first request that a drain serves. -/
theorem services_eq_cons {limit : Nat} {x : Service} {xs : List Service}
    (h : services applier limit d = x :: xs) :
    ∃ limit' queue, d.scheduler.readInbox.queue.pop = (some x.request, queue) ∧
      x = ⟨d.scheduler.readInbox.graph, x.request, ((d.popped queue).answer applier x.request).1⟩ ∧
      xs = services applier limit' (serve applier (d.popped queue) x.request) := by
  cases limit with
  | zero => cases h
  | succ limit =>
    cases hpop : d.scheduler.readInbox.queue.pop with
    | mk request queue =>
      cases request with
      | none =>
        rw [(serveAll_of_pop_none applier limit hpop).2] at h
        cases h
      | some r =>
        rw [(serveAll_of_pop_some applier limit hpop).2] at h
        cases h
        exact ⟨limit, queue, rfl, rfl, rfl⟩

/-- What a drain serves after `before` is popped once these have been served and all that was
submitted has been read. -/
theorem pop_returned {limit : Nat} {before after : List Service} {x : Service}
    (h : services applier limit d = before ++ x :: after) :
    ∃ queue, let e := returned applier before.length d
      e.scheduler.readInbox.queue.pop = (some x.request, queue) ∧
      x = ⟨e.scheduler.readInbox.graph, x.request, ((e.popped queue).answer applier x.request).1⟩ ∧
      returned applier (before.length + 1) d = serve applier (e.popped queue) x.request := by
  induction before generalizing d limit with
  | nil =>
    obtain ⟨-, queue, hpop, hx, -⟩ := services_eq_cons applier h
    exact ⟨queue, hpop, hx, (returned_of_pop_some applier 0 hpop).1⟩
  | cons y before ih =>
    obtain ⟨limit', queue, hpop, -, hrest⟩ := services_eq_cons applier h
    obtain ⟨queue', hpop', hx, hnext⟩ := ih hrest.symm
    have hfirst := fun n => (returned_of_pop_some applier n hpop).1
    refine ⟨queue', ?_⟩
    rw [List.length_cons, hfirst, hfirst]
    exact ⟨hpop', hx, hnext⟩

/-- What a request affected makes its consumers wait when its application returns. -/
theorem waits_returned (hd : d.scheduler.InUse) {limit : Nat} {before after : List Service}
    {x : Service} (h : services applier limit d = before ++ x :: after) (hok : x.result.isOk) :
    ∀ p ∈ x.request.affected,
      ∀ t ∈ (returned applier (before.length + 1) d).scheduler.graph.consumersOf p,
        (returned applier (before.length + 1) d).scheduler.Waits t := by
  obtain ⟨queue, hpop, hx, hnext⟩ := pop_returned applier h
  have hread := Keeps.readInbox (logs_returned applier hd before.length).1.sound
  obtain ⟨hserved, hconsumers⟩ := waits_serve applier
    (d := (returned applier before.length d).popped queue) (pop_spec hread.sound hpop).1 x.request
  rw [hnext, hserved.graph]
  rw [hx] at hok
  exact hconsumers hok

end Drain

/-! ## Histories -/

theorem logs_apply (op : Op) (hs : s.InUse) : Logs (op.log s) s.queue (op.apply s).queue := by
  cases op with
  | add p c edge =>
    simp only [Op.log, Op.apply]
    cases s.graph.add p c edge <;> exact .nil _
  | removeConsumer => exact .nil _
  | removeObject => exact .nil _
  | replaceProducers => exact .nil _
  | submit => exact .nil _
  | propagate change =>
    simp only [Op.log, Op.apply, afterChange, propagate]
    rcases s.inbox.accept_eq change with ⟨e, he⟩ | ⟨target, hkind, -, hok⟩
    · rw [he]
      exact .nil _
    · rw [hok]
      exact logs_schedule (s := s.accepted) (hs.orderly.accept rfl hkind (.refl _))
  | drain applier state =>
    obtain ⟨hinUse, hlogs⟩ := Drain.logs_returned applier (d := ⟨s, state, {}⟩) hs
      s.settings.maxServed
    have hqueue : ((Op.drain applier state).apply s).queue = (Drain.returned applier
        s.settings.maxServed ⟨s, state, {}⟩).scheduler.readInbox.queue := by
      rw [← Drain.scheduler_serveAll applier (d := ⟨s, state, {}⟩) hs]
      exact Drain.queue_flushAll applier _
    rw [hqueue]
    exact hlogs.append (logs_readInbox hinUse.orderly)

theorem logs_history (ops : List Op) (hs : s.InUse) :
    (history ops s).2.InUse ∧ Logs (log ops s) s.queue (history ops s).2.queue := by
  induction ops generalizing s with
  | nil => exact ⟨hs, .nil _⟩
  | cons op ops ih =>
    obtain ⟨hinUse, hrest⟩ := ih (op.inUse_apply hs)
    exact ⟨hinUse, (logs_apply op hs).append hrest⟩

/-- Once submissions are scheduled, all that follows from any of them waits. -/
theorem waits_foldl_schedule (hs : Numbered s.queue rest s.inbox.nextId) {c : Submission}
    (hc : c ∈ rest) {t : Entity}
    (ht : t = c.target ∨ t ∈ s.graph.downstream c.request.affected) :
    (rest.foldl schedule s).Waits t := by
  induction rest generalizing s with
  | nil => cases hc
  | cons d rest ih =>
    obtain ⟨queue, next, superseded, heq, hnumbered, hwaits, -⟩ := schedule_spec hs
    rw [List.foldl_cons, heq]
    rcases List.mem_cons.1 hc with rfl | hc
    · obtain ⟨queue', next', superseded', heq', -, hlater⟩ := foldl_schedule
        (s := { s with queue, superseded, inbox := { s.inbox with nextId := next } }) hnumbered
      rw [heq']
      exact hlater t ((hwaits t).2 (ht.imp Eq.symm .inl))
    · exact ih hnumbered hc ht

/-- Whatever operations made a scheduler, and whatever an applier submits while it applies: what a
drain serves next is the first of all that waits. This counts all that was submitted before the last
application returned, with what follows from it, and the consumers of what was applied. A ledger of
the whole history up to then lists the same requests, each with a stamp that says when it came to
the band it is in: no request is more urgent than the one that is served, and none of the same
priority came earlier. -/
theorem most_urgent_served_first (settings : PropagationSettings) (ops : List Op) {τ : Type}
    (applier : Applier τ) (state : τ) :
    let s := (history ops { settings }).2
    let d : Drain τ := ⟨s, state, {}⟩
    ∀ before x after, s.services applier state = before ++ x :: after →
      let e := (d.returned applier before.length).scheduler
      let w := e.readInbox
      let log := log ops { settings } ++ d.log applier before.length ++ e.readInboxLog
      let l := (Queue.Op.run Queue.Op.onLedger log {}).2
      (w.inbox.unread = [] ∧ ∀ c ∈ e.inbox.unread, ∀ t,
        t = c.target ∨ t ∈ w.graph.downstream c.request.affected → w.Waits t) ∧
      (∀ y, before.getLast? = some y → y.result.isOk →
        ∀ p ∈ y.request.affected, ∀ t ∈ w.graph.consumersOf p, w.Waits t) ∧
      (Queue.Op.run Queue.Op.onQueue log {}).2 = w.queue ∧
      (∀ t, w.queue.pendingFor? t = l.pendingFor? t) ∧
      (l.entries.map Queue.Entry.target).Nodup ∧ (l.entries.map Queue.Entry.stamp).Nodup ∧
      w.queue.pop.1 = some x.request ∧
      ∃ entry ∈ l.entries, entry.request = x.request ∧ ∀ other ∈ l.entries, entry.Before other := by
  intro s d before x after hservices e w log l
  obtain ⟨hs, hhistory⟩ := logs_history ops (.new settings)
  obtain ⟨he, hdrain⟩ := Drain.logs_returned applier (d := d) hs before.length
  obtain ⟨queue, hpop, -⟩ := Drain.pop_returned applier (d := d) hservices
  have hlog : Logs log {} w.queue := (hhistory.append hdrain).append (logs_readInbox he.orderly)
  have hrecords : Records w.queue l := hlog.ledger {} .empty
  have hread := Keeps.readInbox he.sound
  refine ⟨⟨(readInbox_spec he.sound).2.2.1, fun c hc t ht => ?_⟩, fun y hy hok p hp t ht => ?_,
    hlog.queue, hrecords.waits, hrecords.nodup, hrecords.order.nodup_stamps,
    congrArg Prod.fst hpop, Queue.Ledger.exists_of_pop (hrecords.pop_some hpop).1⟩
  · rw [hread.graph] at ht
    exact waits_foldl_schedule (s := { e with inbox := { e.inbox with unread := [] } })
      he.sound.numbered hc ht
  · obtain ⟨before', rfl⟩ := List.getLast?_eq_some_iff.1 hy
    rw [List.append_assoc] at hservices
    rw [hread.graph] at ht
    have hwaits := Drain.waits_returned applier (d := d) hs hservices hok p hp t
    rw [show before'.length + 1 = (before' ++ [y]).length by simp] at hwaits
    exact hread.waits t (hwaits ht)

/-- An urgent change that is submitted while a request is applied, and what follows from it, is
served before requests that waited already. -/
theorem urgent_submission_served_first :
    let edge (p c : ObjectId) : Op := .add ⟨p, "v"⟩ ⟨c, "v"⟩ ⟨.reference, none⟩
    let change (object : ObjectId) (priority : Priority) : Change :=
      { object, kind := .property, payload := .property "v" none, priority }
    let ops : List Op := [edge "c" "d", .propagate (change "a" .normal),
      .propagate (change "b" .normal), .submit (change "b" .low)]
    let applier : Applier Unit := {
      apply r _ :=
        if r.target.object = "a" then
          .submit (change "c" .immediate) fun _ => .done (.ok {}) ()
        else .done (.ok {}) ()
      applyBounds _ _ _ := (.ok (), ()) }
    let s := (history ops {}).2
    ∃ a c d b : Service, s.services applier () = [a] ++ c :: [d, b] ∧
      [a, c, d, b].map (fun x => (x.request.target.object, x.request.priority)) =
        [("a", .normal), ("c", .immediate), ("d", .immediate), ("b", .low)] ∧
      ∃ l : Queue.Ledger, l.entries.map (fun x => (x.target.object, x.stamp)) =
        [("b", 2), ("c", 3), ("d", 4)] ∧
        ∃ entry ∈ l.entries, entry.request = c.request ∧
          ∀ other ∈ l.entries, entry.Before other := by
  intro edge change ops applier s
  have hserved : (s.services applier ()).map
      (fun x => (x.request.target.object, x.request.priority)) =
        [("a", .normal), ("c", .immediate), ("d", .immediate), ("b", .low)] := by decide +kernel
  obtain ⟨a, xs, hxs, ha, hrest⟩ := List.map_eq_cons_iff.1 hserved
  obtain ⟨c, ys, rfl, hc, hrest⟩ := List.map_eq_cons_iff.1 hrest
  obtain ⟨d, zs, rfl, hd, hrest⟩ := List.map_eq_cons_iff.1 hrest
  obtain ⟨b, rest, rfl, hb, hrest⟩ := List.map_eq_cons_iff.1 hrest
  obtain rfl := List.map_eq_nil_iff.1 hrest
  have hfirst := most_urgent_served_first {} ops applier () [a] c [d, b] hxs
  refine ⟨a, c, d, b, hxs, hxs ▸ hserved, _, ?_, hfirst.2.2.2.2.2.2.2⟩
  rw [List.length_singleton]
  decide +kernel

end Scheduler

end Parametric
