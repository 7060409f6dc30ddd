import Parametric.Proofs.Update.Draining

/-!
# Drains in pieces

A drain stops at its limit and leaves the rest of its work to the next one. In between, containers
are recalculated and reports are cut, and the state of the applier may change in ways that the
applier does not regard (`Applier.Regards`). So drains one after another serve what one drain serves
that goes on (`Drain.services_add`), and come as far (`Drain.Level`, `Drain.level_drain`).
-/

namespace Parametric

/-- An applier submits nothing, does the same in states that are alike, and leaves a state alike
when it recalculates a container. -/
structure Applier.Regards {τ : Type} (applier : Applier τ) (alike : τ → τ → Prop) : Prop where
  reserved : applier.Reserved
  symm : ∀ {t t' : τ}, alike t t' → alike t' t
  trans : ∀ {t t' t'' : τ}, alike t t' → alike t' t'' → alike t t''
  apply : ∀ {t t' : τ}, alike t t' → ∀ (r : Request) (inbox : Inbox),
    ((applier.apply r t').run inbox).1 = ((applier.apply r t).run inbox).1 ∧
      alike ((applier.apply r t).run inbox).2.1 ((applier.apply r t').run inbox).2.1
  bounds : ∀ {t t' : τ}, alike t t' → ∀ (parent : ObjectId) (children : ChildBounds),
    alike (applier.applyBounds parent children t).2 t'

/-- Popping from a queue with nothing to serve changes it only once. -/
theorem Queue.pop_of_pop_none {q q' : Queue} (hpop : q.pop = (none, q')) : q'.pop = (none, q') := by
  have hempty : ∀ p, q'.bands.get p = [] := fun p => by
    rw [popBands_none hpop, if_pos (by cases p <;> decide)]
  have hsame : ∀ p, q'.popBand p (q'.bands.get p) = (none, q') := fun p => by
    have hset : q'.bands.set p [] = q'.bands := by
      have hp := hempty p
      cases p <;> simp only [Bands.get] at hp <;> simp only [Bands.set, ← hp]
    rw [hempty, popBand, hset]
  have hall : ∀ ps, q'.popBands ps = (none, q') := fun ps => by
    induction ps with
    | nil => rfl
    | cons p ps ih =>
      rw [popBands, hsame]
      exact ih
  exact hall _

/-- Nothing is popped from a queue without requests. -/
theorem Queue.pop_of_size_eq_zero {q : Queue} (hsize : q.size = 0) : ∃ q', q.pop = (none, q') := by
  rcases popBands_spec q Priority.all with ⟨hnone, -⟩ | ⟨id, r, -, hr, -⟩
  · exact ⟨_, Prod.ext hnone rfl⟩
  · have hempty : q.requests = ∅ := Std.ExtTreeMap.eq_empty_iff_size_eq_zero.2 hsize
    simp [hempty] at hr

namespace Scheduler

/-! ## What a cascade does not read -/

section

variable (s : Scheduler) (settings : PropagationSettings) (bounds : PendingBounds)
  (superseded : List RequestId) (unread : List Submission)

/-- A scheduler where all is set otherwise but the edges, the queue and the next number. -/
def reset : Scheduler :=
  { s with settings, bounds, superseded, inbox := { s.inbox with unread } }

theorem enqueueRecompute_reset (trigger : Entity) (value : Option Value) (priority : Priority)
    (root : RequestId) (consumer : Entity) :
    (s.reset settings bounds superseded unread).enqueueRecompute trigger value priority root
        consumer =
      (s.enqueueRecompute trigger value priority root consumer).reset settings bounds superseded
        unread := by
  unfold enqueueRecompute
  dsimp only
  rw [show (s.reset settings bounds superseded unread).queue = s.queue from rfl]
  cases s.queue.merge consumer priority (.recompute consumer.property trigger value) with
  | mk merged queue => cases merged <;> rfl

theorem cascade_reset (r : Request) (o : Outcome) :
    (s.reset settings bounds superseded unread).cascade r o =
      (s.cascade r o).reset settings bounds superseded unread :=
  List.foldl_hom (fun s : Scheduler => s.reset settings bounds superseded unread) fun _ producer =>
    List.foldl_hom (fun s : Scheduler => s.reset settings bounds superseded unread) fun s c =>
      s.enqueueRecompute_reset settings bounds superseded unread producer o.value r.priority r.root
        c

/-- A cascade changes the queue and the next number only. -/
theorem cascade_eq (r : Request) (o : Outcome) :
    s.cascade r o = (s.cascade r o).reset s.settings s.bounds s.superseded s.inbox.unread :=
  s.cascade_reset s.settings s.bounds s.superseded s.inbox.unread r o

end

namespace Drain

variable {τ : Type} {applier : Applier τ} {alike : τ → τ → Prop} {d d' d'' : Drain τ}

/-- Two drains that have nothing to read are as far: the same waits, with the same edges, and their
states are alike. -/
structure Level (alike : τ → τ → Prop) (d d' : Drain τ) : Prop where
  unread : d.scheduler.inbox.unread = []
  graph : d'.scheduler.graph = d.scheduler.graph
  queue : d'.scheduler.queue = d.scheduler.queue
  inbox : d'.scheduler.inbox = d.scheduler.inbox
  state : alike d.state d'.state

namespace Level

theorem symm (h : Level alike d d') (hregards : applier.Regards alike) : Level alike d' d :=
  ⟨h.inbox ▸ h.unread, h.graph.symm, h.queue.symm, h.inbox.symm, hregards.symm h.state⟩

theorem trans (h : Level alike d d') (h' : Level alike d' d'') (hregards : applier.Regards alike) :
    Level alike d d'' :=
  ⟨h.unread, h'.graph.trans h.graph, h'.queue.trans h.queue, h'.inbox.trans h.inbox,
    hregards.trans h.state h'.state⟩

/-- The queue of one is the queue of the other. -/
theorem popped (h : Level alike d d') (queue : Queue) :
    Level alike (d.popped queue) (d'.popped queue) := by
  unfold Drain.popped
  rw [readInbox_eq h.unread, readInbox_eq (h.inbox ▸ h.unread)]
  exact ⟨h.unread, h.graph, rfl, h.inbox, h.state⟩

variable (hregards : applier.Regards alike)
include hregards

theorem flush (h : Level alike d d') (parent : ObjectId) (children : ChildBounds) :
    Level alike (d.flush applier parent children) d' := by
  have hscheduler := scheduler_flush hregards.reserved d parent children
  have hstate : (d.flush applier parent children).state =
      (applier.applyBounds parent children d.state).2 := by
    unfold Drain.flush
    cases applier.applyBounds parent children d.state with
    | mk result state => cases result <;> rfl
  exact ⟨hscheduler ▸ h.unread, hscheduler ▸ h.graph, hscheduler ▸ h.queue, hscheduler ▸ h.inbox,
    hstate ▸ hregards.bounds h.state parent children⟩

theorem contribute (h : Level alike d d') (c : Contribution) :
    Level alike (d.contribute applier c) d' := by
  unfold Drain.contribute
  split
  · exact ⟨h.unread, h.graph, h.queue, h.inbox, h.state⟩
  · exact h.flush hregards _ _

theorem flushAll (h : Level alike d d') : Level alike (d.flushAll applier) d' := by
  unfold Drain.flushAll
  dsimp only
  generalize d.scheduler.bounds.parents.toList = parents
  have hstart : Level alike { d with scheduler := { d.scheduler with bounds := {} } } d' :=
    ⟨h.unread, h.graph, h.queue, h.inbox, h.state⟩
  generalize { d with scheduler := { d.scheduler with bounds := {} } } = d at hstart ⊢
  induction parents generalizing d with
  | nil => exact hstart
  | cons parent parents ih => exact ih _ (hstart.flush hregards _ _)

/-- Serving the same request keeps two drains level. -/
theorem serve (h : Level alike d d') (r : Request) :
    (d'.answer applier r).1 = (d.answer applier r).1 ∧
      Level alike (serve applier d r) (serve applier d' r) := by
  obtain ⟨hresult, hstate⟩ := hregards.apply h.state { r with state := .processing }
    d.scheduler.inbox
  have hinbox := hregards.reserved.apply { r with state := .processing } d.state d.scheduler.inbox
  have hinbox' := hregards.reserved.apply { r with state := .processing } d'.state
    d.scheduler.inbox
  unfold answer Drain.serve
  rw [h.inbox]
  generalize (applier.apply { r with state := .processing } d.state).run d.scheduler.inbox = answer
    at hresult hstate hinbox ⊢
  generalize (applier.apply { r with state := .processing } d'.state).run d.scheduler.inbox =
    answer' at hresult hstate hinbox' ⊢
  obtain ⟨result, state, inbox⟩ := answer
  obtain ⟨result', state', inbox'⟩ := answer'
  dsimp only at hresult hstate hinbox hinbox' ⊢
  subst hresult hinbox hinbox'
  refine ⟨rfl, ?_⟩
  cases result' with
  | error e => exact ⟨h.unread, h.graph, h.queue, rfl, hstate⟩
  | ok o =>
    have hunread : (d.scheduler.cascade r o).inbox.unread = d.scheduler.inbox.unread :=
      congrArg (·.inbox.unread) (d.scheduler.cascade_eq r o)
    have hreset : ({ d'.scheduler with inbox := d.scheduler.inbox } : Scheduler) =
        d.scheduler.reset d'.scheduler.settings d'.scheduler.bounds d'.scheduler.superseded
          d.scheduler.inbox.unread := by
      unfold reset
      rw [← h.graph, ← h.queue]
    dsimp only
    rw [hreset, cascade_reset, ← hunread]
    have hcascaded : Level alike ⟨d.scheduler.cascade r o, state, d.report⟩
        ⟨(d.scheduler.cascade r o).reset d'.scheduler.settings d'.scheduler.bounds
          d'.scheduler.superseded (d.scheduler.cascade r o).inbox.unread, state', d'.report⟩ :=
      ⟨hunread.trans h.unread, rfl, rfl, rfl, hstate⟩
    cases o.bounds with
    | none =>
      exact ⟨hcascaded.unread, hcascaded.graph, hcascaded.queue, hcascaded.inbox, hcascaded.state⟩
    | some c =>
      have hboth := (((hcascaded.contribute hregards c).symm hregards).contribute hregards c).symm
        hregards
      exact ⟨hboth.unread, hboth.graph, hboth.queue, hboth.inbox, hboth.state⟩

/-- Two drains that are level serve the same, and stay level. -/
theorem serveAll (h : Level alike d d') (limit : Nat) :
    services applier limit d' = services applier limit d ∧
      Level alike (serveAll applier limit d) (serveAll applier limit d') := by
  induction limit generalizing d d' with
  | zero =>
    unfold Drain.serveAll
    rw [readInbox_eq h.unread, readInbox_eq (h.inbox ▸ h.unread)]
    exact ⟨rfl, h⟩
  | succ limit ih =>
    have hqueue : d'.scheduler.readInbox.queue = d.scheduler.readInbox.queue := by
      rw [readInbox_eq h.unread, readInbox_eq (h.inbox ▸ h.unread), h.queue]
    have hgraph : d'.scheduler.readInbox.graph = d.scheduler.readInbox.graph := by
      rw [readInbox_eq h.unread, readInbox_eq (h.inbox ▸ h.unread), h.graph]
    cases hpop : d.scheduler.readInbox.queue.pop with
    | mk request queue =>
      have hpop' := hpop
      rw [← hqueue] at hpop'
      cases request with
      | none =>
        obtain ⟨hall, hservices⟩ := serveAll_of_pop_none applier limit hpop
        obtain ⟨hall', hservices'⟩ := serveAll_of_pop_none applier limit hpop'
        rw [hall, hall', hservices, hservices']
        exact ⟨rfl, h.popped queue⟩
      | some r =>
        obtain ⟨hall, hservices⟩ := serveAll_of_pop_some applier limit hpop
        obtain ⟨hall', hservices'⟩ := serveAll_of_pop_some applier limit hpop'
        obtain ⟨hanswer, hserved⟩ := (h.popped queue).serve hregards r
        obtain ⟨hlater, hlevel⟩ := ih hserved
        rw [hall, hall', hservices, hservices', hanswer, hlater, hgraph]
        exact ⟨rfl, hlevel⟩

end Level

/-! ## One drain and two -/

/-- Where no request waits nothing is served. -/
theorem serveAll_of_size_eq_zero (hunread : d.scheduler.inbox.unread = [])
    (hsize : d.scheduler.queue.size = 0) (limit : Nat) :
    services applier limit d = [] ∧ (serveAll applier limit d).state = d.state := by
  cases limit with
  | zero => exact ⟨rfl, rfl⟩
  | succ limit =>
    obtain ⟨queue, hpop⟩ := Queue.pop_of_size_eq_zero hsize
    rw [← readInbox_eq hunread] at hpop
    obtain ⟨hall, hservices⟩ := serveAll_of_pop_none applier limit hpop
    rw [hall, hservices]
    exact ⟨rfl, rfl⟩

section

variable (hreserved : applier.Reserved)
include hreserved

/-- What serving a request leaves: nothing to read, and the same withdrawn requests. -/
theorem unread_serve (d : Drain τ) (r : Request) :
    (serve applier d r).scheduler.inbox.unread = d.scheduler.inbox.unread ∧
      (serve applier d r).scheduler.superseded = d.scheduler.superseded := by
  rcases scheduler_serve hreserved d r with ⟨-, heq⟩ | ⟨o, bounds, heq⟩
  · rw [heq]
    exact ⟨rfl, rfl⟩
  · rw [heq]
    exact ⟨congrArg (·.inbox.unread) (d.scheduler.cascade_eq r o),
      congrArg (·.superseded) (d.scheduler.cascade_eq r o)⟩

theorem unread_serveAll (limit : Nat) (hunread : d.scheduler.inbox.unread = []) :
    (serveAll applier limit d).scheduler.inbox.unread = [] ∧
      (serveAll applier limit d).scheduler.superseded = d.scheduler.superseded := by
  induction limit generalizing d with
  | zero =>
    unfold serveAll
    rw [readInbox_eq hunread]
    exact ⟨hunread, rfl⟩
  | succ limit ih =>
    have hpopped : ∀ queue, (d.popped queue).scheduler.inbox.unread = [] ∧
        (d.popped queue).scheduler.superseded = d.scheduler.superseded := fun queue => by
      unfold popped
      rw [readInbox_eq hunread]
      exact ⟨hunread, rfl⟩
    cases hpop : d.scheduler.readInbox.queue.pop with
    | mk request queue =>
      cases request with
      | none =>
        rw [(serveAll_of_pop_none applier limit hpop).1]
        exact hpopped queue
      | some r =>
        rw [(serveAll_of_pop_some applier limit hpop).1]
        obtain ⟨hunread', hsuperseded⟩ := unread_serve hreserved (d.popped queue) r
        obtain ⟨hall, hsame⟩ := ih (hunread'.trans (hpopped queue).1)
        exact ⟨hall, hsame.trans (hsuperseded.trans (hpopped queue).2)⟩

/-- Serving up to one limit and then up to another is serving up to their sum. -/
theorem serveAll_add (m n : Nat) (hunread : d.scheduler.inbox.unread = []) :
    services applier (m + n) d = services applier m d ++
        services applier n (serveAll applier m d) ∧
      serveAll applier (m + n) d = serveAll applier n (serveAll applier m d) := by
  induction m generalizing d with
  | zero =>
    have hzero : serveAll applier 0 d = d := by
      unfold serveAll
      rw [readInbox_eq hunread]
    rw [Nat.zero_add, hzero]
    exact ⟨rfl, rfl⟩
  | succ m ih =>
    have hread := readInbox_eq hunread
    rw [Nat.add_right_comm]
    cases hpop : d.scheduler.readInbox.queue.pop with
    | mk request queue =>
      cases request with
      | none =>
        obtain ⟨hall, hservices⟩ := serveAll_of_pop_none applier (m + n) hpop
        obtain ⟨hall', hservices'⟩ := serveAll_of_pop_none applier m hpop
        rw [hall, hservices, hall', hservices']
        -- The rest of the work is none.
        have hunread' : (d.popped queue).scheduler.inbox.unread = [] := by
          unfold popped
          rw [hread]
          exact hunread
        cases n with
        | zero =>
          unfold services serveAll
          rw [readInbox_eq hunread']
          exact ⟨rfl, rfl⟩
        | succ n =>
          have hagain : (d.popped queue).scheduler.readInbox.queue.pop = (none, queue) := by
            rw [readInbox_eq hunread']
            exact Queue.pop_of_pop_none hpop
          obtain ⟨hrest, hnone⟩ := serveAll_of_pop_none applier n hagain
          rw [hrest, hnone]
          refine ⟨rfl, ?_⟩
          unfold popped
          rw [hread, readInbox_eq (s := { d.scheduler with queue }) hunread]
      | some r =>
        obtain ⟨hall, hservices⟩ := serveAll_of_pop_some applier (m + n) hpop
        obtain ⟨hall', hservices'⟩ := serveAll_of_pop_some applier m hpop
        have hunread' : (serve applier (d.popped queue) r).scheduler.inbox.unread = [] := by
          rw [(unread_serve hreserved _ r).1]
          unfold popped
          rw [hread]
          exact hunread
        obtain ⟨hlater, hrest⟩ := ih hunread'
        rw [hall, hall', hservices, hservices', hlater, hrest, List.cons_append]
        exact ⟨rfl, rfl⟩

/-- Two limits that both suffice come to the same. -/
theorem serveAll_of_suffices {m n : Nat} (hunread : d.scheduler.inbox.unread = [])
    (hm : (serveAll applier m d).scheduler.queue.size = 0)
    (hn : (serveAll applier n d).scheduler.queue.size = 0) :
    services applier m d = services applier n d ∧
      (serveAll applier m d).state = (serveAll applier n d).state := by
  have hlonger : ∀ {m : Nat} (n : Nat), (serveAll applier m d).scheduler.queue.size = 0 →
      services applier (m + n) d = services applier m d ∧
        (serveAll applier (m + n) d).state = (serveAll applier m d).state := by
    intro m n hm
    obtain ⟨hservices, hall⟩ := serveAll_add hreserved m n hunread
    obtain ⟨hnone, hstate⟩ :=
      serveAll_of_size_eq_zero (unread_serveAll hreserved m hunread).1 hm n
    rw [hservices, hnone, List.append_nil, hall]
    exact ⟨rfl, hstate⟩
  obtain ⟨hservices, hstate⟩ := hlonger n hm
  obtain ⟨hservices', hstate'⟩ := hlonger m hn
  rw [Nat.add_comm n m] at hservices' hstate'
  exact ⟨hservices.symm.trans hservices', hstate.symm.trans hstate'⟩

end

/-- A drain reports what is served up to its limit, and is then level with what was served. -/
theorem level_drain (hregards : applier.Regards alike) {s : Scheduler} (hs : s.Sound) {state : τ}
    (h : Level alike ⟨s.readInbox, state, {}⟩ d) :
    let done := s.drain applier state
    done.1.applied = (services applier s.settings.maxServed d).filterMap Service.applied? ∧
      done.1.failed = (services applier s.settings.maxServed d).filterMap Service.failure? ∧
      done.1.superseded = s.readInbox.superseded ∧ done.2.1.superseded = [] ∧
      Level alike ⟨done.2.1, done.2.2, {}⟩ (serveAll applier s.settings.maxServed d) := by
  intro done
  obtain ⟨hsound, -, hunread, -⟩ := readInbox_spec hs
  have hdone : done = s.readInbox.drain applier state := (drain_readInbox hs applier state).symm
  obtain ⟨happlied, hfailed⟩ := report_drain applier state hsound
  obtain ⟨hservices, hserved⟩ := h.serveAll hregards s.settings.maxServed
  rw [Scheduler.services, s.settings_readInbox.1, ← hservices, ← hdone] at happlied hfailed
  obtain ⟨-, hsuperseded⟩ := unread_serveAll hregards.reserved (d := ⟨s.readInbox, state, {}⟩)
    s.settings.maxServed hunread
  have hflushed := hserved.flushAll hregards
  have hscheduler := scheduler_flushAll hregards.reserved
    (serveAll applier s.settings.maxServed ⟨s.readInbox, state, {}⟩)
  refine ⟨happlied, hfailed, ?_, rfl, ?_⟩
  · rw [hdone, ← hsuperseded]
    unfold Scheduler.drain finish
    rw [s.settings_readInbox.1, hscheduler]
  · rw [hdone]
    unfold Scheduler.drain finish
    rw [s.settings_readInbox.1]
    exact ⟨hflushed.unread, hflushed.graph, hflushed.queue, hflushed.inbox, hflushed.state⟩

end Drain

/-! ## Withdrawn requests -/

/-- Requests are withdrawn only while others wait. -/
theorem Op.superseded_apply (op : Op) {s : Scheduler} (hs : s.Sound)
    (h : s.isIdle → s.superseded = []) : (op.apply s).isIdle → (op.apply s).superseded = [] := by
  intro hidle
  cases op with
  | add p c edge =>
    rcases Graph.add_eq s.graph p c edge with hadd | ⟨g, hadd⟩ <;>
      simp only [apply, hadd] at hidle ⊢ <;> exact h hidle
  | removeConsumer c => exact h hidle
  | removeObject object => exact h hidle
  | replaceProducers c edges => exact h hidle
  | propagate change =>
    rcases s.afterChange_eq change with hrefused | ⟨target, -, -, htaken⟩
    · simp only [apply, hrefused] at hidle ⊢
      exact h hidle
    · -- The change that was taken waits.
      obtain ⟨queue, next, superseded, heq, -, hwaits, -⟩ := schedule_spec (s := s.accepted)
        (hs.numbered.cons target change.kind change.payload change.priority)
      simp only [apply, htaken] at hidle
      have hnone := not_waits_of_isIdle hidle target
      rw [heq] at hnone
      exact absurd ((hwaits target).2 (.inl rfl)) hnone
  | submit change =>
    have hunread := unread_of_isIdle hidle
    rcases s.inbox.accept_eq change with ⟨e, he⟩ | ⟨target, -, -, hok⟩
    · simp only [apply, Scheduler.submit, Inbox.submit, he] at hidle ⊢
      exact h hidle
    · simp [apply, Scheduler.submit, Inbox.submit, hok] at hunread
  | drain applier state => rfl

theorem Reaches.superseded {ok : Op → Prop} {settings : PropagationSettings} {s : Scheduler}
    (h : Reaches ok { settings } s) (hidle : s.isIdle) : s.superseded = [] :=
  (h.keeps (K := fun s => s.Sound ∧ (s.isIdle → s.superseded = []))
    (fun {op _} _ hs => ⟨(op.apply_spec hs.1).1, op.superseded_apply hs.1 hs.2⟩)
    ⟨.new settings, fun _ => rfl⟩).2 hidle

end Scheduler

end Parametric
