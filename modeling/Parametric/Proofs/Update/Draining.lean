import Parametric.Proofs.Update.Conservation
import Parametric.Proofs.Update.Rest

/-!
# Drains one after another

The settings of a scheduler matter in drains only (`Scheduler.tuned`), and no operation of a history
changes them (`Reaches.settings`). So every drain serves as much as the first may, and each drain
with an applier that submits nothing leaves less to do until nothing waits (`InUse.comes_to_rest`,
`drains_come_to_rest`).
-/

namespace Parametric

namespace Scheduler

/-! ## Settings that only drains read -/

section

variable (s : Scheduler) (settings : PropagationSettings) (bounds : PendingBounds)

/-- A scheduler with other settings and other bounds collected. -/
def tuned : Scheduler := { s with settings, bounds }

theorem enqueueRecompute_tuned (trigger : Entity) (value : Option Value) (priority : Priority)
    (root : RequestId) (consumer : Entity) :
    (s.tuned settings bounds).enqueueRecompute trigger value priority root consumer =
      (s.enqueueRecompute trigger value priority root consumer).tuned settings bounds := by
  unfold enqueueRecompute
  dsimp only
  rw [show (s.tuned settings bounds).queue = s.queue from rfl]
  cases s.queue.merge consumer priority (.recompute consumer.property trigger value) with
  | mk merged queue => cases merged <;> rfl

theorem foldl_enqueueRecompute_tuned (trigger : Entity) (value : Option Value)
    (priority : Priority) (root : RequestId) (consumers : List Entity) :
    consumers.foldl (enqueueRecompute · trigger value priority root) (s.tuned settings bounds) =
      (consumers.foldl (enqueueRecompute · trigger value priority root) s).tuned settings bounds :=
  List.foldl_hom (fun s : Scheduler => s.tuned settings bounds) fun s c =>
    s.enqueueRecompute_tuned settings bounds trigger value priority root c

theorem schedule_tuned (c : Submission) :
    (s.tuned settings bounds).schedule c = (s.schedule c).tuned settings bounds :=
  foldl_enqueueRecompute_tuned { s with
      queue := (s.queue.push c.request).2
      superseded := s.superseded ++ ((s.queue.push c.request).1.map Request.id).toList }
    settings bounds c.target none c.priority c.id (s.graph.downstream c.request.affected)

theorem cascade_tuned (r : Request) (o : Outcome) :
    (s.tuned settings bounds).cascade r o = (s.cascade r o).tuned settings bounds :=
  List.foldl_hom (fun s : Scheduler => s.tuned settings bounds) fun s producer =>
    s.foldl_enqueueRecompute_tuned settings bounds producer o.value r.priority r.root _

theorem foldl_schedule_tuned (cs : List Submission) :
    cs.foldl schedule (s.tuned settings bounds) = (cs.foldl schedule s).tuned settings bounds :=
  List.foldl_hom (fun s : Scheduler => s.tuned settings bounds) fun s c =>
    s.schedule_tuned settings bounds c

theorem settings_cascade (r : Request) (o : Outcome) :
    (s.cascade r o).settings = s.settings ∧ (s.cascade r o).bounds = s.bounds := by
  have htuned := s.cascade_tuned s.settings s.bounds r o
  rw [show s.tuned s.settings s.bounds = s from rfl] at htuned
  rw [htuned]
  exact ⟨rfl, rfl⟩

theorem readInbox_tuned :
    (s.tuned settings bounds).readInbox = s.readInbox.tuned settings bounds :=
  foldl_schedule_tuned { s with inbox := { s.inbox with unread := [] } } settings bounds
    s.inbox.unread

theorem settings_readInbox :
    s.readInbox.settings = s.settings ∧ s.readInbox.bounds = s.bounds := by
  have htuned := s.readInbox_tuned s.settings s.bounds
  rw [show s.tuned s.settings s.bounds = s from rfl] at htuned
  rw [htuned]
  exact ⟨rfl, rfl⟩

theorem propagate_tuned (c : Change) : (s.tuned settings bounds).propagate c =
    (s.propagate c).map fun (id, s) => (id, s.tuned settings bounds) := by
  unfold propagate
  rw [show (s.tuned settings bounds).inbox = s.inbox from rfl]
  cases s.inbox.accept c with
  | error e => rfl
  | ok accepted =>
    obtain ⟨submission, inbox⟩ := accepted
    exact congrArg (fun s => Except.ok (submission.id, s))
      (schedule_tuned { s with inbox } settings bounds submission)

end

section

variable {s : Scheduler}

theorem settings_schedule (c : Submission) : (s.schedule c).settings = s.settings := by
  have htuned := s.schedule_tuned s.settings s.bounds c
  rw [show s.tuned s.settings s.bounds = s from rfl] at htuned
  rw [htuned]
  rfl

namespace Drain

variable {τ : Type} (applier : Applier τ) (d : Drain τ)

/-- Recalculating a container changes nothing of the scheduler but its inbox. -/
theorem exists_inbox_flush (parent : ObjectId) (children : ChildBounds) :
    ∃ inbox, (d.flush applier parent children).scheduler = { d.scheduler with inbox } := by
  unfold flush
  cases applier.applyBounds parent children d.state with
  | mk result state => cases result <;> exact ⟨_, rfl⟩

theorem exists_inbox_contribute (c : Contribution) : ∃ bounds inbox,
    (d.contribute applier c).scheduler = { d.scheduler with bounds, inbox } := by
  unfold contribute
  split
  · exact ⟨_, _, rfl⟩
  · exact ⟨_, exists_inbox_flush applier d _ _⟩

theorem exists_inbox_flushAll : ∃ inbox,
    (d.flushAll applier).scheduler = { d.scheduler with bounds := {}, inbox } := by
  unfold flushAll
  suffices hfold : ∀ (parents : List (ObjectId × ChildBounds)) (d : Drain τ), ∃ inbox,
      (parents.foldl (fun d parent => d.flush applier parent.1 parent.2) d).scheduler =
        { d.scheduler with inbox } from hfold _ _
  intro parents
  induction parents with
  | nil => exact fun d => ⟨_, rfl⟩
  | cons parent parents ih =>
    intro d
    obtain ⟨inbox, hflush⟩ := exists_inbox_flush applier d parent.1 parent.2
    obtain ⟨inbox', hrest⟩ := ih (d.flush applier parent.1 parent.2)
    exact ⟨inbox', by rw [List.foldl_cons, hrest, hflush]⟩

theorem queue_flushAll : (d.flushAll applier).scheduler.queue = d.scheduler.queue := by
  obtain ⟨inbox, heq⟩ := exists_inbox_flushAll applier d
  rw [heq]

theorem settings_serve (r : Request) :
    (serve applier d r).scheduler.settings = d.scheduler.settings := by
  unfold serve
  cases (applier.apply { r with state := .processing } d.state).run d.scheduler.inbox with
  | mk result rest =>
    cases result with
    | error e => rfl
    | ok outcome =>
      have hcascade := (settings_cascade { d.scheduler with inbox := rest.2 } r outcome).1
      obtain ⟨value, bounds⟩ := outcome
      cases bounds with
      | none => exact hcascade
      | some c =>
        obtain ⟨bounds, inbox, heq⟩ := exists_inbox_contribute applier
          ⟨{ d.scheduler with inbox := rest.2 }.cascade r ⟨value, some c⟩, rest.1, d.report⟩ c
        dsimp only
        rw [heq]
        exact hcascade

theorem settings_serveAll (limit : Nat) (d : Drain τ) :
    (serveAll applier limit d).scheduler.settings = d.scheduler.settings := by
  induction limit generalizing d with
  | zero => exact d.scheduler.settings_readInbox.1
  | succ limit ih =>
    cases hpop : d.scheduler.readInbox.queue.pop with
    | mk request queue =>
      cases request with
      | none =>
        rw [(serveAll_of_pop_none applier limit hpop).1]
        exact d.scheduler.settings_readInbox.1
      | some r =>
        rw [(serveAll_of_pop_some applier limit hpop).1]
        exact ((ih _).trans (settings_serve applier _ r)).trans d.scheduler.settings_readInbox.1

end Drain

/-- No operation changes the settings. -/
theorem Op.settings_apply (op : Op) (s : Scheduler) : (op.apply s).settings = s.settings := by
  cases op with
  | add p c edge =>
    rcases Graph.add_eq s.graph p c edge with hadd | ⟨g, hadd⟩ <;> simp only [apply, hadd]
  | removeConsumer c => rfl
  | removeObject object => rfl
  | replaceProducers c edges => rfl
  | propagate change =>
    rcases s.afterChange_eq change with hrefused | ⟨target, -, -, htaken⟩
    · exact congrArg settings hrefused
    · exact (congrArg settings htaken).trans (settings_schedule _)
  | submit change => rfl
  | drain applier state =>
    obtain ⟨inbox, heq⟩ := Drain.exists_inbox_flushAll applier
      (Drain.serveAll applier s.settings.maxServed ⟨s, state, {}⟩)
    exact (congrArg settings heq).trans (Drain.settings_serveAll applier _ _)

end

/-! ## Histories from one scheduler to another -/

/-- A scheduler as operations leave it: it is sound, and each number that it gave out is in one
place. -/
structure InUse (s : Scheduler) : Prop where
  sound : s.Sound
  accounted : ∃ done, (s.desk [] done).Accounted fun _ => True

theorem InUse.new (settings : PropagationSettings) : InUse { settings } :=
  ⟨.new settings, [], .empty⟩

theorem InUse.tuned {s : Scheduler} (h : s.InUse) (settings : PropagationSettings)
    (bounds : PendingBounds) : (s.tuned settings bounds).InUse :=
  ⟨⟨h.sound.graph, h.sound.numbered⟩, h.accounted⟩

theorem InUse.orderly {s : Scheduler} (h : s.InUse) :
    Orderly s.queue s.inbox.unread s.inbox.nextId := by
  obtain ⟨done, haccounted⟩ := h.accounted
  exact haccounted.orderly

theorem Op.inUse_apply {s : Scheduler} (op : Op) (h : s.InUse) : (op.apply s).InUse := by
  obtain ⟨done, haccounted⟩ := h.accounted
  obtain ⟨hmoves, -⟩ := op.moves_apply h.sound haccounted fun _ _ _ => trivial
  exact ⟨(op.apply_spec h.sound).1, _, hmoves.accounted haccounted⟩

/-- A history of operations that are `ok` leads from one scheduler to another. -/
def Reaches (ok : Op → Prop) (s s' : Scheduler) : Prop :=
  ∃ ops, (∀ op ∈ ops, ok op) ∧ (history ops s).2 = s'

namespace Reaches

variable {ok ok' : Op → Prop} {s s' s'' : Scheduler}

theorem refl (s : Scheduler) : Reaches ok s s := ⟨[], by simp, rfl⟩

theorem apply (op : Op) (hop : ok op) (s : Scheduler) : Reaches ok s (op.apply s) :=
  ⟨[op], by simpa using hop, rfl⟩

theorem mono (h : Reaches ok s s') (hok : ∀ op, ok op → ok' op) : Reaches ok' s s' := by
  obtain ⟨ops, hops, heq⟩ := h
  exact ⟨ops, fun op hop => hok op (hops op hop), heq⟩

theorem trans (h : Reaches ok s s') (h' : Reaches ok s' s'') : Reaches ok s s'' := by
  obtain ⟨ops, hops, rfl⟩ := h
  obtain ⟨ops', hops', rfl⟩ := h'
  refine ⟨ops ++ ops', fun op hop => ?_, ?_⟩
  · exact (List.mem_append.1 hop).elim (hops op) (hops' op)
  · clear hops
    induction ops generalizing s with
    | nil => rfl
    | cons op ops ih => exact ih

/-- What each operation of a history keeps holds after it. -/
theorem keeps {K : Scheduler → Prop} (hK : ∀ {op s}, ok op → K s → K (op.apply s))
    (h : Reaches ok s s') (hs : K s) : K s' := by
  obtain ⟨ops, hops, rfl⟩ := h
  induction ops generalizing s with
  | nil => exact hs
  | cons op ops ih =>
    obtain ⟨hop, hrest⟩ := List.forall_mem_cons.1 hops
    exact ih (hK hop hs) hrest

theorem inUse (h : Reaches ok s s') (hs : s.InUse) : s'.InUse :=
  h.keeps (fun {op _} _ hs => op.inUse_apply hs) hs

theorem sound {settings : PropagationSettings} (h : Reaches ok { settings } s) : s.Sound :=
  (h.inUse (.new settings)).sound

theorem orderly {settings : PropagationSettings} (h : Reaches ok { settings } s) :
    Orderly s.queue s.inbox.unread s.inbox.nextId :=
  (h.inUse (.new settings)).orderly

theorem settings (h : Reaches ok s s') : s'.settings = s.settings :=
  h.keeps (K := fun s' => s'.settings = s.settings)
    (fun {op s'} _ hs => (op.settings_apply s').trans hs) rfl

end Reaches

/-! ## Coming to rest -/

variable {s : Scheduler} {τ : Type} {applier : Applier τ}

/-- A drain reads what was submitted before it serves anything. -/
theorem drain_readInbox (hs : s.Sound) (applier : Applier τ) (state : τ) :
    s.readInbox.drain applier state = s.drain applier state := by
  obtain ⟨queue, next, superseded, heq, -⟩ :=
    foldl_schedule (s := { s with inbox := { s.inbox with unread := [] } }) hs.numbered
  have hread : s.readInbox.readInbox = s.readInbox := readInbox_eq (readInbox_spec hs).2.2.1
  have hsettings : s.readInbox.settings = s.settings := by
    rw [readInbox, heq]
  have hserved : ∀ limit, Drain.serveAll applier limit ⟨s.readInbox, state, {}⟩ =
      Drain.serveAll applier limit ⟨s, state, {}⟩ := by
    intro limit
    cases limit <;> simp only [Drain.serveAll, hread]
  rw [drain, drain, hsettings, hserved]

section

variable {g : Graph} {hg : g.Sound} {among : Finset Entity} {n k m : Nat} {t : Nat → Scheduler}
  (hdrains : ∀ k, ∃ state, t (k + 1) = ((t k).drain applier state).2.1)
  (hbanded : ∀ k, (t k).queue.Banded) (hreserved : applier.Reserved)
include hdrains hbanded hreserved

/-- A drain leaves nothing, or less than there was. -/
theorem due_succ (h : (t k).Due hg among n) :
    ((t (k + 1)).isIdle ∧ (t (k + 1)).Due hg among 0) ∨ ∃ m < n, (t (k + 1)).Due hg among m := by
  obtain ⟨state, hdrain⟩ := hdrains k
  obtain ⟨hdue, hless⟩ := h.drain hreserved state
  rw [← hdrain] at hdue hless
  exact hless.imp_left fun hidle => ⟨hidle (hbanded _), hdue.of_isIdle (hidle (hbanded _))⟩

/-- When nothing is due nothing comes to wait. -/
theorem isIdle_of_due_zero (h : (t k).Due hg among 0) (hm : k < m) : (t m).isIdle := by
  have hnext : ∀ {k}, (t k).Due hg among 0 →
      (t (k + 1)).isIdle ∧ (t (k + 1)).Due hg among 0 := fun h =>
    (due_succ hdrains hbanded hreserved h).resolve_right fun hless =>
      hless.elim fun m hm => Nat.not_lt_zero m hm.1
  suffices hlater : (t m).isIdle ∧ (t m).Due hg among 0 from hlater.1
  induction m, hm using Nat.le_induction with
  | base => exact hnext h
  | succ m hm ih => exact hnext ih.2

/-- What is due is done after some drains. -/
theorem isIdle_of_due (h : (t k).Due hg among n) : ∃ k, ∀ m ≥ k, (t m).isIdle := by
  induction n using Nat.strong_induction_on generalizing k with
  | _ n ih =>
    rcases due_succ hdrains hbanded hreserved h with ⟨-, hdue⟩ | ⟨m, hm, hless⟩
    · exact ⟨k + 2, fun m hm => isIdle_of_due_zero hdrains hbanded hreserved hdue hm⟩
    · exact ih m hm hless

end

/-- One drain after another brings every scheduler to rest, if a drain serves any requests. -/
theorem InUse.comes_to_rest {t : Nat → Scheduler} (hstart : (t 0).InUse)
    (hserves : 0 < (t 0).settings.maxServed) (hreserved : applier.Reserved)
    (hdrains : ∀ k, ∃ state, t (k + 1) = ((t k).drain applier state).2.1) :
    ∃ k, ∀ m ≥ k, (t m).isIdle := by
  have hinUse : ∀ k, (t k).InUse := by
    intro k
    induction k with
    | zero => exact hstart
    | succ k ih =>
      obtain ⟨state, hdrain⟩ := hdrains k
      exact hdrain ▸ Op.inUse_apply (.drain applier state) ih
  -- The first drain reads what was submitted, and from then on the inbox stays empty.
  obtain ⟨hsound, -, hunread, -⟩ := readInbox_spec hstart.sound
  obtain ⟨among, n, hdue⟩ := exists_due hsound hunread
    ((t 0).settings_readInbox.1.symm ▸ hserves)
  obtain ⟨state, hdrain⟩ := hdrains 0
  rw [← drain_readInbox hstart.sound] at hdrain
  obtain ⟨hfirst, -⟩ := hdue.drain hreserved state
  exact isIdle_of_due hdrains (fun k => (hinUse k).orderly.banded) hreserved (hdrain ▸ hfirst)

/-- The scheduler and the state of the applier after some drains. -/
def drained (applier : Applier τ) (s : Scheduler) (state : τ) : Nat → Scheduler × τ
  | 0 => (s, state)
  | n + 1 =>
    let (s, state) := drained applier s state n
    (s.drain applier state).2

/-- Whatever operations made a scheduler, and whatever an applier does that submits no changes, one
drain after another brings it to rest, as long as each may serve a request: nothing is pending any
more, whatever was waiting and however often it made its consumers wait. -/
theorem drains_come_to_rest (settings : PropagationSettings) (hserves : 1 ≤ settings.maxServed)
    (ops : List Op) {τ : Type} (applier : Applier τ) (hreserved : applier.Reserved) (state : τ) :
    ∃ k, ∀ m ≥ k, (drained applier (history ops { settings }).2 state m).1.pending = 0 := by
  have hstart : Reaches (fun _ => True) { settings } (history ops { settings }).2 :=
    ⟨ops, fun _ _ => trivial, rfl⟩
  obtain ⟨k, hk⟩ := InUse.comes_to_rest
    (t := fun m => (drained applier (history ops { settings }).2 state m).1)
    (hstart.inUse (.new settings)) (hstart.settings ▸ hserves) hreserved fun m => ⟨_, rfl⟩
  exact ⟨k, fun m hm => of_decide_eq_true (hk m hm)⟩

/-- A diamond comes to rest where one request is served in a drain and every other one fails. -/
theorem diamond_comes_to_rest :
    let edge (p c : ObjectId) : Op := .add ⟨p, "v"⟩ ⟨c, "v"⟩ ⟨.reference, none⟩
    let change (object : ObjectId) (priority : Priority) : Change :=
      { object, kind := .property, payload := .property "v" none, priority }
    let s := (history [edge "a" "b", edge "a" "c", edge "b" "d", edge "c" "d",
      .propagate (change "a" .low), .submit (change "b" .high)]
      { settings := { maxServed := 1 } }).2
    let applier : Applier Nat := {
      apply _ n := .done (if n % 2 = 1 then .error (.failed "") else .ok {}) (n + 1)
      applyBounds _ _ n := (.ok (), n) }
    s.pending = 5 ∧ ∃ k, ∀ m ≥ k, (drained applier s 0 m).1.pending = 0 := by
  intro edge change s applier
  exact ⟨by decide +kernel, drains_come_to_rest { maxServed := 1 } (Nat.le_refl 1) _ applier
    ⟨fun _ _ _ => rfl, fun _ _ _ => rfl⟩ 0⟩

end Scheduler

end Parametric
