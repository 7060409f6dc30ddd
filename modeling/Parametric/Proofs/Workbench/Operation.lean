import Parametric.Proofs.Workbench.Action

/-!
# Operations on a workbench

All that can be done with a workbench: the actions that edit formulas, values and variables, and
what comes from outside, which is news of changes, objects that come and go, and questions.
`run_notifyChange` says what news of a change leaves when its object stays where it is: cached
results are dropped, and the change is scheduled.
-/

namespace Parametric

namespace Scheduler

/-- A change that is scheduled keeps what waits; its request is the only one that is no recompute.
-/
theorem afterChange_spec {s : Scheduler} (hs : s.Sound) (c : Change) :
    Keeps s (s.afterChange c) ∧ (s.afterChange c).inbox.unread = s.inbox.unread ∧
    ∀ P : Request → Prop, Request.Stable P →
      (∀ id target, c.kind.target c.object c.payload = .ok target →
        P ⟨id, id, target, c.kind, c.payload, c.priority, .queued⟩) →
      s.queue.All P → (s.afterChange c).queue.All P := by
  refine ⟨keeps_propagate hs c, ?_⟩
  rcases s.afterChange_eq c with hrefused | ⟨target, -, htarget, htaken⟩
  · rw [hrefused]
    exact ⟨rfl, fun _ _ _ h => h⟩
  · obtain ⟨queue, next, superseded, heq, -, -, hall⟩ := schedule_spec
      (s := s.accepted)
      (hs.numbered.cons target c.kind c.payload c.priority)
    rw [htaken, heq]
    exact ⟨rfl, fun P hP hnew hold => hall P hP (hnew _ _ htarget) hold⟩

/-! ## Waiting requests -/

/-- After the news of a property, that property waits and all that follows from it. -/
theorem waits_announced {s : Scheduler} (hs : s.Sound) (e : Entity) (value : Option Value)
    (priority : Priority) (x : Entity) :
    (s.announced e value priority).Waits x ↔ e = x ∨ x ∈ s.graph.downstream [e] ∨ s.Waits x := by
  obtain ⟨queue, next, superseded, heq, -, hwaits, -⟩ := schedule_spec
    (s := s.accepted)
    (hs.numbered.cons e .property (.property e.property value) priority)
  have hsame : s.announced e value priority =
      { s with queue, superseded, inbox := { s.inbox with nextId := next } } := heq
  rw [hsame]
  exact hwaits x

/-- The scheduler is sound, its inbox is empty, and all waiting requests satisfy `P`. -/
structure Serves (P : Request → Prop) (s : Scheduler) : Prop where
  sound : s.Sound
  unread : s.inbox.unread = []
  all : s.queue.All P

namespace Serves

variable {P : Request → Prop} {s s' : Scheduler}

theorem alike (h : s.Serves P) (halike : Alike s s') : s'.Serves P :=
  ⟨halike.sound, halike.unread.trans h.unread, fun t r hr => h.all t r (halike.pendingFor t ▸ hr)⟩

theorem pop (h : s.Serves P) {r : Request} {queue : Queue} (hpop : s.queue.pop = (some r, queue)) :
    P r ∧ { s with queue }.Serves P := by
  obtain ⟨hr, -, hpendingFor⟩ := h.sound.numbered.indexed.pop_some hpop
  refine ⟨h.all _ r hr, (Drain.pop_spec h.sound hpop).1, h.unread, fun t r' hr' => ?_⟩
  rw [hpendingFor] at hr'
  split at hr'
  · cases hr'
  · exact h.all t r' hr'

theorem cascade (h : s.Serves P) (hP : Request.Stable P) (r : Request) (o : Outcome) :
    (s.cascade r o).Serves P := by
  have hquiet := Quiet.cascade h.sound r o
  exact ⟨hquiet.sound, hquiet.unread.trans h.unread, hquiet.all P hP h.all⟩

theorem announced (h : s.Serves P) (hP : Request.Stable P) (e : Entity) (value : Option Value)
    (priority : Priority)
    (hnew : ∀ id, P ⟨id, id, e, .property, .property e.property value, priority, .queued⟩) :
    (s.announced e value priority).Serves P := by
  obtain ⟨hkeeps, -, -, hunread, hall⟩ := announced_spec h.sound e value priority
  exact ⟨hkeeps.sound, hunread.trans h.unread, hall P hP hnew h.all⟩

theorem afterChange (h : s.Serves P) (hP : Request.Stable P) (c : Change)
    (hnew : ∀ id target, c.kind.target c.object c.payload = .ok target →
      P ⟨id, id, target, c.kind, c.payload, c.priority, .queued⟩) :
    (s.afterChange c).Serves P := by
  obtain ⟨hkeeps, hunread, hall⟩ := afterChange_spec h.sound c
  exact ⟨hkeeps.sound, hunread.trans h.unread, hall P hP hnew h.all⟩

theorem removeConsumer (h : s.Serves P) (e : Entity) : (s.removeConsumer e).2.Serves P :=
  ⟨⟨h.sound.graph.removeConsumer e, h.sound.numbered⟩, h.unread, h.all⟩

theorem replaceProducers (h : s.Serves P) (e : Entity) (edges : List (Entity × Edge)) :
    (s.replaceProducers e edges).2.Serves P :=
  ⟨⟨h.sound.graph.replaceProducers e edges, h.sound.numbered⟩, h.unread, h.all⟩

end Serves

end Scheduler

namespace Workbench

variable {σ : Type} (w : Workbench σ)

/-- The workbench after a change was scheduled. -/
def propagated (c : Change) : Workbench σ := { w with scheduler := w.scheduler.afterChange c }

/-- An operation on a workbench. -/
inductive Operation
  | act (a : Action)
  | notify (object : ObjectId) (kind : ChangeKind) (payload : Payload) (priority : Priority)
  | submit (c : Change)
  | evaluate (object : ObjectId) (property : String)
  | addObject (o : Object)
  | removeObject (id : ObjectId)

namespace Operation

/-- The workbench after an operation; what one that fails did before it failed stays. -/
def run : Operation → Workbench σ
  | act a => a.run w
  | notify object kind payload priority =>
    ((notifyChange object kind.name payload priority).run w).2
  | submit c => ((submitChange c).run w).2
  | evaluate object property => ((evaluateProperty object property).run w).2
  | addObject o => ((Workbench.addObject o).run w).2
  | removeObject id => ((Workbench.removeObject id).run w).2

end Operation

/-- The workbench after some operations. -/
def perform (ops : List Operation) : Workbench σ := ops.foldl Operation.run w

theorem run_propagate (c : Change) :
    (∃ id, (propagate c).run w = (.ok id, w.propagated c)) ∨
      ∃ e, (propagate c).run w = (.error e, w.propagated c) := by
  unfold propagate propagated Scheduler.afterChange
  rw [Run.run_bind, Run.run_get]
  dsimp only
  rw [Run.run_bind]
  cases w.scheduler.propagate c with
  | error e => exact .inr ⟨_, rfl⟩
  | ok taken => exact .inl ⟨taken.1, rfl⟩

/-- News of a change that leaves its object where it is drop cached results and are scheduled, if the
kind can be asked for and the payload fits it. -/
theorem run_notifyChange_taken {object : ObjectId} {kind : ChangeKind} (hkind : kind ≠ .hierarchy)
    (hname : ChangeKind.ofName kind.name = .ok kind) {payload : Payload} {target : Entity}
    (htarget : kind.target object payload = .ok target) (priority : Priority) :
    ((notifyChange object kind.name payload priority).run w).2 =
      (w.invalidate (kind.affected target payload)).propagated
        ⟨object, kind, payload, priority⟩ := by
  unfold notifyChange
  rw [Run.run_bind, hname, run_lift_ok]
  dsimp only
  rw [Run.run_bind, htarget, run_lift_ok]
  dsimp only
  rw [Run.run_bind, Run.run_modify]
  dsimp only
  rw [Run.run_bind]
  rcases run_propagate (w.invalidate (kind.affected target payload))
    ⟨object, kind, payload, priority⟩ with ⟨id, hrun⟩ | ⟨e, hrun⟩
  · rw [hrun]
    dsimp only
    cases kind with
    | hierarchy => exact absurd rfl hkind
    | _ => rfl
  · rw [hrun]

/-- News of a change that leaves its object where it is are refused, or drop cached results and are
scheduled. -/
theorem run_notifyChange (object : ObjectId) {kind : ChangeKind} (hkind : kind ≠ .hierarchy)
    (payload : Payload) (priority : Priority) :
    ((notifyChange object kind.name payload priority).run w).2 = w ∨
    ∃ changed, ((notifyChange object kind.name payload priority).run w).2 =
      (w.invalidate changed).propagated ⟨object, kind, payload, priority⟩ := by
  cases hname : ChangeKind.ofName kind.name with
  | error e =>
    unfold notifyChange
    rw [Run.run_bind, hname, run_lift_error]
    exact .inl rfl
  | ok kind' =>
    have hsame : kind' = kind := by
      cases kind <;> cases hname <;> rfl
    subst hsame
    cases htarget : kind'.target object payload with
    | error e =>
      unfold notifyChange
      rw [Run.run_bind, hname, run_lift_ok]
      dsimp only
      rw [Run.run_bind, htarget, run_lift_error]
      exact .inl rfl
    | ok target => exact .inr ⟨_, w.run_notifyChange_taken hkind hname htarget priority⟩

end Workbench

end Parametric
