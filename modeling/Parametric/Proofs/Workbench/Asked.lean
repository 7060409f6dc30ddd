import Parametric.Proofs.Workbench.Scheduling

/-!
# What is asked for

An operation other than a drain edits edges and asks for changes (`reaches_asked`), which are
scheduled at once or submitted for the next drain to read. So it keeps whatever neither depends on
the edges nor is upset by one of these changes (`Scheduler.Lasting`, `Operation.keeps`): a property
of all that is asked for (`Scheduler.Heeds`), or of the request that waits for one target
(`Scheduler.Awaits`). A drain reads what was submitted before it serves anything
(`Scheduler.drain_readInbox`), so a course may start from there (`Course.drain_unread`).
-/

namespace Parametric

/-- A change is keyed by an entity of its object. -/
theorem ChangeKind.object_target {kind : ChangeKind} {object : ObjectId} {payload : Payload}
    {target : Entity} (h : kind.target object payload = .ok target) : target.object = object := by
  unfold ChangeKind.target at h
  split at h <;> cases h <;> rfl

namespace Scheduler

variable {s : Scheduler} {rest : List Submission} {P Q : Request → Prop} {t : Entity}
  {asked : Change → Prop}

/-! ## All that is asked for -/

/-- All requests that wait and all submissions satisfy `P`. -/
structure Heeds (P : Request → Prop) (s : Scheduler) : Prop where
  sound : s.Sound
  queued : s.queue.All P
  unread : ∀ c ∈ s.inbox.unread, P c.request

theorem heeds_of_isIdle (hs : s.Sound) (h : s.isIdle) : s.Heeds P :=
  ⟨hs, all_of_isIdle h P, by simp [unread_of_isIdle h]⟩

theorem all_foldl_schedule (hP : Request.Stable P) (hs : Numbered s.queue rest s.inbox.nextId)
    (hrest : ∀ c ∈ rest, P c.request) (hall : s.queue.All P) :
    (rest.foldl schedule s).queue.All P := by
  induction rest generalizing s with
  | nil => exact hall
  | cons c rest ih =>
    obtain ⟨hc, hrest⟩ := List.forall_mem_cons.1 hrest
    obtain ⟨queue, next, superseded, heq, hnumbered, -, hkept⟩ := schedule_spec hs
    rw [List.foldl_cons, heq]
    exact ih hnumbered hrest (hkept P hP hc hall)

theorem Heeds.readInbox (h : s.Heeds P) (hP : Request.Stable P) : s.readInbox.Serves P := by
  obtain ⟨hsound, -, hunread, -⟩ := readInbox_spec h.sound
  exact ⟨hsound, hunread, all_foldl_schedule
    (s := { s with inbox := { s.inbox with unread := [] } }) hP h.sound.numbered h.unread h.queued⟩

theorem Serves.heeds (h : s.Serves P) : s.Heeds P :=
  ⟨h.sound, h.all, by simp [h.unread]⟩

theorem Heeds.serves (h : s.Heeds P) (hunread : s.inbox.unread = []) : s.Serves P :=
  ⟨h.sound, hunread, h.queued⟩

/-! ## The request for one target -/

/-- A request that satisfies `Q` waits for `t`, and no submission is about `t`. -/
structure Awaits (t : Entity) (Q : Request → Prop) (s : Scheduler) : Prop where
  sound : s.Sound
  waiting : s.WaitsAs t Q
  unread : ∀ c ∈ s.inbox.unread, c.target ≠ t

section

variable (hQ : ∀ r priority payload, payload.isRecompute → Q r → Q (r.absorb priority payload))
include hQ

theorem Awaits.readInbox (h : s.Awaits t Q) : s.readInbox.Awaits t Q := by
  obtain ⟨hsound, -, hunread, -⟩ := readInbox_spec h.sound
  exact ⟨hsound, .foldl_schedule (s := { s with inbox := { s.inbox with unread := [] } }) hQ
    h.sound.numbered (fun c hc heq => absurd heq (h.unread c hc)) h.waiting, by simp [hunread]⟩

theorem Awaits.cascade (h : s.Awaits t Q) (r : Request) (o : Outcome) :
    (s.cascade r o).Awaits t Q := by
  have hquiet := Quiet.cascade h.sound r o
  exact ⟨hquiet.sound, h.waiting.cascade hQ h.sound.numbered r o, hquiet.unread ▸ h.unread⟩

end

/-- Another request is taken out of the queue. -/
theorem Awaits.pop (h : s.Awaits t Q) {r : Request} {queue : Queue}
    (hpop : s.queue.pop = (some r, queue)) (hne : r.target ≠ t) :
    Awaits t Q { s with queue } := by
  obtain ⟨-, -, hpendingFor⟩ := h.sound.numbered.indexed.pop_some hpop
  obtain ⟨m, hm, hQm⟩ := h.waiting
  exact ⟨(Drain.pop_spec h.sound hpop).1, ⟨m, by rwa [hpendingFor, if_neg hne], hQm⟩, h.unread⟩

/-! ## What lasts -/

/-- What holds of a sound scheduler, whatever its edges are, and is kept when changes are scheduled
or submitted that are `asked`. -/
structure Lasting (asked : Change → Prop) (K : Scheduler → Prop) : Prop where
  sound : ∀ {s : Scheduler}, K s → s.Sound
  rewire : ∀ {s : Scheduler} {graph : Graph}, graph.Sound → K s → K { s with graph }
  propagate : ∀ {s : Scheduler} {c : Change}, asked c → K s → K (s.afterChange c)
  submit : ∀ {s : Scheduler} {c : Change}, asked c → K s → K (s.submit c).2

/-- What lasts is kept by an operation that asks for no other changes. -/
theorem Lasting.apply {K : Scheduler → Prop} (hK : Lasting asked K) {op : Op} (hop : op.Asks asked)
    (hs : K s) : K (op.apply s) := by
  have hgraph := (hK.sound hs).graph
  cases op with
  | add p c edge =>
    rcases Graph.add_eq s.graph p c edge with hadd | ⟨graph, hadd⟩
    · simpa only [Op.apply, hadd] using hs
    · simpa only [Op.apply, hadd] using hK.rewire (hgraph.add hadd) hs
  | removeConsumer c => exact hK.rewire (hgraph.removeConsumer c) hs
  | removeObject object => exact hK.rewire (hgraph.removeObject object) hs
  | replaceProducers c edges => exact hK.rewire (hgraph.replaceProducers c edges) hs
  | propagate c => exact hK.propagate hop hs
  | submit c => exact hK.submit hop hs
  | drain => exact hop.elim

/-- A submission comes at the end of the inbox, unless the change is refused. -/
theorem submit_eq (s : Scheduler) (c : Change) : (s.submit c).2 = s ∨
    ∃ target, c.kind ≠ .recompute ∧ c.kind.target c.object c.payload = .ok target ∧
      (s.submit c).2 = { s with inbox := { s.inbox with
        unread :=
          s.inbox.unread ++ [⟨s.inbox.nextId, target, c.kind, c.payload, c.priority⟩]
        nextId := s.inbox.nextId + 1 } } := by
  unfold submit Inbox.submit
  rcases s.inbox.accept_eq c with ⟨e, he⟩ | ⟨target, hkind, htarget, hok⟩
  · rw [he]
    exact .inl rfl
  · rw [hok]
    exact .inr ⟨target, hkind, htarget, rfl⟩

theorem lasting_heeds (hP : Request.Stable P)
    (hasked : ∀ {c : Change} {target : Entity} {id : RequestId}, asked c →
      c.kind.target c.object c.payload = .ok target →
      P ⟨id, id, target, c.kind, c.payload, c.priority, .queued⟩) : Lasting asked (Heeds P) where
  sound h := h.sound
  rewire hgraph h := ⟨⟨hgraph, h.sound.numbered⟩, h.queued, h.unread⟩
  propagate hc h := by
    obtain ⟨hkeeps, hunread, hall⟩ := afterChange_spec h.sound _
    exact ⟨hkeeps.sound, hall P hP (fun _ _ htarget => hasked hc htarget) h.queued,
      hunread ▸ h.unread⟩
  submit {s c} hc h := by
    have hnumbered : Numbered s.queue (s.submit c).2.inbox.unread (s.submit c).2.inbox.nextId :=
      h.sound.numbered.submit c
    rcases s.submit_eq c with hrefused | ⟨target, -, htarget, htaken⟩
    · rwa [hrefused]
    · rw [htaken] at hnumbered ⊢
      refine ⟨⟨h.sound.graph, hnumbered⟩, h.queued, fun d hd => ?_⟩
      rcases List.mem_append.1 hd with hd | hd
      · exact h.unread d hd
      · rw [List.mem_singleton.1 hd]
        exact hasked hc htarget

theorem lasting_awaits
    (hQ : ∀ r priority payload, payload.isRecompute → Q r → Q (r.absorb priority payload))
    (hasked : ∀ {c : Change}, asked c → c.kind.target c.object c.payload ≠ .ok t) :
    Lasting asked (Awaits t Q) where
  sound h := h.sound
  rewire hgraph h := ⟨⟨hgraph, h.sound.numbered⟩, h.waiting, h.unread⟩
  propagate {s c} hc h := by
    obtain ⟨hkeeps, hunread, -⟩ := afterChange_spec h.sound c
    refine ⟨hkeeps.sound, ?_, hunread ▸ h.unread⟩
    rcases s.afterChange_eq c with hrefused | ⟨target, -, htarget, htaken⟩
    · rw [hrefused]
      exact h.waiting
    · rw [htaken]
      have hne : target ≠ t := fun heq => hasked hc (heq ▸ htarget)
      exact .schedule (s := s.accepted) hQ
        (h.sound.numbered.cons target c.kind c.payload c.priority) ((if_neg hne).symm ▸ h.waiting)
  submit {s c} hc h := by
    have hnumbered : Numbered s.queue (s.submit c).2.inbox.unread (s.submit c).2.inbox.nextId :=
      h.sound.numbered.submit c
    rcases s.submit_eq c with hrefused | ⟨target, -, htarget, htaken⟩
    · rwa [hrefused]
    · rw [htaken] at hnumbered ⊢
      refine ⟨⟨h.sound.graph, hnumbered⟩, h.waiting, fun d hd => ?_⟩
      rcases List.mem_append.1 hd with hd | hd
      · exact h.unread d hd
      · rw [List.mem_singleton.1 hd]
        exact fun heq => hasked hc (heq ▸ htarget)

end Scheduler

namespace Workbench

open Scheduler

variable {σ : Type} {w : Workbench σ} {K : Scheduler → Prop}

/-- What was submitted is read at the start of a drain. -/
theorem drain_read (hs : w.scheduler.Sound) :
    drain { w with scheduler := w.scheduler.readInbox } = w.drain := by
  unfold Workbench.drain
  simp only [drain_readInbox hs]

theorem Course.drain_unread {J : Workbench σ → Prop} (hJ : Course J) (hs : w.scheduler.Sound)
    (h : J { w with scheduler := w.scheduler.readInbox }) : J w.drain.2 :=
  drain_read hs ▸ hJ.drain h

theorem course_serves {P : Request → Prop} (hP : Request.Stable P) :
    Course fun w : Workbench σ => w.scheduler.Serves P where
  sound h := h.sound
  unread h := h.unread
  same h _ halike := h.alike halike
  failed h hpop heffect := heffect.scheduler ▸ (h.pop hpop).2
  applied h hpop heffect := heffect.scheduler ▸ (h.pop hpop).2.cascade hP _ _

theorem heeds_drain {P : Request → Prop} (hP : Request.Stable P) (h : w.scheduler.Heeds P) :
    w.drain.2.scheduler.Heeds P :=
  ((course_serves hP).drain_unread h.sound (h.readInbox hP)).heeds

/-- An operation other than a drain keeps what lasts while changes are scheduled that it asks for.
-/
theorem Operation.keeps {op : Operation} (hK : Lasting (op.Asks w) K) (hop : op ≠ .act .drain)
    (hw : K w.scheduler) : K (op.run w).scheduler :=
  (reaches_asked w hop).keeps hK.apply hw

/-- What is asked for keeps a stable property that all possible changes have. -/
theorem heeds_perform {P : Request → Prop} (hP : Request.Stable P)
    (hall : ∀ (c : Change) (target : Entity) (id : RequestId),
      c.kind.target c.object c.payload = .ok target →
      P ⟨id, id, target, c.kind, c.payload, c.priority, .queued⟩)
    (h : w.scheduler.Heeds P) (ops : List Operation) : (w.perform ops).scheduler.Heeds P := by
  induction ops generalizing w with
  | nil => exact h
  | cons op ops ih =>
    refine ih ?_
    by_cases hop : op = .act .drain
    · subst hop
      exact heeds_drain hP h
    · exact Operation.keeps (lasting_heeds hP fun _ => hall _ _ _) hop h

end Workbench

end Parametric
