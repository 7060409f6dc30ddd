import Parametric.Proofs.Scene.Objects
import Parametric.Proofs.Workbench.Operation

/-!
# Removing an object

An object is removed with its formulas, its variables and its edges. Before the edges go, its
properties that feed a formula are announced, and so is the list of children of its container, so
that the formulas that read any of these wait (`Workbench.Removed`, `removed_removeObject`).
-/

namespace Parametric

namespace Scheduler

/-- After a change that is taken, its target waits and all that follows from what it affects. -/
theorem waits_afterChange {s : Scheduler} (hs : s.Sound) {c : Change} {target : Entity}
    (hkind : c.kind ≠ .recompute) (htarget : c.kind.target c.object c.payload = .ok target)
    (x : Entity) : (s.afterChange c).Waits x ↔
      target = x ∨ x ∈ s.graph.downstream (c.kind.affected target c.payload) ∨ s.Waits x := by
  obtain ⟨queue, next, superseded, heq, -, hwaits, -⟩ := schedule_spec (s := s.accepted)
    (hs.numbered.cons target c.kind c.payload c.priority)
  rw [s.afterChange_taken hkind htarget, heq]
  exact hwaits x

/-- The target of a change that is taken waits as the request for the change. -/
theorem waitsAs_afterChange {s : Scheduler} {Q : Request → Prop} (hs : s.Sound)
    (hQ : ∀ r priority payload, payload.isRecompute → Q r → Q (r.absorb priority payload))
    {c : Change} {target : Entity} (hkind : c.kind ≠ .recompute)
    (htarget : c.kind.target c.object c.payload = .ok target)
    (hrequest : ∀ id, Q ⟨id, id, target, c.kind, c.payload, c.priority, .queued⟩) :
    (s.afterChange c).WaitsAs target Q := by
  rw [s.afterChange_taken hkind htarget]
  refine .schedule (s := s.accepted) hQ
    (hs.numbered.cons target c.kind c.payload c.priority) ?_
  rw [if_pos rfl]
  exact hrequest _

end Scheduler

namespace Workbench

open Scheduler

variable {σ : Type} {w w' : Workbench σ} {id : ObjectId} {o : Object}

/-! ## Taking formulas off -/

/-- The workbench without the formulas of some properties. -/
def detachedAll (w : Workbench σ) (es : List Entity) : Workbench σ := es.foldl detached w

theorem run_detachAll (w : Workbench σ) (es : List Entity) :
    (forIn es PUnit.unit fun e _ => do
      let _ ← detach e
      return ForInStep.yield PUnit.unit : Edit σ PUnit).run w = (.ok ⟨⟩, w.detachedAll es) := by
  refine Run.run_forIn w (fun e w => ?_) es
  rw [Run.run_bind, run_detach_eq]
  rfl

/-- Between two workbenches the formulas of some properties were taken off, which leaves the edges
into the other formulas and all that waits. -/
structure Detaches (es : List Entity) (w w' : Workbench σ) : Prop where
  calculator : w'.calculator = w.calculator
  scene : w'.scene = w.scene
  vars : w'.vars = w.vars
  queue : w'.scheduler.queue = w.scheduler.queue
  inbox : w'.scheduler.inbox = w.scheduler.inbox
  graph : w'.scheduler.graph.Sound
  formulas : ∀ e : Entity, w'.formulas[e]? = if e ∈ es then none else w.formulas[e]?
  feeds : ∀ p c : Entity, c ∉ es → (w'.scheduler.graph.Feeds p c ↔ w.scheduler.graph.Feeds p c)

theorem detaches_detached (hw : w.scheduler.graph.Sound) (e : Entity) :
    Detaches [e] w (w.detached e) := by
  have hformulas : ∀ x : Entity, (w.detached e).formulas[x]? =
      if x ∈ [e] then none else w.formulas[x]? := by
    intro x
    rw [formulas_detached]
    simp only [List.mem_singleton, eq_comm]
  unfold detached at hformulas ⊢
  rw [run_detach] at hformulas ⊢
  cases hf : w.formulas[e]? with
  | none =>
    rw [hf] at hformulas
    exact ⟨rfl, rfl, rfl, rfl, rfl, hw, hformulas, fun _ _ _ => .rfl⟩
  | some f =>
    rw [hf] at hformulas
    refine ⟨rfl, rfl, rfl, rfl, rfl, hw.removeConsumer e, hformulas, fun p c hc => ?_⟩
    have hne : e ≠ c := fun heq => hc (List.mem_singleton.2 heq.symm)
    exact (Graph.feeds_removeConsumer hw.toIndexed e p c).trans (and_iff_left hne)

theorem Detaches.trans {es es' : List Entity} {w'' : Workbench σ} (h : Detaches es w w')
    (h' : Detaches es' w' w'') : Detaches (es ++ es') w w'' where
  calculator := h'.calculator.trans h.calculator
  scene := h'.scene.trans h.scene
  vars := h'.vars.trans h.vars
  queue := h'.queue.trans h.queue
  inbox := h'.inbox.trans h.inbox
  graph := h'.graph
  formulas e := by
    rw [h'.formulas, h.formulas]
    by_cases he : e ∈ es <;> by_cases he' : e ∈ es' <;> simp [he, he']
  feeds p c hc := by
    rw [List.mem_append, not_or] at hc
    exact (h'.feeds p c hc.2).trans (h.feeds p c hc.1)

theorem detaches_detachedAll (hw : w.scheduler.graph.Sound) (es : List Entity) :
    Detaches es w (w.detachedAll es) := by
  induction es generalizing w with
  | nil =>
    refine ⟨rfl, rfl, rfl, rfl, rfl, hw, fun e => ?_, fun _ _ _ => .rfl⟩
    rw [if_neg List.not_mem_nil]
    rfl
  | cons e es ih =>
    have hstep := detaches_detached hw e
    exact hstep.trans (ih hstep.graph)

/-! ## News of several properties -/

/-- The workbench after the news of some properties without values. -/
def announcedAll (w : Workbench σ) (es : List Entity) : Workbench σ :=
  es.foldl (fun w e => w.announced e none .normal) w

theorem run_announceAll (w : Workbench σ) (es : List Entity) :
    (forIn es PUnit.unit fun e _ => do
      let _ ← announce e none
      return ForInStep.yield PUnit.unit : Edit σ PUnit).run w = (.ok ⟨⟩, w.announcedAll es) := by
  refine Run.run_forIn w (fun e w => ?_) es
  rw [Run.run_bind, run_announce]
  rfl

/-- The news keep what waits, and make all that reads the properties wait. -/
theorem announcedAll_spec (hs : w.scheduler.Sound) (es : List Entity) :
    SameContent w (w.announcedAll es) ∧ Keeps w.scheduler (w.announcedAll es).scheduler ∧
    (w.announcedAll es).scheduler.inbox.unread = w.scheduler.inbox.unread ∧
    ∀ e ∈ es, ∀ c, w.scheduler.graph.Feeds e c → (w.announcedAll es).scheduler.Waits c := by
  induction es generalizing w with
  | nil => exact ⟨.refl w, .refl hs, rfl, by simp⟩
  | cons e es ih =>
    obtain ⟨hkeeps, -, hreaders, hunread, -⟩ := Scheduler.announced_spec hs e none .normal
    obtain ⟨hsame', hkeeps', hunread', hreaders'⟩ := ih (w := w.announced e none .normal)
      hkeeps.sound
    refine ⟨(SameContent.announced w e none .normal).trans hsame', hkeeps.trans hkeeps',
      hunread'.trans hunread, List.forall_mem_cons.2 ⟨fun c hc => ?_, fun x hx c hc => ?_⟩⟩
    · exact hkeeps'.waits c (hreaders c hc)
    · exact hreaders' x hx c (by rwa [show (w.announced e none .normal).scheduler.graph =
        w.scheduler.graph from hkeeps.graph])

/-- The properties that an object produces are its own that feed a formula. -/
theorem mem_produced_iff (w : Workbench σ) (object : ObjectId) (p : Entity) :
    p ∈ w.produced object ↔ p.object = object ∧ ∃ c, w.scheduler.graph.Feeds p c := by
  unfold produced
  rw [Std.ExtTreeSet.mem_toList, Std.ExtTreeSet.mem_ofList, List.contains_iff_mem,
    List.mem_filter, List.mem_map, decide_eq_true_eq, and_comm]
  refine and_congr_right fun _ => ⟨?_, fun ⟨c, hc⟩ => ⟨⟨p, c⟩, Std.ExtTreeMap.mem_keys.2 hc, rfl⟩⟩
  rintro ⟨⟨q, c⟩, hlink, rfl⟩
  exact ⟨c, Std.ExtTreeMap.mem_keys.1 hlink⟩

/-! ## The whole removal -/

/-- An object that is not there cannot be removed. What was recorded for its children is dropped all
the same. -/
theorem run_removeObject_of_none (hthere : w.scene.get? id = none) :
    (removeObject id).run w = (.error (.noObject id), { w with scene := { w.scene with
      containerBounds := w.scene.containerBounds.erase id } }) := by
  have hnone : w.scene.remove id =
      (none, { w.scene with containerBounds := w.scene.containerBounds.erase id }) := by
    unfold Scene.remove ObjectTable.remove
    rw [show w.scene.objects.get? id = none from hthere]
  unfold removeObject
  rw [Run.run_bind, Run.run_get]
  dsimp only
  rw [hnone]
  rfl

/-- The objects are the same then. -/
theorem sameContent_removeObject_of_none (hthere : w.scene.get? id = none) :
    SameContent w ((removeObject id).run w).2 := by
  rw [run_removeObject_of_none hthere]
  exact ⟨.refl _, rfl, rfl, rfl⟩

/-- The workbench once the container that a removed object lay in was told of it. -/
def bereaved (w : Workbench σ) : Option ObjectId → Workbench σ
  | none => w
  | some parent => w.propagated ⟨parent, .hierarchy, .none, .normal⟩

/-- The news keep what waits, and make all that reads the list of children wait. -/
theorem bereaved_spec (hs : w.scheduler.Sound) (container : Option ObjectId) :
    SameContent w (w.bereaved container) ∧ Keeps w.scheduler (w.bereaved container).scheduler ∧
    (w.bereaved container).scheduler.inbox.unread = w.scheduler.inbox.unread ∧
    ∀ parent, container = some parent → ∀ c,
      w.scheduler.graph.Feeds ⟨parent, Names.children⟩ c →
      (w.bereaved container).scheduler.Waits c := by
  cases container with
  | none => exact ⟨.refl w, .refl hs, rfl, nofun⟩
  | some parent =>
    let change : Change := ⟨parent, .hierarchy, .none, .normal⟩
    obtain ⟨hkeeps, hunread, -⟩ := afterChange_spec hs change
    refine ⟨.rescheduled _ _, hkeeps, hunread, ?_⟩
    rintro _ ⟨⟩ c hc
    refine (waits_afterChange hs (c := change) nofun rfl c).2 (.inr (.inl ?_))
    refine (Graph.mem_downstream_iff hs.graph _ c).2 ⟨fun hmem => ?_, _, List.mem_singleton_self _,
      .single hc⟩
    rw [List.mem_singleton.1 hmem] at hc
    exact hs.graph.acyclic _ (.single hc)

/-- The news take the place of what waited for the list of children. -/
theorem waitsAs_bereaved (hs : w.scheduler.Sound) (parent : ObjectId) :
    (w.bereaved (some parent)).scheduler.WaitsAs ⟨parent, Names.children⟩
      fun r => r.kind = .hierarchy ∧ r.payload = .none := by
  let change : Change := ⟨parent, .hierarchy, .none, .normal⟩
  show (w.scheduler.afterChange change).WaitsAs _ _
  refine waitsAs_afterChange (c := change) hs (fun r priority payload _ hr => ?_) nofun rfl
    fun _ => ⟨rfl, rfl⟩
  simp [Request.absorb, hr, Payload.isRecompute]

theorem run_removeObject {scene : Scene} (hremove : w.scene.remove id = (some o, scene)) :
    let detached : Workbench σ := detachedAll { w with scene } (w.driven id)
    let emptied : Workbench σ :=
      { detached with vars := (VariableTable.removeContext detached.vars id).2 }
    let told := bereaved ((emptied.invalidate (emptied.produced id)).announcedAll
      (emptied.produced id)) o.container
    ((removeObject id).run w).2 =
      { told with scheduler := (told.scheduler.removeObject id).2 } := by
  intro detached emptied told
  unfold removeObject
  rw [Run.run_bind, Run.run_get]
  dsimp only
  rw [hremove]
  dsimp only
  rw [Run.run_bind, Run.run_set]
  dsimp only
  rw [Run.run_bind, run_detachAll]
  dsimp only
  rw [Run.run_bind, Run.run_modify]
  dsimp only
  rw [Run.run_bind, Run.run_get]
  dsimp only
  rw [Run.run_bind, Run.run_modify]
  dsimp only
  rw [Run.run_bind, run_announceAll]
  dsimp only
  obtain ⟨_, _, container, _, _⟩ := o
  cases container with
  | none => rfl
  | some parent =>
    have hpropagate : ∀ w : Workbench σ, (propagate ⟨parent, .hierarchy, .none, .normal⟩).run w =
        (.ok w.scheduler.inbox.nextId, w.bereaved (some parent)) := fun _ => rfl
    dsimp only
    rw [Run.run_bind, hpropagate]
    rfl

/-- Between two workbenches an object was removed with its formulas, its variables and its edges.
The formulas that read its properties wait, and no result is cached for their objects; so do those
that read the list of children of its container. What waited for that list gives way to the news of
it. -/
structure Removed (w : Workbench σ) (id : ObjectId) (o : Object) (w' : Workbench σ) : Prop where
  calculator : w.calculator.Kept w'.calculator
  objects : w.scene.objects.remove id = (some o, w'.scene.objects)
  vars : w'.vars = (VariableTable.removeContext w.vars id).2
  formulas : ∀ e : Entity, w'.formulas[e]? = if e.object = id then none else w.formulas[e]?
  sound : w'.scheduler.Sound
  unread : w'.scheduler.inbox.unread = w.scheduler.inbox.unread
  feeds : ∀ p c : Entity, w'.scheduler.graph.Feeds p c ↔
    w.scheduler.graph.Feeds p c ∧ p.object ≠ id ∧ c.object ≠ id
  waits : ∀ c, w.scheduler.Waits c → w'.scheduler.Waits c
  readers : ∀ p c : Entity, p.object = id → w.scheduler.graph.Feeds p c → c.object ≠ id →
    w'.scheduler.Waits c ∧ w'.calculator.Misses c.object
  siblings : ∀ (parent : ObjectId) (c : Entity), o.container = some parent →
    w.scheduler.graph.Feeds ⟨parent, Names.children⟩ c → c.object ≠ id → w'.scheduler.Waits c
  told : ∀ parent : ObjectId, o.container = some parent →
    w'.scheduler.WaitsAs ⟨parent, Names.children⟩ fun r => r.kind = .hierarchy ∧ r.payload = .none

theorem removed_removeObject (hs : w.scheduler.Sound) (hthere : w.scene.get? id = some o) :
    Removed w id o ((removeObject id).run w).2 := by
  obtain ⟨scene, hremove, hobjects⟩ := Scene.exists_remove hthere
  rw [run_removeObject hremove]
  have hdetaches : Detaches (w.driven id) { w with scene }
      (detachedAll { w with scene } (w.driven id)) :=
    detaches_detachedAll (w := { w with scene }) hs.graph _
  generalize detachedAll { w with scene } (w.driven id) = detached at hdetaches
  have hdriven : ∀ e : Entity, e.object ≠ id → e ∉ w.driven id :=
    fun e he hmem => he (of_decide_eq_true (List.mem_filter.1 hmem).2)
  let emptied : Workbench σ :=
    { detached with vars := (VariableTable.removeContext detached.vars id).2 }
  have hsound : emptied.scheduler.Sound := by
    refine ⟨hdetaches.graph, ?_⟩
    show Numbered detached.scheduler.queue detached.scheduler.inbox.unread
      detached.scheduler.inbox.nextId
    rw [hdetaches.queue, hdetaches.inbox]
    exact hs.numbered
  -- The edges into formulas of other objects are still there when the news are scheduled.
  have hfeeds : ∀ p c : Entity, c.object ≠ id →
      (emptied.scheduler.graph.Feeds p c ↔ w.scheduler.graph.Feeds p c) :=
    fun p c hc => hdetaches.feeds p c (hdriven c hc)
  let invalidated := emptied.invalidate (emptied.produced id)
  obtain ⟨hsame, hkeeps, hunread, hreaders⟩ :=
    announcedAll_spec (w := invalidated) hsound (emptied.produced id)
  obtain ⟨hsame', hkeeps', hunread', hsiblings⟩ :=
    bereaved_spec (w := invalidated.announcedAll (emptied.produced id)) hkeeps.sound o.container
  have hcontent : SameContent emptied
      (bereaved (invalidated.announcedAll (emptied.produced id)) o.container) :=
    ((SameContent.invalidate emptied _).trans hsame).trans hsame'
  have hkept : Keeps emptied.scheduler
      (bereaved (invalidated.announcedAll (emptied.produced id)) o.container).scheduler :=
    hkeeps.trans hkeeps'
  refine ⟨?_, ?_, ?_, fun e => ?_, ?_, ?_, fun p c => ?_, fun c hc => ?_, fun p c hp hc hne => ?_,
    fun parent c hparent hc hne => ?_, fun parent hparent => ?_⟩
  · have hcalculator : emptied.calculator = w.calculator := hdetaches.calculator
    exact hcalculator ▸ hcontent.calculator
  · have hscene : emptied.scene.objects = scene.objects := congrArg Scene.objects hdetaches.scene
    exact hobjects.trans (by rw [hcontent.objects, hscene])
  · refine hcontent.vars.trans ?_
    show (VariableTable.removeContext detached.vars id).2 = _
    rw [hdetaches.vars]
  · refine (congrArg (·[e]?) hcontent.formulas).trans ((hdetaches.formulas e).trans ?_)
    split
    next hmem => rw [if_pos (of_decide_eq_true (List.mem_filter.1 hmem).2)]
    next hmem =>
      split
      next heq =>
        -- A formula of the object would have been taken off.
        refine Option.eq_none_iff_forall_ne_some.2 fun f hf => hmem (List.mem_filter.2 ⟨?_, ?_⟩)
        · exact Table.mem_keys_iff.2 (hf ▸ rfl)
        · exact decide_eq_true heq
      next => rfl
  · exact ⟨hkept.sound.graph.removeObject id, hkept.sound.numbered⟩
  · exact hunread'.trans (hunread.trans (congrArg Inbox.unread hdetaches.inbox))
  · refine (Graph.feeds_removeObject _ id p c).trans ?_
    rw [hkept.graph]
    exact and_congr_left fun hne => hfeeds p c hne.2
  · refine hkept.waits c ?_
    rwa [Waits, show emptied.scheduler.queue = w.scheduler.queue from hdetaches.queue]
  · have hproduced : p ∈ emptied.produced id :=
      (mem_produced_iff _ _ _).2 ⟨hp, c, (hfeeds p c hne).2 hc⟩
    have hdownstream : c ∈ emptied.scheduler.graph.downstream (emptied.produced id) :=
      (Graph.mem_downstream_iff hsound.graph _ c).2
        ⟨fun hmem => hne ((mem_produced_iff _ _ _).1 hmem).1, p, hproduced,
          .single ((hfeeds p c hne).2 hc)⟩
    exact ⟨hkeeps'.waits c (hreaders p hproduced c ((hfeeds p c hne).2 hc)),
      (hsame.trans hsame').calculator.misses
        (misses_invalidate (List.mem_append_right _ hdownstream))⟩
  · refine hsiblings parent hparent c ?_
    rw [hkeeps.graph]
    exact (hfeeds _ c hne).2 hc
  · have htold := waitsAs_bereaved (w := invalidated.announcedAll (emptied.produced id))
      hkeeps.sound parent
    rw [← hparent] at htold
    exact htold

namespace Removed

theorem there (h : Removed w id o w') : w.scene.get? id = some o :=
  (ObjectTable.get?_remove h.objects id).1

theorem get? (h : Removed w id o w') (x : ObjectId) :
    w'.scene.get? x = if id = x then none else w.scene.get? x :=
  (ObjectTable.get?_remove h.objects x).2

theorem containerOf? (h : Removed w id o w') : w.containerOf? id = o.container := by
  show (w.scene.get? id).bind Object.container = o.container
  rw [h.there]
  rfl

theorem view (h : Removed w id o w') {x : ObjectId} (hx : x ≠ id) : w'.view x = w.view x :=
  Viewpoint.ofObject_sameBut (ObjectTable.sameBut_remove h.objects) hx

/-- A formula that is left was there, and drives another object. -/
theorem formula_of (h : Removed w id o w') {e : Entity} {f : Formula}
    (hf : w'.formulas[e]? = some f) : w.formulas[e]? = some f ∧ e.object ≠ id := by
  rw [h.formulas] at hf
  split at hf
  · cases hf
  next hne => exact ⟨hf, hne⟩

/-- No formula drives an object that was removed. -/
theorem gone (h : Removed w id o w') (e : Entity) (he : e.object = id) :
    w'.formulas[e]? = none := by
  rw [h.formulas, if_pos he]

end Removed

end Workbench

end Parametric
