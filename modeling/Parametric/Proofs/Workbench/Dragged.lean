import Parametric.Proofs.Workbench.Transit

/-!
# Objects that are dragged

News that an object moves schedule the move, bind every formula of the object to its new container
and announce it (`run_notifyMove`). Several moves of one object may be asked for before the first is
carried out, and the last one displaces the others. Until then nothing is served
(`Workbench.Dragged`): the scene is as it was, what waits is about the object itself or has one of
the priorities that the moves were asked for with, and ahead of the last move are at most requests
of its priority that were there before, except those about formulas of the object, which are
announced again behind it (`Dragged.move`). So if the formulas agreed before, the last move is
impending (`Dragged.impending`).
-/

namespace Parametric

namespace Workbench

open Scheduler

variable {σ : Type} {base w w' : Workbench σ} {x : ObjectId} {ps : List Priority} {p : Priority}
  {m : Request} {early : Entity → Prop} {hurry : Prop} {e : Entity}
  {previous parent : Option ObjectId}

/-! ## News of a move -/

/-- The workbench after a formula is bound as one whose object lies in a container. -/
def rebound (w : Workbench σ) (e : Entity) (container : Option ObjectId) : Workbench σ :=
  ((rebind e container).run w).2

theorem run_rebind (w : Workbench σ) (e : Entity) (container : Option ObjectId) :
    (rebind e container).run w = (.ok (), w.rebound e container) := by
  unfold rebound rebind
  rw [Run.run_bind, Run.run_get]
  dsimp only
  cases w.formulas[e]? <;> rfl

/-- Only edges into the formula that is bound change. -/
theorem rebound_spec (hgraph : w.scheduler.graph.Sound) (e : Entity)
    (container : Option ObjectId) :
    ∃ graph : Graph,
      w.rebound e container = { w with scheduler := { w.scheduler with graph } } ∧ graph.Sound ∧
      ∀ p c, e ≠ c → (graph.Feeds p c ↔ w.scheduler.graph.Feeds p c) := by
  unfold rebound rebind
  rw [Run.run_bind, Run.run_get]
  dsimp only
  cases w.formulas[e]? with
  | none => exact ⟨_, rfl, hgraph, fun _ _ _ => .rfl⟩
  | some f =>
    exact ⟨_, rfl, hgraph.replaceProducers e (w.producers f container),
      fun p c hc => Graph.feeds_replaceProducers_of_ne hgraph _ hc⟩

/-- The workbench after some formulas are bound to a container and announced. -/
def rehoused (w : Workbench σ) (container : Option ObjectId) (p : Priority) (es : List Entity) :
    Workbench σ := es.foldl (fun w e => (w.rebound e container).announced e none p) w

theorem run_rehouse (w : Workbench σ) (container : Option ObjectId) (p : Priority)
    (es : List Entity) :
    (forIn es PUnit.unit fun e _ => do
      rebind e container
      let _ ← announce e none p
      return ForInStep.yield PUnit.unit : Edit σ PUnit).run w =
        (.ok ⟨⟩, w.rehoused container p es) := by
  refine Run.run_forIn w (fun e w => ?_) es
  rw [Run.run_bind, run_rebind]
  dsimp only
  rw [Run.run_bind, run_announce]
  rfl

/-- The lists of children that a move affects. -/
def moveAffects (x : ObjectId) (previous parent : Option ObjectId) : List Entity :=
  ChangeKind.hierarchy.affected ⟨x, Names.children⟩ (.hierarchy previous parent)

theorem mem_moveAffects {c : ObjectId} :
    (⟨c, Names.children⟩ : Entity) ∈ moveAffects x previous parent ↔
      c = x ∨ previous = some c ∨ parent = some c := by
  unfold moveAffects ChangeKind.affected
  simp [List.mem_eraseDups, Option.mem_toList]

/-- The workbench after a move was scheduled. -/
def moveScheduled (w : Workbench σ) (x : ObjectId) (previous parent : Option ObjectId)
    (p : Priority) : Workbench σ :=
  (w.invalidate (moveAffects x previous parent)).propagated
    ⟨x, .hierarchy, .hierarchy previous parent, p⟩

/-- The news of a move schedule it, then bind the formulas of its object and announce them. -/
theorem run_notifyMove (w : Workbench σ) (x : ObjectId) (previous parent : Option ObjectId)
    (p : Priority) :
    ((notifyChange x ChangeKind.hierarchy.name (.hierarchy previous parent) p).run w).2 =
      (w.moveScheduled x previous parent p).rehoused parent p (w.driven x) := by
  have hname : ChangeKind.ofName ChangeKind.hierarchy.name = .ok .hierarchy := by rfl
  have hpropagate : (propagate ⟨x, .hierarchy, .hierarchy previous parent, p⟩).run
      (w.invalidate (moveAffects x previous parent)) =
      (.ok w.scheduler.inbox.nextId, w.moveScheduled x previous parent p) := rfl
  unfold notifyChange
  rw [Run.run_bind, hname, run_lift_ok]
  dsimp only
  rw [Run.run_bind]
  simp only [ChangeKind.target, run_lift_ok]
  rw [Run.run_bind, Run.run_modify]
  dsimp only
  rw [Run.run_bind]
  unfold moveAffects at hpropagate
  rw [hpropagate]
  dsimp only
  rw [Run.run_bind, Run.run_get]
  dsimp only
  rw [Run.run_bind, run_rehouse]
  rfl

/-! ## What was asked for -/

/-- Moves of `x` were asked for with the priorities `ps`, and nothing was served since `base`. -/
structure Dragged (base : Workbench σ) (x : ObjectId) (ps : List Priority) (w : Workbench σ) :
    Prop where
  content : SameContent base w
  graph : w.scheduler.graph.Sound
  unread : w.scheduler.inbox.unread = []
  orderly : Orderly w.scheduler.queue [] w.scheduler.inbox.nextId
  /-- Only formulas consume. -/
  consumers : ∀ p c, w.scheduler.graph.Feeds p c → (base.formulas[c]?).isSome
  /-- Only edges into formulas of the object were taken away. -/
  edges : ∀ p c, c.object ≠ x → base.scheduler.graph.Feeds p c → w.scheduler.graph.Feeds p c
  all : w.scheduler.queue.All fun r =>
    (r.target = ⟨x, Names.children⟩ ∨ r.Beside fun e => (base.formulas[e]?).isSome) ∧
      r.priority ∈ ps

namespace Dragged

/-- Nothing was asked for yet. -/
theorem refl (hgraph : w.scheduler.graph.Sound)
    (horderly : Orderly w.scheduler.queue w.scheduler.inbox.unread w.scheduler.inbox.nextId)
    (hidle : w.scheduler.isIdle)
    (hconsumers : ∀ p c, w.scheduler.graph.Feeds p c → (w.formulas[c]?).isSome) (x : ObjectId) :
    Dragged w x [] w := by
  have hunread : w.scheduler.inbox.unread = [] := unread_of_isIdle hidle
  exact ⟨.refl w, hgraph, hunread, hunread ▸ horderly, hconsumers, fun _ _ _ h => h,
    all_of_isIdle hidle _⟩

/-- What follows from anything is driven by a formula. -/
theorem isSome_of_downstream (h : Dragged base x ps w) {roots : List Entity} {c : Entity}
    (hc : c ∈ w.scheduler.graph.downstream roots) : (base.formulas[c]?).isSome := by
  obtain ⟨q, hq⟩ := Graph.exists_feeds_of_mem_downstream h.graph hc
  exact h.consumers q c hq

/-- A change with one of the priorities is scheduled. -/
theorem schedule (h : Dragged base x ps w) (hw : SameContent w w') {c : Submission}
    (hid : c.id = w.scheduler.inbox.nextId) (hkind : c.kind ≠ .recompute)
    (hc : c.target = ⟨x, Names.children⟩ ∨
      c.request.Beside fun e => (base.formulas[e]?).isSome)
    (hp : c.priority ∈ ps)
    (hscheduler : w'.scheduler = w.scheduler.accepted.schedule c) :
    Dragged base x ps w' ∧ ∀ e, w'.scheduler.Waits e ↔
      c.target = e ∨ e ∈ w.scheduler.graph.downstream c.request.affected ∨ w.scheduler.Waits e := by
  have horderly : Orderly w.scheduler.accepted.queue [c] w.scheduler.accepted.inbox.nextId :=
    h.orderly.accept hid hkind (.refl _)
  have hstable := (((Request.stable_beside fun e => (base.formulas[e]?).isSome).or_target
    ⟨x, Names.children⟩).at c.priority).and (Request.stableAt_mem hp)
  have hall := all_schedule (s := w.scheduler.accepted) hstable horderly h.all ⟨hc, hp⟩
  have horderly' := orderly_schedule (s := w.scheduler.accepted) horderly
  obtain ⟨queue, next, superseded, heq, -, hwaits, -⟩ :=
    schedule_spec (s := w.scheduler.accepted) horderly.toNumbered
  have hsame : w'.scheduler = { w.scheduler with
      queue, superseded, inbox := { w.scheduler.inbox with nextId := next } } :=
    hscheduler.trans heq
  rw [heq] at hall horderly'
  refine ⟨⟨h.content.trans hw, ?_, ?_, ?_, ?_, ?_, ?_⟩, fun e => ?_⟩ <;> rw [hsame]
  · exact h.graph
  · exact h.unread
  · exact horderly'
  · exact h.consumers
  · exact h.edges
  · exact hall
  · exact hwaits e

/-- A formula of the object is bound again. -/
theorem rebound (h : Dragged base x ps w) (he : (base.formulas[e]?).isSome) (hx : e.object = x)
    (container : Option ObjectId) :
    ∃ graph : Graph,
      w.rebound e container = { w with scheduler := { w.scheduler with graph } } ∧
      Dragged base x ps { w with scheduler := { w.scheduler with graph } } := by
  obtain ⟨graph, heq, hgraph, hedges⟩ := rebound_spec h.graph e container
  refine ⟨graph, heq, h.content.trans (.rescheduled _ _), hgraph, h.unread, h.orderly,
    fun q c hc => ?_, fun q c hc hq => ?_, h.all⟩
  · by_cases hce : e = c
    · exact hce ▸ he
    · exact h.consumers q c ((hedges q c hce).1 hc)
  · exact (hedges q c fun heq => hc (heq ▸ hx)).2 (h.edges q c hc hq)

/-- A formula of the object is bound again and announced, which puts it behind the move. -/
theorem announce (h : Dragged base x ps w) (he : (base.formulas[e]?).isSome) (hx : e.object = x)
    (hplain : Path.Plain e.property) (hundriven : base.formulas[Entity.mk x Names.children]? = none)
    (hp : p ∈ ps) (hm : m.target = ⟨x, Names.children⟩) (hmp : m.priority = p)
    (hturn : w.scheduler.queue.Turn m early hurry) (container : Option ObjectId) :
    Dragged base x ps ((w.rebound e container).announced e none p) ∧
      ((w.rebound e container).announced e none p).scheduler.queue.Turn m
        (fun y => early y ∧ y ≠ e) hurry ∧
      ∀ y, y = e ∨ w.scheduler.Waits y →
        ((w.rebound e container).announced e none p).scheduler.Waits y := by
  obtain ⟨graph, heq, hbound⟩ := h.rebound he hx container
  let c : Submission :=
    ⟨w.scheduler.inbox.nextId, e, .property, .property e.property none, p⟩
  have hkind : c.kind ≠ .recompute := by simp [c]
  have hbeside : c.request.Beside fun e => (base.formulas[e]?).isSome :=
    Request.beside_property rfl rfl hplain.2
  rw [heq]
  obtain ⟨hdragged, hwaits⟩ := hbound.schedule (SameContent.announced _ e none p) (c := c) rfl
    hkind (.inr hbeside) hp rfl
  refine ⟨hdragged, ?_, fun y hy => (hwaits y).2 (hy.imp Eq.symm .inr)⟩
  let accepted := accepted { w.scheduler with graph }
  have horderly : Orderly accepted.queue [c] accepted.inbox.nextId :=
    hbound.orderly.accept rfl hkind (.refl _)
  refine (InTurn.schedule (s := accepted) horderly hturn ?_
    (fun hlt => absurd (hmp ▸ hlt) (Nat.lt_irrefl _)) fun y hy => ?_).turn
  · intro htarget
    have htarget : e = m.target := htarget
    rw [htarget, hm, hundriven] at he
    cases he
  · rintro rfl
    have hsome := hbound.isSome_of_downstream hy
    rw [hm, hundriven] at hsome
    cases hsome

/-- All formulas of the object are announced behind the move. -/
theorem rehouse (hplain : ∀ {e : Entity}, (base.formulas[e]?).isSome → Path.Plain e.property)
    (hundriven : base.formulas[Entity.mk x Names.children]? = none) (hp : p ∈ ps)
    (hm : m.target = ⟨x, Names.children⟩) (hmp : m.priority = p) (container : Option ObjectId)
    {es : List Entity} (hes : ∀ e ∈ es, (base.formulas[e]?).isSome ∧ e.object = x)
    (h : Dragged base x ps w) (hturn : w.scheduler.queue.Turn m early hurry) :
    Dragged base x ps (w.rehoused container p es) ∧
      (w.rehoused container p es).scheduler.queue.Turn m (fun y => early y ∧ y ∉ es) hurry ∧
      ∀ y, y ∈ es ∨ w.scheduler.Waits y → (w.rehoused container p es).scheduler.Waits y := by
  induction es generalizing w early with
  | nil => exact ⟨h, hturn.mono fun y hy => ⟨hy, List.not_mem_nil⟩, by simp [rehoused]⟩
  | cons e es ih =>
    obtain ⟨⟨he, hx⟩, hrest⟩ := List.forall_mem_cons.1 hes
    obtain ⟨hfirst, hturn', hwaits⟩ :=
      h.announce he hx (hplain he) hundriven hp hm hmp hturn container
    obtain ⟨hdragged, hturn'', hwaits'⟩ := ih hrest hfirst hturn'
    refine ⟨hdragged, hturn''.mono fun y hy => ⟨hy.1.1, ?_⟩, fun y hy => hwaits' y ?_⟩
    · simp [hy.1.2, hy.2]
    · rw [List.mem_cons] at hy
      rcases hy with (hy | hy) | hy
      · exact .inr (hwaits y (.inl hy))
      · exact .inl hy
      · exact .inr (hwaits y (.inr hy))

theorem mem_driven : e ∈ w.driven x ↔ (w.formulas[e]?).isSome ∧ e.object = x := by
  unfold driven
  rw [List.mem_filter, decide_eq_true_eq, Table.mem_keys_iff]

/-- One more move is asked for. Ahead of it are at most requests of the same priority that were
there before, and none about formulas of the object. Those formulas wait, and so does what follows
from the lists of children that the move affects. -/
theorem move (hplain : ∀ {e : Entity}, (base.formulas[e]?).isSome → Path.Plain e.property)
    (hundriven : base.formulas[Entity.mk x Names.children]? = none) (h : Dragged base x ps w)
    (hhurry : ∀ q ∈ ps, q < p → hurry) (previous parent : Option ObjectId) :
    let w' := ((notifyChange x ChangeKind.hierarchy.name (.hierarchy previous parent) p).run w).2
    Dragged base x (ps ++ [p]) w' ∧
    (∃ m : Request, m.Moves x parent ∧ m.affected = moveAffects x previous parent ∧
      m.priority = p ∧
      w'.scheduler.queue.Turn m (fun e => p ∈ ps ∧ e ∉ base.driven x) hurry) ∧
    ∀ e, w.scheduler.Waits e ∨ e ∈ base.driven x ∨
        (e.object ≠ x ∧ e ∉ moveAffects x previous parent ∧
          ∃ q ∈ moveAffects x previous parent, base.scheduler.graph.Feeds q e) →
      w'.scheduler.Waits e := by
  intro w'
  have hw' : w' = (w.moveScheduled x previous parent p).rehoused parent p (w.driven x) :=
    run_notifyMove w x previous parent p
  have hdriven : w.driven x = base.driven x := by
    unfold driven
    rw [h.content.formulas]
  let c : Submission := ⟨w.scheduler.inbox.nextId, ⟨x, Names.children⟩, .hierarchy,
    .hierarchy previous parent, p⟩
  have hkind : c.kind ≠ .recompute := by simp [c]
  have hmem : p ∈ ps ++ [p] := List.mem_append_right _ (List.mem_singleton_self p)
  have hwider : Dragged base x (ps ++ [p]) w :=
    { h with all := fun t r hr => ⟨(h.all t r hr).1, List.mem_append_left _ (h.all t r hr).2⟩ }
  have hsame : SameContent w (w.moveScheduled x previous parent p) :=
    (SameContent.invalidate w _).trans (.rescheduled _ _)
  obtain ⟨hscheduled, hwaits⟩ :=
    hwider.schedule hsame (c := c) rfl hkind (.inl rfl) hmem rfl
  have horderly : Orderly w.scheduler.accepted.queue [c] w.scheduler.accepted.inbox.nextId :=
    h.orderly.accept rfl hkind (.refl _)
  have hturn : (w.moveScheduled x previous parent p).scheduler.queue.Turn c.request
      (fun _ => p ∈ ps) hurry := by
    refine (InTurn.start (s := w.scheduler.accepted) horderly
      (fun t r hr hlt => hhurry _ (h.all t r hr).2 hlt) fun y hy => ?_).turn.mono ?_
    · rintro rfl
      have hsome := h.isSome_of_downstream hy
      rw [hundriven] at hsome
      cases hsome
    · rintro e ⟨-, r, hr, rfl⟩
      exact (h.all e r hr).2
  obtain ⟨hdragged, hturn', hwaits'⟩ := rehouse hplain hundriven hmem (m := c.request) rfl rfl
    parent (fun e he => mem_driven.1 he) hscheduled hturn
  rw [hw', hdriven]
  refine ⟨hdragged, ⟨c.request, ⟨rfl, rfl, previous, rfl⟩, rfl, rfl, hturn'⟩, fun e he => ?_⟩
  rcases he with he | he | ⟨hx, hne, q, hq, hfeeds⟩
  · exact hwaits' e (.inr ((hwaits e).2 (.inr (.inr he))))
  · exact hwaits' e (.inl he)
  · refine hwaits' e (.inr ((hwaits e).2 (.inr (.inl ?_))))
    exact (Graph.mem_downstream_iff h.graph _ e).2 ⟨hne, q, hq, .single (h.edges q e hx hfeeds)⟩

/-- If all formulas agreed before the moves, the last of them is impending. The formulas of the
object wait, and so does what reads a list of children that changes and that it does not name. -/
theorem impending (h : Dragged base x ps w) (hbase : base.Grounded)
    (hagrees : ∀ {e : Entity} {f : Formula}, base.formulas[e]? = some f → base.Agrees e f)
    (hother : x ≠ Entity.variableOwner) (hsome : (base.scene.get? x).isSome)
    (hundriven : base.formulas[Entity.mk x Names.children]? = none) (hm : m.Moves x parent)
    (hturn : w.scheduler.queue.Turn m early hurry)
    (hedges : w.EdgesAt fun y => if y = x then parent else base.containerOf? y)
    (hwaits : ∀ {e : Entity} {f : Formula}, base.formulas[e]? = some f → base.Shifts x m f →
      w.scheduler.Waits e) :
    Impending (fun e => (base.formulas[e]?).isSome)
      (fun e => (hurry ∨ early e) ∧ ∃ f, base.formulas[e]? = some f ∧ base.Shifts x m f) early hurry
      (fun y => if y = x then parent else base.containerOf? y) x m w := by
  have hshape : w.scene.objects.shape = base.scene.objects.shape :=
    congrArg ObjectTable.shape h.content.objects
  have hcontainer : ∀ y, base.containerOf? y = w.containerOf? y := by
    intro y
    rw [containerOf?, containerOf?, h.content.objects]
  refine ⟨⟨hbase.same h.content, h.graph, h.unread, fun hf => ?_, hedges⟩, ⟨h.orderly, hturn⟩, ?_,
    hother, ?_, fun t r hr => ?_, ?_, fun y hy => ?_, fun {e f} hf hshifts hexposed => ?_,
    fun {e f} hf => ?_⟩
  · rw [← h.content.formulas, hf]
    rfl
  · rwa [if_pos rfl]
  · rwa [Scene.get?, h.content.objects]
  · rw [hm.target]
    exact (h.all t r hr).1
  · rw [hm.target, hundriven]
    simp
  · rw [if_neg hy, hcontainer]
  · rw [h.content.formulas] at hf
    exact ⟨hexposed, f, hf, (shifts_congr hshape rfl).1 hshifts⟩
  · rw [h.content.formulas] at hf
    by_cases hshifts : base.Shifts x m f
    · exact .inr (.inl (hwaits hf hshifts))
    · exact .inr (.inr ⟨mt (shifts_congr hshape rfl).1 hshifts,
        h.content.agrees hbase hf (hagrees hf)⟩)

end Dragged

end Workbench

end Parametric
