import Parametric.Proofs.Workbench.Asked
import Parametric.Proofs.Workbench.Dragged
import Parametric.Proofs.Workbench.Frame

/-!
# Moves that are displaced

A move waits under the list of children of its object. News without a payload say that a move was
already made, and take the place of whatever waits under the same list. Removing an object tells its
container so; hence a move of the container that was asked for and not served yet is lost. As long
as that does not happen and nothing else is asked for under the same key, the object is on its way
to its new container or has come to it (`Workbench.OnTheWay`, `Workbench.Staying`); when nothing
waits any more it is there (`move_survives_unless_child_removed`).
-/

namespace Parametric

namespace Request

variable {x : ObjectId} {parent : Option ObjectId} {r : Request}

/-- A request that moves `x` nowhere. -/
def Stays (x : ObjectId) (r : Request) : Prop :=
  r.kind = .hierarchy → r.target.object = x →
    ∀ previous parent, r.payload ≠ .hierarchy previous parent

theorem stable_stays (x : ObjectId) : Stable (Stays x) := by
  refine ⟨fun r hr h => ?_, fun r priority payload hpayload hr hkind hx previous parent => ?_⟩
  · rw [hr] at h
    cases h
  · unfold absorb
    dsimp only
    split
    · cases payload <;> cases hpayload
      nofun
    · exact hr hkind hx previous parent

theorem Moves.not_stays (h : r.Moves x parent) : ¬ r.Stays x := by
  intro hstays
  obtain ⟨previous, hpayload⟩ := h.payload
  exact hstays h.kind (by rw [h.target]) previous parent hpayload

theorem Moves.absorb (h : r.Moves x parent) (priority : Priority) (payload : Payload) :
    (r.absorb priority payload).Moves x parent := by
  obtain ⟨previous, hpayload⟩ := h.payload
  refine ⟨h.target, h.kind, previous, ?_⟩
  simp [Request.absorb, hpayload, Payload.isRecompute]

/-- A change that is asked for moves an object only under the list of its children. -/
theorem target_or_stays {c : Change} {target : Entity} {id : RequestId}
    (htarget : c.kind.target c.object c.payload = .ok target) :
    target = ⟨x, Names.children⟩ ∨
      Stays x ⟨id, id, target, c.kind, c.payload, c.priority, .queued⟩ := by
  by_cases hmoves : c.kind = .hierarchy ∧ target.object = x
  · obtain ⟨hkind, rfl⟩ := hmoves
    left
    rw [hkind] at htarget
    cases hpayload : c.payload <;> rw [hpayload] at htarget <;> cases htarget <;> rfl
  · exact .inr fun hkind hx => absurd ⟨hkind, hx⟩ hmoves

/-- A request that does not move an object leaves all of it but its properties. -/
theorem Stays.bare_revise (h : r.Stays x) (hx : r.target.object = x) (o : Object) :
    (r.revise o).bare = o.bare := by
  rw [revise_of_edits fun hkind => h hkind hx]
  exact o.bare_edited r.edits

end Request

namespace Workbench

open Scheduler

variable {σ : Type} {w w' : Workbench σ} {functions : Registry σ} {settings : EvaluationSettings}
  {x : ObjectId} {parent place : Option ObjectId} {r : Request} {op : Operation}

/-! ## An object but for its properties -/

/-- An object is in neither of two scenes, or in both and the same but for its properties. -/
def SameBare (x : ObjectId) (w w' : Workbench σ) : Prop :=
  (w'.scene.get? x).map Object.bare = (w.scene.get? x).map Object.bare

namespace SameBare

theorem containerOf? (h : SameBare x w w') : w'.containerOf? x = w.containerOf? x := by
  have hplace : ∀ w : Workbench σ,
      w.containerOf? x = ((w.scene.get? x).map Object.bare).bind Object.container := by
    intro w
    show (w.scene.get? x).bind Object.container = _
    cases w.scene.get? x <;> rfl
  rw [hplace, hplace, h]

theorem isSome (h : SameBare x w w') : (w'.scene.get? x).isSome = (w.scene.get? x).isSome := by
  rw [← Option.isSome_map, h, Option.isSome_map]

theorem same (h : SameContent w w') : SameBare x w w' := by
  unfold SameBare Scene.get?
  rw [h.objects]

theorem effect {result : Except ApplyError Outcome} (h : Effect w r result w')
    (hkeyed : w.scene.objects.Keyed) (hr : r.Stays x) : SameBare x w w' := by
  unfold SameBare
  rcases h.objects hkeyed x with heq | ⟨hx, ⟨heq, -⟩ | ⟨-, v, heq⟩⟩
  · rw [heq]
  · rw [heq, Option.map_map]
    exact congrArg (Option.map · _) (funext (hr.bare_revise hx))
  · rw [heq, Option.map_map]
    exact congrArg (Option.map · _) (funext fun o => o.bare_set v _)

theorem run (hs : w.scheduler.Sound) (hop : op ≠ .act .drain)
    (hadd : ∀ o, op = .addObject o → o.id ≠ x) (hremove : op ≠ .removeObject x) :
    SameBare x w (op.run w) := by
  unfold SameBare
  rcases (frame_run hs hop).objects x hadd hremove with heq | ⟨property, v, -, heq⟩
  · rw [heq]
  · rw [heq, Option.map_map]
    exact congrArg (Option.map · _) (funext fun o => o.bare_set v _)

end SameBare

/-! ## Operations beside a move -/

/-- An operation that neither adds nor removes `x`, and that asks for nothing under the list of its
children, unless it removes one of them. -/
def Operation.Spares (x : ObjectId) : Operation → Prop
  | act (.setFormula object property _) | act (.setValue object property _ _) =>
    (⟨object, property⟩ : Entity) ≠ ⟨x, Names.children⟩
  | act (.notifyProperty object payload _) =>
    ChangeKind.property.target object payload ≠ .ok ⟨x, Names.children⟩
  | notify object kind payload _ =>
    kind.target object payload ≠ .ok ⟨x, Names.children⟩ ∧ (kind = .hierarchy → object ≠ x)
  | submit c => c.kind.target c.object c.payload ≠ .ok ⟨x, Names.children⟩
  | addObject o => o.id ≠ x
  | removeObject id => id ≠ x
  | act (.clearFormula ..) | act (.defineVariable ..) | act (.updateVariable ..)
  | act (.deleteVariable ..) | act .drain | evaluate .. => True

namespace Operation.Spares

variable {c : Change} {target : Entity}

theorem adds (h : op.Spares x) : ∀ o, op = .addObject o → o.id ≠ x := by
  rintro o rfl
  exact h

theorem removes (h : op.Spares x) : op ≠ .removeObject x := by
  rintro rfl
  exact h rfl

/-- Nothing that is asked for moves the object. -/
theorem stays (h : op.Spares x) (hc : op.Asks w c) {id : RequestId}
    (htarget : c.kind.target c.object c.payload = .ok target) :
    Request.Stays x ⟨id, id, target, c.kind, c.payload, c.priority, .queued⟩ := by
  intro (hkind : c.kind = .hierarchy) (hx : target.object = x) previous parent
    (hpayload : c.payload = .hierarchy previous parent)
  have hobject : c.object = x := (ChangeKind.object_target htarget).symm.trans hx
  have hmoves : c.kind.target c.object c.payload = .ok ⟨x, Names.children⟩ := by
    rw [hkind, hpayload, hobject]
    rfl
  cases op with
  | act a =>
    cases a with
    | setFormula | defineVariable | updateVariable | deleteVariable =>
      obtain ⟨v, rfl⟩ := hc
      cases hkind
    | setValue | notifyProperty =>
      cases (show c = _ from hc)
      cases hkind
    | clearFormula | drain => exact hc
  | notify object kind payload priority =>
    rcases hc with rfl | ⟨-, name, rfl⟩
    · exact h.1 hmoves
    · cases hkind
  | submit c' =>
    cases (show c = c' from hc)
    exact h hmoves
  | evaluate => exact hc
  | addObject o =>
    rcases hc with rfl | ⟨e, -, rfl⟩
    · exact h hobject
    · cases hkind
  | removeObject id =>
    rcases hc with ⟨name, rfl⟩ | ⟨parent, -, rfl⟩
    · cases hkind
    · cases hpayload

/-- Nothing is asked for under the list of children, if no formula drives it and no child is
removed. -/
theorem other (h : op.Spares x) (hx : x ≠ Entity.variableOwner)
    (hundriven : w.formulas[Entity.mk x Names.children]? = none)
    (hkept : ∀ id, op = .removeObject id → w.containerOf? id ≠ some x) (hc : op.Asks w c) :
    c.kind.target c.object c.payload ≠ .ok ⟨x, Names.children⟩ := by
  intro htarget
  cases op with
  | act a =>
    cases a with
    | setFormula object property source =>
      obtain ⟨v, rfl⟩ := hc
      exact h (Except.ok.inj htarget)
    | setValue object property v priority =>
      cases (show c = _ from hc)
      exact h (Except.ok.inj htarget)
    | defineVariable | updateVariable | deleteVariable =>
      obtain ⟨v, rfl⟩ := hc
      exact hx (congrArg Entity.object (Except.ok.inj htarget)).symm
    | notifyProperty object payload priority =>
      cases (show c = _ from hc)
      exact h htarget
    | clearFormula | drain => exact hc
  | notify object kind payload priority =>
    rcases hc with rfl | ⟨hkind, name, rfl⟩
    · exact h.1 htarget
    · exact h.2 hkind (congrArg Entity.object (Except.ok.inj htarget))
  | submit c' =>
    cases (show c = c' from hc)
    exact h htarget
  | evaluate => exact hc
  | addObject o =>
    rcases hc with rfl | ⟨e, he, rfl⟩
    · exact h (congrArg Entity.object (Except.ok.inj htarget))
    · have heq : e = ⟨x, Names.children⟩ := Except.ok.inj htarget
      rw [heq, hundriven] at he
      cases he
  | removeObject id =>
    rcases hc with ⟨name, rfl⟩ | ⟨parent, hparent, rfl⟩
    · exact h (congrArg Entity.object (Except.ok.inj htarget))
    · have heq : parent = x := congrArg Entity.object (Except.ok.inj htarget)
      exact hkept id rfl (heq ▸ hparent)

end Operation.Spares

/-- Every operation asks for moves only under lists of children. -/
theorem heeds_moves_run (hop : op ≠ .act .drain)
    (h : w.scheduler.Heeds fun r => r.target = ⟨x, Names.children⟩ ∨ r.Stays x) :
    (op.run w).scheduler.Heeds fun r => r.target = ⟨x, Names.children⟩ ∨ r.Stays x :=
  Operation.keeps (lasting_heeds ((Request.stable_stays x).or_target _)
    fun _ htarget => Request.target_or_stays htarget) hop h

/-! ## On the way and there -/

/-- An object lies in `place`, and a move of it into `parent` waits. -/
structure OnTheWay (functions : Registry σ) (settings : EvaluationSettings) (x : ObjectId)
    (parent place : Option ObjectId) (w : Workbench σ) : Prop where
  standing : w.Standing functions settings
  there : (w.scene.get? x).isSome
  undriven : w.formulas[Entity.mk x Names.children]? = none
  awaits : w.scheduler.Awaits ⟨x, Names.children⟩ (·.Moves x parent)
  others : w.scheduler.Heeds fun r => r.target = ⟨x, Names.children⟩ ∨ r.Stays x
  place : w.containerOf? x = place

/-- An object lies in `place`, and nothing moves it. -/
structure Staying (functions : Registry σ) (settings : EvaluationSettings) (x : ObjectId)
    (place : Option ObjectId) (w : Workbench σ) : Prop where
  standing : w.Standing functions settings
  heeds : w.scheduler.Heeds (·.Stays x)
  place : w.containerOf? x = place

theorem Staying.run (h : Staying functions settings x place w) (hop : op.Spares x)
    (hdrain : op ≠ .act .drain) : Staying functions settings x place (op.run w) where
  standing := standing_run h.standing h.heeds.sound op
  heeds := Operation.keeps (lasting_heeds (Request.stable_stays x)
    fun hc htarget => hop.stays hc htarget) hdrain h.heeds
  place := (SameBare.run h.heeds.sound hdrain hop.adds hop.removes).containerOf?.trans h.place

namespace OnTheWay

/-- The move keeps waiting unless a child of the object is removed. -/
theorem run (h : OnTheWay functions settings x parent place w) (hx : x ≠ Entity.variableOwner)
    (hop : op.Spares x) (hdrain : op ≠ .act .drain)
    (hkept : ∀ id, op = .removeObject id → w.containerOf? id ≠ some x) :
    OnTheWay functions settings x parent place (op.run w) := by
  have hsame := SameBare.run h.awaits.sound hdrain hop.adds hop.removes
  refine ⟨standing_run h.standing h.awaits.sound op, hsame.isSome.trans h.there,
    (frame_run h.awaits.sound hdrain).formulas _ ?_ h.undriven, ?_, ?_,
    hsame.containerOf?.trans h.place⟩
  · rintro source rfl
    exact hop rfl
  · exact Operation.keeps (lasting_awaits (fun r priority payload _ hr => hr.absorb _ _)
      (hop.other hx h.undriven hkept)) hdrain h.awaits
  · exact heeds_moves_run hdrain h.others

/-- The news of a child that was removed take the place of the move. -/
theorem displaced (h : OnTheWay functions settings x parent place w) {y : ObjectId} (hy : y ≠ x)
    (hchild : w.containerOf? y = some x) :
    Staying functions settings x place ((Operation.removeObject y).run w) := by
  have hdrain : Operation.removeObject y ≠ .act .drain := nofun
  have hothers : ((Operation.removeObject y).run w).scheduler.Heeds
      fun r => r.target = ⟨x, Names.children⟩ ∨ r.Stays x := heeds_moves_run hdrain h.others
  obtain ⟨o, ho, hcontainer⟩ := Option.bind_eq_some_iff.1 hchild
  have hremoved := removed_removeObject h.awaits.sound ho
  obtain ⟨m, hm, -, hpayload⟩ := hremoved.told x hcontainer
  refine ⟨standing_run h.standing h.awaits.sound _, ⟨hremoved.sound, fun t r hr => ?_,
    fun c hc => ?_⟩, ?_⟩
  · rcases hothers.queued t r hr with htarget | hstays
    · -- Under the list of children, only the news wait.
      have ht : t = ⟨x, Names.children⟩ :=
        (hremoved.sound.numbered.indexed.target_eq hr).symm.trans htarget
      subst ht
      obtain rfl := Option.some.inj (hr.symm.trans hm)
      rw [Request.Stays, hpayload]
      nofun
    · exact hstays
  · refine (hothers.unread c hc).resolve_left ?_
    exact h.awaits.unread c (hremoved.unread ▸ hc)
  · exact (SameBare.run h.awaits.sound hdrain nofun fun heq => hy
      (Operation.removeObject.inj heq)).containerOf?.trans h.place

end OnTheWay

/-! ## Drains -/

/-- An object is on its way to `parent`, or it stays where it may be. -/
def Underway (functions : Registry σ) (settings : EvaluationSettings) (x : ObjectId)
    (parent place : Option ObjectId) (ends : Option ObjectId → Prop) (w : Workbench σ) : Prop :=
  OnTheWay functions settings x parent place w ∨ ∃ p, ends p ∧ Staying functions settings x p w

section

variable {ends : Option ObjectId → Prop} {queue : Queue} {result : Except ApplyError Outcome}

theorem Staying.serve (h : Staying functions settings x place w)
    (hunread : w.scheduler.inbox.unread = []) (hpop : w.scheduler.queue.pop = (some r, queue))
    (heffect : Effect { w with scheduler := { w.scheduler with queue } } r result w') :
    Staying functions settings x place w' := by
  obtain ⟨hr, hpopped⟩ := (h.heeds.serves hunread).pop hpop
  have hstanding : Standing functions settings
      { w with scheduler := { w.scheduler with queue } } := h.standing.same (.rescheduled _ _)
  refine ⟨hstanding.effect heffect, heffect.scheduler ▸ hpopped.heeds, ?_⟩
  exact (SameBare.effect heffect hstanding.keyed hr).containerOf?.trans h.place

/-- When the move is served the object comes to its new container. -/
theorem OnTheWay.arrive (h : OnTheWay functions settings x parent place w)
    (hx : x ≠ Entity.variableOwner) (hunread : w.scheduler.inbox.unread = [])
    (hpop : w.scheduler.queue.pop = (some r, queue)) (hr : r.target = ⟨x, Names.children⟩)
    (heffect : Effect { w with scheduler := { w.scheduler with queue } } r result w') :
    Staying functions settings x parent w' := by
  obtain ⟨hwaits, hindexed, hpendingFor⟩ := h.awaits.sound.numbered.indexed.pop_some hpop
  obtain ⟨m, hm, hmoves⟩ := h.awaits.waiting
  obtain rfl : r = m := Option.some.inj ((hr ▸ hwaits).symm.trans hm)
  have hstanding : Standing functions settings
      { w with scheduler := { w.scheduler with queue } } := h.standing.same (.rescheduled _ _)
  have hpopped : { w.scheduler with queue }.Heeds (·.Stays x) := by
    refine ⟨(Drain.pop_spec h.awaits.sound hpop).1, fun t r' hr' => ?_, by simp [hunread]⟩
    have htarget : r'.target = t := hindexed.target_eq hr'
    rw [hpendingFor] at hr'
    split at hr'
    · cases hr'
    next hne =>
      refine (h.others.queued t r' hr').resolve_left fun heq => hne ?_
      exact hr.trans (heq.symm.trans htarget)
  have hevaluates : ¬ r.Evaluates := by
    rintro (hkind | hkind) <;> rw [hmoves.kind] at hkind <;> cases hkind
  refine ⟨hstanding.effect heffect, heffect.scheduler ▸ hpopped, ?_⟩
  obtain ⟨previous, hpayload⟩ := hmoves.payload
  obtain ⟨outcome, scene, hchange, hmoved⟩ := Scene.moved_applyChange h.standing.keyed h.there
    (by rw [hr]) hmoves.kind hpayload
  cases heffect with
  | noted _ _ _ hrefused =>
    have hvariable : ¬ r.target.isVariable := by
      rw [hr]
      exact fun hvariable => hx (of_decide_eq_true hvariable)
    obtain ⟨e, he⟩ := hrefused hvariable fun h => hevaluates (.inl h)
    cases he.symm.trans hchange
  | changed _ _ _ hchanged =>
    cases hchanged.symm.trans hchange
    exact (hmoved.containerOf? x).trans (if_pos rfl)
  | failed hr | computed hr => exact absurd hr hevaluates

theorem OnTheWay.serve (h : OnTheWay functions settings x parent place w)
    (hunread : w.scheduler.inbox.unread = []) (hpop : w.scheduler.queue.pop = (some r, queue))
    (hr : r.target ≠ ⟨x, Names.children⟩)
    (heffect : Effect { w with scheduler := { w.scheduler with queue } } r result w') :
    OnTheWay functions settings x parent place w' := by
  obtain ⟨hstays, hpopped⟩ := (h.others.serves hunread).pop hpop
  have hstanding : Standing functions settings
      { w with scheduler := { w.scheduler with queue } } := h.standing.same (.rescheduled _ _)
  have hsame := SameBare.effect heffect hstanding.keyed (hstays.resolve_left hr)
  exact ⟨hstanding.effect heffect, hsame.isSome.trans h.there, heffect.undriven h.undriven,
    heffect.scheduler ▸ h.awaits.pop hpop hr, heffect.scheduler ▸ hpopped.heeds,
    hsame.containerOf?.trans h.place⟩

namespace Underway

theorem sound (h : Underway functions settings x parent place ends w) : w.scheduler.Sound := by
  rcases h with h | ⟨p, -, h⟩
  · exact h.awaits.sound
  · exact h.heeds.sound

/-- Requests may be scheduled when what is known of them stays true. -/
theorem rescheduled (h : Underway functions settings x parent place ends w)
    (hsame : SameContent w w')
    (hawaits : ∀ {Q : Request → Prop},
      (∀ r priority payload, payload.isRecompute → Q r → Q (r.absorb priority payload)) →
      w.scheduler.Awaits ⟨x, Names.children⟩ Q → w'.scheduler.Awaits ⟨x, Names.children⟩ Q)
    (hheeds : ∀ {P : Request → Prop}, Request.Stable P → w.scheduler.Heeds P →
      w'.scheduler.Heeds P) : Underway functions settings x parent place ends w' := by
  have hplace : w'.containerOf? x = w.containerOf? x := (SameBare.same hsame).containerOf?
  rcases h with h | ⟨p, hp, h⟩
  · exact .inl ⟨h.standing.same hsame, (SameBare.same hsame).isSome.trans h.there,
      hsame.formulas ▸ h.undriven, hawaits (fun r priority payload _ hr => hr.absorb _ _) h.awaits,
      hheeds ((Request.stable_stays x).or_target _) h.others, hplace.trans h.place⟩
  · exact .inr ⟨p, hp, h.standing.same hsame, hheeds (Request.stable_stays x) h.heeds,
      hplace.trans h.place⟩

theorem serve (h : Underway functions settings x parent place ends w)
    (hx : x ≠ Entity.variableOwner) (hends : ends parent) (hunread : w.scheduler.inbox.unread = [])
    (hpop : w.scheduler.queue.pop = (some r, queue))
    (heffect : Effect { w with scheduler := { w.scheduler with queue } } r result w') :
    Underway functions settings x parent place ends w' := by
  rcases h with h | ⟨p, hp, h⟩
  · by_cases hr : r.target = ⟨x, Names.children⟩
    · exact .inr ⟨parent, hends, h.arrive hx hunread hpop hr heffect⟩
    · exact .inl (h.serve hunread hpop hr heffect)
  · exact .inr ⟨p, hp, h.serve hunread hpop heffect⟩

theorem course (hx : x ≠ Entity.variableOwner) (hends : ends parent) :
    Course fun w : Workbench σ => w.scheduler.inbox.unread = [] ∧
      Underway functions settings x parent place ends w where
  sound h := h.2.sound
  unread h := h.1
  same := by
    intro w w' ⟨hunread, h⟩ hsame halike
    refine ⟨halike.unread.trans hunread, h.rescheduled hsame (fun _ hawaits => ?_)
      fun _ hheeds => ?_⟩
    · obtain ⟨m, hm, hQ⟩ := hawaits.waiting
      exact ⟨halike.sound, ⟨m, (halike.pendingFor _).trans hm, hQ⟩, halike.unread ▸ hawaits.unread⟩
    · exact ((hheeds.serves hunread).alike halike).heeds
  failed := fun ⟨hunread, h⟩ hpop heffect =>
    ⟨heffect.scheduler ▸ hunread, h.serve hx hends hunread hpop heffect⟩
  applied := by
    intro w w' r queue outcome ⟨hunread, h⟩ hpop heffect
    have hserved := h.serve hx hends hunread hpop heffect
    have hquiet := Quiet.cascade hserved.sound r outcome
    have hnone : w'.scheduler.inbox.unread = [] := heffect.scheduler ▸ hunread
    refine ⟨hquiet.unread.trans hnone, hserved.rescheduled (.rescheduled _ _)
      (fun hQ hawaits => hawaits.cascade hQ r outcome) fun hP hheeds => ?_⟩
    exact ((hheeds.serves hnone).cascade hP r outcome).heeds

/-- A drain brings the object to its new container, or leaves it on its way. -/
theorem drain (h : Underway functions settings x parent place ends w)
    (hx : x ≠ Entity.variableOwner) (hends : ends parent) :
    Underway functions settings x parent place ends w.drain.2 := by
  refine ((course hx hends).drain_unread h.sound ⟨(readInbox_spec h.sound).2.2.1, ?_⟩).2
  exact h.rescheduled (.rescheduled _ _) (fun hQ hawaits => hawaits.readInbox hQ)
    fun hP hheeds => (hheeds.readInbox hP).heeds

/-- An object that is on its way when nothing waits is there. -/
theorem arrived (h : Underway functions settings x parent place ends w)
    (hidle : w.scheduler.isIdle) : ends (w.containerOf? x) := by
  rcases h with h | ⟨p, hp, h⟩
  · obtain ⟨m, hm, -⟩ := h.awaits.waiting
    refine absurd ?_ (not_waits_of_isIdle hidle ⟨x, Names.children⟩)
    rw [Waits, hm]
    rfl
  · exact h.place ▸ hp

/-- The move is displaced only when a child of the object is removed while it waits. -/
theorem run (h : Underway functions settings x parent place ends w) (hx : x ≠ Entity.variableOwner)
    (hends : ends parent) (hop : op.Spares x)
    (hremoval : ∀ y, op = .removeObject y → w.containerOf? y = some x →
      w.scheduler.WaitsAs ⟨x, Names.children⟩ (·.Moves x parent) → ends place) :
    Underway functions settings x parent place ends (op.run w) := by
  by_cases hdrain : op = .act .drain
  · subst hdrain
    exact h.drain hx hends
  rcases h with h | ⟨p, hp, h⟩
  · by_cases hchild : ∃ y, op = .removeObject y ∧ w.containerOf? y = some x
    · obtain ⟨y, rfl, hy⟩ := hchild
      exact .inr ⟨place, hremoval y rfl hy h.awaits.waiting, h.displaced hop hy⟩
    · exact .inl (h.run hx hop hdrain fun y hy heq => hchild ⟨y, hy, heq⟩)
  · exact .inr ⟨p, hp, h.run hop hdrain⟩

theorem perform {ops : List Operation} (h : Underway functions settings x parent place ends w)
    (hx : x ≠ Entity.variableOwner) (hends : ends parent) (hops : ∀ op ∈ ops, op.Spares x)
    (hremoval : ∀ before y after, ops = before ++ .removeObject y :: after →
      (w.perform before).containerOf? y = some x →
      (w.perform before).scheduler.WaitsAs ⟨x, Names.children⟩ (·.Moves x parent) → ends place) :
    Underway functions settings x parent place ends (w.perform ops) := by
  induction ops generalizing w with
  | nil => exact h
  | cons op ops ih =>
    obtain ⟨hop, hrest⟩ := List.forall_mem_cons.1 hops
    refine ih (h.run hx hends hop fun y hy => ?_) hrest fun before y after heq => ?_
    · exact hremoval [] y ops (by rw [hy]; rfl)
    · exact hremoval (op :: before) y after (by rw [heq]; rfl)

/-- Where a move waits, the object is on its way. -/
theorem onTheWay (h : Underway functions settings x parent place ends w)
    (hwaits : w.scheduler.WaitsAs ⟨x, Names.children⟩ (·.Moves x parent)) :
    OnTheWay functions settings x parent place w := by
  rcases h with h | ⟨p, -, h⟩
  · exact h
  · obtain ⟨m, hm, hmoves⟩ := hwaits
    exact absurd (h.heeds.queued _ m hm) hmoves.not_stays

end Underway

end

/-- An object that stays in a place is in it, whatever operations spare it. -/
theorem Staying.containerOf?_perform {ops : List Operation}
    (h : Staying functions settings x place w) (hx : x ≠ Entity.variableOwner)
    (hops : ∀ op ∈ ops, op.Spares x) : (w.perform ops).containerOf? x = place := by
  -- It would not leave even on its way to where it is.
  have hunderway : Underway functions settings x place place (· = place) (w.perform ops) :=
    Underway.perform (.inr ⟨place, rfl, h⟩) hx rfl hops fun _ _ _ _ _ _ => rfl
  exact hunderway.elim OnTheWay.place fun ⟨p, hp, h⟩ => h.place.trans hp

/-! ## Moves that are asked for -/

/-- After news of a move the object is on its way. -/
theorem OnTheWay.start (hstanding : w.Standing functions settings)
    (hothers : w.scheduler.Heeds fun r => r.target = ⟨x, Names.children⟩ ∨ r.Stays x)
    (hthere : (w.scene.get? x).isSome) (hundriven : w.formulas[Entity.mk x Names.children]? = none)
    (hunread : ∀ c ∈ w.scheduler.inbox.unread, c.target ≠ ⟨x, Names.children⟩)
    (previous parent : Option ObjectId) (p : Priority) :
    OnTheWay functions settings x parent (w.containerOf? x)
      ((Operation.notify x .hierarchy (.hierarchy previous parent) p).run w) := by
  have hs := hothers.sound
  have hsame : SameContent w
      ((Operation.notify x .hierarchy (.hierarchy previous parent) p).run w) :=
    sameContent_notifyChange _ _ _ _ _
  refine ⟨hstanding.same hsame, (SameBare.same hsame).isSome.trans hthere,
    hsame.formulas ▸ hundriven, ?_, ?_, (SameBare.same hsame).containerOf?⟩
  · let t : Entity := ⟨x, Names.children⟩
    let scheduled := w.moveScheduled x previous parent p
    have hscheduled : scheduled.scheduler.Awaits t (·.Moves x parent) := by
      let c : Change := ⟨x, .hierarchy, .hierarchy previous parent, p⟩
      obtain ⟨hkeeps, hunread', -⟩ := afterChange_spec hs c
      have hsame : scheduled.scheduler = w.scheduler.afterChange c := rfl
      rw [hsame]
      refine ⟨hkeeps.sound, ?_, hunread' ▸ hunread⟩
      have htarget : c.kind.target c.object c.payload = .ok t := rfl
      rw [w.scheduler.afterChange_taken (c := c) nofun htarget]
      refine .schedule (s := w.scheduler.accepted) (fun r priority payload _ hr => hr.absorb _ _)
        (hs.numbered.cons t c.kind c.payload c.priority) ?_
      rw [if_pos rfl]
      exact ⟨rfl, rfl, previous, rfl⟩
    -- The news of its formulas are about other targets.
    let elsewhere (c : Change) : Prop := c.kind.target c.object c.payload ≠ .ok t
    have hnews : ∀ e ∈ w.driven x,
        elsewhere ⟨e.object, .property, .property e.property none, p⟩ := by
      intro e he htarget
      have heq : e = t := Except.ok.inj htarget
      have hdriven := (Dragged.mem_driven.1 he).1
      rw [heq, hundriven] at hdriven
      cases hdriven
    have hreaches := Schedules.reschedule (σ := σ) (fun _ => parent) hnews scheduled
    rw [run_rehouse] at hreaches
    have hrun : (Operation.notify x .hierarchy (.hierarchy previous parent) p).run w =
        scheduled.rehoused parent p (w.driven x) := run_notifyMove w x previous parent p
    rw [hrun]
    exact hreaches.keeps (lasting_awaits (fun r priority payload _ hr => hr.absorb _ _) id).apply
      hscheduled
  · exact heeds_moves_run nofun hothers

/-- In every workbench that operations lead to, moves are asked for only under lists of children. -/
theorem heeds_moves (functions : Registry σ) (scene : Scene) (settings : Settings) (clock : Clock)
    (host : σ) (ops : List Operation) (x : ObjectId) :
    ((new functions scene settings clock host).perform ops).scheduler.Heeds fun r =>
      r.target = ⟨x, Names.children⟩ ∨ r.Stays x := by
  refine heeds_perform ((Request.stable_stays x).or_target _)
    (fun c target id htarget => Request.target_or_stays htarget) ⟨?_, ?_, ?_⟩ ops
  · exact .new settings.propagation
  · intro t r hr
    cases hr
  · exact fun c hc => by cases hc

/-- Take any workbench that operations led to, an object whose list of children no formula drives,
and a move of it into `parent`. Then carry out any operations that neither add nor remove the object
and ask for nothing else under the list of its children, drains included. When nothing waits the
object is in its new container, unless some object that lay in it was removed while the move waited.
If one was, the object stays where it was before the move. -/
theorem move_survives_unless_child_removed (functions : Registry σ) (scene : Scene)
    (settings : Settings) (clock : Clock) (host : σ) (hscene : scene.objects.Keyed)
    (ops : List Operation) :
    let w := (new functions scene settings clock host).perform ops
    ∀ (x : ObjectId) (previous parent : Option ObjectId) (p : Priority) (later : List Operation),
    x ≠ Entity.variableOwner → (w.scene.get? x).isSome →
    w.formulas[Entity.mk x Names.children]? = none →
    (∀ c ∈ w.scheduler.inbox.unread, c.target ≠ ⟨x, Names.children⟩) →
    (∀ op ∈ later, op.Spares x) →
    let moved := (Operation.notify x .hierarchy (.hierarchy previous parent) p).run w
    let displaced (before : List Operation) (y : ObjectId) :=
      (moved.perform before).containerOf? y = some x ∧
        (moved.perform before).scheduler.WaitsAs ⟨x, Names.children⟩ (·.Moves x parent)
    ((∀ before y after, later = before ++ .removeObject y :: after → ¬ displaced before y) →
      (moved.perform later).scheduler.isIdle →
      (moved.perform later).containerOf? x = parent) ∧
    ∀ before y after, later = before ++ .removeObject y :: after → displaced before y →
      (moved.perform later).containerOf? x = w.containerOf? x := by
  intro w x previous parent p later hx hthere hundriven hunread hspares moved displaced
  have hstart : OnTheWay functions settings.evaluation x parent (w.containerOf? x) moved :=
    .start (standing_perform functions scene settings clock host hscene ops)
      (heeds_moves functions scene settings clock host ops x) hthere hundriven hunread
      previous parent p
  refine ⟨fun hkept hidle => ?_, fun before y after hlater ⟨hchild, hwaits⟩ => ?_⟩
  · have hunderway : Underway functions settings.evaluation x parent (w.containerOf? x)
        (· = parent) (moved.perform later) :=
      Underway.perform (.inl hstart) hx rfl hspares fun before y after hlater hchild hwaits =>
        absurd ⟨hchild, hwaits⟩ (hkept before y after hlater)
    exact hunderway.arrived hidle
  · have hbefore : ∀ op ∈ before, op.Spares x := fun op hop =>
      hspares op (hlater ▸ List.mem_append_left _ hop)
    have hrest : ∀ op ∈ Operation.removeObject y :: after, op.Spares x := fun op hop =>
      hspares op (hlater ▸ List.mem_append_right _ hop)
    obtain ⟨hy, hafter⟩ := List.forall_mem_cons.1 hrest
    have hunderway : Underway functions settings.evaluation x parent (w.containerOf? x)
        (fun _ => True) (moved.perform before) :=
      .perform (.inl hstart) hx trivial hbefore fun _ _ _ _ _ _ => trivial
    rw [hlater, perform, List.foldl_append]
    exact ((hunderway.onTheWay hwaits).displaced hy hchild).containerOf?_perform hx hafter

/-- A move outlives the edits of other objects and the removal of one that lies elsewhere. The
removal of a child of the object displaces it: nothing waits, and the object is where it was. -/
theorem move_lost_with_child :
    let c : Object := { id := "c", name := "c" }
    let d : Object := { id := "d", name := "d" }
    let x : Object := { id := "x", name := "x", container := some "c" }
    let y : Object := { id := "y", name := "y", container := some "x" }
    let z : Object := { id := "z", name := "z", container := some "c" }
    let scene : Scene :=
      Scene.insert (Scene.insert (Scene.insert (Scene.insert (Scene.insert {} c) d) x) y) z
    let w : Workbench Unit := new .builtin scene {} .still ()
    let moved := (Operation.notify "x" .hierarchy (.hierarchy (some "c") (some "d")) .normal).run w
    let edited := moved.perform
      [.removeObject "z", .act (.setValue "y" "k" (.string "!") .high), .act .drain]
    let lost := moved.perform [.removeObject "y", .act .drain]
    edited.containerOf? "x" = some "d" ∧ moved.containerOf? "y" = some "x" ∧
      lost.scheduler.isIdle ∧ lost.containerOf? "x" = some "c" := by
  intro c d x y z scene w moved edited lost
  have hkeyed : scene.objects.Keyed :=
    ((((ObjectTable.Keyed.empty.insert c).insert d).insert x).insert y).insert z
  have hmoves := fun later => move_survives_unless_child_removed .builtin scene {} .still () hkeyed
    [] "x" (some "c") (some "d") .normal later (by decide) (by decide +kernel)
    (by simp [perform, new]) (by decide +kernel)
  refine ⟨?_, by decide +kernel, by decide +kernel, ?_⟩
  · refine (hmoves [.removeObject "z", .act (.setValue "y" "k" (.string "!") .high), .act .drain]
      (by simp [Operation.Spares, Names.children])).1 ?_ (by decide +kernel)
    rintro before o after hlater ⟨hchild, -⟩
    -- Only the first operation removes an object, and that one lies elsewhere.
    cases before with
    | nil =>
      cases hlater
      exact absurd hchild (by decide +kernel)
    | cons op before =>
      have hmem : Operation.removeObject o ∈
          [.act (.setValue "y" "k" (.string "!") .high), .act .drain] :=
        (List.cons.inj hlater).2 ▸ List.mem_append_right _ List.mem_cons_self
      simp at hmem
  · have hwaits : (moved.scheduler.queue.pendingFor? ⟨"x", Names.children⟩).any (fun r =>
        r.target = ⟨"x", Names.children⟩ ∧ r.kind = .hierarchy ∧
          r.payload = .hierarchy (some "c") (some "d")) = true := by decide +kernel
    obtain ⟨m, hm, hmatches⟩ := (Option.any_eq_true _ _).1 hwaits
    obtain ⟨htarget, hkind, hpayload⟩ := of_decide_eq_true hmatches
    exact ((hmoves [.removeObject "y", .act .drain] (by simp [Operation.Spares])).2 [] "y" _ rfl
      ⟨by decide +kernel, m, hm, htarget, hkind, _, hpayload⟩).trans (by decide +kernel)

end Workbench

end Parametric
