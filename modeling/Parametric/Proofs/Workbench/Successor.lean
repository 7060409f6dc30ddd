import Parametric.Proofs.Workbench.Asked
import Parametric.Proofs.Workbench.Frame

/-!
# Successors of removed objects

Requests wait for an identifier and a property, not for an object. So what is outstanding about an
object when it is removed outlives it, and is carried out on whatever is added under its identifier
(`Workbench.Outstanding`). Nothing else edits such a successor, as long as no operation touches it:
its properties are those it was added with, revised by outstanding edits (`Workbench.Inherits`,
`edits_reach_successor`).
-/

namespace Parametric

/-! ## Edits of one object -/

theorem Object.properties_set {o o' : Object} (h : o.properties = o'.properties) (v : Value)
    (path : Path) : (o.set v path).properties = (o'.set v path).properties := by
  cases path with
  | nil => exact h
  | cons name path => simp only [Object.set, h]

/-- What edits make of the properties of an object depends on nothing else of it. -/
theorem Object.properties_edited {o o' : Object} (h : o.properties = o'.properties)
    (edits : List (Path × Value)) : (o.edited edits).properties = (o'.edited edits).properties := by
  induction edits generalizing o o' with
  | nil => exact h
  | cons e edits ih => exact ih (o.properties_set h e.2 e.1)

namespace Request

variable {r : Request} {id : ObjectId} {edit : Path × Value}

/-- A request writes a value at a path of an object. -/
def Edits (id : ObjectId) (edit : Path × Value) (r : Request) : Prop :=
  ¬ r.target.isVariable ∧ r.target.object = id ∧ edit ∈ r.edits

/-- A move leaves the properties of an object alone. -/
theorem properties_revise (r : Request) (o : Object) :
    (r.revise o).properties = (o.edited r.edits).properties := by
  unfold revise
  split
  next hkind hpayload => simp [edits, hkind, hpayload, ChangeKind.imposes, Object.edited]
  next => rfl

theorem edits_recompute (hkind : r.kind = .recompute) : r.edits = [] := by
  simp [edits, hkind, ChangeKind.imposes]

theorem edits_absorb (r : Request) (priority : Priority) {payload : Payload}
    (hpayload : payload.isRecompute) (h : edit ∈ (r.absorb priority payload).edits) :
    edit ∈ r.edits := by
  unfold absorb edits at h
  dsimp only at h
  split at h
  next => cases payload <;> simp_all [Payload.isRecompute, ChangeKind.imposes]
  next => exact h

theorem stable_edits (id : ObjectId) (P : Path × Value → Prop) :
    Stable fun r => ∀ edit, r.Edits id edit → P edit := by
  refine ⟨fun r hr edit hedit => ?_, fun r priority payload hpayload hr edit hedit => ?_⟩
  · have hmem := hedit.2.2
    rw [edits_recompute hr] at hmem
    cases hmem
  · exact hr edit ⟨hedit.1, hedit.2.1, r.edits_absorb priority hpayload hedit.2.2⟩

end Request

namespace Workbench

open Scheduler

variable {σ : Type} {w w' : Workbench σ} {functions : Registry σ} {settings : EvaluationSettings}
  {id : ObjectId} {op : Operation} {P : Path × Value → Prop} {base : Option Object}

/-- An edit of an object was asked for, and not carried out yet. -/
def Outstanding (w : Workbench σ) (id : ObjectId) (edit : Path × Value) : Prop :=
  (∃ t r, w.scheduler.queue.pendingFor? t = some r ∧ r.Edits id edit) ∨
    ∃ c ∈ w.scheduler.inbox.unread, c.request.Edits id edit

theorem heeds_outstanding (hs : w.scheduler.Sound) (id : ObjectId) :
    w.scheduler.Heeds fun r => ∀ edit, r.Edits id edit → w.Outstanding id edit :=
  ⟨hs, fun t r hr _ hedit => .inl ⟨t, r, hr, hedit⟩, fun c hc _ hedit => .inr ⟨c, hc, hedit⟩⟩

theorem outstanding_of_heeds (h : w.scheduler.Heeds fun r => ∀ edit, r.Edits id edit → P edit)
    {edit : Path × Value} (hedit : w.Outstanding id edit) : P edit := by
  rcases hedit with ⟨t, r, hr, hedit⟩ | ⟨c, hc, hedit⟩
  · exact h.queued t r hr edit hedit
  · exact h.unread c hc edit hedit

theorem not_outstanding_of_isIdle (h : w.scheduler.isIdle) {edit : Path × Value} :
    ¬ w.Outstanding id edit := by
  rintro (⟨t, r, hr, -⟩ | ⟨c, hc, -⟩)
  · exact all_of_isIdle h (fun _ => False) t r hr
  · rw [unread_of_isIdle h] at hc
    cases hc

/-- An operation adds or removes an object, sets one of its properties, or passes on a change of
it. -/
def Operation.Touches (id : ObjectId) : Operation → Prop
  | act (.setFormula object ..) | act (.setValue object ..) | act (.notifyProperty object ..)
  | notify object .. | removeObject object => object = id
  | submit c => c.object = id
  | addObject o => o.id = id
  | act (.clearFormula ..) | act (.defineVariable ..) | act (.updateVariable ..)
  | act (.deleteVariable ..) | act .drain | evaluate .. => False

theorem Operation.Sets.touches {e : Entity} (h : op.Sets e) : op.Touches e.object := by
  cases op with
  | act a =>
    cases a with
    | setFormula | setValue => exact (congrArg Entity.object h).symm
    | _ => exact h.elim
  | _ => exact h.elim

/-- The edits that an operation asks for touch the object. Adding and removing an object asks for
none. -/
theorem Operation.Asks.touches {c : Change} {target : Entity} {request : RequestId}
    {edit : Path × Value} (hc : op.Asks w c)
    (htarget : c.kind.target c.object c.payload = .ok target)
    (hedit : Request.Edits id edit
      ⟨request, request, target, c.kind, c.payload, c.priority, .queued⟩) :
    op.Touches id ∧ op ≠ .removeObject id ∧ ∀ o, op ≠ .addObject o := by
  have hid : c.object = id := (ChangeKind.object_target htarget).symm.trans hedit.2.1
  obtain ⟨hvariable, -, hmem⟩ := hedit
  -- News without a value and moves carry no edits.
  simp only [Request.edits] at hmem
  cases op with
  | act a =>
    cases a with
    | setFormula =>
      obtain ⟨v, rfl⟩ := hc
      exact ⟨hid, by simp⟩
    | setValue | notifyProperty =>
      cases (show c = _ from hc)
      exact ⟨hid, by simp⟩
    | defineVariable | updateVariable | deleteVariable =>
      obtain ⟨v, rfl⟩ := hc
      exact absurd (decide_eq_true (ChangeKind.object_target htarget)) hvariable
    | clearFormula | drain => exact hc.elim
  | notify object kind payload priority =>
    rcases hc with rfl | ⟨-, name, rfl⟩
    · exact ⟨hid, by simp⟩
    · simp [ChangeKind.imposes] at hmem
  | submit c' =>
    cases (show c = c' from hc)
    exact ⟨hid, by simp⟩
  | evaluate => exact hc.elim
  | addObject o =>
    rcases hc with rfl | ⟨e, -, rfl⟩ <;> simp [ChangeKind.imposes] at hmem
  | removeObject removed =>
    rcases hc with ⟨name, rfl⟩ | ⟨parent, -, rfl⟩ <;> simp [ChangeKind.imposes] at hmem

/-! ## What an identifier inherits -/

/-- Nothing but edits that satisfy `P` may come to the object of an identifier, which is `base` with
such edits; when there is no `base`, there is no object. No formula drives any of its properties. -/
structure Inherits (functions : Registry σ) (settings : EvaluationSettings)
    (P : Path × Value → Prop) (id : ObjectId) (base : Option Object) (w : Workbench σ) : Prop where
  standing : w.Standing functions settings
  heeds : w.scheduler.Heeds fun r => ∀ edit, r.Edits id edit → P edit
  undriven : ∀ e : Entity, e.object = id → w.formulas[e]? = none
  object : ∃ edits : List (Path × Value), (∀ edit ∈ edits, P edit) ∧
    (w.scene.get? id).map Object.properties = base.map fun o => (o.edited edits).properties

namespace Inherits

/-- An operation that does not touch the object leaves it as it is. -/
theorem run (h : Inherits functions settings P id base w) (hop : ¬ op.Touches id)
    (hdrain : op ≠ .act .drain) : Inherits functions settings P id base (op.run w) := by
  have hframe := frame_run h.heeds.sound hdrain
  refine ⟨standing_run h.standing h.heeds.sound op, ?_, fun e he => hframe.formulas e ?_
    (h.undriven e he), ?_⟩
  · exact Operation.keeps (lasting_heeds (Request.stable_edits id P) fun hc htarget edit hedit =>
      absurd (hc.touches htarget hedit).1 hop) hdrain h.heeds
  · rintro source rfl
    exact hop he
  · rcases hframe.objects id (fun o heq hid => hop (heq ▸ hid)) (fun heq => hop (heq ▸ rfl)) with
      heq | ⟨property, v, hset, -⟩
    · exact heq ▸ h.object
    · exact absurd hset.touches hop

/-- A request edits the object only as it was outstanding. -/
theorem serve (h : Inherits functions settings P id base w) {r : Request} {queue : Queue}
    {result : Except ApplyError Outcome} (hunread : w.scheduler.inbox.unread = [])
    (hpop : w.scheduler.queue.pop = (some r, queue))
    (heffect : Effect { w with scheduler := { w.scheduler with queue } } r result w') :
    Inherits functions settings P id base w' := by
  obtain ⟨hr, hpopped⟩ := (h.heeds.serves hunread).pop hpop
  have hstanding : Standing functions settings
      { w with scheduler := { w.scheduler with queue } } := h.standing.same (.rescheduled _ _)
  refine ⟨hstanding.effect heffect, heffect.scheduler ▸ hpopped.heeds,
    fun e he => heffect.undriven (h.undriven e he), ?_⟩
  obtain ⟨edits, hedits, hobject⟩ := h.object
  rcases heffect.objects hstanding.keyed id with heq | ⟨hid, ⟨heq, hvariable⟩ | ⟨hdriven, -⟩⟩
  · exact ⟨edits, hedits, heq ▸ hobject⟩
  · refine ⟨edits ++ r.edits, fun edit hedit => ?_, ?_⟩
    · exact (List.mem_append.1 hedit).elim (hedits edit) fun hmem =>
        hr edit ⟨hvariable, hid, hmem⟩
    · rw [heq]
      cases hget : w.scene.get? id <;> cases base <;> rw [hget] at hobject
      · rfl
      · cases hobject
      · cases hobject
      next o base =>
        rw [Option.map_some, Option.map_some, Option.map_some, Object.edited_append,
          r.properties_revise, Object.properties_edited (Option.some.inj hobject)]
  · rw [h.undriven _ hid] at hdriven
    cases hdriven

theorem course (functions : Registry σ) (settings : EvaluationSettings) (P : Path × Value → Prop)
    (id : ObjectId) (base : Option Object) : Course fun w : Workbench σ =>
      w.scheduler.inbox.unread = [] ∧ Inherits functions settings P id base w where
  sound h := h.2.heeds.sound
  unread h := h.1
  same {w w'} h hsame halike := by
    obtain ⟨hunread, h⟩ := h
    refine ⟨halike.unread.trans hunread, h.standing.same hsame, ?_, ?_, ?_⟩
    · exact ((h.heeds.serves hunread).alike halike).heeds
    · exact fun e he => hsame.formulas ▸ h.undriven e he
    · rw [Scene.get?, hsame.objects]
      exact h.object
  failed := fun ⟨hunread, h⟩ hpop heffect =>
    ⟨heffect.scheduler ▸ hunread, h.serve hunread hpop heffect⟩
  applied := by
    intro w w' r queue outcome ⟨hunread, h⟩ hpop heffect
    have hserved := h.serve hunread hpop heffect
    have hnone : w'.scheduler.inbox.unread = [] := heffect.scheduler ▸ hunread
    have hcascaded := (hserved.heeds.serves hnone).cascade (Request.stable_edits id P) r outcome
    exact ⟨hcascaded.unread, hserved.standing.same (.rescheduled _ _), hcascaded.heeds,
      hserved.undriven, hserved.object⟩

theorem drain (h : Inherits functions settings P id base w) :
    Inherits functions settings P id base w.drain.2 := by
  have hread := h.heeds.readInbox (Request.stable_edits id P)
  exact ((course functions settings P id base).drain_unread h.heeds.sound ⟨hread.unread,
    h.standing.same (.rescheduled _ _), hread.heeds, h.undriven, h.object⟩).2

theorem perform {ops : List Operation} (h : Inherits functions settings P id base w)
    (hops : ∀ op ∈ ops, ¬ op.Touches id) :
    Inherits functions settings P id base (w.perform ops) := by
  induction ops generalizing w with
  | nil => exact h
  | cons op ops ih =>
    obtain ⟨hop, hrest⟩ := List.forall_mem_cons.1 hops
    refine ih ?_ hrest
    by_cases hdrain : op = .act .drain
    · subst hdrain
      exact h.drain
    · exact h.run hop hdrain

/-- Only what was outstanding about a removed object is left for its identifier. -/
theorem removed (hstanding : w.Standing functions settings) (hs : w.scheduler.Sound)
    (id : ObjectId) : Inherits functions settings (w.Outstanding id) id none
      ((Operation.removeObject id).run w) := by
  have hstanding' := standing_run hstanding hs (.removeObject id)
  have hgone : ((Operation.removeObject id).run w).scene.get? id = none := by
    cases hthere : w.scene.get? id with
    | none =>
      have hsame := (sameContent_removeObject_of_none hthere).objects
      exact (congrArg (·.get? id) hsame).trans hthere
    | some o =>
      have hremoved := removed_removeObject hs hthere
      exact (hremoved.get? id).trans (if_pos rfl)
  refine ⟨hstanding', ?_, fun e he => ?_, [], by simp, by rw [hgone]; rfl⟩
  · exact Operation.keeps (lasting_heeds (Request.stable_edits id _) fun hc htarget edit hedit =>
      absurd rfl (hc.touches htarget hedit).2.1) nofun (heeds_outstanding hs id)
  · refine Option.eq_none_iff_forall_ne_some.2 fun f hf => ?_
    have hsome := (hstanding'.formulas hf).2.1
    rw [he, hgone] at hsome
    cases hsome

/-- An object that is added under the identifier has its own properties. What was outstanding may
still come to it. -/
theorem added {o : Object} (h : Inherits functions settings P o.id base w) :
    (∀ edit, ((Operation.addObject o).run w).Outstanding o.id edit → P edit) ∧
    Inherits functions settings (((Operation.addObject o).run w).Outstanding o.id) o.id (some o)
      ((Operation.addObject o).run w) := by
  have hdrain : Operation.addObject o ≠ .act .drain := nofun
  have hheeds : ((Operation.addObject o).run w).scheduler.Heeds
      fun r => ∀ edit, r.Edits o.id edit → P edit :=
    Operation.keeps (lasting_heeds (Request.stable_edits o.id P) fun hc htarget edit hedit =>
      absurd rfl ((hc.touches htarget hedit).2.2 o)) hdrain h.heeds
  refine ⟨fun edit hedit => outstanding_of_heeds hheeds hedit,
    standing_run h.standing h.heeds.sound _, heeds_outstanding hheeds.sound _,
    fun e he => (frame_run h.heeds.sound hdrain).formulas e nofun (h.undriven e he), [], by simp,
    ?_⟩
  obtain ⟨scheduler, hrun⟩ := run_addObject w o
  have hget : ((Operation.addObject o).run w).scene.get? o.id = some o := by
    show ((Workbench.addObject o).run w).2.scene.get? o.id = some o
    rw [hrun]
    exact (ObjectTable.get?_insert w.scene.objects o o.id).trans (if_pos rfl)
  rw [hget]
  rfl

end Inherits

/-- Take any workbench that operations led to. Remove an object, add another one under its
identifier, and let no other operation touch that identifier, before or after. Whatever is
outstanding about it when the new object comes was outstanding when the old one went, and the new
object always has the properties it was added with but for such edits. -/
theorem edits_reach_successor (functions : Registry σ) (scene : Scene) (settings : Settings)
    (clock : Clock) (host : σ) (hscene : scene.objects.Keyed) (ops : List Operation) :
    let w := (new functions scene settings clock host).perform ops
    ∀ (o : Object) (between later : List Operation),
    (∀ op ∈ between, ¬ op.Touches o.id) → (∀ op ∈ later, ¬ op.Touches o.id) →
    let added := (Operation.addObject o).run
      (((Operation.removeObject o.id).run w).perform between)
    (∀ edit, added.Outstanding o.id edit → w.Outstanding o.id edit) ∧
    ∃ edits : List (Path × Value), (∀ edit ∈ edits, added.Outstanding o.id edit) ∧
      ((added.perform later).scene.get? o.id).map Object.properties =
        some (o.edited edits).properties := by
  intro w o between later hbetween hlater added
  have hs : w.scheduler.Sound := sound_perform functions scene settings clock host ops
  have hremoved := Inherits.removed
    (standing_perform functions scene settings clock host hscene ops) hs o.id
  obtain ⟨houtstanding, hadded⟩ := (hremoved.perform hbetween).added
  exact ⟨houtstanding, (hadded.perform hlater).object⟩

/-- An object that takes the place of one that nothing was outstanding about keeps its properties.
An edit that was outstanding comes to it, though nothing touched it since it was added. -/
theorem outstanding_edit_reaches_successor :
    let a : Object := { id := "a", name := "a", properties := [("title", .leaf (.string "old"))] }
    let w : Workbench Unit := new .builtin (Scene.insert {} a) {} .still ()
    let edit : Operation := .act (.setValue "a" "title" (.string "new") .normal)
    let replaced (w : Workbench Unit) :=
      ((Operation.addObject a).run (((Operation.removeObject a.id).run w).perform [])).perform
        [.act .drain]
    ((replaced (w.perform [edit, .act .drain])).scene.get? a.id).map Object.properties =
        some a.properties ∧
      (replaced (w.perform [edit])).scheduler.isIdle ∧
      (replaced (w.perform [edit])).property? a.id "title" = some (.string "new") := by
  intro a w edit replaced
  refine ⟨?_, by decide +kernel, by decide +kernel⟩
  obtain ⟨houtstanding, edits, hedits, hobject⟩ := edits_reach_successor .builtin
    (Scene.insert {} a) {} .still () (ObjectTable.Keyed.empty.insert a) [edit, .act .drain] a []
    [.act .drain]
    (by simp) (by simp [Operation.Touches])
  have hidle : (w.perform [edit, .act .drain]).scheduler.isIdle := by decide +kernel
  have hnone : edits = [] := List.eq_nil_iff_forall_not_mem.2 fun edit hedit =>
    not_outstanding_of_isIdle hidle (houtstanding edit (hedits edit hedit))
  subst hnone
  exact hobject

end Workbench

end Parametric
