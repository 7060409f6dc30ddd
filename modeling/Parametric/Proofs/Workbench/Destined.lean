import Parametric.Proofs.Update.Agenda
import Parametric.Proofs.Workbench.Recovery
import Parametric.Proofs.Workbench.Successor

/-!
# What an object is destined to be

When no formula drives a property of an object and no edge leads to one (`Workbench.Free`), nothing
waits about the object but what was asked for about it, and a drain carries that out in the order of
service (`Workbench.due`). So the properties that the object will have are settled before the drain
begins, and stay settled as it goes on (`Workbench.Destined`): the next request about the object is
the first that is due, and whatever else is served neither changes the object nor asks for anything
about it.
-/

namespace Parametric

/-- The values that are written when a request is applied. An object in the place of the variables
is not written to. -/
def Request.carried (r : Request) : List (Path × Value) := if r.target.isVariable then [] else r.edits

/-- A change that the scene refuses, of an object that is there, asks for no edits. -/
theorem Scene.edits_of_error {s : Scene} {r : Request} {e : ApplyError}
    (h : s.applyChange r = .error e) (hthere : (s.get? r.target.object).isSome) : r.edits = [] := by
  obtain ⟨o, ho⟩ := Option.isSome_iff_exists.1 hthere
  have hrequire : s.require r.target.object = .ok o := by rw [require, ho]
  unfold applyChange at h
  rw [hrequire] at h
  cases hkind : r.kind with
  | size | layout | hierarchy =>
    rw [hkind] at h
    cases h
  | recompute => exact Request.edits_recompute hkind
  | property =>
    cases hpayload : r.payload with
    | property name value =>
      rw [hkind, hpayload] at h
      cases value with
      | none => simp [Request.edits, hkind, hpayload, ChangeKind.imposes]
      | some v =>
        obtain ⟨bounds, scene, hwrite⟩ := s.exists_write (e := ⟨r.target.object, name⟩) hthere v
        dsimp only [change] at h
        rw [hwrite] at h
        cases h
    | _ => simp [Request.edits, hkind, hpayload, ChangeKind.imposes]

namespace Workbench

open Scheduler

variable {σ : Type} {w w' : Workbench σ} {functions : Registry σ} {settings : EvaluationSettings}
  {id : ObjectId} {r : Request} {result : Except ApplyError Outcome} {queue : Queue}
  {fields : Option Fields}

/-- The values that will be written to an object by what waits about it, in the order of service. -/
def due (w : Workbench σ) (id : ObjectId) : List (Path × Value) :=
  (w.scheduler.queue.agenda id).flatMap Request.carried

/-- A request writes what it carries to its object, if no formula drives a property of that. -/
theorem Effect.properties (h : Effect w r result w') (hkeyed : w.scene.objects.Keyed)
    (hundriven : ∀ e : Entity, e.object = id → w.formulas[e]? = none) :
    (w'.scene.get? id).map Object.properties = (w.scene.get? id).map fun o =>
      (o.edited (if r.target.object = id then r.carried else [])).properties := by
  by_cases hid : r.target.object = id
  · rw [if_pos hid]
    unfold Request.carried
    cases h with
    | noted _ _ _ hrefused =>
      split
      next => rfl
      next hvariable =>
        cases hget : w.scene.get? id with
        | none => rfl
        | some o =>
          have hedits : r.edits = [] := by
            by_cases hkind : r.kind = .recompute
            · exact Request.edits_recompute hkind
            · obtain ⟨e, he⟩ := hrefused hvariable hkind
              exact Scene.edits_of_error he (by rw [hid, hget, Option.isSome_some])
          rw [hedits]
          rfl
    | changed _ hvariable _ hchange =>
      rw [if_neg hvariable, Scene.get?_applyChange hkeyed hchange, if_pos hid, Option.map_map]
      exact congrArg (Option.map · _) (funext r.properties_revise)
    | failed _ hf | computed _ hf =>
      rw [hundriven _ hid] at hf
      cases hf
  · rw [if_neg hid]
    rcases h.objects hkeyed id with heq | ⟨heq, -⟩
    · rw [heq]
      rfl
    · exact absurd heq hid

/-- No formula drives a property of the object, no edge leads to one, and every change was read. -/
structure Free (functions : Registry σ) (settings : EvaluationSettings) (id : ObjectId)
    (w : Workbench σ) : Prop where
  standing : w.Standing functions settings
  graph : w.scheduler.graph.Sound
  unread : w.scheduler.inbox.unread = []
  orderly : Orderly w.scheduler.queue [] w.scheduler.inbox.nextId
  undriven : ∀ e : Entity, e.object = id → w.formulas[e]? = none
  unfed : ∀ p c : Entity, w.scheduler.graph.Feeds p c → c.object ≠ id

/-- The object is free, and once everything that is due was written its properties are `fields`. -/
structure Destined (functions : Registry σ) (settings : EvaluationSettings) (id : ObjectId)
    (fields : Option Fields) (w : Workbench σ) : Prop extends Free functions settings id w where
  destiny : (w.scene.get? id).map (fun o => (o.edited (w.due id)).properties) = fields

namespace Free

theorem sound (h : Free functions settings id w) : w.scheduler.Sound :=
  ⟨h.graph, h.unread ▸ h.orderly.toNumbered⟩

theorem consumers (h : Free functions settings id w) (p : Entity) :
    ∀ c ∈ w.scheduler.graph.consumersOf p, c.object ≠ id :=
  fun c hc => h.unfed p c ((h.graph.toIndexed.mem_consumersOf).1 hc)

theorem downstream (h : Free functions settings id w) (roots : List Entity) :
    ∀ c ∈ w.scheduler.graph.downstream roots, c.object ≠ id := by
  intro c hc
  obtain ⟨p, hp⟩ := Graph.exists_feeds_of_mem_downstream h.graph hc
  exact h.unfed p c hp

/-- A change of the object is scheduled. The object stays free, and the change waits at the end of its
line. -/
theorem schedule (h : Free functions settings id w) (hw : w'.Standing functions settings)
    (hformulas : w'.formulas = w.formulas) {c : Submission} (hid : c.id = w.scheduler.inbox.nextId)
    (hkind : c.kind ≠ .recompute) (hobject : c.target.object = id)
    (hscheduler : w'.scheduler = w.scheduler.accepted.schedule c) :
    Free functions settings id w' ∧ ∀ p, w'.scheduler.queue.agendaAt id p =
      (w.scheduler.queue.agendaAt id p).filter (·.target ≠ c.target) ++
        if c.priority = p then [c.request] else [] := by
  have horderly : Orderly w.scheduler.accepted.queue [c] w.scheduler.accepted.inbox.nextId :=
    h.orderly.accept hid hkind (.refl _)
  have horderly' := orderly_schedule (s := w.scheduler.accepted) horderly
  have hagenda := agendaAt_schedule (s := w.scheduler.accepted) horderly hobject (h.downstream _)
  obtain ⟨queue, next, superseded, heq, -⟩ :=
    schedule_spec (s := w.scheduler.accepted) horderly.toNumbered
  rw [← hscheduler] at horderly' hagenda heq
  refine ⟨⟨hw, ?_, ?_, horderly', hformulas ▸ h.undriven, ?_⟩, hagenda⟩ <;> rw [heq]
  · exact h.graph
  · exact h.unread
  · exact h.unfed

/-- Serving a request leaves the object free. -/
theorem serve (h : Free functions settings id w) (hpop : w.scheduler.queue.pop = (some r, queue))
    (heffect : Effect { w with scheduler := { w.scheduler with queue } } r result w') :
    Free functions settings id w' := by
  have hscheduler : w'.scheduler = { w.scheduler with queue } := heffect.scheduler
  refine ⟨(h.standing.same (.rescheduled _ _)).effect heffect, ?_, ?_, ?_,
    fun e he => heffect.undriven (h.undriven e he), ?_⟩ <;> rw [hscheduler]
  · exact h.graph
  · exact h.unread
  · exact h.orderly.pop hpop
  · exact h.unfed

end Free

namespace Destined

/-- Serving a request writes what it carries, which was due first. -/
theorem serve (h : Destined functions settings id fields w)
    (hpop : w.scheduler.queue.pop = (some r, queue))
    (heffect : Effect { w with scheduler := { w.scheduler with queue } } r result w') :
    Destined functions settings id fields w' := by
  refine ⟨h.toFree.serve hpop heffect, ?_⟩
  have hproperties := heffect.properties h.standing.keyed h.undriven
  have hdue : w.due id = (if r.target.object = id then r.carried else []) ++ w'.due id := by
    have hscheduler : w'.scheduler = { w.scheduler with queue } := heffect.scheduler
    rw [due, due, hscheduler, Queue.agenda_pop h.orderly.banded hpop, List.flatMap_append]
    split
    · rw [List.flatMap_singleton]
    · rfl
  rw [← h.destiny, hdue]
  dsimp only at hproperties
  cases hget : w.scene.get? id <;> cases hget' : w'.scene.get? id <;> rw [hget, hget'] at hproperties
  · rfl
  · cases hproperties
  · cases hproperties
  next o o' =>
    rw [Option.map_some, Option.map_some, Object.edited_append,
      Object.properties_edited (Option.some.inj hproperties)]

theorem course (functions : Registry σ) (settings : EvaluationSettings) (id : ObjectId)
    (fields : Option Fields) : Course (Destined functions settings id fields) where
  sound h := h.sound
  unread h := h.unread
  same {w w'} h hsame halike := by
    have hqueue : Orderly w'.scheduler.queue [] w.scheduler.inbox.nextId ∧
        w'.due id = w.due id := by
      rcases halike.queue with heq | hpop
      · exact ⟨heq ▸ h.orderly, by rw [due, due, heq]⟩
      · exact ⟨h.orderly.pop hpop,
          by rw [due, due, Queue.agenda_pop_none h.orderly.indexed h.orderly.banded hpop]⟩
    refine ⟨⟨h.standing.same hsame, halike.graph ▸ h.graph, halike.unread.trans h.unread,
      halike.inbox ▸ hqueue.1, hsame.formulas ▸ h.undriven, halike.graph ▸ h.unfed⟩, ?_⟩
    rw [hqueue.2, Scene.get?, hsame.objects]
    exact h.destiny
  failed h hpop heffect := h.serve hpop heffect
  applied := by
    intro w w' r queue outcome h hpop heffect
    have hserved := h.serve hpop heffect
    obtain ⟨next, after, heq, -⟩ := cascade_spec hserved.sound.numbered r outcome
    obtain ⟨hagenda, horderly⟩ := agenda_cascade hserved.orderly r outcome hserved.consumers
    refine ⟨⟨hserved.standing.same (.rescheduled _ _), ?_, ?_, horderly, hserved.undriven, ?_⟩, ?_⟩
    · rw [heq]
      exact hserved.graph
    · rw [heq]
      exact hserved.unread
    · rw [heq]
      exact hserved.unfed
    · rw [← hserved.destiny, due, due, hagenda]

/-- When nothing waits, the object is what it was destined to be. -/
theorem properties_of_isIdle (h : Destined functions settings id fields w)
    (hidle : w.scheduler.isIdle) : (w.scene.get? id).map Object.properties = fields := by
  have hnone : w.due id = [] := by
    rw [due, Queue.agenda, List.flatMap_eq_nil_iff.2 fun p _ => agendaAt_of_isIdle h.orderly hidle p]
    rfl
  rw [← h.destiny, hnone]
  rfl

end Destined

end Workbench

end Parametric
