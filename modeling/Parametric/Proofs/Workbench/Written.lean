import Parametric.Proofs.Workbench.Consumers
import Parametric.Proofs.Workbench.Destined
import Parametric.Proofs.Workbench.Overwrites

/-!
# Calls that write to an object

While calls that write to an object without formulas are made and nothing is served, the object has
what they write at once, and what is left of them waits in its turn (`Workbench.Written`). So what
the object is destined to be is what the calls make of it in the order of service
(`Written.field?_drained`), and the latest write of a property lasts unless it is outlived
(`latest_write_lasts_unless_outlived`).
-/

namespace Parametric

namespace Write

def kind : Write → ChangeKind
  | value .. => .property
  | resize .. => .size

def payload : Write → Payload
  | value property v _ => .property property (some v)
  | resize w h d _ => .size w h d

/-- The call as an operation on a workbench. -/
def operation (id : ObjectId) : Write → Workbench.Operation
  | value property v p => .act (.setValue id property v p)
  | resize w h d p => .notify id .size (.size w h d) p

/-- What the call submits. -/
def submission (id : ObjectId) (number : RequestId) (c : Write) : Submission :=
  ⟨number, ⟨id, c.key⟩, c.kind, c.payload, c.priority⟩

theorem kind_ne_recompute (c : Write) : c.kind ≠ .recompute := by
  cases c <;> simp [kind]

theorem edits_request (c : Write) (id : ObjectId) (number : RequestId) :
    (c.submission id number).request.edits = c.edits := by
  cases c <;> rfl

end Write

namespace Workbench

open Scheduler

variable {σ : Type} {base w w' : Workbench σ} {functions : Registry σ}
  {settings : EvaluationSettings} {id : ObjectId} {cs : List Write}

/-! ## What calls leave -/

/-- A call writes what it writes at once, and is scheduled. -/
theorem run_write_operation (hundriven : ∀ e : Entity, e.object = id → w.formulas[e]? = none)
    (hthere : (w.scene.get? id).isSome) (c : Write) :
    let w' := (c.operation id).run w
    w'.formulas = w.formulas ∧
      w'.scene.get? id = (w.scene.get? id).map (·.edited c.atOnce) ∧
      w'.scheduler = w.scheduler.accepted.schedule (c.submission id w.scheduler.inbox.nextId) := by
  cases c with
  | value property v p =>
    obtain ⟨bounds, scene, hwrite⟩ := w.scene.exists_write (e := ⟨id, property⟩) hthere v
    have hrun := w.run_setValue id property v p
    rw [detached_of_none (hundriven _ rfl), hwrite] at hrun
    have hrun : ((Write.value property v p).operation id).run w =
      announced (invalidate { w with scene } [⟨id, property⟩]) ⟨id, property⟩ (some v) p := hrun
    dsimp only
    rw [hrun]
    exact ⟨rfl, (Scene.get?_write hwrite id).trans (if_pos rfl), rfl⟩
  | resize width height depth p =>
    have htarget : ChangeKind.size.target id (.size width height depth) = .ok ⟨id, Names.size⟩ := rfl
    have hstays : ChangeKind.size ≠ .hierarchy := nofun
    have hrun : ((Write.resize width height depth p).operation id).run w = _ :=
      w.run_notifyChange_taken hstays rfl htarget p
    dsimp only
    rw [hrun]
    exact ⟨rfl, Option.map_id'.symm, w.scheduler.afterChange_taken
      (c := ⟨id, .size, .size width height depth, p⟩) (by simp) rfl⟩

/-- Since `base`, calls were made that write to a free object, and nothing was served: what they write
at once was written, and what is left of them waits in its turn. -/
structure Written (functions : Registry σ) (settings : EvaluationSettings) (base : Workbench σ)
    (id : ObjectId) (cs : List Write) (w : Workbench σ) : Prop extends
    Free functions settings id w where
  object : w.scene.get? id = (base.scene.get? id).map (·.edited (cs.flatMap Write.atOnce))
  agenda : ∀ p, (w.scheduler.queue.agendaAt id p).map (fun r => (r.target, r.edits)) =
    ((Write.standing cs).filter (·.priority = p)).map fun c => (⟨id, c.key⟩, c.edits)

namespace Written

/-- No call was made yet. -/
theorem refl (h : Free functions settings id w) (hidle : w.scheduler.isIdle) :
    Written functions settings w id [] w where
  toFree := h
  object := Option.map_id'.symm
  agenda p := by
    rw [agendaAt_of_isIdle h.orderly hidle]
    rfl

/-- One more call is made. -/
theorem run (h : Written functions settings base id cs w) (hthere : (base.scene.get? id).isSome)
    (c : Write) : Written functions settings base id (cs ++ [c]) ((c.operation id).run w) := by
  have hthere' : (w.scene.get? id).isSome := by
    rw [h.object, Option.isSome_map]
    exact hthere
  have hstanding := standing_run h.standing h.sound (c.operation id)
  obtain ⟨hformulas, hobject, hscheduler⟩ := run_write_operation h.undriven hthere' c
  obtain ⟨hfree, hagenda⟩ := h.schedule hstanding hformulas rfl c.kind_ne_recompute rfl hscheduler
  refine ⟨hfree, ?_, fun p => ?_⟩
  · rw [hobject, h.object, Option.map_map, List.flatMap_append]
    congr 1
    funext o
    rw [Function.comp_apply, Object.edited_append, List.flatMap_singleton]
  · -- The request of the call takes the place that the call takes among the calls.
    have hold := congrArg (List.filter (·.1 ≠ (⟨id, c.key⟩ : Entity))) (h.agenda p)
    rw [List.filter_map, List.filter_map] at hold
    rw [hagenda, List.map_append, Write.filter_standing_snoc, List.map_append]
    congr 1
    · refine hold.trans (congrArg (List.map _) (List.filter_congr fun d _ => ?_))
      simp
    · rw [apply_ite (List.map _), apply_ite (List.map _), List.map_singleton, List.map_singleton,
        c.edits_request]
      rfl

/-- All calls are made. -/
theorem perform (h : Written functions settings base id cs w) (hthere : (base.scene.get? id).isSome)
    (later : List Write) :
    Written functions settings base id (cs ++ later) (w.perform (later.map (Write.operation id))) := by
  induction later generalizing cs w with
  | nil => exact (List.append_nil cs).symm ▸ h
  | cons c later ih =>
    rw [← List.singleton_append, ← List.append_assoc]
    exact ih (h.run hthere c)

/-- What waits carries out the calls that are served, in their order. -/
theorem due_eq (h : Written functions settings base id cs w) :
    w.due id = (Write.served id cs).flatMap Write.edits := by
  have hobject : ∀ p, ∀ r ∈ w.scheduler.queue.agendaAt id p, r.target.object = id :=
    fun p r hr => of_decide_eq_true (List.mem_filter.1 hr).2
  have hedits : ∀ p, (w.scheduler.queue.agendaAt id p).flatMap Request.edits =
      ((Write.standing cs).filter (·.priority = p)).flatMap Write.edits := by
    intro p
    have hagenda := congrArg (List.flatMap Prod.snd) (h.agenda p)
    rwa [List.flatMap_map, List.flatMap_map] at hagenda
  unfold due Queue.agenda Write.served
  rw [List.flatMap_assoc]
  split
  next hid =>
    refine List.flatMap_eq_nil_iff.2 fun p _ => List.flatMap_eq_nil_iff.2 fun r hr => ?_
    exact if_pos (decide_eq_true ((hobject p r hr).trans hid))
  next hid =>
    rw [List.flatMap_assoc]
    refine List.flatMap_congr fun p _ => ?_
    rw [← hedits p]
    refine List.flatMap_congr fun r hr => if_neg fun hvariable => hid ?_
    exact (hobject p r hr).symm.trans (of_decide_eq_true hvariable)

/-- When everything was carried out, a field holds what was last written to it. -/
theorem field?_drained (h : Written functions settings base id cs w)
    (hthere : (base.scene.get? id).isSome) (hundotted : ∀ c ∈ cs, c.Undotted) {n : Nat}
    (hidle : (w.drained n).scheduler.isIdle) (name : String) :
    (w.drained n).scene.objects.field? ⟨id, name⟩ =
      ((lastWrite? name (cs.flatMap Write.atOnce ++ (Write.served id cs).flatMap Write.edits)).map
        .leaf).or (base.scene.objects.field? ⟨id, name⟩) := by
  obtain ⟨o, ho⟩ := Option.isSome_iff_exists.1 hthere
  let edits := cs.flatMap Write.atOnce ++ (Write.served id cs).flatMap Write.edits
  have hedits : ∀ e ∈ edits, e.1 = [] ∨ ∃ name, e.1 = [name] := by
    intro e he
    rcases List.mem_append.1 he with he | he
    · obtain ⟨c, hc, he⟩ := List.mem_flatMap.1 he
      exact Write.paths_edits (hundotted c hc) e (c.atOnce_subset he)
    · obtain ⟨c, hc, he⟩ := List.mem_flatMap.1 he
      exact Write.paths_edits (hundotted c ((Write.standing_sublist cs).subset
        (Write.mem_standing_of_mem_served hc))) e he
  have hdestined : Destined functions settings id (some (o.edited edits).properties) w := by
    refine ⟨h.toFree, ?_⟩
    rw [h.object, ho, h.due_eq, Option.map_some, Option.map_some, ← Object.edited_append]
  have hdrained := ((Destined.course functions settings id _).drains hdestined n).properties_of_isIdle
    hidle
  obtain ⟨o', ho', hproperties⟩ := Option.map_eq_some_iff.1 hdrained
  have hget : base.scene.objects.get? id = some o := ho
  have hget' : (w.drained n).scene.objects.get? id = some o' := ho'
  rw [ObjectTable.field?, ObjectTable.field?, hget, hget', Option.bind_some, Option.bind_some,
    hproperties, Object.get?_edited hedits]

end Written

/-! ## The last write -/

/-- Whatever was done with a workbench, an object without formulas is free when nothing waits. -/
theorem free_perform (functions : Registry σ) (scene : Scene) (settings : Settings) (clock : Clock)
    (host : σ) (hscene : scene.objects.Keyed) (ops : List Operation) :
    let w := (new functions scene settings clock host).perform ops
    w.scheduler.isIdle → (∀ property, w.formulas[Entity.mk id property]? = none) →
      Free functions settings.evaluation id w := by
  intro w hidle hnone
  have hreach : Reaches (fun _ => True) { settings := settings.propagation } w.scheduler :=
    reaches_perform (new functions scene settings clock host) ops
  have hunread : w.scheduler.inbox.unread = [] := unread_of_isIdle hidle
  have hundriven : ∀ e : Entity, e.object = id → w.formulas[e]? = none := by
    rintro e rfl
    exact hnone e.property
  refine ⟨standing_perform functions scene settings clock host hscene ops, hreach.sound.graph,
    hunread, hunread ▸ hreach.orderly, hundriven, fun p c hc heq => ?_⟩
  have hdriven := (fed_perform functions scene settings clock host ops).formulas p c hc
  rw [hundriven c heq] at hdriven
  cases hdriven

/-- Take any workbench that operations led to, in which nothing waits, and an object without
formulas. Write values to undotted properties of it and resize it, by any calls at any priorities,
and drain until nothing waits. Then every property holds what is written to it last when values are
written at once and the calls that no later one takes the place of are carried out again in the order
of their priorities; and it holds what the latest call that writes it was to write, or what it held
before when there is none, unless that call is outlived. -/
theorem latest_write_lasts_unless_outlived (functions : Registry σ) (scene : Scene)
    (settings : Settings) (clock : Clock) (host : σ) (hscene : scene.objects.Keyed)
    (ops : List Operation) :
    let w := (new functions scene settings clock host).perform ops
    ∀ (id : ObjectId) (calls : List Write), w.scheduler.isIdle → (w.scene.get? id).isSome →
    (∀ property, w.formulas[Entity.mk id property]? = none) → (∀ c ∈ calls, c.Undotted) →
    let written := w.perform (calls.map (Write.operation id))
    (0 < settings.propagation.maxServed →
      ∃ n, ∀ m ≥ n, (written.drained m).scheduler.isIdle) ∧
    ∀ n, (written.drained n).scheduler.isIdle → ∀ name,
      let before := w.scene.objects.field? ⟨id, name⟩
      let after := (written.drained n).scene.objects.field? ⟨id, name⟩
      after = ((lastWrite? name (calls.flatMap Write.atOnce ++
        (Write.served id calls).flatMap Write.edits)).map .leaf).or before ∧
      (¬ Write.Outlived id name calls →
        after = ((lastWrite? name (calls.flatMap Write.edits)).map .leaf).or before) := by
  intro w id calls hidle hthere hundriven hundotted written
  have hfree : Free functions settings.evaluation id w :=
    free_perform functions scene settings clock host hscene ops hidle hundriven
  have hwritten : Written functions settings.evaluation w id calls written :=
    (Written.refl hfree hidle).perform hthere calls
  refine ⟨fun hserves => ?_, fun n hdrained name => ?_⟩
  · have hrests := comes_to_rest functions scene settings clock host hserves
      (ops ++ calls.map (Write.operation id))
    unfold perform at hrests
    rwa [List.foldl_append] at hrests
  · have hfield := hwritten.field?_drained hthere hundotted hdrained name
    exact ⟨hfield, fun h => hfield.trans (by rw [Write.latest_lasts hundotted h])⟩

/-- A resize outlives a value that is written after it with more urgency. So it lasts in either
order, though the value is the latest write in one. -/
theorem resize_outlives_urgent_value :
    let a : Object := { id := "a", name := "a" }
    let w : Workbench Unit := (new .builtin (Scene.insert {} a) {} .still ()).perform
      [.act (.setValue a.id Names.width (.string "narrow") .normal), .act .drain]
    let value : Write := .value Names.width (.string "wide") .high
    let resize : Write := .resize 10 20 30 .low
    let width (calls : List Write) :=
      ((w.perform (calls.map (Write.operation a.id))).drained 1).scene.objects.field?
        ⟨a.id, Names.width⟩
    ¬ Write.Outlived a.id Names.width [value, resize] ∧
      width [value, resize] = some (.leaf (.number (10 : Float))) ∧
      Write.Outlived a.id Names.width [resize, value] ∧
      lastWrite? Names.width ([resize, value].flatMap Write.edits) = some (.string "wide") ∧
      width [resize, value] = some (.leaf (.number (10 : Float))) := by
  intro a w value resize width
  have hvalue : value.Writes Names.width := ⟨_, List.mem_singleton_self _, by decide⟩
  have hresize : resize.Writes Names.width := ⟨_, List.mem_cons_self, rfl⟩
  have hnot : ¬ Write.Outlived a.id Names.width [value, resize] := by
    refine Write.not_outlived (by decide) (by decide) fun c hc hkey => ?_
    rcases List.mem_pair.1 hc with rfl | rfl
    · exact absurd hkey (by decide)
    · trivial
  have hundotted : value.Undotted ∧ resize.Undotted :=
    ⟨(by decide : Path.Undotted Names.width), trivial⟩
  have hidle : w.scheduler.isIdle := by decide +kernel
  have hthere : (w.scene.get? a.id).isSome := by decide +kernel
  have hundriven : ∀ property, w.formulas[Entity.mk a.id property]? = none := by
    have hsize : w.formulas.size = 0 := by decide +kernel
    simp [Std.ExtTreeMap.eq_empty_iff_size_eq_zero.2 hsize]
  have hwidth : ∀ calls : List Write, (∀ c ∈ calls, c.Undotted) →
      ((w.perform (calls.map (Write.operation a.id))).drained 1).scheduler.isIdle →
      width calls = ((lastWrite? Names.width (calls.flatMap Write.atOnce ++
        (Write.served a.id calls).flatMap Write.edits)).map .leaf).or
          (w.scene.objects.field? ⟨a.id, Names.width⟩) ∧
      (¬ Write.Outlived a.id Names.width calls → width calls =
        ((lastWrite? Names.width (calls.flatMap Write.edits)).map .leaf).or
          (w.scene.objects.field? ⟨a.id, Names.width⟩)) := by
    intro calls hcalls hidle'
    obtain ⟨-, h⟩ := latest_write_lasts_unless_outlived .builtin (Scene.insert {} a) {} .still ()
      (ObjectTable.Keyed.empty.insert a)
      [.act (.setValue a.id Names.width (.string "narrow") .normal), .act .drain] a.id calls hidle
      hthere hundriven hcalls
    exact h 1 hidle' Names.width
  refine ⟨hnot, ?_, .overtaken (.refl _) hresize hvalue (by decide), by decide +kernel, ?_⟩
  · rw [(hwidth _ (by simp [hundotted]) (by decide +kernel)).2 hnot]
    decide +kernel
  · rw [(hwidth _ (by simp [hundotted]) (by decide +kernel)).1]
    decide +kernel

end Workbench

end Parametric
