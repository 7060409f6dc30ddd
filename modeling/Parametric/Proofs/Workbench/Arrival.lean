import Parametric.Proofs.Workbench.Dragged
import Parametric.Proofs.Workbench.Standing
import Parametric.Proofs.Workbench.Writes

/-!
# Settling after moves

A move is asked for while nothing waits and every formula is up to date. Edits of other properties
leave it impending (`Impending.edit`), and when drains have served everything its object lies in its
new container and every formula is up to date, except those that were evaluated too early and that
the move shifts (`Impending.settles_of_isIdle`). After one move these are at most formulas of the
object itself, and only when one of the edits was more urgent than the move
(`formulas_follow_move`). After a chain of moves there are further ones that read the list of
children of the container that the object was in, when the last move was not more urgent than all
others and does not name that container (`formulas_settle_after_moves`).
-/

namespace Parametric

namespace Workbench

open Scheduler

variable {σ : Type} {w w' : Workbench σ} {driven stale early : Entity → Prop} {hurry : Prop}
  {place : ObjectId → Option ObjectId} {x : ObjectId} {m : Request} {e : Entity} {f : Formula}

/-! ## Edits of other properties -/

/-- An edit of a property that no formula drives and that is not the list of children of `x`: a
value is written, or the size of an object changes. -/
def Operation.Aside (driven : Entity → Prop) (x : ObjectId) : Operation → Prop
  | act (.setValue object property _ _) => Path.Undotted property ∧ ¬ driven ⟨object, property⟩ ∧
    (⟨object, property⟩ : Entity) ≠ ⟨x, Names.children⟩
  | notify object .size _ _ =>
    ∀ name ∈ [Names.size, Names.width, Names.height, Names.depth], ¬ driven ⟨object, name⟩
  | _ => False

/-- The priority that an operation asks for. -/
def Operation.priority? : Operation → Option Priority
  | act (.setValue _ _ _ priority) | act (.notifyProperty _ _ priority)
  | notify _ _ _ priority => some priority
  | submit c => some c.priority
  | _ => none

/-- A value that is written into a name without a dot changes at most the field of that name. -/
theorem changes_written {scene : Scene} {target : Entity} {v : Value}
    {bounds : Option Contribution} (hundotted : Path.Undotted target.property)
    (hwrite : w.scene.write target v = .ok (bounds, scene)) :
    Changes w { w with scene } (· = target) := by
  have hwrites := Scene.writes_write hundotted hwrite
  refine ⟨rfl, rfl, fun h => h, hwrites.shape, fun e he => ?_, fun _ _ => rfl⟩
  refine (hwrites.fields e).resolve_right ?_
  rintro ⟨u, ⟨htarget, -⟩, -⟩
  exact he htarget

/-- A value is written beside a move that is asked for. -/
theorem Impending.setValue (h : Impending driven stale early hurry place x m w)
    {object : ObjectId} {property : String} {v : Value} {priority : Priority}
    (haside : (Operation.act (.setValue object property v priority)).Aside driven x)
    (hpriority : priority < m.priority → hurry) :
    Impending driven stale early hurry place x m
      ((setValue object property v priority).run w).2 := by
  obtain ⟨hundotted, hundriven, hne⟩ := haside
  have hnone : w.formulas[Entity.mk object property]? = none :=
    Option.eq_none_iff_forall_ne_some.2 fun f hf => hundriven (h.drives hf)
  rw [run_setValue, detached_of_none hnone]
  cases hwrite : w.scene.write ⟨object, property⟩ v with
  | error e => exact h
  | ok written =>
    obtain ⟨bounds, scene⟩ := written
    have hchanges := (changes_written hundotted hwrite).same
      ((SameContent.invalidate { w with scene } [⟨object, property⟩]).trans
        (SameContent.announced _ ⟨object, property⟩ (some v) priority))
    refine h.schedule hchanges rfl (c := ⟨w.scheduler.inbox.nextId, ⟨object, property⟩,
      .property, .property property (some v), priority⟩) rfl
      (Request.beside_property rfl rfl hundotted) (by simp) ?_ hpriority ?_ rfl
    · rw [h.moves.target]
      exact hne
    · rintro e rfl
      exact List.mem_singleton_self _

/-- The size of an object changes beside a move that is asked for. -/
theorem Impending.resize (h : Impending driven stale early hurry place x m w) {object : ObjectId}
    {payload : Payload} {priority : Priority}
    (haside : (Operation.notify object .size payload priority).Aside driven x)
    (hpriority : priority < m.priority → hurry) :
    Impending driven stale early hurry place x m
      ((notifyChange object ChangeKind.size.name payload priority).run w).2 := by
  have hkind : ChangeKind.size ≠ .hierarchy := by simp
  rcases w.run_notifyChange object hkind payload priority with hrun | ⟨changed, hrun⟩
  · rw [hrun]
    exact h
  · rw [hrun]
    have hinvalidated : Impending driven stale early hurry place x m (w.invalidate changed) :=
      h.same (.invalidate w changed) rfl rfl h.inTurn h.beside fun _ he => he
    rcases (w.invalidate changed).scheduler.afterChange_eq ⟨object, .size, payload, priority⟩
      with hrefused | ⟨target, hsubmitted, htarget, htaken⟩
    · unfold propagated
      rw [hrefused]
      exact hinvalidated
    · have htarget : target = ⟨object, Names.size⟩ := by
        cases payload <;> cases htarget <;> rfl
      subst htarget
      have hnews : SameContent (w.invalidate changed) ((w.invalidate changed).propagated
          ⟨object, .size, payload, priority⟩) := .rescheduled _ _
      refine hinvalidated.schedule (hnews.changes fun _ => False) rfl
        (c := ⟨_, ⟨object, Names.size⟩, .size, payload, priority⟩) rfl
        (Request.beside_size rfl rfl haside) hsubmitted ?_ hpriority (fun _ he => he.elim) htaken
      rw [h.moves.target]
      simp [Names.size, Names.children]

/-- An edit aside leaves a move impending, if it is less urgent or there is a hurry. -/
theorem Impending.edit (h : Impending driven stale early hurry place x m w) {op : Operation}
    (hop : op.Aside driven x)
    (hpriority : ∀ q, op.priority? = some q → q < m.priority → hurry) :
    Impending driven stale early hurry place x m (op.run w) := by
  cases op with
  | act a =>
    cases a with
    | setValue object property v priority => exact h.setValue hop (hpriority priority rfl)
    | _ => exact hop.elim
  | notify object kind payload priority =>
    cases kind with
    | size => exact h.resize hop (hpriority priority rfl)
    | _ => exact hop.elim
  | _ => exact hop.elim

theorem Impending.edits (h : Impending driven stale early hurry place x m w)
    {edits : List Operation} (hedits : ∀ op ∈ edits, op.Aside driven x)
    (hpriority : ∀ op ∈ edits, ∀ q, op.priority? = some q → q < m.priority → hurry) :
    Impending driven stale early hurry place x m (w.perform edits) := by
  induction edits generalizing w with
  | nil => exact h
  | cons op edits ih =>
    obtain ⟨hop, hrest⟩ := List.forall_mem_cons.1 hedits
    obtain ⟨hfirst, hlater⟩ := List.forall_mem_cons.1 hpriority
    exact ih (h.edit hop hfirst) hrest hlater

theorem Impending.mono {stale' : Entity → Prop}
    (h : Impending driven stale early hurry place x m w) (hstale : ∀ e, stale e → stale' e) :
    Impending driven stale' early hurry place x m w :=
  { h with
    exposed := fun hf hshifts hexposed => hstale _ (h.exposed hf hshifts hexposed)
    settles := fun hf => (h.settles hf).imp_left (hstale _) }

/-! ## Drains -/

/-- The workbench after some drains. -/
def drained (w : Workbench σ) (n : Nat) : Workbench σ :=
  w.perform (List.replicate n (.act .drain))

theorem Course.drains {J : Workbench σ → Prop} (hJ : Course J) (h : J w) (n : Nat) :
    J (w.drained n) := by
  induction n generalizing w with
  | zero => exact h
  | succ n ih => exact ih (hJ.drain h)

theorem Grounded.fresh (h : w.Grounded) (f : Formula) : w.fresh f = w.meaning f :=
  fresh_eq_meaning h.timeout (h.functions ▸ fun _ _ hg => Registry.hostFree_builtin hg) f

theorem Grounded.upToDate_iff (h : w.Grounded) (hf : w.formulas[e]? = some f) :
    w.UpToDate e f ↔ w.Agrees e f := (agrees_iff_of_fresh (h.fresh f) (h.plain hf)).symm

/-- When nothing waits any more every object lies in its place, and every formula that is not stale
is up to date. -/
theorem Impending.settles_of_isIdle (h : Impending driven stale early hurry place x m w) {n : Nat}
    (hidle : (w.drained n).scheduler.isIdle) :
    (∀ y, (w.drained n).containerOf? y = place y) ∧
    ∀ (e : Entity) (f : Formula), (w.drained n).formulas[e]? = some f → ¬ stale e →
      (w.drained n).UpToDate e f := by
  have hwaits := not_waits_of_isIdle hidle
  rcases (course_transit driven stale early hurry place x m).drains (.inl h) n with h | h
  · have hm : (w.drained n).scheduler.Waits m.target := by
      rw [Waits, h.inTurn.turn.waits]
      rfl
    exact absurd hm (hwaits m.target)
  · refine ⟨fun y => (h.arrived y).symm, fun e f hf hstale => ?_⟩
    exact (h.upToDate_iff hf).2 (((h.settles hf).resolve_left hstale).resolve_left (hwaits e))

/-! ## Workbenches at rest -/

/-- Nothing waits, the edges are what the formulas read, and every formula drives a plain name and
is up to date. -/
structure AtRest (w : Workbench σ) : Prop where
  idle : w.scheduler.isIdle
  owner : w.scene.get? Entity.variableOwner = none
  edges : w.EdgesAt w.containerOf?
  formulas : ∀ (e : Entity) (f : Formula), w.formulas[e]? = some f →
    Path.Plain e.property ∧ w.UpToDate e f

/-- What a formula noted when it was up to date, it may answer as long as it is constant. -/
theorem Standing.grounded {settings : EvaluationSettings} (h : w.Standing .builtin settings)
    (hrest : w.AtRest) (htimeout : 0 < settings.timeout) : w.Grounded where
  functions := h.functions
  timeout := h.settings ▸ htimeout
  owner hf := not_isVariable_of_isSome hrest.owner (h.formulas hf).2.1
  keyed := h.keyed
  formulas := h.formulas
  plain hf := (hrest.formulas _ _ hf).1
  constant := by
    intro e f hf v hv
    have hfree : Evaluator.HostFree w.calculator.functions := by
      rw [h.functions]
      exact fun _ _ hg => Registry.hostFree_builtin hg
    rw [← fresh_eq_meaning (h.settings ▸ htimeout) hfree]
    exact (hrest.formulas e f hf).2.1.settled? hv

/-- Actions on plain names come to rest when nothing waits. -/
theorem atRest_after (scene : Scene) (settings : Settings) (clock : Clock) (host : σ)
    (howner : scene.get? Entity.variableOwner = none) (htimeout : 0 < settings.evaluation.timeout)
    (actions : List Action) (hplain : ∀ a ∈ actions, a.Writes Entity.Plain)
    (hidle : ((new .builtin scene settings clock host).after actions).scheduler.isIdle) :
    AtRest ((new .builtin scene settings clock host).after actions) := by
  have hnew : Steady Entity.Plain (new .builtin scene settings clock host) := .new _ _ _ _ _
  have hw := steady_after hnew hplain
  have h := settled_after hnew (.new scene settings clock host howner htimeout) hplain
  refine ⟨hidle, h.owner, fun p e => hw.bound.edges p e, fun e f hf => ⟨h.plain hf, ?_⟩⟩
  exact (agrees_iff_upToDate h.toCoherent hw.bound (h.plain hf)).1
    ((h.agrees hf).resolve_right (not_waits_of_isIdle hidle e))

namespace AtRest

variable {settings : EvaluationSettings} {propagation : PropagationSettings} {p : Priority}
  {previous parent : Option ObjectId}

theorem dragged (hrest : w.AtRest)
    (hreach : Reaches (fun _ => True) { settings := propagation } w.scheduler)
    (x : ObjectId) : Dragged w x [] w := by
  refine .refl hreach.sound.graph hreach.orderly hrest.idle (fun p c hc => ?_) x
  obtain ⟨f, hf⟩ := hrest.edges.exists_formula hc
  exact hf ▸ rfl

theorem plain (hrest : w.AtRest) (he : (w.formulas[e]?).isSome) : Path.Plain e.property := by
  obtain ⟨f, hf⟩ := Option.isSome_iff_exists.1 he
  exact (hrest.formulas e f hf).1

/-- The last move that was asked for is impending. It makes those formulas stale that are evaluated
before it: formulas of the object itself only in a hurry, and formulas that read the list of
children of the container that the object was in, if it does not name that container and is not
more urgent than all earlier moves. -/
theorem impending {base : Workbench σ} {ps : List Priority} (hrest : base.AtRest)
    (hgrounded : base.Grounded) (hsome : (base.scene.get? x).isSome)
    (hundriven : base.formulas[Entity.mk x Names.children]? = none) (h : Dragged base x ps w)
    (hhurry : ∀ q ∈ ps, q < p → hurry)
    (hunnamed : ∀ {e : Entity} {c : ObjectId}, base.containerOf? x = some c →
      ⟨c, Names.children⟩ ∉ moveAffects x previous parent →
      base.scheduler.graph.Feeds ⟨c, Names.children⟩ e → e.object ≠ x → w.scheduler.Waits e)
    (hw' : w' = (Operation.notify x .hierarchy (.hierarchy previous parent) p).run w)
    (hedges : w'.EdgesAt fun y => if y = x then parent else base.containerOf? y) :
    ∃ m : Request, m.priority = p ∧ Impending (fun e => (base.formulas[e]?).isSome)
      (fun e => e.object = x ∧ hurry ∨ (hurry ∨ p ∈ ps) ∧ ∃ c, base.containerOf? x = some c ∧
        ⟨c, Names.children⟩ ∉ moveAffects x previous parent ∧
        base.scheduler.graph.Feeds ⟨c, Names.children⟩ e)
      (fun e => p ∈ ps ∧ e ∉ base.driven x) hurry
      (fun y => if y = x then parent else base.containerOf? y) x m w' := by
  subst hw'
  obtain ⟨hdragged, ⟨m, hm, haffected, hpriority, hturn⟩, hwaits⟩ :=
    h.move hrest.plain hundriven hhurry previous parent
  have hshifted : ∀ {e : Entity} {f : Formula}, base.formulas[e]? = some f → base.Shifts x m f →
      e ∈ base.driven x ∨ ∃ c, base.containerOf? x = some c ∧
        ⟨c, Names.children⟩ ∉ moveAffects x previous parent ∧
        base.scheduler.graph.Feeds ⟨c, Names.children⟩ e := by
    intro e f hf hshifts
    by_cases hobject : e.object = x
    · exact .inl (Dragged.mem_driven.2 ⟨hf ▸ rfl, hobject⟩)
    · obtain ⟨c, hc, hunaffected, hread⟩ := hshifts.resolve_left fun hfx =>
        hobject ((hgrounded.formulas hf).1.symm.trans hfx)
      exact .inr ⟨c, hc, haffected ▸ hunaffected, (hrest.edges _ _).2 ⟨f, hf, hread⟩⟩
  refine ⟨m, hpriority, (hdragged.impending hgrounded (fun {e f} hf =>
    (hgrounded.upToDate_iff hf).1 (hrest.formulas e f hf).2) ?_ hsome hundriven hm hturn hedges
    fun {e f} hf hshifts => ?_).mono ?_⟩
  · rintro rfl
    rw [hrest.owner] at hsome
    cases hsome
  · by_cases he : e ∈ base.driven x
    · exact hwaits e (.inr (.inl he))
    · obtain ⟨c, hc, hunaffected, hfeeds⟩ := (hshifted hf hshifts).resolve_left he
      refine hwaits e (.inl (hunnamed hc hunaffected hfeeds fun hobject => he ?_))
      exact Dragged.mem_driven.2 ⟨hf ▸ rfl, hobject⟩
  · rintro e ⟨hexposed, f, hf, hshifts⟩
    rcases hexposed with hhurry | ⟨hp, hother⟩
    · exact (hshifted hf hshifts).imp (fun he => ⟨(Dragged.mem_driven.1 he).2, hhurry⟩)
        fun hread => ⟨.inl hhurry, hread⟩
    · exact .inr ⟨.inr hp, (hshifted hf hshifts).resolve_left hother⟩

end AtRest

/-! ## One move -/

/-- Take a workbench with the built-in functions, and time to evaluate them, that came to rest after
any operations: nothing waits, and all formulas drive plain names, have the edges that they read and
are up to date. Let an object be moved whose list of children no formula drives, and let its
formulas be bound to its new container. Then edit properties that no formula drives, and drain until
nothing waits. The object lies in its new container, and every formula is up to date; but those of
the object itself may not be when one of the edits is more urgent than the move. -/
theorem formulas_follow_move (scene : Scene) (settings : Settings) (clock : Clock) (host : σ)
    (hscene : scene.objects.Keyed) (htimeout : 0 < settings.evaluation.timeout)
    (ops : List Operation) :
    let w := (new .builtin scene settings clock host).perform ops
    w.AtRest → ∀ (x : ObjectId) (parent : Option ObjectId) (p : Priority) (edits : List Operation)
      (n : Nat),
    (w.scene.get? x).isSome → w.formulas[Entity.mk x Names.children]? = none →
    let moved := (Operation.notify x .hierarchy (.hierarchy (w.containerOf? x) parent) p).run w
    moved.EdgesAt (fun y => if y = x then parent else w.containerOf? y) →
    (∀ op ∈ edits, op.Aside (fun e => (w.formulas[e]?).isSome) x) →
    let w' := (moved.perform edits).drained n
    w'.scheduler.isIdle →
    w'.containerOf? x = parent ∧
    ∀ (e : Entity) (f : Formula), w'.formulas[e]? = some f →
      (e.object = x → ∀ op ∈ edits, ∀ q, op.priority? = some q → ¬ q < p) → w'.UpToDate e f := by
  intro w hrest x parent p edits n hsome hundriven moved hedges haside w' hidle
  have hreach : Reaches (fun _ => True) { settings := settings.propagation } w.scheduler :=
    reaches_perform (new .builtin scene settings clock host) ops
  have hgrounded : w.Grounded :=
    (standing_perform .builtin scene settings clock host hscene ops).grounded hrest htimeout
  have hhurry : ∀ q ∈ [], q < p → ∃ op ∈ edits, ∃ q, op.priority? = some q ∧ q < p :=
    fun q hq => absurd hq List.not_mem_nil
  -- The move names the container that the object leaves.
  obtain ⟨m, rfl, himpending⟩ := hrest.impending hgrounded hsome hundriven (hrest.dragged hreach x)
    hhurry (fun hc hunnamed => absurd (mem_moveAffects.2 (.inr (.inl hc))) hunnamed) rfl hedges
  obtain ⟨hplace, hsettled⟩ := (himpending.edits haside fun op hop q hq hlt =>
    ⟨op, hop, q, hq, hlt⟩).settles_of_isIdle hidle
  refine ⟨(hplace x).trans (if_pos rfl), fun e f hf hurgent => hsettled e f hf ?_⟩
  rintro (⟨hobject, op, hop, q, hq, hlt⟩ | ⟨-, c, hc, hunnamed, -⟩)
  · exact hurgent hobject op hop q hq hlt
  · exact hunnamed (mem_moveAffects.2 (.inr (.inl hc)))

/-- A formula of a moved object follows the move and an edit that is not more urgent. A more urgent
edit has the formula evaluated while the object still lies in its old container, and the formula is
not evaluated again after the move. -/
theorem overtaken_move_not_followed :
    let c : Object := { id := "c", name := "c", properties := [("title", .leaf (.string "old"))] }
    let d : Object := { id := "d", name := "d", properties := [("title", .leaf (.string "new"))] }
    let x : Object := { id := "x", name := "x", container := some "c" }
    let y : Object := { id := "y", name := "y", properties := [("k", .leaf (.string "?"))] }
    let scene : Scene := Scene.insert (Scene.insert (Scene.insert (Scene.insert {} c) d) x) y
    let w := (new .builtin scene {} .still ()).perform
      [.act (.setFormula "x" "f" "parent.title + y.k"), .act .drain]
    let moved := (Operation.notify "x" .hierarchy
      (.hierarchy (w.containerOf? "x") (some "d")) .normal).run w
    let edited (priority : Priority) := drained
      (moved.perform [.act (.setValue "y" "k" (.string "!") priority)]) 1
    w.AtRest ∧ moved.EdgesAt (fun o => if o = "x" then some "d" else w.containerOf? o) ∧
      (edited .normal).containerOf? "x" = some "d" ∧
      (edited .normal).property? "x" "f" = some (.string "new!") ∧
      (edited .high).scheduler.isIdle ∧ (edited .high).containerOf? "x" = some "d" ∧
      ∃ f, (edited .high).formula? "x" "f" = some f ∧
        (edited .high).fresh f = .ok (.string "new!") ∧
        (edited .high).property? "x" "f" = some (.string "old!") := by
  intro c d x y scene w moved edited
  have hkeyed : scene.objects.Keyed :=
    (((ObjectTable.Keyed.empty.insert c).insert d).insert x).insert y
  have hf : Path.Plain "f" := by decide
  have hrest : w.AtRest := atRest_after scene {} .still () (by decide +kernel) (by decide)
    [.setFormula "x" "f" "parent.title + y.k", .drain]
    (by simp [Action.Writes, Entity.Plain, hf]) (by decide +kernel)
  have hedges : moved.EdgesAt fun o => if o = "x" then some "d" else w.containerOf? o := by
    decide +kernel
  have hundriven : w.formulas[Entity.mk "y" "k"]? = none :=
    Option.isNone_iff_eq_none.1 (by decide +kernel)
  have haside : ∀ op ∈ [Operation.act (.setValue "y" "k" (.string "!") .normal)],
      op.Aside (fun e => (w.formulas[e]?).isSome) "x" := by
    rw [List.forall_mem_singleton]
    exact ⟨by decide, by simp [hundriven], by decide⟩
  obtain ⟨hplace, hupToDate⟩ := formulas_follow_move scene {} .still () hkeyed (by decide)
    [.act (.setFormula "x" "f" "parent.title + y.k"), .act .drain] hrest "x" (some "d") .normal
    [.act (.setValue "y" "k" (.string "!") .normal)] 1 (by decide +kernel)
    (Option.isNone_iff_eq_none.1 (by decide +kernel)) hedges haside (by decide +kernel)
  have hfollows : (edited .normal).property? "x" "f" = some (.string "new!") := by
    have hfresh : ((edited .normal).formula? "x" "f").map (edited .normal).fresh =
        some (.ok (.string "new!")) := by decide +kernel
    obtain ⟨f, hf, hfresh⟩ := Option.map_eq_some_iff.1 hfresh
    refine (hupToDate ⟨"x", "f"⟩ f hf fun _ => ?_).2 _ hfresh
    rw [List.forall_mem_singleton]
    rintro q hq
    cases hq
    decide
  have hstale : (edited .high).scheduler.isIdle ∧ (edited .high).containerOf? "x" = some "d" ∧
      ((edited .high).formula? "x" "f").map (edited .high).fresh =
        some (.ok (.string "new!")) ∧
      (edited .high).property? "x" "f" = some (.string "old!") := by decide +kernel
  obtain ⟨hidle, hmoved, hfresh, hproperty⟩ := hstale
  obtain ⟨f, hf, hfresh⟩ := Option.map_eq_some_iff.1 hfresh
  exact ⟨hrest, hedges, hplace, hfollows, hidle, hmoved, f, hf, hfresh, hproperty⟩

/-! ## A chain of moves -/

/-- The news of a chain of moves, each with its priority. Every move names the container that was
asked for by the one before it. -/
def moves (x : ObjectId) : Option ObjectId → List (Option ObjectId × Priority) → List Operation
  | _, [] => []
  | previous, (parent, p) :: chain =>
    .notify x .hierarchy (.hierarchy previous parent) p :: moves x parent chain

/-- The container that a chain of moves asks for in the end. -/
def destination (previous : Option ObjectId) (chain : List (Option ObjectId × Priority)) :
    Option ObjectId := (chain.map Prod.fst).getLastD previous

theorem moves_concat (x : ObjectId) (previous : Option ObjectId)
    (chain : List (Option ObjectId × Priority)) (parent : Option ObjectId) (p : Priority) :
    moves x previous (chain ++ [(parent, p)]) = moves x previous chain ++
      [.notify x .hierarchy (.hierarchy (destination previous chain) parent) p] := by
  induction chain generalizing previous with
  | nil => rfl
  | cons step chain ih =>
    obtain ⟨next, q⟩ := step
    have hlast : destination previous ((next, q) :: chain) = destination next chain := by
      unfold destination
      rw [List.map_cons, List.getLastD_cons]
    rw [List.cons_append, moves, ih, moves, List.cons_append, hlast]

/-- A chain of moves is asked for. What reads the list of children of the container that the first
one names waits. -/
theorem Dragged.moves {base : Workbench σ} {ps : List Priority}
    (hplain : ∀ {e : Entity}, (base.formulas[e]?).isSome → Path.Plain e.property)
    (hundriven : ∀ o, base.formulas[Entity.mk o Names.children]? = none)
    (h : Dragged base x ps w) (previous : Option ObjectId)
    (chain : List (Option ObjectId × Priority)) :
    Dragged base x (ps ++ chain.map Prod.snd) (w.perform (moves x previous chain)) ∧
    ∀ e, w.scheduler.Waits e ∨ (chain ≠ [] ∧ e.object ≠ x ∧ (base.formulas[e]?).isSome ∧
        ∃ c, previous = some c ∧ base.scheduler.graph.Feeds ⟨c, Names.children⟩ e) →
      (w.perform (moves x previous chain)).scheduler.Waits e := by
  induction chain generalizing w ps previous with
  | nil =>
    rw [List.map_nil, List.append_nil]
    exact ⟨h, fun e he => he.resolve_right fun hmoved => hmoved.1 rfl⟩
  | cons step chain ih =>
    obtain ⟨parent, p⟩ := step
    have hhurry : ∀ q ∈ ps, q < p → True := fun _ _ _ => trivial
    obtain ⟨hdragged, -, hwaits⟩ := h.move hplain (hundriven x) hhurry previous parent
    obtain ⟨hdragged', hwaits'⟩ := ih hdragged parent
    rw [List.map_cons, List.append_cons]
    refine ⟨hdragged', fun e he => hwaits' e (.inl (hwaits e ?_))⟩
    rcases he with he | ⟨-, hx, hsome, c, hc, hfeeds⟩
    · exact .inl he
    · refine .inr (.inr ⟨hx, fun hmem => ?_, _, mem_moveAffects.2 (.inr (.inl hc)), hfeeds⟩)
      obtain ⟨o, -, rfl⟩ := List.mem_map.1 hmem
      rw [hundriven] at hsome
      cases hsome

/-- Take a workbench with the built-in functions, and time to evaluate them, that came to rest after
any operations, and whose formulas drive no list of children. Let a chain of moves of one object be
asked for, the first from the container that it is in and each later one from the container that the
one before it asks for, and let its formulas be bound to the last container. Drain until nothing
waits. The object lies in the last container, and every formula is up to date, but for two sorts:
formulas of the object itself, when an earlier move is more urgent than the last one, and formulas
that read the list of children of the container that the object was in, when the last move does not
name that container and is not more urgent than all others. -/
theorem formulas_settle_after_moves (scene : Scene) (settings : Settings) (clock : Clock) (host : σ)
    (hscene : scene.objects.Keyed) (htimeout : 0 < settings.evaluation.timeout)
    (ops : List Operation) :
    let w := (new .builtin scene settings clock host).perform ops
    w.AtRest → (∀ o, w.formulas[Entity.mk o Names.children]? = none) →
    ∀ (x : ObjectId) (chain : List (Option ObjectId × Priority)) (parent : Option ObjectId)
      (p : Priority) (n : Nat),
    (w.scene.get? x).isSome →
    let moved := w.perform (moves x (w.containerOf? x) (chain ++ [(parent, p)]))
    moved.EdgesAt (fun y => if y = x then parent else w.containerOf? y) →
    let w' := moved.drained n
    w'.scheduler.isIdle →
    w'.containerOf? x = parent ∧
    ∀ (e : Entity) (f : Formula), w'.formulas[e]? = some f →
      (e.object = x → ∀ step ∈ chain, ¬ step.2 < p) →
      (∀ c, w.containerOf? x = some c → w.scheduler.graph.Feeds ⟨c, Names.children⟩ e →
        ⟨c, Names.children⟩ ∈ moveAffects x (destination (w.containerOf? x) chain) parent ∨
          ∀ step ∈ chain, p < step.2) →
      w'.UpToDate e f := by
  intro w hrest hundriven x chain parent p n hsome moved hedges w' hidle
  have hreach : Reaches (fun _ => True) { settings := settings.propagation } w.scheduler :=
    reaches_perform (new .builtin scene settings clock host) ops
  have hgrounded : w.Grounded :=
    (standing_perform .builtin scene settings clock host hscene ops).grounded hrest htimeout
  obtain ⟨hchain, hfirst⟩ := (hrest.dragged hreach x).moves hrest.plain hundriven
    (w.containerOf? x) chain
  rw [List.nil_append] at hchain
  have hmoved : moved = (Operation.notify x .hierarchy
      (.hierarchy (destination (w.containerOf? x) chain) parent) p).run
        (w.perform (moves x (w.containerOf? x) chain)) := by
    show w.perform _ = _
    rw [moves_concat, perform, perform, List.foldl_append]
    rfl
  let hurry : Prop := ∃ step ∈ chain, step.2 < p
  have hhurry : ∀ q ∈ chain.map Prod.snd, q < p → hurry := by
    intro q hq hlt
    obtain ⟨step, hstep, rfl⟩ := List.mem_map.1 hq
    exact ⟨step, hstep, hlt⟩
  have hwaits : ∀ {e : Entity} {c : ObjectId}, w.containerOf? x = some c →
      ⟨c, Names.children⟩ ∉ moveAffects x (destination (w.containerOf? x) chain) parent →
      w.scheduler.graph.Feeds ⟨c, Names.children⟩ e → e.object ≠ x →
      (w.perform (moves x (w.containerOf? x) chain)).scheduler.Waits e := by
    intro e c hc hunnamed hfeeds hx
    obtain ⟨f, hf⟩ := hrest.edges.exists_formula hfeeds
    refine hfirst e (.inr ⟨fun hnil => ?_, hx, hf ▸ rfl, c, hc, hfeeds⟩)
    -- A single move names the container that the object leaves.
    subst hnil
    exact hunnamed (mem_moveAffects.2 (.inr (.inl hc)))
  obtain ⟨m, -, himpending⟩ :=
    hrest.impending hgrounded hsome (hundriven x) hchain hhurry hwaits hmoved hedges
  obtain ⟨hplace, hsettled⟩ := himpending.settles_of_isIdle hidle
  refine ⟨(hplace x).trans (if_pos rfl), fun e f hf hown hread => hsettled e f hf ?_⟩
  rintro (⟨hobject, step, hstep, hlt⟩ | ⟨hearly, c, hc, hunnamed, hfeeds⟩)
  · exact hown hobject step hstep hlt
  · have hurgent := (hread c hc hfeeds).resolve_left hunnamed
    rcases hearly with ⟨step, hstep, hlt⟩ | hmem
    · exact Nat.lt_asymm hlt (hurgent step hstep)
    · obtain ⟨step, hstep, heq⟩ := List.mem_map.1 hmem
      exact Nat.lt_irrefl _ (heq ▸ hurgent step hstep)

/-- A formula that counts the siblings of a neighbour follows a chain of two moves when the last one
is more urgent. When both have the same priority, it is evaluated before the object leaves, and not
again, since the last move does not name the container that the object leaves. -/
theorem sibling_count_stale_after_moves :
    let c : Object := { id := "c", name := "c" }
    let d : Object := { id := "d", name := "d" }
    let e : Object := { id := "e", name := "e" }
    let x : Object := { id := "x", name := "x", container := some "c" }
    let y : Object := { id := "y", name := "y", container := some "c" }
    let scene : Scene := Scene.insert (Scene.insert (Scene.insert (Scene.insert (Scene.insert {}
      c) d) e) x) y
    let w := (new .builtin scene {} .still ()).perform
      [.act (.setFormula "y" "n" "siblingCount()"), .act .drain]
    let moved (priority : Priority) := w.perform
      (moves "x" (w.containerOf? "x") ([(some "d", .normal)] ++ [(some "e", priority)]))
    w.AtRest ∧ ((moved .high).drained 1).containerOf? "x" = some "e" ∧
      ((moved .high).drained 1).property? "y" "n" = some (.ofNat 1) ∧
      ((moved .normal).drained 1).scheduler.isIdle ∧
      ((moved .normal).drained 1).containerOf? "x" = some "e" ∧
      ∃ f, ((moved .normal).drained 1).formula? "y" "n" = some f ∧
        ((moved .normal).drained 1).fresh f = .ok (.ofNat 1) ∧
        ((moved .normal).drained 1).property? "y" "n" = some (.ofNat 2) := by
  intro c d e x y scene w moved
  have hkeyed : scene.objects.Keyed :=
    ((((ObjectTable.Keyed.empty.insert c).insert d).insert e).insert x).insert y
  have hn : Path.Plain "n" := by decide
  have hrest : w.AtRest := atRest_after scene {} .still () (by decide +kernel) (by decide)
    [.setFormula "y" "n" "siblingCount()", .drain]
    (by simp [Action.Writes, Entity.Plain, hn]) (by decide +kernel)
  have hkeys : w.formulas.keys = [⟨"y", "n"⟩] := by decide +kernel
  have hundriven : ∀ o, w.formulas[Entity.mk o Names.children]? = none := by
    intro o
    have hnot : (⟨o, Names.children⟩ : Entity) ∉ w.formulas.keys := by
      rw [hkeys]
      simp [Names.children]
    exact Option.isNone_iff_eq_none.1 (by simpa using mt Table.mem_keys_iff.2 hnot)
  have hedges : (moved .high).EdgesAt fun o => if o = "x" then some "e" else w.containerOf? o := by
    decide +kernel
  obtain ⟨hplace, hupToDate⟩ := formulas_settle_after_moves scene {} .still () hkeyed (by decide)
    [.act (.setFormula "y" "n" "siblingCount()"), .act .drain] hrest hundriven "x"
    [(some "d", .normal)] (some "e") .high 1 (by decide +kernel) hedges (by decide +kernel)
  have hfollows : ((moved .high).drained 1).property? "y" "n" = some (.ofNat 1) := by
    have hfresh : (((moved .high).drained 1).formula? "y" "n").map ((moved .high).drained 1).fresh =
        some (.ok (.ofNat 1)) := by decide +kernel
    obtain ⟨f, hf, hfresh⟩ := Option.map_eq_some_iff.1 hfresh
    refine (hupToDate ⟨"y", "n"⟩ f hf (fun hy => ?_) fun _ _ _ => .inr ?_).2 _ hfresh
    · exact absurd hy (by decide)
    · rw [List.forall_mem_singleton]
      decide
  have hstale : ((moved .normal).drained 1).scheduler.isIdle ∧
      ((moved .normal).drained 1).containerOf? "x" = some "e" ∧
      (((moved .normal).drained 1).formula? "y" "n").map ((moved .normal).drained 1).fresh =
        some (.ok (.ofNat 1)) ∧
      ((moved .normal).drained 1).property? "y" "n" = some (.ofNat 2) := by decide +kernel
  obtain ⟨hidle, hmoved, hfresh, hproperty⟩ := hstale
  obtain ⟨f, hf, hfresh⟩ := Option.map_eq_some_iff.1 hfresh
  exact ⟨hrest, hplace, hfollows, hidle, hmoved, f, hf, hfresh, hproperty⟩

end Workbench

end Parametric
