import Parametric.Proofs.Workbench.Wired

/-!
# Objects in transit

A move is requested first and carried out when its request is served. Until then the object lies
where it was, while the edges of its formulas are already those of its new container
(`Workbench.Impending`). A formula that is evaluated in between sees the old container; if the move
changes what the formula means, and is not followed by a recompute of it, the formula is `stale`
from then on. The turn of the request tells which formulas can be evaluated so early. Once the move
is served the object lies in its new container, and all other formulas agree with it or wait
(`Impending.arrive`, `Workbench.Arrived`).
-/

namespace Parametric

/-! ## Moves -/

/-- A request to move an object. -/
structure Request.Moves (x : ObjectId) (parent : Option ObjectId) (m : Request) : Prop where
  target : m.target = ⟨x, Names.children⟩
  kind : m.kind = .hierarchy
  payload : ∃ previous, m.payload = .hierarchy previous parent

theorem Request.Moves.mem_affected {x c : ObjectId} {m : Request} (h : m.Moves x (some c)) :
    (⟨c, Names.children⟩ : Entity) ∈ m.affected := by
  obtain ⟨previous, hpayload⟩ := h.payload
  rw [Request.affected, h.kind, hpayload]
  refine List.mem_map_of_mem (List.mem_eraseDups.2 (List.mem_cons_of_mem _ ?_))
  exact List.mem_append_right _ (Option.mem_toList.2 rfl)

namespace Workbench

open Scheduler

variable {σ : Type} {w w' : Workbench σ} {r m : Request} {result : Except ApplyError Outcome}
  {driven stale early : Entity → Prop} {hurry : Prop} {e : Entity} {f f' : Formula}
  {x : ObjectId} {parent : Option ObjectId}

/-- The move of `x` changes what a formula means and does not name what the formula reads: it is a
formula of `x`, or it reads the children of the container that `x` leaves, which is not named. -/
def Shifts (w : Workbench σ) (x : ObjectId) (m : Request) (f : Formula) : Prop :=
  f.object = x ∨ ∃ c, w.containerOf? x = some c ∧ (⟨c, Names.children⟩ : Entity) ∉ m.affected ∧
    ⟨c, Names.children⟩ ∈ w.reads f

theorem shifts_congr (hshape : w'.scene.objects.shape = w.scene.objects.shape)
    (hcore : f'.core = f.core) : w'.Shifts x m f' ↔ w.Shifts x m f := by
  have hobject := Formula.object_of_core hcore
  have hreads : w'.reads f' = w.reads f := by
    rw [reads_of_core w' hcore, reads_congr hshape]
  unfold Shifts containerOf?
  rw [hobject, hreads, ObjectTable.containerOf?_congr hshape]

/-- When an object moves, a formula of another object means the same unless it reads the children of
the container that the object leaves or of the one that it comes to. -/
theorem meaning_moved (h : w.Grounded) (hf : f.Compiled w.calculator.functions)
    (hfunctions : w'.calculator.functions = w.calculator.functions)
    (hsettings : w'.calculator.settings = w.calculator.settings) (hvars : w'.vars = w.vars)
    (hmoved : w.scene.objects.Moved x parent w'.scene.objects) (hobject : f.object ≠ x)
    (hold : ∀ c, w.containerOf? x = some c → (⟨c, Names.children⟩ : Entity) ∉ w.reads f)
    (hnew : ∀ c, parent = some c → (⟨c, Names.children⟩ : Entity) ∉ w.reads f) :
    w'.meaning f = w.meaning f := by
  have hview : w'.view f.object = w.view f.object := Viewpoint.ofObject_moved hmoved hobject
  unfold meaning
  rw [hview]
  refine Evaluator.value_congr hfunctions (congrArg EvaluationSettings.maxDepth hsettings) f.tree
    (fun n hn => ?_) 1
  cases n with
  | var name =>
    have hread : w'.stores.variableOf (w.view f.object) name =
        w.stores.variableOf (w.view f.object) name :=
      Stores.variableOf_congr (fun slot _ => congrArg (·[slot]?) hvars) _
    simp only [Evaluator.SameAt, Evaluator.lookup, Evaluator.resolve, Calculator.evaluator, hread]
  | reference reference path =>
    have hread : w'.stores.propertyOf (w.view f.object) reference path =
        w.stores.propertyOf (w.view f.object) reference path :=
      Stores.propertyOf_moved hmoved _ _ _
    simp only [Evaluator.SameAt, Evaluator.lookup, Evaluator.resolve, Calculator.evaluator, hread]
  | call name args =>
    intro vs
    have hcalled : (w.calculator.evaluator w.stores (w.view f.object) 0).called name =
        (w'.calculator.evaluator w'.stores (w.view f.object) 0).called name := by
      refine Evaluator.called_of_sameContainers h.functions (hfunctions.trans h.functions)
        w.calculator.host fun g hg => ⟨rfl, congrArg EvaluationSettings.maxVisited hsettings.symm,
          fun _ _ => Call.sameContainer_moved rfl hmoved, fun query key hbody hkey => ?_⟩
      have hread := mem_reads_of_ask h.functions hf hn hg hbody (Viewpoint.object_ofObject _ _)
        (Viewpoint.container_ofObject _ _) h.keyed hkey
      exact (hmoved.childrenOf _ (fun heq => hold _ heq hread) fun heq => hnew _ heq hread).symm
    exact (congrFun hcalled vs).symm
  | _ => trivial

theorem producers_moved (hmoved : w.scene.objects.Moved x parent w'.scene.objects) (f : Formula)
    (container : Option ObjectId) : w'.producers f container = w.producers f container := by
  have hidentify : ∀ reference, w'.identify reference = w.identify reference := by
    intro reference
    unfold identify Scene.get?
    rw [hmoved.isSome_get?, hmoved.findByName?]
  have hproducer : ∀ d, w'.producer? f.object container d = w.producer? f.object container d := by
    intro d
    cases d with
    | object reference path => simp only [producer?, hidentify]
    | container property => rfl
    | own property => rfl
  simp only [producers, hproducer]

/-! ## Before and after -/

/-- The move `m` of `x` to `parent` waits, and the formulas of `x` are bound to `parent` already.
Every formula waits, or agrees if the move does not shift it, or is stale. -/
structure Impending (driven stale early : Entity → Prop) (hurry : Prop)
    (place : ObjectId → Option ObjectId) (x : ObjectId) (m : Request) (w : Workbench σ) :
    Prop extends Wired driven place w where
  inTurn : w.scheduler.InTurn [] m early hurry
  moves : m.Moves x (place x)
  /-- The move is about an object and not about a variable. -/
  other : x ≠ Entity.variableOwner
  object : (w.scene.get? x).isSome
  beside : w.scheduler.queue.All fun r => r.target = m.target ∨ r.Beside driven
  undriven : ¬ driven m.target
  elsewhere : ∀ y, y ≠ x → place y = w.containerOf? y
  /-- What may be served before the move is stale if the move shifts it. -/
  exposed : ∀ {e : Entity} {f : Formula}, w.formulas[e]? = some f → w.Shifts x m f →
    hurry ∨ early e → stale e
  settles : ∀ {e : Entity} {f : Formula}, w.formulas[e]? = some f →
    stale e ∨ w.scheduler.Waits e ∨ ¬ w.Shifts x m f ∧ w.Agrees e f

/-- Every object lies in its place, and every formula waits, agrees or is stale. -/
structure Arrived (driven stale : Entity → Prop) (place : ObjectId → Option ObjectId)
    (w : Workbench σ) : Prop extends Wired driven place w where
  serves : w.scheduler.Serves (Request.Beside driven)
  arrived : ∀ y, place y = w.containerOf? y
  settles : ∀ {e : Entity} {f : Formula}, w.formulas[e]? = some f →
    stale e ∨ w.scheduler.Waits e ∨ w.Agrees e f

variable {place : ObjectId → Option ObjectId} {queue : Queue} {s : Scheduler}

theorem SameContent.agrees (hsame : SameContent w w') (h : w.Grounded)
    (hf : w.formulas[e]? = some f) (hagrees : w.Agrees e f) : w'.Agrees e f :=
  hagrees.of_changes (hsame.changes fun _ => False) h hf (fun _ _ => id) id

namespace Impending

theorem sound (h : Impending driven stale early hurry place x m w) : w.scheduler.Sound :=
  ⟨h.graph, h.unread ▸ h.inTurn.orderly.toNumbered⟩

theorem same (h : Impending driven stale early hurry place x m w) (hsame : SameContent w w')
    (hgraph : w'.scheduler.graph = w.scheduler.graph)
    (hunread : w'.scheduler.inbox.unread = w.scheduler.inbox.unread)
    (hturn : w'.scheduler.InTurn [] m early hurry)
    (hbeside : w'.scheduler.queue.All fun r => r.target = m.target ∨ r.Beside driven)
    (hwaits : ∀ e, w.scheduler.Waits e → w'.scheduler.Waits e) :
    Impending driven stale early hurry place x m w' where
  toWired := h.toWired.same hsame hgraph hunread
  inTurn := hturn
  moves := h.moves
  other := h.other
  object := by
    rw [Scene.get?, hsame.objects]
    exact h.object
  beside := hbeside
  undriven := h.undriven
  elsewhere y hy := by
    rw [containerOf?, hsame.objects]
    exact h.elsewhere y hy
  exposed hf hshifts := h.exposed (hsame.formulas ▸ hf)
    ((shifts_congr (congrArg ObjectTable.shape hsame.objects) rfl).1 hshifts)
  settles := by
    intro e f hf
    rw [hsame.formulas] at hf
    rw [shifts_congr (congrArg ObjectTable.shape hsame.objects) rfl]
    exact (h.settles hf).imp_right
      (Or.imp (hwaits e) (And.imp_right (hsame.agrees h.toGrounded hf)))

/-- Another request is served before the move. -/
theorem serve (h : Impending driven stale early hurry place x m w)
    (hpop : w.scheduler.queue.pop = (some r, queue)) (hne : r.target ≠ m.target)
    (hearly : hurry ∨ early r.target)
    (heffect : Effect { w with scheduler := { w.scheduler with queue } } r result w')
    (hs : Quiet { w.scheduler with queue } s) (hturn : s.InTurn [] m early hurry)
    (hreaders : result.isOk → ∀ p ∈ r.affected, ∀ c, w.scheduler.graph.Feeds p c → s.Waits c) :
    Impending driven stale early hurry place x m { w' with scheduler := s } := by
  obtain ⟨hpending, -, hpendingFor⟩ := h.sound.numbered.indexed.pop_some hpop
  obtain ⟨-, hwaits⟩ := Drain.pop_spec h.sound hpop
  let popped : Workbench σ := { w with scheduler := { w.scheduler with queue } }
  have hr : r.Beside driven := (h.beside _ r hpending).resolve_left hne
  have hpopped : Wired driven place popped := h.toWired.same (.rescheduled _ _) rfl rfl
  have hshape : w'.scene.objects.shape = w.scene.objects.shape :=
    (heffect.changes hpopped.toGrounded hr.toInPlace).shape
  have hscheduler : w'.scheduler = { w.scheduler with queue } := heffect.scheduler
  have hcontent : SameContent w' { w' with scheduler := s } := .rescheduled _ _
  have hgrounded : w'.Grounded := heffect.grounded hpopped.toGrounded hr.toInPlace
  refine ⟨hpopped.effect hr heffect hs, hturn, h.moves, h.other, ?_, ?_, h.undriven, fun y hy => ?_,
    fun {e f'} hf' hshifts => ?_, fun {e f'} hf' => ?_⟩
  · exact (ObjectTable.isSome_get?_congr hshape x).trans h.object
  · refine hs.all _ ((Request.stable_beside _).or_target _) fun t r' hr' => ?_
    have hr' : queue.pendingFor? t = some r' := hr'
    rw [hpendingFor] at hr'
    split at hr'
    · cases hr'
    · exact h.beside t r' hr'
  · exact (h.elsewhere y hy).trans (ObjectTable.containerOf?_congr hshape y).symm
  · obtain ⟨f, hf, hcore, -⟩ := hpopped.waits_or_agrees hr heffect hreaders hf'
    exact h.exposed hf ((shifts_congr hshape hcore).1 hshifts)
  · obtain ⟨f, hf, hcore, hagrees⟩ := hpopped.waits_or_agrees hr heffect hreaders hf'
    have hsame : Shifts { w' with scheduler := s } x m f' ↔ w.Shifts x m f :=
      shifts_congr hshape hcore
    have hnew : ¬ w.Shifts x m f → e = r.target ∨ w.Agrees e f → s.Waits e ∨
        ¬ Shifts { w' with scheduler := s } x m f' ∧ Agrees { w' with scheduler := s } e f' := by
      intro hshifts hold
      have hobject : f.object ≠ x := fun heq => hshifts (.inl heq)
      exact (hagrees (h.elsewhere _ hobject) hold).imp_right
        fun hnow => ⟨mt hsame.1 hshifts, hcontent.agrees hgrounded hf' hnow⟩
    by_cases htarget : e = r.target
    · by_cases hshifts : w.Shifts x m f
      · exact .inl (h.exposed hf hshifts (htarget ▸ hearly))
      · exact .inr (hnew hshifts (.inl htarget))
    · rcases h.settles hf with hstale | hwaiting | ⟨hshifts, hold⟩
      · exact .inl hstale
      · exact .inr (.inl (hs.waits e ((hwaits e hwaiting).resolve_left htarget)))
      · exact .inr (hnew hshifts (.inr hold))

/-- Serving the move carries it out. -/
theorem carried (h : Impending driven stale early hurry place x m w)
    (heffect : Effect { w with scheduler := { w.scheduler with queue } } m result w') :
    result.isOk ∧ ∃ (calculator : Calculator σ) (scene : Scene),
      w.calculator.Kept calculator ∧ w.scene.objects.Moved x (place x) scene.objects ∧
      w' = { w with calculator, scene, scheduler := { w.scheduler with queue } } := by
  obtain ⟨htarget, hkind, previous, hpayload⟩ := h.moves
  have hevaluates : ¬ m.Evaluates := by
    rintro (hr | hr) <;> rw [hkind] at hr <;> cases hr
  have hvariable : ¬ m.target.isVariable := by
    intro hvariable
    exact h.other (by rw [← of_decide_eq_true hvariable, htarget])
  obtain ⟨outcome, scene, hmove, hmoved⟩ := Scene.moved_applyChange h.keyed h.object
    (congrArg Entity.object htarget) hkind hpayload
  cases heffect with
  | noted _ _ _ hrefused =>
    obtain ⟨reason, herror⟩ := hrefused hvariable fun h => hevaluates (.inl h)
    rw [hmove] at herror
    cases herror
  | changed hc _ _ hchange =>
    cases hmove.symm.trans hchange
    exact ⟨rfl, _, _, hc, hmoved, rfl⟩
  | failed hr => exact absurd hr hevaluates
  | computed hr => exact absurd hr hevaluates

/-- A formula that the move does not shift, and that reads no list of children that the move names,
still agrees once the object has moved. -/
theorem agrees_moved (h : Impending driven stale early hurry place x m w)
    (hfunctions : w'.calculator.functions = w.calculator.functions)
    (hsettings : w'.calculator.settings = w.calculator.settings) (hvars : w'.vars = w.vars)
    (hmoved : w.scene.objects.Moved x (place x) w'.scene.objects)
    (hf : w.formulas[e]? = some f) (hshifts : ¬ w.Shifts x m f)
    (hnamed : ∀ c, (⟨c, Names.children⟩ : Entity) ∈ m.affected →
      (⟨c, Names.children⟩ : Entity) ∉ w.reads f)
    (hagrees : w.Agrees e f) : w'.Agrees e f := by
  obtain ⟨htarget, hkind, previous, hpayload⟩ := h.moves
  have hmeaning : w'.meaning f = w.meaning f := by
    refine meaning_moved h.toGrounded (h.formulas hf).2.2 hfunctions hsettings hvars hmoved
      (fun heq => hshifts (.inl heq)) (fun c hold hread => ?_) fun c hnew => ?_
    · exact hshifts (.inr ⟨c, hold, fun hmem => hnamed c hmem hread, hread⟩)
    · have hm : m.Moves x (some c) := ⟨htarget, hkind, previous, hnew ▸ hpayload⟩
      exact hnamed c hm.mem_affected
  refine ⟨hmeaning ▸ hagrees.1, fun v hv => ?_⟩
  rw [hmoved.field?]
  exact hagrees.2 v (hmeaning ▸ hv)

/-- Once the move is served, every formula that it shifts waits or is stale, and the others that it
changes read what it names. -/
theorem arrive (h : Impending driven stale early hurry place x m w)
    (hpop : w.scheduler.queue.pop = (some m, queue))
    (heffect : Effect { w with scheduler := { w.scheduler with queue } } m result w')
    (hs : Quiet { w.scheduler with queue } s)
    (hreaders : result.isOk → ∀ p ∈ m.affected, ∀ c, w.scheduler.graph.Feeds p c → s.Waits c) :
    Arrived driven stale place { w' with scheduler := s } := by
  obtain ⟨hok, calculator, scene, hc, hmoved, rfl⟩ := h.carried heffect
  obtain ⟨-, -, hpendingFor⟩ := h.sound.numbered.indexed.pop_some hpop
  obtain ⟨-, hwaits⟩ := Drain.pop_spec h.sound hpop
  have hplace : ∀ y, place y = scene.objects.containerOf? y := by
    intro y
    rw [hmoved.containerOf?]
    split
    next hy => rw [hy]
    next hy => exact h.elsewhere y hy
  have hgrounded : Grounded { w with calculator, scene, scheduler := s } :=
    h.toGrounded.step hc.functions hc.settings (hmoved.keyed h.keyed) hmoved.isSome_get?
      fun {e f} hf => ⟨f, hf, rfl, .inl rfl⟩
  refine ⟨⟨hgrounded, hs.sound.graph, hs.unread.trans h.unread, h.drives, ?_⟩,
    ⟨hs.sound, hs.unread.trans h.unread, hs.all _ (Request.stable_beside _) fun t r hr => ?_⟩,
    hplace, fun {e f} hf => ?_⟩
  · exact h.edges.congr hs.graph (fun _ => rfl) (fun f c => producers_moved hmoved f c)
      fun _ => rfl
  · have hr : queue.pendingFor? t = some r := hr
    rw [hpendingFor] at hr
    split at hr
    · cases hr
    next hne =>
      refine (h.beside t r hr).resolve_left fun heq => hne ?_
      rw [← heq, (h.sound.numbered.indexed.pendingFor?_eq_some_iff.1 hr).2]
  · have hf : w.formulas[e]? = some f := hf
    rcases h.settles hf with hstale | hwaiting | ⟨hshifts, hold⟩
    · exact .inl hstale
    · refine .inr (.inl (hs.waits e ((hwaits e hwaiting).resolve_left ?_)))
      rintro rfl
      exact h.undriven (h.drives hf)
    · refine .inr (or_iff_not_imp_left.2 fun hnot => ?_)
      refine h.agrees_moved hc.functions hc.settings rfl hmoved hf hshifts (fun c hmem hread => ?_)
        hold
      -- What reads a list of children that the move names waits now.
      refine hnot (hreaders hok _ hmem e ((h.edges _ e).2 ⟨f, hf, ?_⟩))
      rwa [h.elsewhere _ fun heq => hshifts (.inl heq)]

/-- The next request is the move, or it is served before the move. -/
theorem next (h : Impending driven stale early hurry place x m w)
    (hpop : w.scheduler.queue.pop = (some r, queue))
    (heffect : Effect { w with scheduler := { w.scheduler with queue } } r result w')
    (hs : Quiet { w.scheduler with queue } s)
    (hturn : (r.priority < m.priority → hurry) →
      InTurn { w.scheduler with queue } [] m early hurry → s.InTurn [] m early hurry)
    (hreaders : result.isOk → ∀ p ∈ r.affected, ∀ c, w.scheduler.graph.Feeds p c → s.Waits c) :
    Impending driven stale early hurry place x m { w' with scheduler := s } ∨
      Arrived driven stale place { w' with scheduler := s } := by
  have horderly := h.inTurn.orderly
  rcases h.inTurn.turn.pop horderly.indexed horderly.banded hpop with
    hm | ⟨r', hr, hne, hearly, hpopped⟩
  · cases hm
    exact .inr (h.arrive hpop heffect hs hreaders)
  · cases hr
    have hurgent : r.priority < m.priority → hurry := by
      rcases hearly with ⟨-, hhurry⟩ | ⟨heq, -⟩
      · exact fun _ => hhurry
      · exact fun hlt => absurd (heq ▸ hlt) (Nat.lt_irrefl _)
    exact .inl (h.serve hpop hne (hearly.imp And.right And.right) heffect hs
      (hturn hurgent ⟨horderly.pop hpop, hpopped⟩) hreaders)

/-- The move waits, so the queue was not found empty and is the same. -/
theorem alike (h : Impending driven stale early hurry place x m w) (hsame : SameContent w w')
    (halike : Alike w.scheduler w'.scheduler) :
    Impending driven stale early hurry place x m w' := by
  have horderly := h.inTurn.orderly
  have hqueue : w'.scheduler.queue = w.scheduler.queue := by
    refine halike.queue.resolve_right fun hpop => ?_
    rcases h.inTurn.turn.pop horderly.indexed horderly.banded hpop with
      hnone | ⟨r, hnone, -⟩ <;> cases hnone
  refine h.same hsame halike.graph halike.unread ?_ (hqueue ▸ h.beside) fun e he => ?_
  · refine ⟨?_, hqueue ▸ h.inTurn.turn⟩
    rw [hqueue, halike.inbox]
    exact horderly
  · rwa [Waits, hqueue]

end Impending

namespace Arrived

theorem alike (h : Arrived driven stale place w) (hsame : SameContent w w')
    (halike : Alike w.scheduler w'.scheduler) : Arrived driven stale place w' := by
  refine ⟨h.toWired.same hsame halike.graph halike.unread, h.serves.alike halike,
    fun y => ?_, fun {e f} hf => ?_⟩
  · rw [containerOf?, hsame.objects]
    exact h.arrived y
  · rw [hsame.formulas] at hf
    refine (h.settles hf).imp_right (Or.imp (fun he => ?_) (hsame.agrees h.toGrounded hf))
    rwa [Waits, halike.pendingFor]

theorem serve (h : Arrived driven stale place w) (hpop : w.scheduler.queue.pop = (some r, queue))
    (heffect : Effect { w with scheduler := { w.scheduler with queue } } r result w')
    (hs : Quiet { w.scheduler with queue } s)
    (hreaders : result.isOk → ∀ p ∈ r.affected, ∀ c, w.scheduler.graph.Feeds p c → s.Waits c) :
    Arrived driven stale place { w' with scheduler := s } := by
  obtain ⟨hr, hserves⟩ := h.serves.pop hpop
  obtain ⟨-, hwaits⟩ := Drain.pop_spec h.serves.sound hpop
  let popped : Workbench σ := { w with scheduler := { w.scheduler with queue } }
  have hpopped : Wired driven place popped := h.toWired.same (.rescheduled _ _) rfl rfl
  have hshape : w'.scene.objects.shape = w.scene.objects.shape :=
    (heffect.changes hpopped.toGrounded hr.toInPlace).shape
  have hcontent : SameContent w' { w' with scheduler := s } := .rescheduled _ _
  have hgrounded : w'.Grounded := heffect.grounded hpopped.toGrounded hr.toInPlace
  refine ⟨hpopped.effect hr heffect hs, ⟨hs.sound, hs.unread.trans h.unread,
    hs.all _ (Request.stable_beside _) hserves.all⟩, fun y => ?_, fun {e f'} hf' => ?_⟩
  · exact (h.arrived y).trans (ObjectTable.containerOf?_congr hshape y).symm
  · obtain ⟨f, hf, -, hagrees⟩ := hpopped.waits_or_agrees hr heffect hreaders hf'
    have hnew := fun hold => (hagrees (h.arrived _) hold).imp_right
      (hcontent.agrees hgrounded hf')
    by_cases htarget : e = r.target
    · exact .inr (hnew (.inl htarget))
    · rcases h.settles hf with hstale | hwaiting | hold
      · exact .inl hstale
      · exact .inr (.inl (hs.waits e ((hwaits e hwaiting).resolve_left htarget)))
      · exact .inr (hnew (.inr hold))

end Arrived

/-! ## Drains -/

/-- What a drain does keeps a move impending until it is served. -/
theorem course_transit (driven stale early : Entity → Prop) (hurry : Prop)
    (place : ObjectId → Option ObjectId) (x : ObjectId) (m : Request) :
    Course fun w : Workbench σ =>
      Impending driven stale early hurry place x m w ∨ Arrived driven stale place w where
  sound h := h.elim Impending.sound fun h => h.serves.sound
  unread h := h.elim (·.unread) (·.unread)
  same h hsame halike := h.imp (·.alike hsame halike) (·.alike hsame halike)
  failed := by
    intro w w' r queue reason hw hpop heffect
    have hsound : w.scheduler.Sound := hw.elim Impending.sound fun h => h.serves.sound
    have hpopped := (Drain.pop_spec hsound hpop).1
    have hscheduler : w'.scheduler = { w.scheduler with queue } := heffect.scheduler
    have hdone : Impending driven stale early hurry place x m
          { w' with scheduler := { w.scheduler with queue } } ∨
        Arrived driven stale place { w' with scheduler := { w.scheduler with queue } } := by
      rcases hw with h | h
      · exact h.next hpop heffect (.refl hpopped) (fun _ hturn => hturn) fun hok => by cases hok
      · exact .inr (h.serve hpop heffect (.refl hpopped) fun hok => by cases hok)
    rw [← hscheduler] at hdone
    exact hdone
  applied := by
    intro w w' r queue outcome hw hpop heffect
    have hsound : w.scheduler.Sound := hw.elim Impending.sound fun h => h.serves.sound
    have hpopped := (Drain.pop_spec hsound hpop).1
    have hscheduler : w'.scheduler = { w.scheduler with queue } := heffect.scheduler
    have hquiet := Quiet.cascade hpopped r outcome
    have hreaders : (Except.ok outcome : Except ApplyError Outcome).isOk → ∀ p ∈ r.affected,
        ∀ c, w.scheduler.graph.Feeds p c →
          ({ w.scheduler with queue }.cascade r outcome).Waits c :=
      fun _ p hp c hc => (waits_cascade hpopped r outcome c).2 (.inl ⟨p, hp, hc⟩)
    rw [hscheduler]
    rcases hw with h | h
    · refine h.next hpop heffect hquiet (fun hurgent hturn => ?_) hreaders
      refine InTurn.cascade (s := { w.scheduler with queue }) hturn outcome (fun p _ c hc => ?_)
        hurgent
      rintro rfl
      obtain ⟨f, hf⟩ := h.edges.exists_formula
        ((Graph.Indexed.mem_consumersOf hsound.graph.toIndexed).1 hc)
      exact h.undriven (h.drives hf)
    · exact .inr (h.serve hpop heffect hquiet hreaders)

/-! ## Changes in between -/

/-- A change of another target is put in place and scheduled. What it changed at once is among what
it affects, and no formula drives it. -/
theorem Impending.schedule (h : Impending driven stale early hurry place x m w)
    {changed : Entity → Prop} (hc : Changes w w' changed) (hformulas : w'.formulas = w.formulas)
    {c : Submission} (hid : c.id = w.scheduler.inbox.nextId) (hbeside : c.request.Beside driven)
    (hkind : c.kind ≠ .recompute) (hne : c.target ≠ m.target)
    (hpriority : c.priority < m.priority → hurry)
    (hchanged : ∀ e, changed e → e ∈ c.request.affected)
    (hscheduler : w'.scheduler = w.scheduler.accepted.schedule c) :
    Impending driven stale early hurry place x m w' := by
  have horderly : Orderly w.scheduler.accepted.queue [c] w.scheduler.accepted.inbox.nextId :=
    h.inTurn.orderly.accept hid hkind (.refl _)
  obtain ⟨queue, next, superseded, heq, -, hwaits, hall⟩ :=
    schedule_spec (s := w.scheduler.accepted) horderly.toNumbered
  have hsame : w'.scheduler = { w.scheduler with
      queue, superseded, inbox := { w.scheduler.inbox with nextId := next } } :=
    hscheduler.trans heq
  have hwaits : ∀ e, w'.scheduler.Waits e ↔
      c.target = e ∨ e ∈ w.scheduler.graph.downstream c.request.affected ∨ w.scheduler.Waits e := by
    rw [hsame]
    exact hwaits
  have hgrounded : w'.Grounded :=
    h.toGrounded.step hc.functions hc.settings (h.keyed.of_shape hc.shape)
      (ObjectTable.isSome_get?_congr hc.shape)
      fun {e f} hf => ⟨f, hformulas ▸ hf, rfl, .inl rfl⟩
  refine ⟨h.toWired.congr hgrounded (by rw [hsame]) (by rw [hsame]) (fun _ => by rw [hformulas])
    hc.shape, ?_, h.moves, h.other, ?_, ?_, h.undriven, fun y hy => ?_, fun {e f} hf hshifts => ?_,
    fun {e f} hf => ?_⟩
  · rw [hscheduler]
    refine (InTurn.schedule (s := w.scheduler.accepted) horderly h.inTurn.turn hne hpriority
      fun y hy => ?_).mono fun _ he => he.1
    rintro rfl
    obtain ⟨f, hf⟩ := h.edges.exists_formula_of_downstream h.graph hy
    exact h.undriven (h.drives hf)
  · exact (ObjectTable.isSome_get?_congr hc.shape x).trans h.object
  · rw [hsame]
    exact hall _ ((Request.stable_beside _).or_target _) (.inr hbeside) h.beside
  · exact (h.elsewhere y hy).trans (ObjectTable.containerOf?_congr hc.shape y).symm
  · exact h.exposed (hformulas ▸ hf) ((shifts_congr hc.shape rfl).1 hshifts)
  · rw [hformulas] at hf
    rcases h.settles hf with hstale | hwaiting | ⟨hshifts, hold⟩
    · exact .inl hstale
    · exact .inr (.inl ((hwaits e).2 (.inr (.inr hwaiting))))
    · refine .inr (or_iff_not_imp_left.2 fun hnot => ⟨mt (shifts_congr hc.shape rfl).1 hshifts, ?_⟩)
      have hnot : ¬ (c.target = e ∨ e ∈ w.scheduler.graph.downstream c.request.affected ∨
        w.scheduler.Waits e) := mt (hwaits e).2 hnot
      simp only [not_or] at hnot
      obtain ⟨htarget, hdownstream, -⟩ := hnot
      have haffected : e ∉ c.request.affected :=
        fun hmem => htarget (hbeside.affects e hmem (h.drives hf)).symm
      refine hold.of_changes hc h.toGrounded hf (fun p hp hpchanged => hdownstream ?_)
        fun hechanged => haffected (hchanged e hechanged)
      refine (Graph.mem_downstream_iff h.graph _ e).2 ⟨haffected, p, hchanged p hpchanged,
        .single ((h.edges p e).2 ⟨f, hf, ?_⟩)⟩
      rw [h.elsewhere _ fun heq => hshifts (.inl heq)]
      exact hp

end Workbench

end Parametric
