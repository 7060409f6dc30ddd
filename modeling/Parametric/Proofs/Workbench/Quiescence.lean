import Parametric.Proofs.Workbench.Consumers
import Parametric.Proofs.Workbench.Recovery

/-!
# Adding objects to a quiescent workbench

An object is added to a workbench in which nothing waits and every formula is bound to what it reads
and follows it (`Workbench.Quiescent`). Its identifier may be new, or that of an object whose place
it takes. A formula hears of the object if it is bound to what it reads then, and waits or follows
that already (`Workbench.Heard`). So does a formula that the object concerns, if it is not refused
when it is bound again (`Admits.heard`), and one that the object leaves untouched: it reads the
same, none of it changed, and it means the same (`Untouched.heard`). While the rest is served, every
formula that heard of the object waits or follows (`recovers_addObject`).
-/

namespace Parametric.Workbench

open Scheduler

variable {σ : Type} {w w' : Workbench σ} {o : Object} {e p : Entity} {f : Formula}

/-! ## Quiescence -/

/-- Nothing waits, and every formula drives a plain name, is bound to what it reads and follows
it. -/
structure Quiescent (w : Workbench σ) : Prop where
  idle : w.scheduler.isIdle
  plain : ∀ (e : Entity) (f : Formula), w.formulas[e]? = some f → Path.Plain e.property
  edges : ∀ (e : Entity) (f : Formula), w.formulas[e]? = some f →
    ∀ p, w.scheduler.graph.Feeds p e ↔ p ∈ w.reads f
  follows : ∀ (e : Entity) (f : Formula), w.formulas[e]? = some f → w.Follows e f

theorem follows_iff : w.Follows e f ↔
    (∀ v ∈ (w.fresh f).toOption,
      f.failing = false ∧ w.property? e.object e.property = some v) ∧
    ((w.fresh f).toOption.isNone → f.failing = true) := by
  constructor
  · intro h
    cases hfresh : w.fresh f with
    | ok v => exact ⟨by simpa [Except.toOption] using h.value v hfresh, by simp [Except.toOption]⟩
    | error reason => exact ⟨by simp [Except.toOption], fun _ => h.error reason hfresh⟩
  · rintro ⟨hvalue, herror⟩
    exact ⟨fun v hv => hvalue v (by rw [hv]; rfl), fun reason hr => herror (by rw [hr]; rfl)⟩

instance : Decidable (w.Follows e f) := decidable_of_iff _ follows_iff.symm

theorem quiescent_iff : w.Quiescent ↔ w.scheduler.isIdle ∧ ∀ ef ∈ w.formulas.toList,
    Path.Plain ef.1.property ∧
    (∀ link ∈ w.scheduler.graph.edges.keys, link.consumer = ef.1 →
      link.producer ∈ w.reads ef.2) ∧
    (∀ p ∈ w.reads ef.2, w.scheduler.graph.Feeds p ef.1) ∧ w.Follows ef.1 ef.2 := by
  have hformula : ∀ {e : Entity} {f : Formula}, (e, f) ∈ w.formulas.toList ↔
      w.formulas[e]? = some f := Std.ExtTreeMap.mem_toList_iff_getElem?_eq_some
  constructor
  · intro h
    refine ⟨h.idle, fun ⟨e, f⟩ hef => ?_⟩
    have hf := hformula.1 hef
    refine ⟨h.plain e f hf, fun link hlink heq => ?_, fun p => (h.edges e f hf p).2,
      h.follows e f hf⟩
    subst heq
    exact (h.edges _ f hf _).1 (Std.ExtTreeMap.mem_keys.1 hlink)
  · rintro ⟨hidle, h⟩
    refine ⟨hidle, fun e f hf => (h (e, f) (hformula.2 hf)).1, fun e f hf p => ?_,
      fun e f hf => (h (e, f) (hformula.2 hf)).2.2.2⟩
    obtain ⟨-, hlinks, hreads, -⟩ := h (e, f) (hformula.2 hf)
    exact ⟨fun hfeeds => hlinks ⟨p, e⟩ (Std.ExtTreeMap.mem_keys.2 hfeeds) rfl, hreads p⟩

/-- Both the edges and the formulas are finitely many. -/
instance (w : Workbench σ) : Decidable w.Quiescent := decidable_of_iff _ quiescent_iff.symm

/-- A workbench at rest is quiescent. -/
theorem AtRest.quiescent (h : w.AtRest) : w.Quiescent where
  idle := h.idle
  plain e f hf := (h.formulas e f hf).1
  edges e f hf p := by
    rw [h.edges]
    refine ⟨fun ⟨g, hg, hp⟩ => ?_, fun hp => ⟨f, hf, hp⟩⟩
    exact Option.some.inj (hg.symm.trans hf) ▸ hp
  follows e f hf := (h.formulas e f hf).2.follows

/-- Operations lead to a workbench that is grounded, if its formulas drive plain names and none of
them is in the place of the variables. -/
theorem grounded_perform (scene : Scene) (settings : Settings) (clock : Clock) (host : σ)
    (hscene : scene.objects.Keyed) (htimeout : 0 < settings.evaluation.timeout)
    (ops : List Operation) :
    let w := (new .builtin scene settings clock host).perform ops
    (∀ (e : Entity) (f : Formula), w.formulas[e]? = some f →
      Path.Plain e.property ∧ ¬ e.isVariable) → w.Grounded := by
  intro w hformulas
  have hstanding := standing_perform .builtin scene settings clock host hscene ops
  exact
    { functions := hstanding.functions
      timeout := hstanding.settings ▸ htimeout
      owner := fun hf => (hformulas _ _ hf).2
      keyed := hstanding.keyed
      formulas := hstanding.formulas
      plain := fun hf => (hformulas _ _ hf).1
      constant := fun hf v hv =>
        settled_perform scene settings clock host hscene htimeout ops _ _ v hf hv }

/-! ## What an object leaves untouched -/

/-- A formula of another object is not concerned by an object that is added, no reference of it
stood for that object, and it does not read the list of children that the object leaves. -/
structure Untouched (w : Workbench σ) (o : Object) (e : Entity) (f : Formula) : Prop where
  object : e.object ≠ o.id
  unconcerned : ¬ concerns { w with scene := w.scene.insert o } o e f
  references : ∀ r ∈ f.references, w.stores.identify? (w.view e.object) r ≠ some o.id
  left : ∀ c, w.containerOf? o.id = some c → o.container ≠ some c →
    (⟨c, Names.children⟩ : Entity) ∉ w.reads f

theorem untouched_iff : Untouched w o e f ↔ e.object ≠ o.id ∧
    ¬ concerns { w with scene := w.scene.insert o } o e f ∧
    (∀ r ∈ f.references, w.stores.identify? (w.view e.object) r ≠ some o.id) ∧
    ∀ c ∈ (w.containerOf? o.id).toList, o.container ≠ some c →
      (⟨c, Names.children⟩ : Entity) ∉ w.reads f := by
  simp only [Option.mem_toList]
  exact ⟨fun ⟨hobject, hconcerns, hreferences, hleft⟩ => ⟨hobject, hconcerns, hreferences, hleft⟩,
    fun ⟨hobject, hconcerns, hreferences, hleft⟩ => ⟨hobject, hconcerns, hreferences, hleft⟩⟩

instance : Decidable (Untouched w o e f) := decidable_of_iff _ untouched_iff.symm

/-- Of the child lists that a move affects only the names are fixed. -/
theorem property_of_mem_moveAffects {x : ObjectId} {previous parent : Option ObjectId}
    (h : e ∈ moveAffects x previous parent) : e.property = Names.children := by
  unfold moveAffects ChangeKind.affected at h
  obtain ⟨c, -, rfl⟩ := List.mem_map.1 h
  rfl

/-- Other references than `self` and `parent` lead to what they stand for, or to themselves. -/
theorem identify_eq {reference : String} (hself : reference ≠ Viewpoint.selfName)
    (hparent : reference ≠ Viewpoint.parentName) (view : Viewpoint) :
    w.identify reference = (w.stores.identify? view reference).getD reference := by
  unfold identify Stores.identify?
  rw [if_neg hself, if_neg hparent]
  show _ = (if (w.scene.get? reference).isSome then some reference
    else w.scene.objects.findByName? reference).getD reference
  split <;> rfl

/-- A dependency leads to the same, unless its reference is identified otherwise. -/
theorem producer?_congr {owner : ObjectId} {container : Option ObjectId} {d : Dependency}
    (h : ∀ (reference : String) (path : Path), d = .object reference path →
      reference ≠ Viewpoint.selfName → reference ≠ Viewpoint.parentName →
      w'.identify reference = w.identify reference) :
    w'.producer? owner container d = w.producer? owner container d := by
  cases d with
  | object reference path =>
    unfold producer?
    by_cases hself : reference = Viewpoint.selfName
    · simp only [hself, if_true]
    · by_cases hparent : reference = Viewpoint.parentName
      · simp only [hparent, if_true]
      · simp only [hself, hparent, if_false, h reference path rfl hself hparent]
  | container property => rfl
  | own property => rfl

namespace Untouched

variable (h : Untouched w o e f) (hf : f.object = e.object)
include h

theorem place : w.containerOf? e.object ≠ some o.id := by
  have hcontainer : containerOf? { w with scene := w.scene.insert o } e.object =
      w.containerOf? e.object :=
    congrArg (·.bind Object.container) ((ObjectTable.sameBut_insert _ o).get? _ h.object)
  have hconcerns := h.unconcerned
  unfold concerns at hconcerns
  rw [hcontainer, Bool.or_eq_true, not_or, decide_eq_true_eq] at hconcerns
  exact hconcerns.2

theorem named {r : String} (hr : r ∈ f.references) : r ≠ o.id ∧ r ≠ o.name := by
  have hconcerns := h.unconcerned
  unfold concerns at hconcerns
  rw [Bool.or_eq_true, not_or] at hconcerns
  have hnamed := hconcerns.1
  simp only [List.any_eq_true, Bool.or_eq_true, decide_eq_true_eq, not_exists, not_and,
    not_or] at hnamed
  exact hnamed r hr

include hf

theorem overlooks (hobjects : w'.scene.objects = w.scene.objects.insert o)
    (hcompiled : f.Compiled w.calculator.functions) : Overlooks w w' o.id f :=
  overlooks_inserted hcompiled hobjects (hf ▸ h.place) fun r hr =>
    ⟨h.named hr, hf ▸ h.references r hr⟩

/-- An untouched formula reads the same. -/
theorem reads (hobjects : w'.scene.objects = w.scene.objects.insert o) :
    w'.reads f = w.reads f := by
  have hplace : w'.containerOf? f.object = w.containerOf? f.object := by
    show (w'.scene.objects.get? f.object).bind Object.container = _
    rw [hobjects, (ObjectTable.sameBut_insert _ o).get? _ (hf ▸ h.object)]
    rfl
  have hproducer : ∀ d ∈ f.dependencies, w'.producer? f.object (w.containerOf? f.object) d =
      w.producer? f.object (w.containerOf? f.object) d := by
    intro d hd
    refine producer?_congr fun reference path heq hself hparent => ?_
    have hreference : reference ∈ f.references := List.mem_filterMap.2 ⟨d, hd, by rw [heq]; rfl⟩
    obtain ⟨hid, hname⟩ := h.named hreference
    rw [identify_eq hself hparent (w.view e.object), identify_eq hself hparent (w.view e.object),
      Stores.identify?_insert hobjects hid (Ne.symm hname) (h.references _ hreference)]
  unfold Workbench.reads producers
  rw [hplace, List.filterMap_congr fun d hd => by rw [hproducer d hd]]

/-- Unless it reads the list of children that the object comes to, an untouched formula means the
same. -/
theorem meaning (hobjects : w'.scene.objects = w.scene.objects.insert o)
    (hvars : w'.vars = w.vars) (hgrounded : w.Grounded)
    (hcompiled : f.Compiled w.calculator.functions)
    (hfunctions : w'.calculator.functions = w.calculator.functions)
    (hsettings : w'.calculator.settings = w.calculator.settings)
    (hentered : ∀ c, o.container = some c → (⟨c, Names.children⟩ : Entity) ∉ w.reads f) :
    w'.meaning f = w.meaning f := by
  refine meaning_of_sameBut (hobjects ▸ ObjectTable.sameBut_insert _ o) hgrounded.functions
    (hfunctions.trans hgrounded.functions) hsettings hgrounded.keyed hcompiled (hf ▸ h.object)
    (h.overlooks hf hobjects hcompiled) ⟨fun c hc => ?_, fun name _ => ?_⟩
  · by_cases hentering : o.container = some c
    · exact hentered c hentering
    · exact h.left c (hc.resolve_right hentering) hentering
  · exact Stores.variableOf_congr (fun slot _ => congrArg (·[slot]?) hvars) _

end Untouched

/-! ## What hears of an object -/

/-- A formula hears of the object `o` in the workbench that it was added to: it is bound to what it
reads, and waits or follows that already. It does not drive the list of children of the object,
since what waits there is the arrival of the object. -/
structure Heard (added : Workbench σ) (o : Object) (e : Entity) (f : Formula) : Prop where
  children : e ≠ ⟨o.id, Names.children⟩
  bound : ∀ p ∈ added.reads f, added.scheduler.graph.Feeds p e
  settles : added.scheduler.Waits e ∨ added.Follows e f

theorem mem_concerned_iff : e ∈ w.concerned o ↔ ∃ f, w.formulas[e]? = some f ∧ w.concerns o e f := by
  unfold concerned
  constructor
  · intro he
    obtain ⟨⟨e, f⟩, hmem, rfl⟩ := List.mem_map.1 he
    obtain ⟨hf, hconcerns⟩ := List.mem_filter.1 hmem
    exact ⟨f, Std.ExtTreeMap.mem_toList_iff_getElem?_eq_some.1 hf, hconcerns⟩
  · rintro ⟨f, hf, hconcerns⟩
    exact List.mem_map.2 ⟨(e, f), List.mem_filter.2
      ⟨Std.ExtTreeMap.mem_toList_iff_getElem?_eq_some.2 hf, hconcerns⟩, rfl⟩

/-- A formula that the object concerns hears of it, if it is not refused. -/
theorem Admits.heard (hs : w.scheduler.Sound) (h : w.Admits o e) (hf : w.formulas[e]? = some f)
    (hobject : f.object = e.object) (hchildren : e ≠ ⟨o.id, Names.children⟩) :
    Heard ((Operation.addObject o).run w) o e f :=
  ⟨hchildren, fun p => (h.feeds hs hf hobject p).2,
    .inl ((added_addObject hs o).concerned e h.concerned)⟩

section

variable (hadded : Added w o w') (hf : w.formulas[e]? = some f)
include hadded hf

/-- The edges into an untouched formula are the same. -/
theorem Untouched.feeds (h : Untouched w o e f) (p : Entity) :
    w'.scheduler.graph.Feeds p e ↔ w.scheduler.graph.Feeds p e := by
  refine hadded.edges p e fun he => ?_
  obtain ⟨g, hg, hconcerns⟩ := mem_concerned_iff.1 he
  cases Option.some.inj (hf.symm.trans hg)
  exact h.unconcerned hconcerns

/-- An untouched formula waits or tracks what it reads as it did before. -/
theorem Untouched.settles (h : Untouched w o e f) (hs : w.scheduler.Sound)
    (hgrounded : w.Grounded)
    (hbound : ∀ p ∈ w.reads f, w.scheduler.graph.Feeds p e) (htracks : w.Tracks e f) :
    w'.scheduler.Waits e ∨ w'.Tracks e f := by
  obtain ⟨hobject, -, hcompiled⟩ := hgrounded.formulas hf
  have hfield : w'.scene.objects.field? e = w.scene.objects.field? e := by
    have hget : w'.scene.objects.get? e.object = w.scene.objects.get? e.object := by
      rw [hadded.content.objects]
      exact (ObjectTable.sameBut_insert _ o).get? _ h.object
    unfold ObjectTable.field?
    rw [hget]
  by_cases hentered : ∃ c, o.container = some c ∧ (⟨c, Names.children⟩ : Entity) ∈ w.reads f
  · obtain ⟨c, hc, hread⟩ := hentered
    have hfeeds := hbound _ hread
    refine .inl (hadded.readers _ (mem_moveAffects.2 (.inr (.inr hc))) e (fun he => ?_)
      ((h.feeds hadded hf _).2 hfeeds))
    -- A formula that drives the list does not read it.
    have heq : e = ⟨e.object, Names.children⟩ := by
      rw [← property_of_mem_moveAffects he]
    rw [heq] at he
    rcases mem_moveAffects.1 he with hid | hnone | hplace
    · exact h.object hid
    · cases hnone
    · have hself : (⟨c, Names.children⟩ : Entity) = e := by
        rw [heq, Option.some.inj (hc.symm.trans hplace)]
      exact hs.graph.acyclic e (.single (hself ▸ hfeeds))
  · simp only [not_exists, not_and] at hentered
    refine .inr (htracks.congr ?_ hfield)
    exact h.meaning hobject hadded.content.objects hadded.content.vars hgrounded hcompiled
      hadded.content.calculator.functions hadded.content.calculator.settings hentered

/-- An untouched formula of a quiescent workbench hears of the object. -/
theorem Untouched.heard (h : Untouched w o e f) (hs : w.scheduler.Sound)
    (hquiescent : w.Quiescent) (hgrounded : w.Grounded) (hgrounded' : w'.Grounded) :
    Heard w' o e f := by
  have hf' : w'.formulas[e]? = some f := by rwa [hadded.content.formulas]
  refine ⟨fun heq => h.object (congrArg Entity.object heq), fun p hp => ?_, ?_⟩
  · rw [h.reads (hgrounded.formulas hf).1 hadded.content.objects] at hp
    exact (h.feeds hadded hf p).2 ((hquiescent.edges e f hf p).2 hp)
  · rw [hgrounded'.follows_iff hf']
    exact h.settles hadded hf hs hgrounded (fun p hp => (hquiescent.edges e f hf p).2 hp)
      ((hgrounded.follows_iff hf).1 (hquiescent.follows e f hf))

end

/-- What adding an object asks for says nothing new. -/
theorem heralds_addObject (hs : w.scheduler.Sound) (hidle : w.scheduler.isIdle) (o : Object) :
    ((Operation.addObject o).run w).scheduler.Serves (Request.Heralds o) := by
  have hheeds : ((Operation.addObject o).run w).scheduler.Heeds (Request.Heralds o) := by
    refine Operation.keeps (lasting_heeds (Request.stable_heralds o) fun hc htarget => ?_) nofun
      (heeds_of_isIdle hs hidle)
    rcases hc with rfl | ⟨e, -, rfl⟩ <;> cases htarget
    · exact .inr (.inr ⟨rfl, rfl, rfl⟩)
    · exact .inr (.inl ⟨rfl, rfl⟩)
  exact hheeds.serves ((added_addObject hs o).unread.trans (unread_of_isIdle hidle))

/-- Once an object is added to a workbench in which nothing waits, every formula that heard of it
waits or tracks what it reads. -/
theorem recovers_addObject (hs : w.scheduler.Sound) (hidle : w.scheduler.isIdle)
    (hgrounded : ((Operation.addObject o).run w).Grounded) :
    let added := (Operation.addObject o).run w
    let stale := fun e => ∀ f, added.formulas[e]? = some f → ¬ Heard added o e f
    Welcoming stale o added ∧ Recovers stale o added added := by
  intro added stale
  have hheard : ∀ {e : Entity} {f : Formula}, added.formulas[e]? = some f → ¬ stale e →
      Heard added o e f := by
    intro e f hf hstale
    simp only [stale, not_forall, not_not] at hstale
    obtain ⟨g, hg, hheard⟩ := hstale
    exact Option.some.inj (hg.symm.trans hf) ▸ hheard
  refine ⟨⟨?_, fun f _ hheard => hheard.children rfl, fun hf hstale => (hheard hf hstale).bound _⟩,
    hgrounded, heralds_addObject hs hidle o, rfl, rfl, fun _ => rfl, fun {e f} hf => ?_⟩
  · show (added.scene.objects.get? o.id).bind Object.container = _
    rw [(added_addObject hs o).content.objects]
    exact congrArg (·.bind Object.container)
      ((ObjectTable.get?_insert _ o o.id).trans (if_pos rfl))
  · refine or_iff_not_imp_left.2 fun hstale => ?_
    exact (hheard hf hstale).settles.imp_right (hgrounded.follows_iff hf).1

/-- Take a workbench with the built-in functions, and time to evaluate them, in which nothing waits
after any operations and no formula drives a dotted name or a property in the place of the
variables. Add an object and drain. Every formula that heard of the object waits or tracks what it
reads. -/
theorem recovers_perform (scene : Scene) (settings : Settings) (clock : Clock) (host : σ)
    (hscene : scene.objects.Keyed) (htimeout : 0 < settings.evaluation.timeout)
    (ops : List Operation) :
    let w := (new .builtin scene settings clock host).perform ops
    w.scheduler.isIdle → (∀ (e : Entity) (f : Formula), w.formulas[e]? = some f →
      Path.Plain e.property ∧ ¬ e.isVariable) → ∀ (o : Object) (n : ℕ),
    let added := (Operation.addObject o).run w
    w.Grounded ∧ added.Grounded ∧
      Recovers (fun e => ∀ f, added.formulas[e]? = some f → ¬ Heard added o e f) o added
        (added.drained n) := by
  intro w hidle hformulas o n added
  have hs : w.scheduler.Sound := sound_perform .builtin scene settings clock host ops
  have hgrounded : w.Grounded :=
    grounded_perform scene settings clock host hscene htimeout ops hformulas
  have hgrounded' : added.Grounded := by
    have hperform : added = (new .builtin scene settings clock host).perform
        (ops ++ [.addObject o]) := run_perform _ _ _
    rw [hperform]
    refine grounded_perform scene settings clock host hscene htimeout _ fun e f hf => ?_
    rw [← hperform, (added_addObject hs o).content.formulas] at hf
    exact hformulas e f hf
  obtain ⟨hbase, hstart⟩ := recovers_addObject hs hidle hgrounded'
  exact ⟨hgrounded, hgrounded', (Recovers.course hbase).drains hstart n⟩

/-- A workbench comes to rest after an object is added to it, if a drain serves any requests. -/
theorem comes_to_rest_added (functions : Registry σ) (scene : Scene) (settings : Settings)
    (clock : Clock) (host : σ) (hserves : 0 < settings.propagation.maxServed)
    (ops : List Operation) (o : Object) :
    ∃ n, ∀ m ≥ n, (((Operation.addObject o).run
      ((new functions scene settings clock host).perform ops)).drained m).scheduler.isIdle := by
  rw [run_perform]
  exact comes_to_rest functions scene settings clock host hserves _

end Parametric.Workbench
