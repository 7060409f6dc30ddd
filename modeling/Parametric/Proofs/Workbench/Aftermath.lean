import Parametric.Proofs.Workbench.Arrival
import Parametric.Proofs.Workbench.Asked

/-!
# After a removal

When an object is removed while nothing waits, what is left to do are recomputes, the news of its
properties, and the news that its container has one child less (`Request.AfterRemoval`). These
evaluate formulas and move nothing (`Effect.afterRemoval`), so references stand for the same and no
edge changes while they are served (`Workbench.Aftermath`). The removal itself takes away the edges
of the object and binds no formula again. So a reference that stood for the object and stands for
another one now has no edge of its own (`edges_after_removal`).
-/

namespace Parametric

namespace Request

variable {id : ObjectId} {place : Option ObjectId} {r : Request}

/-- A recompute, news of a property of the object `id`, or the news that a child of `place` is
gone. -/
def AfterRemoval (id : ObjectId) (place : Option ObjectId) (r : Request) : Prop :=
  r.kind = .recompute ∨
    (r.kind = .property ∧ r.target.object = id ∧ ∃ name, r.payload = .property name none) ∨
    r.kind = .hierarchy ∧ r.payload = .none ∧
      ∃ parent, place = some parent ∧ r.target = ⟨parent, Names.children⟩

theorem stable_afterRemoval (id : ObjectId) (place : Option ObjectId) :
    Stable (AfterRemoval id place) := by
  refine ⟨fun r hr => .inl hr, fun r priority payload hpayload hr => ?_⟩
  rcases hr with hkind | ⟨hkind, hobject, name, hnews⟩ | ⟨hkind, hnews, hplace⟩
  · exact .inl hkind
  · exact .inr (.inl ⟨hkind, hobject, name, by simp [absorb, hnews, Payload.isRecompute]⟩)
  · exact .inr (.inr ⟨hkind, by simp [absorb, hnews, Payload.isRecompute], hplace⟩)

end Request

/-- News without a value and without a move change no object. -/
theorem Scene.objects_applyChange_news {s s' : Scene} {r : Request} {outcome : Outcome}
    (hr : (r.kind = .property ∧ ∃ name, r.payload = .property name none) ∨
      r.kind = .hierarchy ∧ r.payload = .none)
    (h : s.applyChange r = .ok (outcome, s')) : s'.objects = s.objects := by
  obtain ⟨o, -, h⟩ := Run.ok_of_bind h
  rcases hr with ⟨hkind, name, hpayload⟩ | ⟨hkind, hpayload⟩
  · rw [hkind, hpayload] at h
    cases h
    rfl
  · rw [hkind, hpayload] at h
    cases h
    rfl

namespace Workbench

open Scheduler

variable {σ : Type} {base w w' : Workbench σ} {id : ObjectId} {place : Option ObjectId}
  {r : Request} {result : Except ApplyError Outcome} {e : Entity} {f : Formula}

/-- What is left to do after a removal computes a formula again, or there is none to compute and
nothing changes, if no formula drives the object that was removed. -/
theorem Effect.afterRemoval (h : Effect w r result w') (hr : r.AfterRemoval id place)
    (hgone : ∀ e : Entity, e.object = id → w.formulas[e]? = none) :
    (SameContent w w' ∧
        (r.kind = .recompute → r.target.isVariable ∨ w.formulas[r.target]? = none)) ∨
      r.kind = .recompute ∧ (w.formulas[r.target]?).isSome := by
  have hcomputed : ∀ {f : Formula}, r.Evaluates → w.formulas[r.target]? = some f →
      r.kind = .recompute ∧ (w.formulas[r.target]?).isSome := by
    intro f hevaluates hf
    rcases hr with hkind | ⟨-, hobject, -⟩ | ⟨hkind, -⟩
    · exact ⟨hkind, hf ▸ rfl⟩
    · rw [hgone _ hobject] at hf
      cases hf
    · rcases hevaluates with hevaluates | hevaluates <;> cases hkind.symm.trans hevaluates
  cases h with
  | noted hc hnone =>
    exact .inl ⟨⟨hc, rfl, rfl, rfl⟩, fun hkind => hnone.imp_right fun h => h (.inl hkind)⟩
  | changed hc _ hnone hchange =>
    refine .inl ⟨⟨hc, rfl, rfl, ?_⟩, fun hkind => .inr (hnone (.inl hkind))⟩
    rcases hr with hkind | ⟨hkind, -, hpayload⟩ | ⟨hkind, hpayload, -⟩
    · obtain ⟨e, he⟩ := w.scene.applyChange_recompute hkind
      rw [he] at hchange
      cases hchange
    · exact Scene.objects_applyChange_news (.inl ⟨hkind, hpayload⟩) hchange
    · exact Scene.objects_applyChange_news (.inr ⟨hkind, hpayload⟩) hchange
  | failed hevaluates hf => exact .inr (hcomputed hevaluates hf)
  | computed hevaluates hf => exact .inr (hcomputed hevaluates hf)

theorem Effect.shape_of_recompute (h : Effect w r result w') (hr : r.kind = .recompute) :
    w'.scene.objects.shape = w.scene.objects.shape := by
  cases h with
  | noted | failed => rfl
  | changed _ _ _ hchange =>
    obtain ⟨e, he⟩ := w.scene.applyChange_recompute hr
    rw [he] at hchange
    cases hchange
  | computed _ _ _ _ _ hwrite => exact Scene.shape_write hwrite

/-! ## Drains -/

/-- Since `base` formulas were evaluated and their values written, and only what a removal leaves to
do waits. -/
structure Aftermath (id : ObjectId) (place : Option ObjectId) (base w : Workbench σ) : Prop where
  serves : w.scheduler.Serves (Request.AfterRemoval id place)
  graph : w.scheduler.graph = base.scheduler.graph
  shape : w.scene.objects.shape = base.scene.objects.shape
  cores : ∀ e : Entity, (w.formulas[e]?).map Formula.core = (base.formulas[e]?).map Formula.core

namespace Aftermath

theorem same (h : Aftermath id place base w) (hsame : SameContent w w')
    (hserves : w'.scheduler.Serves (Request.AfterRemoval id place))
    (hgraph : w'.scheduler.graph = w.scheduler.graph) : Aftermath id place base w' :=
  ⟨hserves, hgraph.trans h.graph, (congrArg ObjectTable.shape hsame.objects).trans h.shape,
    fun e => hsame.formulas ▸ h.cores e⟩

/-- A formula has a formula with the same core in the base. -/
theorem exists_formula (h : Aftermath id place base w) (hf : w.formulas[e]? = some f) :
    ∃ g, base.formulas[e]? = some g ∧ g.core = f.core := by
  have hcore := h.cores e
  rw [hf, Option.map_some, eq_comm, Option.map_eq_some_iff] at hcore
  exact hcore

theorem undriven (h : Aftermath id place base w)
    (hgone : ∀ e : Entity, e.object = id → base.formulas[e]? = none) (e : Entity)
    (he : e.object = id) : w.formulas[e]? = none := by
  refine Option.eq_none_iff_forall_ne_some.2 fun f hf => ?_
  obtain ⟨g, hg, -⟩ := h.exists_formula hf
  rw [hgone e he] at hg
  cases hg

theorem serve {queue : Queue} (h : Aftermath id place base w)
    (hgone : ∀ e : Entity, e.object = id → base.formulas[e]? = none)
    (hpop : w.scheduler.queue.pop = (some r, queue))
    (heffect : Effect { w with scheduler := { w.scheduler with queue } } r result w') :
    Aftermath id place base w' := by
  obtain ⟨hr, hserves⟩ := h.serves.pop hpop
  refine ⟨heffect.scheduler ▸ hserves, ?_, ?_, fun e => (heffect.cores e).trans (h.cores e)⟩
  · rw [heffect.scheduler]
    exact h.graph
  · rcases heffect.afterRemoval hr (h.undriven hgone) with ⟨hsame, -⟩ | ⟨hkind, -⟩
    · exact (congrArg ObjectTable.shape hsame.objects).trans h.shape
    · exact (heffect.shape_of_recompute hkind).trans h.shape

theorem cascaded (h : Aftermath id place base w) (r : Request) (outcome : Outcome) :
    Aftermath id place base { w with scheduler := w.scheduler.cascade r outcome } :=
  h.same (.rescheduled _ _) (h.serves.cascade (Request.stable_afterRemoval id place) r outcome)
    (Quiet.cascade h.serves.sound r outcome).graph

theorem course (hgone : ∀ e : Entity, e.object = id → base.formulas[e]? = none) :
    Course (Aftermath id place base) where
  sound h := h.serves.sound
  unread h := h.serves.unread
  same h hsame halike := h.same hsame (h.serves.alike halike) halike.graph
  failed h hpop heffect := h.serve hgone hpop heffect
  applied h hpop heffect := (h.serve hgone hpop heffect).cascaded _ _

end Aftermath

/-- When an object is removed while nothing waits, only what follows from it waits. -/
theorem aftermath_removeObject (hs : w.scheduler.Sound) (hidle : w.scheduler.isIdle)
    {o : Object} (hremoved : Removed w id o ((Operation.removeObject id).run w)) :
    Aftermath id o.container ((Operation.removeObject id).run w)
      ((Operation.removeObject id).run w) := by
  have hheeds : ((Operation.removeObject id).run w).scheduler.Heeds
      (Request.AfterRemoval id o.container) := by
    refine Operation.keeps (lasting_heeds (Request.stable_afterRemoval id o.container)
      fun hc htarget => ?_) nofun (heeds_of_isIdle hs hidle)
    rcases hc with ⟨name, rfl⟩ | ⟨parent, hparent, rfl⟩ <;> cases htarget
    · exact .inr (.inl ⟨rfl, rfl, name, rfl⟩)
    · exact .inr (.inr ⟨rfl, rfl, parent, hremoved.containerOf?.symm.trans hparent, rfl⟩)
  exact ⟨hheeds.serves (hremoved.unread.trans (unread_of_isIdle hidle)), rfl, rfl, fun _ => rfl⟩

/-! ## References -/

/-- A formula reads the property that the path of a reference starts with. -/
theorem mem_reads_of_identify? {reference : String} {path : Path} {y : ObjectId}
    (hf : f.object = e.object) (hreference : .object reference path ∈ f.dependencies)
    (hy : w.stores.identify? (w.view e.object) reference = some y) :
    (⟨y, path.head?.getD ""⟩ : Entity) ∈ w.reads f :=
  mem_reads_of_mem_propertyReads (mem_propertyReads_of_dependency hreference
    (producer?_of_identify? (hf ▸ hy) path))

/-- Take any workbench that operations led to, in which nothing waits and the edges are what the
formulas read. Remove an object, and drain any number of times. Consider a reference of a formula
that is left, to an object that is there. The property that its path starts with feeds the formula
if and only if the formula read that property before. So it does unless the reference stood for the
object that was removed. -/
theorem edges_after_removal (functions : Registry σ) (scene : Scene) (settings : Settings)
    (clock : Clock) (host : σ) (hscene : scene.objects.Keyed) (ops : List Operation) :
    let w := (new functions scene settings clock host).perform ops
    w.scheduler.isIdle → w.EdgesAt w.containerOf? →
    ∀ (id : ObjectId) (n : Nat), (w.scene.get? id).isSome →
    let w' := ((Operation.removeObject id).run w).drained n
    ∀ (e : Entity) (f : Formula) (reference : String) (path : Path) (y : ObjectId),
    w'.formulas[e]? = some f → .object reference path ∈ f.dependencies →
    w'.stores.identify? (w'.view e.object) reference = some y → (w'.scene.get? y).isSome →
    let p : Entity := ⟨y, path.head?.getD ""⟩
    (w'.scheduler.graph.Feeds p e ↔ p ∈ w.reads f) ∧
    (w.stores.identify? (w.view e.object) reference ≠ some id → w'.scheduler.graph.Feeds p e) := by
  intro w hidle hedges id n hthere w' e f reference path y hf hreference hy hsome p
  obtain ⟨o, ho⟩ := Option.isSome_iff_exists.1 hthere
  have hs : w.scheduler.Sound := sound_perform functions scene settings clock host ops
  have hstanding := standing_perform functions scene settings clock host hscene ops
  have hremoved : Removed w id o ((Operation.removeObject id).run w) :=
    removed_removeObject hs ho
  have hafter : Aftermath id o.container ((Operation.removeObject id).run w) w' :=
    (Aftermath.course hremoved.gone).drains (aftermath_removeObject hs hidle hremoved) n
  -- The formula was there before.
  obtain ⟨g', hg', hcore⟩ := hafter.exists_formula hf
  obtain ⟨hg', hne⟩ := hremoved.formula_of hg'
  have hreads : w.reads g' = w.reads f := reads_of_core w hcore
  have hobject : f.object = e.object :=
    (Formula.object_of_core hcore).symm.trans (hstanding.formulas hg').1
  have hy' : y ≠ id := by
    rintro rfl
    have hgone := hremoved.get? y
    rw [if_pos rfl, Scene.get?] at hgone
    rw [Scene.get?, ObjectTable.isSome_get?_congr hafter.shape, hgone] at hsome
    cases hsome
  have hfeeds : w'.scheduler.graph.Feeds p e ↔ p ∈ w.reads f := by
    rw [hafter.graph, hremoved.feeds, hedges, ← hreads]
    refine (and_iff_left ⟨hy', hne⟩).trans ⟨?_, fun hp => ⟨g', hg', hp⟩⟩
    rintro ⟨g, hg, hp⟩
    exact Option.some.inj (hg.symm.trans hg') ▸ hp
  refine ⟨hfeeds, fun hother => hfeeds.2 (mem_reads_of_identify? hobject hreference ?_)⟩
  have hview : w'.view e.object = w.view e.object :=
    (Viewpoint.ofObject_congr hafter.shape e.object).trans (hremoved.view hne)
  have hsame : w'.stores.identify? (w.view e.object) reference =
      ((Operation.removeObject id).run w).stores.identify? (w.view e.object) reference :=
    Stores.identify?_congr hafter.shape _ _
  rwa [hview, hsame, Stores.identify?_remove hremoved.objects hother] at hy

/-- A removal leaves the edges of references to other objects. A reference by a name that two
objects have stands for the second one once the first is removed, but that one does not feed the
formula: it does not follow when the second object is edited. -/
theorem second_namesake_not_followed :
    let a : Object := { id := "a", name := "n", properties := [("k", .leaf (.string "old"))] }
    let b : Object := { id := "b", name := "n", properties := [("k", .leaf (.string "old"))] }
    let c : Object := { id := "c", name := "c", properties := [("k", .leaf (.string "old"))] }
    let x : Object := { id := "x", name := "x" }
    let scene : Scene := Scene.insert (Scene.insert (Scene.insert (Scene.insert {} a) b) c) x
    let w := (new .builtin scene {} .still ()).perform
      [.act (.setFormula "x" "f" "n.k"), .act (.setFormula "x" "g" "c.k"), .act .drain]
    let removed := ((Operation.removeObject "a").run w).drained 1
    let edited := removed.perform [.act (.setValue "b" "k" (.string "new") .normal), .act .drain]
    w.scheduler.isIdle ∧ w.EdgesAt w.containerOf? ∧
      removed.scheduler.graph.Feeds ⟨"c", "k"⟩ ⟨"x", "g"⟩ ∧
      removed.scheduler.isIdle ∧ removed.stores.identify? (removed.view "x") "n" = some "b" ∧
      ¬ removed.scheduler.graph.Feeds ⟨"b", "k"⟩ ⟨"x", "f"⟩ ∧
      edited.scheduler.isIdle ∧ edited.property? "x" "f" = some (.string "old") ∧
      (edited.formula? "x" "f").map edited.fresh = some (.ok (.string "new")) := by
  intro a b c x scene w removed edited
  have hkeyed : scene.objects.Keyed :=
    (((ObjectTable.Keyed.empty.insert a).insert b).insert c).insert x
  have hidle : w.scheduler.isIdle := by decide +kernel
  have hedges : w.EdgesAt w.containerOf? := by decide +kernel
  have hread : (removed.formula? "x" "g").map Formula.dependencies =
      some [.object "c" ["k"]] := by decide +kernel
  obtain ⟨g, hg, hdependencies⟩ := Option.map_eq_some_iff.1 hread
  have hother : w.stores.identify? (w.view "x") "c" ≠ some "a" := by decide +kernel
  have hremoval := edges_after_removal .builtin scene {} .still () hkeyed
    [.act (.setFormula "x" "f" "n.k"), .act (.setFormula "x" "g" "c.k"), .act .drain] hidle hedges
    "a" 1 (by decide +kernel) ⟨"x", "g"⟩ g "c" ["k"] "c" hg (by rw [hdependencies]; simp)
    (by decide +kernel) (by decide +kernel)
  refine ⟨hidle, hedges, ?_, by decide +kernel⟩
  -- Written out, the workbenches are the same as they stand.
  dsimp only [removed, w]
  exact hremoval.2 hother

end Workbench

end Parametric
