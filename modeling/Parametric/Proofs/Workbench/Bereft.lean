import Parametric.Proofs.Workbench.Aftermath

/-!
# Formulas of what is left

An object is removed while nothing waits and every formula is up to date. What the removal shifts,
it makes wait, apart from what a formula reads through its variables: no formula is told of the
variables that went with the object. While the rest is served every formula waits or agrees, except
for those that did not outlive the removal (`Workbench.Outlives`, `Workbench.Bereft`). So when
nothing waits any more, all formulas that outlived it are up to date (`formulas_outlive_removal`).
-/

namespace Parametric

namespace Workbench

open Scheduler

variable {σ : Type} {base w w' : Workbench σ} {id : ObjectId} {o : Object}
  {place : Option ObjectId} {stale : Entity → Prop} {r : Request}
  {result : Except ApplyError Outcome} {e p : Entity} {f : Formula}

/-! ## What outlives a removal -/

/-- A formula of `w` outlives the removal that led to `w'`, of an object that lay in `place`: it
does not drive the list of children of `place`, none of its references that stood for the object
stands for another one now, and it waits, or its variables stand for what they stood for. -/
structure Outlives (w w' : Workbench σ) (id : ObjectId) (place : Option ObjectId) (e : Entity)
    (f : Formula) : Prop where
  children : ∀ parent, place = some parent → e ≠ ⟨parent, Names.children⟩
  references : ∀ (reference : String) (path : Path) (y : ObjectId),
    .object reference path ∈ f.dependencies →
    w.stores.identify? (w.view e.object) reference = some id →
    w'.stores.identify? (w'.view e.object) reference = some y → w'.scene.get? y = none
  vars : w'.scheduler.Waits e ∨ ∀ name ∈ f.variableNames,
    w'.stores.variableOf (w'.view e.object) name = w.stores.variableOf (w.view e.object) name

theorem Outlives.of_core {f' : Formula} (h : Outlives w w' id place e f)
    (hcore : f'.core = f.core) : Outlives w w' id place e f' := by
  have hsame : Outlives w w' id place e f'.core := hcore ▸ ⟨h.children, h.references, h.vars⟩
  exact ⟨hsame.children, hsame.references, hsame.vars⟩

/-- What a formula that outlives a removal reads of the objects that are left, it read before. -/
theorem mem_reads_of_removed (hremoved : Removed w id o w') (hf : f.object = e.object)
    (hne : e.object ≠ id) (houtlives : Outlives w w' id place e f) (hp : p ∈ w'.reads f)
    (hsome : (w'.scene.get? p.object).isSome) : p ∈ w.reads f := by
  have hplace : w'.containerOf? f.object = w.containerOf? f.object := by
    show (w'.scene.get? f.object).bind Object.container = _
    rw [hremoved.get?, hf, if_neg (Ne.symm hne)]
    rfl
  obtain ⟨⟨q, edge⟩, hmem, rfl⟩ := List.mem_map.1 hp
  rcases List.mem_append.1 hmem with hnamed | hvar
  · obtain ⟨d, hd, hproduced⟩ := List.mem_filterMap.1 hnamed
    obtain ⟨⟨q', kind⟩, hproducer, heq⟩ := Option.map_eq_some_iff.1 hproduced
    cases heq
    cases d with
    | object reference path =>
      obtain ⟨hid, hproperty⟩ := identify?_of_producer? hproducer hsome
      rw [hf] at hid
      have hother : w.stores.identify? (w.view e.object) reference ≠ some id := by
        intro hstood
        rw [houtlives.references reference path _ hd hstood hid] at hsome
        cases hsome
      rw [hremoved.view hne, Stores.identify?_remove hremoved.objects hother] at hid
      have hread := mem_reads_of_identify? hf hd hid
      rwa [← hproperty] at hread
    | container property =>
      rw [hplace] at hproducer
      exact mem_reads_of_mem_propertyReads (mem_propertyReads_of_dependency hd hproducer)
    | own property =>
      rw [hplace] at hproducer
      exact mem_reads_of_mem_propertyReads (mem_propertyReads_of_dependency hd hproducer)
  · obtain ⟨name, hname, heq⟩ := List.mem_map.1 hvar
    cases heq
    exact mem_reads_of_variable hname

/-- Nothing that a formula outlives changed what it means, unless it waits. -/
theorem agrees_of_removed (hw : w.Bound) (hkeyed : w.scene.objects.Keyed)
    (hremoved : Removed w id o ((Operation.removeObject id).run w))
    (hf : w.formulas[e]? = some f) (hne : e.object ≠ id) (hagrees : w.Agrees e f)
    (houtlives : Outlives w ((Operation.removeObject id).run w) id o.container e f)
    (hwaits : ¬ ((Operation.removeObject id).run w).scheduler.Waits e) :
    Agrees ((Operation.removeObject id).run w) e f := by
  obtain ⟨hobject, -, hcompiled⟩ := hw.formulas hf
  obtain ⟨hrestructured, -⟩ :=
    restructured_removeObject hw hkeyed hremoved.there
  have hreads : ∀ p ∈ w.reads f, p.object ≠ id := fun p hp hid =>
    hwaits (hremoved.readers p e hid ((hw.edges p e).2 ⟨f, hf, hp⟩) hne).1
  have hapart : Apart w ((Operation.removeObject id).run w) (o.container = some ·) f := by
    refine ⟨fun c hc hmem => hwaits ?_, fun name hname => ?_⟩
    · exact hremoved.siblings c e hc ((hw.edges _ e).2 ⟨f, hf, hmem⟩) hne
    · have hread := houtlives.vars.resolve_left hwaits name hname
      rwa [hremoved.view hne, ← hobject] at hread
  have hmeaning : ((Operation.removeObject id).run w).meaning f = w.meaning f :=
    hrestructured.meaning hw hkeyed hcompiled (hobject ▸ hne)
      (overlooks_removed hcompiled hremoved.objects hreads) hapart
  refine ⟨hmeaning ▸ hagrees.1, fun v hv => ?_⟩
  have hget := hrestructured.objects.get? _ hne
  have hfield := hagrees.2 v (hmeaning ▸ hv)
  unfold ObjectTable.field? at hfield ⊢
  exact (congrArg (·.bind fun o => o.properties.get? e.property) hget).trans hfield

/-! ## Drains -/

/-- In `base` the formulas that are not stale depend by edges on all that they read of the objects
that are there. No formula drives the object `id`, and one that drives the list of children of
`place` is stale. -/
structure Mourning (stale : Entity → Prop) (id : ObjectId) (place : Option ObjectId)
    (base : Workbench σ) : Prop where
  gone : ∀ e : Entity, e.object = id → base.formulas[e]? = none
  children : ∀ parent, place = some parent → stale ⟨parent, Names.children⟩
  edges : ∀ {e p : Entity} {f : Formula}, base.formulas[e]? = some f → ¬ stale e →
    p ∈ base.reads f → (base.scene.get? p.object).isSome → base.scheduler.graph.Feeds p e

/-- What a removal leaves to do is being served, and every formula waits, agrees or is stale. -/
structure Bereft (stale : Entity → Prop) (id : ObjectId) (place : Option ObjectId)
    (base w : Workbench σ) : Prop extends Grounded w where
  after : Aftermath id place base w
  settles : ∀ {e : Entity} {f : Formula}, w.formulas[e]? = some f →
    stale e ∨ w.scheduler.Waits e ∨ w.Agrees e f

namespace Bereft

theorem alike (h : Bereft stale id place base w) (hsame : SameContent w w')
    (halike : Alike w.scheduler w'.scheduler) : Bereft stale id place base w' := by
  refine ⟨h.toGrounded.same hsame,
    h.after.same hsame (h.after.serves.alike halike) halike.graph, fun {e f} hf => ?_⟩
  rw [hsame.formulas] at hf
  refine (h.settles hf).imp_right (Or.imp (fun he => ?_) (hsame.agrees h.toGrounded hf))
  rwa [Waits, halike.pendingFor]

/-- A formula that is not stale depends by edges on what it reads of objects that are there. -/
theorem feeds (h : Bereft stale id place base w) (hbase : Mourning stale id place base)
    (hf : w.formulas[e]? = some f) (hstale : ¬ stale e) (hp : p ∈ w.reads f)
    (hsome : (w.scene.get? p.object).isSome) : w.scheduler.graph.Feeds p e := by
  obtain ⟨g, hg, hcore⟩ := h.after.exists_formula hf
  rw [h.after.graph]
  refine hbase.edges hg hstale ?_ ?_
  · rwa [reads_of_core base hcore, ← reads_congr h.after.shape]
  · rwa [Scene.get?, ← ObjectTable.isSome_get?_congr h.after.shape]

/-- A formula is stale whose own request does not evaluate it. -/
theorem stale_of_target (h : Bereft stale id place base w) (hbase : Mourning stale id place base)
    (hr : r.AfterRemoval id place) (hf : w.formulas[r.target]? = some f)
    (hnone : r.kind = .recompute → r.target.isVariable ∨ w.formulas[r.target]? = none) :
    stale r.target := by
  rcases hr with hkind | ⟨-, hobject, -⟩ | ⟨-, -, parent, hplace, htarget⟩
  · rcases hnone hkind with hvariable | hnone
    · exact absurd hvariable (h.owner hf)
    · cases hf.symm.trans hnone
  · cases hf.symm.trans (h.after.undriven hbase.gone _ hobject)
  · exact htarget ▸ hbase.children parent hplace

theorem serve {queue : Queue} {s : Scheduler} (h : Bereft stale id place base w)
    (hbase : Mourning stale id place base) (hpop : w.scheduler.queue.pop = (some r, queue))
    (heffect : Effect { w with scheduler := { w.scheduler with queue } } r result w')
    (hs : Quiet { w.scheduler with queue } s)
    (hreaders : result.isOk → ∀ p ∈ r.affected, ∀ c, w.scheduler.graph.Feeds p c → s.Waits c) :
    Bereft stale id place base { w' with scheduler := s } := by
  let popped : Workbench σ := { w with scheduler := { w.scheduler with queue } }
  have hpopped : popped.Grounded := h.toGrounded.same (.rescheduled _ _)
  obtain ⟨hr, hserves⟩ := h.after.serves.pop hpop
  obtain ⟨-, hwaits⟩ := Drain.pop_spec h.after.serves.sound hpop
  have hcontent : SameContent w' { w' with scheduler := s } := .rescheduled _ _
  have hafter : Aftermath id place base { w' with scheduler := s } := by
    have hserved := h.after.serve hbase.gone hpop heffect
    refine hserved.same hcontent ⟨hs.sound, hs.unread.trans h.after.serves.unread,
      hs.all _ (Request.stable_afterRemoval id place) hserves.all⟩ ?_
    rw [heffect.scheduler]
    exact hs.graph
  rcases heffect.afterRemoval hr (h.after.undriven hbase.gone) with ⟨hsame, hnone⟩ | ⟨hkind, hsome⟩
  · have hgrounded : w'.Grounded := hpopped.same hsame
    refine ⟨hgrounded.same hcontent, hafter, fun {e f} hf => ?_⟩
    have hf' : w.formulas[e]? = some f := by rwa [← hsame.formulas]
    rcases h.settles hf' with hstale | hwaiting | hagrees
    · exact .inl hstale
    · rcases hwaits e hwaiting with rfl | hwaiting
      · exact .inl (h.stale_of_target hbase hr hf' hnone)
      · exact .inr (.inl (hs.waits e hwaiting))
    · exact .inr (.inr (hcontent.agrees hgrounded hf (hsame.agrees hpopped hf' hagrees)))
  · have hbeside : r.Beside fun _ => True := (Request.stable_beside _).recompute r hkind
    have hgrounded : w'.Grounded := heffect.grounded hpopped hbeside.toInPlace
    refine ⟨hgrounded.same hcontent, hafter, fun {e f'} hf' => ?_⟩
    obtain ⟨f, hf, -, hagrees⟩ := heffect.agrees hpopped hbeside (fun _ => trivial) hf'
    refine or_iff_not_imp_left.2 fun hstale => ?_
    have hself : e ∉ w.reads f := fun hmem => h.after.serves.sound.graph.acyclic e
      (.single (h.feeds hbase hf hstale hmem (h.formulas hf).2.1))
    have hnew : e = r.target ∨ w.Agrees e f →
        s.Waits e ∨ Agrees { w' with scheduler := s } e f' := by
      intro hold
      refine (hagrees hself hold).imp ?_ (hcontent.agrees hgrounded hf')
      rintro ⟨hok, p, hp, hread⟩
      have htarget : p = r.target := by
        rwa [Request.Evaluates.affected (.inl hkind), List.mem_singleton] at hp
      obtain ⟨g, hg⟩ := Option.isSome_iff_exists.1 hsome
      exact hreaders hok p hp e
        (h.feeds hbase hf hstale hread (htarget ▸ (h.formulas hg).2.1))
    rcases (h.settles hf).resolve_left hstale with hwaiting | hold
    · rcases hwaits e hwaiting with htarget | hwaiting
      · exact hnew (.inl htarget)
      · exact .inl (hs.waits e hwaiting)
    · exact hnew (.inr hold)

theorem course (hbase : Mourning stale id place base) : Course (Bereft stale id place base) where
  sound h := h.after.serves.sound
  unread h := h.after.serves.unread
  same h hsame halike := h.alike hsame halike
  failed := by
    intro w w' r queue reason h hpop heffect
    have hpopped := (Drain.pop_spec h.after.serves.sound hpop).1
    have hscheduler : w'.scheduler = { w.scheduler with queue } := heffect.scheduler
    have hserved := h.serve hbase hpop heffect (.refl hpopped) fun hok => by cases hok
    rwa [← hscheduler] at hserved
  applied := by
    intro w w' r queue outcome h hpop heffect
    have hpopped := (Drain.pop_spec h.after.serves.sound hpop).1
    have hscheduler : w'.scheduler = { w.scheduler with queue } := heffect.scheduler
    rw [hscheduler]
    exact h.serve hbase hpop heffect (.cascade hpopped r outcome) fun _ p hp c hc =>
      (waits_cascade hpopped r outcome c).2 (.inl ⟨p, hp, hc⟩)

end Bereft

/-! ## Removals -/

/-- After a removal from a workbench at rest, every formula waits or agrees that outlives it. -/
theorem bereft_removeObject {settings : EvaluationSettings}
    (hstanding : w.Standing .builtin settings) (htimeout : 0 < settings.timeout)
    (hs : w.scheduler.Sound) (hrest : w.AtRest)
    (hremoved : Removed w id o ((Operation.removeObject id).run w)) :
    let removed := (Operation.removeObject id).run w
    let stale := fun e => ∀ f, w.formulas[e]? = some f → ¬ Outlives w removed id o.container e f
    Mourning stale id o.container removed ∧ Bereft stale id o.container removed removed := by
  intro removed stale
  have hgrounded := hstanding.grounded hrest htimeout
  have hbound : w.Bound := ⟨hstanding.functions, hs, hstanding.formulas, hrest.edges⟩
  have hstanding' : removed.Standing .builtin settings := standing_run hstanding hs _
  have houtlives : ∀ {e : Entity} {f : Formula}, w.formulas[e]? = some f → ¬ stale e →
      Outlives w removed id o.container e f := by
    intro e f hf hstale
    simp only [stale, not_forall, not_not] at hstale
    obtain ⟨g, hg, hout⟩ := hstale
    exact Option.some.inj (hg.symm.trans hf) ▸ hout
  have hgrounded' : removed.Grounded :=
    { functions := hstanding'.functions
      timeout := hstanding'.settings ▸ htimeout
      owner := fun hf => hgrounded.owner (hremoved.formula_of hf).1
      keyed := hstanding'.keyed
      formulas := hstanding'.formulas
      plain := fun hf => hgrounded.plain (hremoved.formula_of hf).1
      constant := by
        intro e f hf v hv
        rw [hgrounded.meaning_of_isConstant hremoved.calculator.functions
          hremoved.calculator.settings (hgrounded.formulas (hremoved.formula_of hf).1).2.2
          (Formula.settled?_eq_some hv).1]
        exact hgrounded.constant (hremoved.formula_of hf).1 v hv }
  refine ⟨⟨hremoved.gone, fun parent hplace f _ hout => hout.children parent hplace rfl,
    fun {e p f} hf hstale hp hsome => ?_⟩, hgrounded', ?_, ?_⟩
  · obtain ⟨hf, hne⟩ := hremoved.formula_of hf
    refine (hremoved.feeds p e).2 ⟨(hrest.edges p e).2 ⟨f, hf, ?_⟩, ?_, hne⟩
    · exact mem_reads_of_removed hremoved (hstanding.formulas hf).1 hne (houtlives hf hstale)
        hp hsome
    · rintro hp
      rw [hremoved.get?, if_pos hp.symm] at hsome
      cases hsome
  · exact aftermath_removeObject hs hrest.idle hremoved
  · intro e f hf
    obtain ⟨hf, hne⟩ := hremoved.formula_of hf
    refine or_iff_not_imp_left.2 fun hstale => or_iff_not_imp_left.2 fun hwaits => ?_
    exact agrees_of_removed hbound hstanding.keyed hremoved hf hne
      ((hgrounded.upToDate_iff hf).1 (hrest.formulas e f hf).2) (houtlives hf hstale) hwaits

/-- Take a workbench with the built-in functions, and time to evaluate them, that came to rest after
any operations. Remove an object, and drain until nothing waits. Then every formula that is left is
up to date if it outlived the removal. -/
theorem formulas_outlive_removal (scene : Scene) (settings : Settings) (clock : Clock) (host : σ)
    (hscene : scene.objects.Keyed) (htimeout : 0 < settings.evaluation.timeout)
    (ops : List Operation) :
    let w := (new .builtin scene settings clock host).perform ops
    w.AtRest → ∀ (id : ObjectId) (o : Object) (n : Nat), w.scene.get? id = some o →
    let removed := (Operation.removeObject id).run w
    let w' := removed.drained n
    w'.scheduler.isIdle → ∀ (e : Entity) (f : Formula), w'.formulas[e]? = some f →
      Outlives w removed id o.container e f → w'.UpToDate e f := by
  intro w hrest id o n hthere removed w' hidle e f hf houtlives
  have hs : w.scheduler.Sound := sound_perform .builtin scene settings clock host ops
  have hremoved : Removed w id o removed := removed_removeObject hs hthere
  obtain ⟨hbase, hstart⟩ := bereft_removeObject
    (standing_perform .builtin scene settings clock host hscene ops) htimeout hs hrest hremoved
  have hdone := (Bereft.course hbase).drains hstart n
  refine (hdone.upToDate_iff hf).2 (((hdone.settles hf).resolve_left fun hstale => ?_).resolve_left
    (not_waits_of_isIdle hidle e))
  -- The formula was there, and outlived the removal.
  obtain ⟨g, hg, hcore⟩ := hdone.after.exists_formula hf
  exact hstale g (hremoved.formula_of hg).1 (houtlives.of_core hcore)

/-- A formula that reads the removed container besides a variable of it fails after the removal. One
that reads the variable alone is not told: it keeps the value, though the variable is gone. -/
theorem variable_of_removed_not_followed :
    let c : Object := { id := "c", name := "c", properties := [("k", .leaf (.string "old"))] }
    let x : Object := { id := "x", name := "x", container := some "c" }
    let scene : Scene := Scene.insert (Scene.insert {} c) x
    let w := (new .builtin scene {} .still ()).perform
      [.act (.defineVariable "v" .container (some "c") (.string "old")),
        .act (.setFormula "x" "f" "c.k + $v"), .act (.setFormula "x" "n" "$v"), .act .drain]
    let removed := ((Operation.removeObject "c").run w).drained 1
    w.AtRest ∧ removed.scheduler.isIdle ∧
      (removed.formula? "x" "f").map Formula.failing = some true ∧
      ∃ f, removed.formula? "x" "n" = some f ∧
        removed.fresh f = .error (.lookup (.noVariable "v")) ∧ f.failing = false ∧
        removed.property? "x" "n" = some (.string "old") := by
  intro c x scene w removed
  have hkeyed : scene.objects.Keyed := (ObjectTable.Keyed.empty.insert c).insert x
  have hf : Path.Plain "f" := by decide
  have hn : Path.Plain "n" := by decide
  have hrest : w.AtRest := atRest_after scene {} .still () (by decide +kernel) (by decide)
    [.defineVariable "v" .container (some "c") (.string "old"), .setFormula "x" "f" "c.k + $v",
      .setFormula "x" "n" "$v", .drain]
    (by simp [Action.Writes, Entity.Plain, Entity.ofVariable, Entity.isVariable, hf, hn])
    (by decide +kernel)
  have hidle : removed.scheduler.isIdle := by decide +kernel
  have hthere : (w.scene.get? "c").map Object.container = some none := by decide +kernel
  obtain ⟨o, ho, hplace⟩ := Option.map_eq_some_iff.1 hthere
  have hread : (removed.formula? "x" "f").map (fun f => (f.dependencies, removed.fresh f)) =
      some ([.object "c" ["k"]], .error (.lookup (.noObject "c"))) := by decide +kernel
  obtain ⟨f, hf, hpair⟩ := Option.map_eq_some_iff.1 hread
  have hdependencies : f.dependencies = [.object "c" ["k"]] := congrArg Prod.fst hpair
  have hfresh : removed.fresh f = .error (.lookup (.noObject "c")) := congrArg Prod.snd hpair
  have houtlives :
      Outlives w ((Operation.removeObject "c").run w) "c" o.container ⟨"x", "f"⟩ f := by
    refine ⟨fun parent hparent => ?_, fun reference path y hmem _ hy => ?_, .inl ?_⟩
    · rw [hplace] at hparent
      cases hparent
    · rw [hdependencies, List.mem_singleton] at hmem
      cases hmem
      have hnone : ((Operation.removeObject "c").run w).stores.identify?
          (((Operation.removeObject "c").run w).view "x") "c" = none := by decide +kernel
      cases hy.symm.trans hnone
    · rw [Waits]
      decide +kernel
  have hnoted : f.Noted (removed.fresh f) := (formulas_outlive_removal scene {} .still () hkeyed
    (by decide)
    [.act (.defineVariable "v" .container (some "c") (.string "old")),
      .act (.setFormula "x" "f" "c.k + $v"), .act (.setFormula "x" "n" "$v"), .act .drain]
    hrest "c" o 1 ho hidle ⟨"x", "f"⟩ f hf houtlives).1
  have hfailing : (removed.formula? "x" "f").map Formula.failing = some true := by
    rw [hfresh] at hnoted
    rw [hf, Option.map_some]
    exact congrArg some hnoted
  have hstale : (removed.formula? "x" "n").map (fun f => (removed.fresh f, f.failing)) =
      some (.error (.lookup (.noVariable "v")), false) := by decide +kernel
  obtain ⟨g, hg, hkept⟩ := Option.map_eq_some_iff.1 hstale
  exact ⟨hrest, hidle, hfailing, g, hg, congrArg Prod.fst hkept, congrArg Prod.snd hkept,
    by decide +kernel⟩

end Workbench

end Parametric
