import Parametric.Proofs.Workbench.Removal
import Parametric.Proofs.Workbench.Restructured

/-!
# Adding and removing objects

Both operations put the scene in place, drop the cached results that look at the object, and then
only schedule what follows. So they leave a workbench that is `Restructured`
(`restructured_addObject`, `restructured_removeObject`), and immediately afterwards a formula is
evaluated to what its tree gives, unless it reads the list of children that changed or names a
variable that went with the object (`evaluated_beside_object`).
-/

namespace Parametric.Workbench

open Scheduler

variable {σ : Type} {w w' : Workbench σ} {id : ObjectId} {o : Object} {e : Entity} {f : Formula}

/-! ## Operations that only schedule -/

/-- An operation changes the scheduler at most. -/
def Reschedules {α : Type} (m : Edit σ α) : Prop :=
  ∀ w : Workbench σ, ∃ scheduler, (m.run w).2 = { w with scheduler }

namespace Reschedules

variable {α β : Type}

theorem pure (a : α) : Reschedules (pure a : Edit σ α) := fun w => ⟨w.scheduler, rfl⟩

theorem trans {w w' w'' : Workbench σ} : (∃ scheduler, w' = { w with scheduler }) →
    (∃ scheduler, w'' = { w' with scheduler }) → ∃ scheduler, w'' = { w with scheduler } := by
  rintro ⟨_, rfl⟩ ⟨scheduler, rfl⟩
  exact ⟨scheduler, rfl⟩

theorem bind {m : Edit σ α} {k : α → Edit σ β} (hm : Reschedules m)
    (hk : ∀ a, Reschedules (k a)) : Reschedules (m >>= k) :=
  Run.Leads.bind (R := fun w w' : Workbench σ => ∃ scheduler, w' = { w with scheduler }) trans hm hk

theorem forIn {body : Entity → Edit σ (ForInStep PUnit)} (h : ∀ e, Reschedules (body e))
    (es : List Entity) : Reschedules (forIn es PUnit.unit fun e _ => body e) :=
  Run.Leads.forIn (R := fun w w' : Workbench σ => ∃ scheduler, w' = { w with scheduler })
    (fun w => ⟨w.scheduler, rfl⟩) trans fun e _ => h e

theorem propagate (c : Change) : Reschedules (propagate c : Edit σ RequestId) := by
  intro w
  rcases run_propagate w c with ⟨id, hrun⟩ | ⟨e, hrun⟩ <;> exact ⟨_, by rw [hrun]; rfl⟩

theorem rebind (e : Entity) (container : Option ObjectId) :
    Reschedules (rebind e container : Edit σ Unit) := by
  intro w
  unfold Workbench.rebind
  rw [Run.run_bind, Run.run_get]
  dsimp only
  cases w.formulas[e]? with
  | none => exact ⟨w.scheduler, rfl⟩
  | some f => exact ⟨_, rfl⟩

end Reschedules

/-! ## Adding an object -/

/-- The formulas that a new object concerns. -/
def concerned (w : Workbench σ) (o : Object) : List Entity :=
  (w.formulas.toList.filter fun (e, f) => w.concerns o e f).map (·.1)

/-- Adding an object drops the results of the formulas that it concerns. -/
theorem run_addObject (w : Workbench σ) (o : Object) :
    let inserted : Workbench σ := { w with scene := w.scene.insert o }
    ∃ scheduler, ((addObject o).run w).2 =
      { inserted.invalidate (inserted.concerned o) with scheduler } := by
  intro inserted
  -- Binding the concerned formulas again and announcing them is all that is left to do.
  have hloop : Reschedules (σ := σ) (do
      forIn (inserted.concerned o) PUnit.unit fun e _ => do
        rebind e (inserted.containerOf? e.object)
        let _ ← announce e none
        return .yield PUnit.unit
      propagate ⟨o.id, .hierarchy, .hierarchy none o.container, .normal⟩) :=
    .bind (.forIn (fun e => .bind (.rebind e _) fun _ => .bind (.propagate _) fun _ => .pure _) _)
      fun _ => .propagate _
  exact hloop (inserted.invalidate (inserted.concerned o))

/-- A formula overlooks an object that is inserted when neither its references nor its container
stood for it or do now. -/
theorem overlooks_inserted (hf : f.Compiled w.calculator.functions)
    (hinserted : w'.scene.objects = w.scene.objects.insert o)
    (hplace : w.containerOf? f.object ≠ some o.id)
    (hnamed : ∀ r ∈ f.references, (r ≠ o.id ∧ r ≠ o.name) ∧
      w.stores.identify? (w.view f.object) r ≠ some o.id) : Overlooks w w' o.id f := by
  refine ⟨fun reference path hn => ?_, fun _ _ _ _ _ => hplace⟩
  have hreference : reference ∈ f.references :=
    List.mem_filterMap.2
      ⟨.object reference path, hf.mem_dependencies_iff.2 ⟨_, hn, rfl⟩, rfl⟩
  obtain ⟨⟨hid, hname⟩, hother⟩ := hnamed reference hreference
  exact ⟨Stores.identify?_insert hinserted hid (Ne.symm hname) hother, hother⟩

/-- A new object restructures a workbench: the formulas that it does not concern overlook it. -/
theorem restructured_addObject (hw : w.Bound) (hkeyed : w.scene.objects.Keyed)
    (hnew : w.scene.get? o.id = none) :
    Restructured w ((addObject o).run w).2 o.id (o.container = some ·) ∧
      ((addObject o).run w).2.vars = w.vars := by
  obtain ⟨scheduler, hrun⟩ := run_addObject w o
  let inserted : Workbench σ := { w with scene := w.scene.insert o }
  have hsame := SameContent.invalidate inserted (inserted.concerned o)
  have hbut : w.scene.objects.SameBut o.id (o.container = some ·) inserted.scene.objects :=
    ObjectTable.sameBut_insert_new hnew
  have hcontainer : ∀ {x : ObjectId}, x ≠ o.id → inserted.containerOf? x = w.containerOf? x :=
    fun hx => congrArg (·.bind Object.container) (hbut.get? _ hx)
  rw [hrun]
  refine ⟨⟨hsame.calculator, hbut, hkeyed.insert o, fun {e f} hf => ?_⟩, rfl⟩
  have hf : w.formulas[e]? = some f := hf
  obtain ⟨hobject, hthere, hcompiled⟩ := hw.formulas hf
  have hne : e.object ≠ o.id := by
    intro heq
    rw [heq, hnew] at hthere
    cases hthere
  refine ⟨hf, hne, ?_⟩
  by_cases hconcerns : inserted.concerns o e f
  · have hmem : e ∈ inserted.concerned o := by
      refine List.mem_map.2 ⟨(e, f), List.mem_filter.2 ⟨?_, hconcerns⟩, rfl⟩
      exact Std.ExtTreeMap.mem_toList_iff_getElem?_eq_some.2 hf
    exact .inl (misses_invalidate (List.mem_append_left _ hmem))
  · unfold concerns at hconcerns
    rw [hcontainer hne, Bool.or_eq_true, not_or, decide_eq_true_eq] at hconcerns
    obtain ⟨hnamed, hplace⟩ := hconcerns
    rw [← hobject] at hne hplace
    simp only [List.any_eq_true, Bool.or_eq_true, decide_eq_true_eq, not_exists, not_and,
      not_or] at hnamed
    refine .inr (overlooks_inserted hcompiled rfl hplace fun r hr => ⟨hnamed r hr, ?_⟩)
    refine Stores.identify?_ne_of_new hnew ?_ ?_ (hnamed r hr).1
    · rwa [view, Viewpoint.object_ofObject]
    · rwa [view, Viewpoint.container_ofObject]

/-! ## Removing an object -/

/-- A formula that reads no property of a removed object overlooks it. -/
theorem overlooks_removed (hf : f.Compiled w.calculator.functions)
    (hgone : w.scene.objects.remove id = (some o, w'.scene.objects))
    (hreads : ∀ p ∈ w.reads f, p.object ≠ id) : Overlooks w w' id f := by
  refine ⟨fun reference path hn => ?_, fun name args property hn hcall hcontainer => ?_⟩
  · have hid : w.stores.identify? (w.view f.object) reference ≠ some id :=
      fun hid => hreads _ (mem_reads_of_reference hf hn hid) rfl
    exact ⟨Stores.identify?_remove hgone hid, hid⟩
  · exact hreads _ (mem_reads_of_call hf hn hcall hcontainer) rfl

/-- Removing an object restructures a workbench: the formulas that read no property of the object
overlook it. -/
theorem restructured_removeObject (hw : w.Bound) (hkeyed : w.scene.objects.Keyed)
    (hthere : w.scene.get? id = some o) :
    Restructured w ((removeObject id).run w).2 id (o.container = some ·) ∧
      ((removeObject id).run w).2.vars = (VariableTable.removeContext w.vars id).2 := by
  have h := removed_removeObject hw.scheduler hthere
  refine ⟨⟨h.calculator, ObjectTable.sameBut_remove h.objects, hkeyed.remove h.objects,
    fun {e f} hf => ?_⟩, h.vars⟩
  rw [h.formulas] at hf
  split at hf
  · cases hf
  next hne =>
    refine ⟨hf, hne, ?_⟩
    by_cases hreads : ∃ p ∈ w.reads f, p.object = id
    · obtain ⟨p, hp, hobject⟩ := hreads
      exact .inl (h.readers p e hobject ((hw.edges p e).2 ⟨f, hf, hp⟩) hne).2
    · simp only [not_exists, not_and] at hreads
      exact .inr (overlooks_removed (hw.formulas hf).2.2 h.objects hreads)

/-! ## Evaluations -/

/-- Take a workbench with the built-in functions, time to evaluate them, a scene whose objects lie
under their identifiers, and no object in the place of the variables. Carry out operations on plain
names until nothing waits; then add a new object or remove one. Immediately afterwards each formula
is evaluated to what its tree gives now, if it does not read the list of children of the container
of that object, and sees no variable that it names in the context of an object that was removed. -/
theorem evaluated_beside_object (scene : Scene) (settings : Settings) (clock : Clock) (host : σ)
    (hscene : scene.objects.Keyed) (howner : scene.get? Entity.variableOwner = none)
    (htimeout : 0 < settings.evaluation.timeout) (ops : List Operation)
    (hops : ∀ op ∈ ops, op.Plain) :
    let w := (new .builtin scene settings clock host).perform ops
    w.scheduler.isIdle →
    (∀ o : Object, w.scene.get? o.id = none →
      let w' := (Operation.addObject o).run w
      ∀ (e : Entity) (f : Formula), w'.formulas[e]? = some f →
        (∀ c, o.container = some c → (⟨c, Names.children⟩ : Entity) ∉ w.reads f) →
        ((evaluateProperty e.object e.property).run w').1 = (w'.fresh f).mapError .eval) ∧
    (∀ (id : ObjectId) (o : Object), w.scene.get? id = some o →
      let w' := (Operation.removeObject id).run w
      ∀ (e : Entity) (f : Formula), w'.formulas[e]? = some f →
        (∀ c, o.container = some c → (⟨c, Names.children⟩ : Entity) ∉ w.reads f) →
        (∀ name ∈ f.variableNames, ∀ scope, (w.view f.object).contextOf scope = some id →
          w.stores.variableIn? (w.view f.object) name scope = none) →
        ((evaluateProperty e.object e.property).run w').1 = (w'.fresh f).mapError .eval) := by
  intro w hidle
  obtain ⟨hw, hsettled, hrecalls⟩ := recalls_perform (.new _ _ _ _ _)
    (.new scene settings clock host howner htimeout) (.new _ hscene settings clock host) hops
  have hrecalls : w.Recalls fun _ => False :=
    (SameContent.refl w).recalls hw.bound hrecalls (not_waits_of_isIdle hidle)
  constructor
  · intro o hnew w' e f hf hchildren
    obtain ⟨h, hvars⟩ := restructured_addObject hw.bound hrecalls.keyed hnew
    refine h.evaluates hw.bound hsettled.toCoherent hrecalls hf ⟨hchildren, fun name _ => ?_⟩
    exact Stores.variableOf_congr (fun slot _ => congrArg (·[slot]?) hvars) _
  · intro id o hthere w' e f hf hchildren hseen
    obtain ⟨h, hvars⟩ := restructured_removeObject hw.bound hrecalls.keyed hthere
    exact h.evaluates hw.bound hsettled.toCoherent hrecalls hf
      ⟨hchildren, fun name hname => Stores.variableOf_removeContext hvars (hseen name hname)⟩

/-- A formula that counts siblings is not evaluated again after one of them was added, unlike one
that waited for the new object; and one that reads an object fails once that is removed. -/
theorem sibling_count_not_followed :
    let c : Object := { id := "c", name := "c", properties := [("title", .leaf (.string "old"))] }
    let x : Object := { id := "x", name := "x", container := some "c" }
    let y : Object := { id := "y", name := "y", container := some "c",
                        properties := [("size", .leaf (.string "big"))] }
    let z : Object := { id := "z", name := "z" }
    let scene : Scene := Scene.insert (Scene.insert (Scene.insert {} c) x) z
    let w := (new .builtin scene {} .still ()).perform
      [.act (.setFormula "x" "n" "siblingCount()"), .act (.setFormula "z" "m" "y.size"),
        .act (.setFormula "z" "k" "c.title"), .act .drain, .evaluate "x" "n", .evaluate "z" "k"]
    let added := (Operation.addObject y).run w
    let removed := (Operation.removeObject "c").run w
    w.scheduler.isIdle ∧ w.scene.get? "y" = none ∧
      ((evaluateProperty "z" "m").run added).1 = .ok (.string "big") ∧
      ((evaluateProperty "z" "k").run removed).1 = .error (.eval (.lookup (.noObject "c"))) ∧
      ∃ f, added.formula? "x" "n" = some f ∧ added.fresh f = .ok (.ofNat 2) ∧
        ((evaluateProperty "x" "n").run added).1 = .ok (.ofNat 1) := by
  intro c x y z scene w added removed
  have hidle : w.scheduler.isIdle := by decide +kernel
  have hnew : w.scene.get? "y" = none := Option.isNone_iff_eq_none.1 (by decide +kernel)
  have hkeyed : scene.objects.Keyed :=
    ((ObjectTable.Keyed.empty.insert c).insert x).insert z
  have hn : Path.Plain "n" := by decide
  have hm : Path.Plain "m" := by decide
  have hk : Path.Plain "k" := by decide
  obtain ⟨hadd, hremove⟩ := evaluated_beside_object scene {} .still () hkeyed (by decide +kernel)
    (by decide) [.act (.setFormula "x" "n" "siblingCount()"), .act (.setFormula "z" "m" "y.size"),
      .act (.setFormula "z" "k" "c.title"), .act .drain, .evaluate "x" "n", .evaluate "z" "k"]
    (by simp [Operation.Plain, Action.Writes, Entity.Plain, hn, hm, hk]) hidle
  have hfound : ((evaluateProperty "z" "m").run added).1 = .ok (.string "big") := by
    have hsome : (added.formula? "z" "m").map (fun f => (w.reads f, added.fresh f)) =
        some ([⟨"y", "size"⟩], .ok (.string "big")) := by decide +kernel
    obtain ⟨f, hf, hpair⟩ := Option.map_eq_some_iff.1 hsome
    have hreads : w.reads f = [⟨"y", "size"⟩] := congrArg Prod.fst hpair
    have hfresh : added.fresh f = .ok (.string "big") := congrArg Prod.snd hpair
    have hchildren : ∀ d, y.container = some d → (⟨d, Names.children⟩ : Entity) ∉ w.reads f := by
      intro d _
      rw [hreads]
      simp [Names.children]
    rw [hadd y hnew ⟨"z", "m"⟩ f hf hchildren, hfresh]
    rfl
  have hgone : ((evaluateProperty "z" "k").run removed).1 =
      .error (.eval (.lookup (.noObject "c"))) := by
    have hsome : (removed.formula? "z" "k").map (fun f => (f.variableNames, removed.fresh f)) =
        some ([], .error (.lookup (.noObject "c"))) := by decide +kernel
    obtain ⟨f, hf, hpair⟩ := Option.map_eq_some_iff.1 hsome
    have hnames : f.variableNames = [] := congrArg Prod.fst hpair
    have hfresh : removed.fresh f = .error (.lookup (.noObject "c")) := congrArg Prod.snd hpair
    have hplace : (w.scene.get? "c").map Object.container = some none := by decide +kernel
    obtain ⟨d, hd, hplace⟩ := Option.map_eq_some_iff.1 hplace
    have hchildren : ∀ p, d.container = some p → (⟨p, Names.children⟩ : Entity) ∉ w.reads f := by
      intro p hp
      rw [hplace] at hp
      cases hp
    have hvars : ∀ name ∈ f.variableNames, ∀ scope, (w.view f.object).contextOf scope = some "c" →
        w.stores.variableIn? (w.view f.object) name scope = none := by
      intro name hname
      rw [hnames] at hname
      cases hname
    rw [hremove "c" d hd ⟨"z", "k"⟩ f hf hchildren hvars, hfresh]
    rfl
  have hcounts : (added.formula? "x" "n").map added.fresh = some (.ok (.ofNat 2)) := by
    decide +kernel
  obtain ⟨f, hf, hcount⟩ := Option.map_eq_some_iff.1 hcounts
  exact ⟨hidle, hnew, hfound, hgone, f, hf, hcount, by decide +kernel⟩

end Parametric.Workbench
