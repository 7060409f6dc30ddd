import Parametric.Proofs.Formula.Agreement
import Parametric.Proofs.Update.Rest
import Parametric.Proofs.Workbench.Constants
import Parametric.Proofs.Workbench.Informed
import Parametric.Proofs.Workbench.Staging

/-!
# Settled scenes agree

When nothing waits and no formula fails, a workbench is faithful: every property that a formula
drives has the value that the source of the formula has in the scene (`Workbench.Faithful`). Two
faithful workbenches whose objects lie alike, with the same variables, formulas of the same sources,
and the same values where no formula drives a property, have the same values everywhere. This is by
induction along the edges, since the producers of a formula come before it. So neither the order in
which a scene was edited, nor the priorities of the edits, nor the limits of the drains show in it
once it has settled (`settled_scenes_agree`).
-/

namespace Parametric

/-- The properties of containers that built-in functions depend on have plain names. -/
theorem Builtin.plain_of_implicit {σ : Type} : ∀ f ∈ (all : List (Function σ)), ∀ property,
    f.implicit = some (.container property) → Path.Plain property := by
  simp [all, arithmetic, easing, trigonometry, containment, ofOne, ofTwo, ofMany, ofCurve, ofArgs,
    ofDimension, Function.ofSelect, ofSiblings]
  decide

namespace Workbench

open Scheduler

variable {σ : Type} {w w' : Workbench σ}

/-! ## Runs -/

/-- Requests about properties leave the objects where they are. -/
theorem served_shape (ok : Entity → Prop) (shape : ObjectTable) :
    Served ok fun (w : Workbench σ) _ => w.scene.objects.shape = shape := by
  refine ⟨fun _ hsame h _ => hsame.objects ▸ h, fun {w w'} _ _ _ _ _ _ happlies h _ _ => ?_⟩
  have h : w.scene.objects.shape = shape := h
  cases happlies with
  | noted | failed => exact h
  | stored _ _ _ _ _ hwrite => exact (Scene.shape_write hwrite).trans h
  | computed _ _ _ _ hwrite => exact (Scene.shape_write hwrite).trans h

theorem shape_after (hw : Steady (fun _ => True) w) (actions : List Action) :
    (w.after actions).scene.objects.shape = w.scene.objects.shape := by
  induction actions generalizing w with
  | nil => rfl
  | cons a actions ih =>
    refine (ih (Action.steady hw a.writes_true)).trans ?_
    by_cases ha : a = .drain
    · subst ha
      exact ((served_shape _ _).drain hw rfl).2
    · have hstages : (Operation.act a).Stages w.scene (a.run w).scene :=
        stages_run fun h => ha (Operation.act.inj h)
      generalize (a.run w).scene = scene at hstages
      cases hstages with
      | same => rfl
      | written _ hwrite => exact Scene.shape_write hwrite

theorem perform_act (w : Workbench σ) (actions : List Action) :
    w.perform (actions.map .act) = w.after actions := by
  unfold perform after
  rw [List.foldl_map]
  rfl

/-! ## Faithful workbenches -/

/-- In a bound workbench each formula was compiled from its source and drives a name without a dot,
which has the value of the formula if it is not empty. -/
structure Faithful (w : Workbench σ) : Prop extends Bound w where
  sourced : w.All Formula.Sourced
  undotted : ∀ {e : Entity} {f : Formula}, w.formulas[e]? = some f → Path.Undotted e.property
  valued : ∀ {e : Entity} {f : Formula}, w.formulas[e]? = some f → Path.Plain e.property →
    ∃ v, w.meaning f = .ok v ∧ w.property? e.object e.property = some v

/-- Once nothing waits and no formula fails, a workbench is faithful. -/
theorem faithful_after (scene : Scene) (settings : Settings) (clock : Clock) (host : σ)
    (hkeyed : scene.objects.Keyed) (howner : scene.get? Entity.variableOwner = none)
    (htimeout : 0 < settings.evaluation.timeout) {actions : List Action}
    (hactions : ∀ a ∈ actions, Operation.InPlace (.act a))
    (hidle : ((new .builtin scene settings clock host).after actions).scheduler.isIdle)
    (hvalid : ∀ (e : Entity) (f : Formula),
      ((new .builtin scene settings clock host).after actions).formulas[e]? = some f →
      f.failing = false) :
    ((new .builtin scene settings clock host).after actions).Faithful := by
  let w₀ : Workbench σ := new .builtin scene settings clock host
  have hw : Steady Entity.Undotted (w₀.after actions) :=
    steady_after (.new _ _ _ _ _) fun a ha => Action.writes_undotted (hactions a ha)
  have hinformed : (w₀.after actions).Informed (w₀.after actions).scheduler.Waits :=
    informed_after (.new _ _ _ _ _) (.new scene settings clock host howner htimeout)
      (.new scene settings clock host) hactions
  have howned : Owned (fun _ _ => False) (w₀.perform (actions.map .act)) := by
    refine owned_perform (.new .builtin scene settings clock host) ?_ ?_
    · exact fun op hop => by
        obtain ⟨a, ha, rfl⟩ := List.mem_map.1 hop
        exact hactions a ha
    · intro object kind payload priority hop
      obtain ⟨a, -, ha⟩ := List.mem_map.1 hop
      cases ha
  have hsourced : (w₀.perform (actions.map .act)).All Formula.Sourced :=
    lifelong_perform (lifelong_sourced .builtin settings.evaluation) (Sound.new _)
      (.new .builtin scene settings clock host hkeyed) (fun e f hf => by simp [new] at hf) _
  rw [perform_act] at howned hsourced
  refine ⟨hw.bound, hsourced, hinformed.undotted, fun {e f} hf hplain => ?_⟩
  have hfailing := hvalid e f hf
  have hnoted := (hinformed.noted hf).resolve_right (not_waits_of_isIdle hidle e)
  obtain ⟨v, u, hlast, hu, hfield⟩ := howned.owns hf hfailing hplain.1
  obtain rfl : u = v := hu.resolve_right id
  refine ⟨u, ?_, property?_of_field? hplain hfield⟩
  cases hmeaning : (w₀.after actions).meaning f with
  | error e =>
    rw [hmeaning] at hnoted
    have hfails : f.failing = true := hnoted
    rw [hfailing] at hfails
    cases hfails
  | ok v =>
    rw [hmeaning] at hnoted
    rw [Option.some.inj (hnoted.2.symm.trans hlast)]

/-! ## Agreement -/

/-- A formula drives the property that a path leads to. -/
def Drives (w : Workbench σ) (object : ObjectId) (property : String) : Prop :=
  ∃ name, Path.ofString property = [name] ∧ (w.formula? object name).isSome

/-- Formulas of the same sources drive the same properties of two workbenches, and all else that is
entered by hand is the same: the variables, and the values of the properties that no formula drives.
-/
structure SameInputs (w w' : Workbench σ) : Prop where
  sources : ∀ object property,
    (w.formula? object property).map Formula.source =
      (w'.formula? object property).map Formula.source
  vars : ∀ slot : Slot, w.vars[slot]? = w'.vars[slot]?
  values : ∀ object property, ¬ w.Drives object property →
    w.property? object property = w'.property? object property

/-- The value at the end of a path of plain names. -/
theorem property?_text (w : Workbench σ) (object : ObjectId) {path : Path}
    (hpath : ∀ name ∈ path, Path.Plain name) :
    w.property? object path.text = (w.scene.objects.get? object).bind (·.value? path) := by
  unfold property? Scene.get?
  rw [Path.ofString_text hpath]

namespace SameInputs

/-- The formula of one workbench has one of the same tree in the other. -/
theorem exists_formula (h : SameInputs w w') (hw : w.Faithful) (hw' : w'.Faithful) {e : Entity}
    {f : Formula} (hf : w.formulas[e]? = some f) :
    ∃ f', w'.formulas[e]? = some f' ∧ f'.tree = f.tree ∧ f'.object = f.object := by
  have hsources := h.sources e.object e.property
  have hformula : w.formula? e.object e.property = some f := hf
  rw [hformula, Option.map_some, eq_comm, Option.map_eq_some_iff] at hsources
  obtain ⟨f', hf', hsource⟩ := hsources
  have hf' : w'.formulas[e]? = some f' := hf'
  have htree : Expr.ofSource f.source = .ok f.tree := hw.sourced e f hf
  have htree' : Expr.ofSource f'.source = .ok f'.tree := hw'.sourced e f' hf'
  rw [hsource] at htree'
  exact ⟨f', hf', Except.ok.inj (htree'.symm.trans htree),
    (hw'.formulas hf').1.trans (hw.formulas hf).1.symm⟩

/-- What is read at a path is the same when the property that the path starts with is, if a formula
drives it. -/
theorem value?_eq (h : SameInputs w w') {object : ObjectId} {path : Path}
    (hpath : ∀ name ∈ path, Path.Plain name)
    (hdriven : (w.formula? object (path.head?.getD "")).isSome →
      w.property? object (path.head?.getD "") = w'.property? object (path.head?.getD "")) :
    (w.scene.objects.get? object).bind (·.value? path) =
      (w'.scene.objects.get? object).bind (·.value? path) := by
  rw [← property?_text w object hpath, ← property?_text w' object hpath]
  by_cases hdrives : w.Drives object path.text
  · obtain ⟨name, hname, hsome⟩ := hdrives
    rw [Path.ofString_text hpath] at hname
    subst hname
    have hread := hdriven hsome
    have htext : Path.text [name] = name := by simp [Path.text]
    rw [htext]
    exact hread
  · exact h.values object path.text hdrives

/-- When what a formula reads of other formulas is the same, no two values come of its tree. -/
theorem meaning_concur (h : SameInputs w w')
    (hshape : w.scene.objects.shape = w'.scene.objects.shape) (hw : w.Bound) (hw' : w'.Bound)
    {e : Entity} {f f' : Formula} (hf : w.formulas[e]? = some f) (htree : f'.tree = f.tree)
    (hobject : f'.object = f.object)
    (hproducers : ∀ p ∈ w.reads f, (w.formulas[p]?).isSome →
      w.property? p.object p.property = w'.property? p.object p.property) :
    Concur (w.meaning f) (w'.meaning f') := by
  have hcompiled := (hw.formulas hf).2.2
  have hview : w.view f.object = w'.view f.object := Viewpoint.ofObject_congr hshape f.object
  unfold meaning
  rw [htree, hobject, ← hview]
  refine Evaluator.value_concur (hw.functions.trans hw'.functions.symm) f.tree (fun n hn => ?_) 1
  cases n with
  | var name =>
    have hread : w.stores.variableOf (w.view f.object) name =
        w'.stores.variableOf (w.view f.object) name :=
      Stores.variableOf_congr (fun slot _ => h.vars slot) _
    refine .of_eq ?_
    simp only [Evaluator.lookup, Evaluator.resolve, Calculator.evaluator, hread]
  | reference reference path =>
    obtain ⟨-, hpath⟩ := hcompiled.wellNamed _ hn
    have hread : w.stores.propertyOf (w.view f.object) reference path =
        w'.stores.propertyOf (w.view f.object) reference path := by
      refine Stores.propertyOf_of_value? hshape fun id hid => h.value?_eq hpath fun hsome => ?_
      exact hproducers ⟨id, path.head?.getD ""⟩ (mem_reads_of_reference hcompiled hn hid) hsome
    refine .of_eq ?_
    simp only [Evaluator.lookup, Evaluator.resolve, Calculator.evaluator, hread]
  | call name args =>
    intro vs
    have halike : ((w.calculator.evaluator w.stores (w.view f.object) 0).call 0).AlikeButLimits
        ((w'.calculator.evaluator w'.stores (w.view f.object) 0).call 0) :=
      ⟨rfl, rfl, hshape, rfl⟩
    refine Evaluator.called_concur hw.functions hw'.functions halike name ?_ vs
    intro property himplicit id hid
    obtain ⟨g, hg, hgimplicit⟩ := Option.bind_eq_some_iff.1 himplicit
    have hg : (Registry.builtin : Registry σ)[name]? = some g := hw.functions ▸ hg
    have hplain : Path.Plain property :=
      Builtin.plain_of_implicit g (Registry.mem_all_of_builtin hg) property hgimplicit
    refine h.value?_eq (fun n hn => List.mem_singleton.1 hn ▸ hplain) fun hsome => ?_
    have hcontainer : w.containerOf? f.object = some id :=
      (Viewpoint.container_ofObject w.scene.objects f.object).symm.trans hid
    exact hproducers ⟨id, property⟩ (mem_reads_of_call hcompiled hn himplicit hcontainer) hsome
  | _ => trivial

/-- The values of formulas are the same, by induction along the edges. -/
theorem property?_eq (h : SameInputs w w')
    (hshape : w.scene.objects.shape = w'.scene.objects.shape) (hw : w.Faithful) (hw' : w'.Faithful)
    (e : Entity) (hsome : (w.formulas[e]?).isSome) :
    w.property? e.object e.property = w'.property? e.object e.property := by
  induction e using hw.scheduler.graph.wellFounded.induction with
  | _ e ih =>
    obtain ⟨f, hf⟩ := Option.isSome_iff_exists.1 hsome
    obtain ⟨f', hf', htree, hobject⟩ := h.exists_formula hw hw' hf
    rcases (hw.undotted hf).eq_empty_or_plain with hempty | hplain
    · -- The empty name leads nowhere.
      refine h.values e.object e.property ?_
      rintro ⟨name, hname, -⟩
      rw [hempty] at hname
      cases hname
    · obtain ⟨v, hmeaning, hvalue⟩ := hw.valued hf hplain
      obtain ⟨v', hmeaning', hvalue'⟩ := hw'.valued hf' hplain
      have hconcur := h.meaning_concur hshape hw.toBound hw'.toBound hf htree hobject
        fun p hp hdriven => ih p ((hw.edges p e).2 ⟨f, hf, hp⟩) hdriven
      rw [hvalue, hvalue', hconcur v v' hmeaning hmeaning']

end SameInputs

/-- Take two scenes whose objects lie alike, each with the built-in functions, time to evaluate them
and no object in the place of the variables. On each some actions were carried out that name no
property with a dot, in any order, with any priorities and any limits of drains. If nothing waits in
either, no formula fails, and formulas of the same sources drive the same properties, with the same
variables and the same values where no formula drives a property, then every property that a formula
drives has the same value in both. -/
theorem settled_scenes_agree (scene scene' : Scene) (settings settings' : Settings)
    (clock clock' : Clock) (host host' : σ)
    (hkeyed : scene.objects.Keyed) (howner : scene.get? Entity.variableOwner = none)
    (hshape : scene.objects.shape = scene'.objects.shape)
    (htimeout : 0 < settings.evaluation.timeout) (htimeout' : 0 < settings'.evaluation.timeout)
    (actions actions' : List Action) (hactions : ∀ a ∈ actions, Operation.InPlace (.act a))
    (hactions' : ∀ a ∈ actions', Operation.InPlace (.act a)) :
    let w := (new .builtin scene settings clock host).after actions
    let w' := (new .builtin scene' settings' clock' host').after actions'
    w.scheduler.isIdle → w'.scheduler.isIdle →
    (∀ object property f, w.formula? object property = some f → f.failing = false) →
    (∀ object property f, w'.formula? object property = some f → f.failing = false) →
    SameInputs w w' →
    ∀ object property, (w.formula? object property).isSome →
      w.property? object property = w'.property? object property := by
  intro w w' hidle hidle' hvalid hvalid' hsame object property hsome
  have hkeyed' : scene'.objects.Keyed := hkeyed.of_shape hshape.symm
  have howner' : scene'.get? Entity.variableOwner = none := by
    have hthere := ObjectTable.isSome_get?_congr hshape Entity.variableOwner
    unfold Scene.get? at howner ⊢
    rw [howner] at hthere
    exact Option.isNone_iff_eq_none.1 (Option.isSome_eq_false_iff.1 hthere.symm)
  have hw : w.Faithful := faithful_after scene settings clock host hkeyed howner htimeout hactions
    hidle fun e f hf => hvalid e.object e.property f hf
  have hw' : w'.Faithful := faithful_after scene' settings' clock' host' hkeyed' howner' htimeout'
    hactions' hidle' fun e f hf => hvalid' e.object e.property f hf
  have hlie : w.scene.objects.shape = w'.scene.objects.shape :=
    (shape_after (.new _ _ _ _ _) actions).trans
      (hshape.trans (shape_after (.new _ _ _ _ _) actions').symm)
  exact hsame.property?_eq hlie hw hw' ⟨object, property⟩ hsome

/-- Two formulas are put in place before the value that they follow and after it, and the value is
written with other priorities and served in pieces. -/
theorem agree_in_two_orders :
    let a : Object := { id := "a", name := "a" }
    let scene : Scene := Scene.insert {} a
    let actions : List Action := [.setFormula "a" "y" "a.x", .setFormula "a" "z" "a.y",
      .setValue "a" "x" (.string "new") .normal, .drain]
    let actions' : List Action := [.setValue "a" "x" (.string "old") .low,
      .setFormula "a" "z" "a.y", .setFormula "a" "y" "a.x",
      .setValue "a" "x" (.string "new") .high, .drain, .drain, .drain]
    let w : Workbench Unit := (new .builtin scene {} .still ()).after actions
    let w' : Workbench Unit :=
      (new .builtin scene { propagation := { maxServed := 1 } } .still ()).after actions'
    w.scheduler.isIdle ∧ w'.scheduler.isIdle ∧ w.property? "a" "z" = some (.string "new") ∧
      w.property? "a" "z" = w'.property? "a" "z" := by
  intro a scene actions actions' w w'
  have hkeyed : scene.objects.Keyed := ObjectTable.Keyed.empty.insert a
  have hnames : Path.Undotted "x" ∧ Path.Undotted "y" ∧ Path.Undotted "z" := by decide
  have hidle : w.scheduler.isIdle := by decide +kernel
  have hidle' : w'.scheduler.isIdle := by decide +kernel
  have hvalid : ∀ {w : Workbench Unit}, (w.formulas.toList.all fun x => !x.2.failing) →
      ∀ o p f, w.formula? o p = some f → f.failing = false := by
    intro w hall o p f hf
    have hmem : (Entity.mk o p, f) ∈ w.formulas.toList :=
      Std.ExtTreeMap.mem_toList_iff_getElem?_eq_some.2 hf
    simpa using List.all_eq_true.1 hall _ hmem
  have hsources : w.formulas.map (fun _ f => f.source) = w'.formulas.map fun _ f => f.source :=
    Std.ExtTreeMap.toList_inj.1 (by decide +kernel)
  have hvars : w.vars = w'.vars := Std.ExtTreeMap.toList_inj.1 (by decide +kernel)
  have hobjects : w.scene.objects.objects = w'.scene.objects.objects :=
    Std.ExtTreeMap.toList_inj.1 (by decide +kernel)
  refine ⟨hidle, hidle', by decide +kernel, ?_⟩
  refine settled_scenes_agree scene scene {} { propagation := { maxServed := 1 } } .still .still ()
    () hkeyed (by decide +kernel) rfl (by decide) (by decide) actions actions'
    (by simp [actions, Operation.InPlace, hnames]) (by simp [actions', Operation.InPlace, hnames])
    hidle hidle' (hvalid (by decide +kernel)) (hvalid (by decide +kernel)) ⟨?_, ?_, ?_⟩ "a" "z"
    (by decide +kernel)
  · intro o p
    have hsource := congrArg (·[Entity.mk o p]?) hsources
    rwa [Std.ExtTreeMap.getElem?_map, Std.ExtTreeMap.getElem?_map] at hsource
  · exact fun slot => congrArg (·[slot]?) hvars
  · intro o p _
    have hobject : w.scene.get? o = w'.scene.get? o := congrArg (·[o]?) hobjects
    unfold property?
    rw [hobject]

end Workbench

end Parametric
