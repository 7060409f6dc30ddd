import Parametric.Proofs.Workbench.Action

/-!
# Formulas that read each other

A formula reads from another one when a reference in it stands for the object of the other formula,
and its path meets the property that the other one drives: one of the two is a part of the other
(`Workbench.ReadsFrom`). The edges of the graph are keyed by the first name of a path, while a
formula is keyed by its property as written. So a read of a property with a plain name is an edge
(`dependsOn_of_readsFrom`), and edges start at plain names only (`plain_of_mem_reads`). A formula is
refused exactly when the edges would have a cycle (`setFormula_cycle_iff`), and the formulas that
drive plain names never read themselves through each other (`cycle_refused_iff_plain`).
-/

namespace Parametric

open Relation

/-- The property that a dependency is about, apart from its object. -/
def Dependency.name : Dependency → String
  | .object _ path => path.head?.getD ""
  | .container property => property
  | .own property => property

/-- The built-in functions depend on plain names. -/
theorem Builtin.plain_implicit {σ : Type} {f : Function σ} (hf : f ∈ Builtin.all) {i : Implicit}
    (hi : f.implicit = some i) : Path.Plain (Dependency.ofImplicit i).name := by
  have hall : (Builtin.all : List (Function σ)).filterMap Function.implicit =
      [.container Names.width, .container Names.height, .container Names.depth,
        .container Names.children, .container Names.children, .own Names.children] := rfl
  have hmem := List.mem_filterMap.2 ⟨f, hf, hi⟩
  rw [hall] at hmem
  clear hi
  revert i
  decide

/-- A node whose names are plain depends on a plain name. -/
theorem Expr.plain_of_dependency? {σ : Type} {functions : Registry σ}
    (hfunctions : functions = .builtin) {n : Expr} (hn : n.PlainNames) {d : Dependency}
    (h : n.dependency? functions = some d) : Path.Plain d.name := by
  cases n with
  | reference object path =>
    cases h
    obtain ⟨hne, hplain⟩ := hn
    obtain ⟨name, rest, rfl⟩ := List.exists_cons_of_ne_nil hne
    exact hplain name List.mem_cons_self
  | call name args =>
    obtain ⟨i, hi, rfl⟩ := Option.map_eq_some_iff.1 h
    obtain ⟨f, hf, hi⟩ := Option.bind_eq_some_iff.1 hi
    rw [hfunctions] at hf
    exact Builtin.plain_implicit (Registry.mem_all_of_builtin hf) hi
  | _ => cases h

theorem Expr.eq_reference_of_same {e : Expr} {object : String} {path : Path}
    (h : e.same (.reference object path)) : e = .reference object path := by
  cases e <;> simp_all [same]

namespace Workbench

variable {σ : Type} {w : Workbench σ}

/-- The formula of `b` names a property that is, contains or lies in the property that the formula
of `a` drives. -/
def ReadsFrom (w : Workbench σ) (a b : Entity) : Prop :=
  (w.formulas[a]?).isSome ∧ ∃ f, w.formulas[b]? = some f ∧ ∃ reference path,
    .reference reference path ∈ f.tree.nodes ∧
    w.stores.identify? (w.view b.object) reference = some a.object ∧
    (path <+: Path.ofString a.property ∨ Path.ofString a.property <+: path)

/-- The formula of `b` depends on `a`. -/
def DependsOn (w : Workbench σ) (a b : Entity) : Prop :=
  ∃ f, w.formulas[b]? = some f ∧ a ∈ w.reads f

/-! ## Reads and edges -/

theorem property_of_producer? {owner : ObjectId} {container : Option ObjectId} {d : Dependency}
    {e : Entity} {kind : EdgeKind} (h : w.producer? owner container d = some (e, kind)) :
    e.property = d.name := by
  cases d with
  | object reference path =>
    unfold producer? at h
    dsimp only at h
    split at h
    · cases h
      rfl
    · split at h
      · obtain ⟨c, -, h⟩ := Option.map_eq_some_iff.1 h
        cases h
        rfl
      · cases h
        rfl
  | container property =>
    obtain ⟨c, -, h⟩ := Option.map_eq_some_iff.1 h
    cases h
    rfl
  | own property =>
    cases h
    rfl

/-- Everything that a formula depends on has a plain name. -/
theorem plain_of_mem_reads (hfunctions : w.calculator.functions = .builtin) {f : Formula}
    (hf : f.Compiled w.calculator.functions) {p : Entity} (hp : p ∈ w.reads f) :
    Path.Plain p.property := by
  unfold reads producers at hp
  rw [List.map_append, List.mem_append] at hp
  rcases hp with hp | hp
  · obtain ⟨edge, hedge, rfl⟩ := List.mem_map.1 hp
    obtain ⟨d, hd, hproducer⟩ := List.mem_filterMap.1 hedge
    obtain ⟨⟨e, kind⟩, hentity, rfl⟩ := Option.map_eq_some_iff.1 hproducer
    obtain ⟨n, hn, hdep⟩ := hf.mem_dependencies_iff.1 hd
    have hname := property_of_producer? hentity
    exact hname ▸ Expr.plain_of_dependency? hfunctions (hf.wellNamed n hn) hdep
  · obtain ⟨edge, hedge, rfl⟩ := List.mem_map.1 hp
    obtain ⟨name, hname, rfl⟩ := List.mem_map.1 hedge
    exact hf.wellNamed _ (hf.mem_variableNames_iff.1 hname)

/-- A read of a property with a plain name is an edge. -/
theorem dependsOn_of_readsFrom {a b : Entity}
    (hformulas : ∀ {f : Formula}, w.formulas[b]? = some f →
      f.object = b.object ∧ f.Compiled w.calculator.functions)
    (hplain : Path.Plain a.property) (h : w.ReadsFrom a b) : w.DependsOn a b := by
  obtain ⟨-, f, hf, reference, path, hnode, hid, hpath⟩ := h
  obtain ⟨hobject, hcompiled⟩ := hformulas hf
  rw [← hobject] at hid
  refine ⟨f, hf, ?_⟩
  have hread := mem_reads_of_reference hcompiled hnode hid
  have hhead : path.head?.getD "" = a.property := by
    obtain ⟨hne, -⟩ := hcompiled.wellNamed _ hnode
    obtain ⟨name, rest, rfl⟩ := List.exists_cons_of_ne_nil hne
    rw [Path.ofString_of_plain hplain] at hpath
    rcases hpath with hpath | hpath
    · exact (List.cons_prefix_cons.1 hpath).1
    · exact (List.cons_prefix_cons.1 hpath).1.symm
  rwa [hhead] at hread

/-! ## Refusals -/

/-- A formula that compiles is refused exactly when its edges cannot be put in place. -/
theorem setFormula_cycle_iff_error {object : ObjectId} {property source : String} {f : Formula}
    {c : Calculator σ} (hobject : (w.scene.get? object).isSome)
    (hcompile : w.calculator.compile source object = .ok (f, c)) :
    (∃ e, ((setFormula object property source).run w).1 = .error (.cycle e)) ↔
      ∃ e, (w.scheduler.graph.replaceProducers ⟨object, property⟩
        (w.producers f (w.containerOf? object))).1 = .error e := by
  have h := setsFormula w object property source
  generalize (setFormula object property source).run w = outcome at h
  obtain ⟨answer, w'⟩ := outcome
  cases h with
  | refused _ hrefused =>
    rcases hrefused with hnone | ⟨e, herror⟩
    · rw [Option.isNone_iff_eq_none.1 hnone] at hobject
      cases hobject
    · cases hcompile.symm.trans herror
  | @cycle f' _ e _ _ hcompile' hbound =>
    cases hcompile.symm.trans hcompile'
    exact iff_of_true ⟨e, rfl⟩ ⟨e, congrArg Prod.fst hbound⟩
  | failed _ hcompile' hbound =>
    cases hcompile.symm.trans hcompile'
    have hok := congrArg Prod.fst hbound
    exact iff_of_false (fun ⟨e, h⟩ => by cases h) fun ⟨e, h⟩ => by cases h.symm.trans hok
  | written _ hcompile' hbound =>
    cases hcompile.symm.trans hcompile'
    have hok := congrArg Prod.fst hbound
    exact iff_of_false (fun ⟨e, h⟩ => by cases h) fun ⟨e, h⟩ => by cases h.symm.trans hok

/-- Putting a formula in place changes what its own target depends on. -/
theorem dependsOn_insert (hw : w.Bound) {target : Entity} {f : Formula} (a b : Entity) :
    DependsOn { w with formulas := w.formulas.insert target f } a b ↔
      if target = b then a ∈ w.reads f else w.scheduler.graph.Feeds a b := by
  have hdepends : DependsOn { w with formulas := w.formulas.insert target f } a b ↔
      ∃ g, (w.formulas.insert target f)[b]? = some g ∧ a ∈ w.reads g := .rfl
  rw [hdepends, Table.getElem?_insert]
  split
  · simp only [Option.some.injEq, exists_eq_left']
  · exact (hw.edges a b).symm

/-- A formula is refused exactly when the formulas with it in place would depend on each other in a
cycle. -/
theorem setFormula_cycle_iff (hw : w.Bound) {object : ObjectId} {property source : String}
    {f : Formula} {c : Calculator σ} (hobject : (w.scene.get? object).isSome)
    (hcompile : w.calculator.compile source object = .ok (f, c)) :
    (∃ e, ((setFormula object property source).run w).1 = .error (.cycle e)) ↔
      ∃ x, TransGen
        (DependsOn { w with formulas := w.formulas.insert ⟨object, property⟩ f }) x x := by
  have hreads : (w.producers f (w.containerOf? object)).map (·.1) = w.reads f := by
    rw [reads, (Calculator.compile_spec hcompile).1]
  have hedges : DependsOn { w with formulas := w.formulas.insert ⟨object, property⟩ f } =
      fun a b => if (⟨object, property⟩ : Entity) = b then a ∈ w.reads f
        else w.scheduler.graph.Feeds a b := by
    funext a b
    exact propext (dependsOn_insert hw a b)
  rw [setFormula_cycle_iff_error hobject hcompile,
    Graph.replaceProducers_error_iff hw.scheduler.graph, hreads, hedges]

/-- If formulas depend on plain names only, every cycle goes through the formula that was put in
place, so its property has a plain name. -/
theorem plain_of_cycle (hw : w.Bound) {target : Entity} {f : Formula}
    (hplain : ∀ {a b : Entity},
      DependsOn { w with formulas := w.formulas.insert target f } a b → Path.Plain a.property)
    {x : Entity}
    (hx : TransGen (DependsOn { w with formulas := w.formulas.insert target f }) x x) :
    Path.Plain target.property := by
  by_contra htarget
  -- What others depend on is plain, so the target is not on the cycle and its edges are old ones.
  have hstep : ∀ {a b : Entity}, Path.Plain b.property →
      DependsOn { w with formulas := w.formulas.insert target f } a b →
      w.scheduler.graph.Feeds a b := by
    intro a b hb hab
    rwa [dependsOn_insert hw, if_neg] at hab
    rintro rfl
    exact htarget hb
  have hxplain : Path.Plain x.property := by
    obtain ⟨m, hxm, -⟩ := TransGen.head'_iff.1 hx
    exact hplain hxm
  have hold : ∀ {a : Entity},
      TransGen (DependsOn { w with formulas := w.formulas.insert target f }) a x →
      TransGen w.scheduler.graph.Feeds a x := by
    intro a ha
    induction ha using TransGen.head_induction_on with
    | single hax => exact .single (hstep hxplain hax)
    | head hab hbx ih =>
      obtain ⟨m, hbm, -⟩ := TransGen.head'_iff.1 hbx
      exact .head (hstep (hplain hbm) hab) ih
  exact hw.scheduler.graph.acyclic x (hold hx)

/-- Take a workbench with the built-in functions on which any actions were carried out. No formulas
that drive plain names read from each other in a cycle. And whenever a formula that compiles is put
in place on an object that is there, it is refused as a cycle exactly when the formulas, with it
among them, would depend on each other in a cycle; here a formula that reads from another one
depends on it exactly when the other one drives a plain name. So a cycle of reads is refused if all
of its formulas drive plain names, and a formula that drives another name is never refused. -/
theorem cycle_refused_iff_plain (scene : Scene) (settings : Settings) (clock : Clock) (host : σ)
    (actions : List Action) :
    let w := (new .builtin scene settings clock host).after actions
    (∀ x, ¬ TransGen (fun a b => Path.Plain a.property ∧ w.ReadsFrom a b) x x) ∧
    ∀ (object : ObjectId) (property source : String) (f : Formula) (c : Calculator σ),
      (w.scene.get? object).isSome → w.calculator.compile source object = .ok (f, c) →
      let refused := ∃ e, ((setFormula object property source).run w).1 = .error (.cycle e)
      let placed := { w with formulas := w.formulas.insert ⟨object, property⟩ f }
      (refused ↔ ∃ x, TransGen placed.DependsOn x x) ∧
      (∀ a b, placed.ReadsFrom a b → (placed.DependsOn a b ↔ Path.Plain a.property)) ∧
      ((∃ x, TransGen (fun a b => Path.Plain a.property ∧ placed.ReadsFrom a b) x x) → refused) ∧
      (refused → Path.Plain property) := by
  have hw : Bound ((new .builtin scene settings clock host).after actions) :=
    (steady_after (.new (fun _ => True) scene settings clock host)
      fun a _ => a.writes_true).bound
  intro w
  refine ⟨fun x hx => hw.scheduler.graph.acyclic x (TransGen.mono ?_ x x hx), ?_⟩
  · rintro a b ⟨hplain, hab⟩
    refine (hw.edges a b).2 (dependsOn_of_readsFrom (fun hf => ?_) hplain hab)
    exact ⟨(hw.formulas hf).1, (hw.formulas hf).2.2⟩
  · intro object property source f c hobject hcompile refused placed
    obtain ⟨hf, hcompiled, -⟩ := Calculator.compile_spec hcompile
    have hformulas : ∀ {e : Entity} {g : Formula}, placed.formulas[e]? = some g →
        g.object = e.object ∧ g.Compiled placed.calculator.functions := by
      intro e g hg
      rw [Table.getElem?_insert] at hg
      split at hg
      next he =>
        cases hg
        exact ⟨he ▸ hf, hcompiled⟩
      next => exact ⟨(hw.formulas hg).1, (hw.formulas hg).2.2⟩
    have hplain : ∀ {a b : Entity}, placed.DependsOn a b → Path.Plain a.property :=
      fun ⟨g, hg, ha⟩ => plain_of_mem_reads hw.functions (hformulas hg).2 ha
    have hrefused : refused ↔ ∃ x, TransGen placed.DependsOn x x :=
      setFormula_cycle_iff hw hobject hcompile
    refine ⟨hrefused, fun a b hab => ⟨hplain, fun ha => dependsOn_of_readsFrom hformulas ha hab⟩,
      fun ⟨x, hx⟩ => hrefused.2 ⟨x, TransGen.mono ?_ x x hx⟩, fun h => ?_⟩
    · exact fun a b hab => dependsOn_of_readsFrom hformulas hab.1 hab.2
    · obtain ⟨x, hx⟩ := hrefused.1 h
      exact plain_of_cycle hw hplain hx

/-- A formula that reads the property that it drives is put in place when that property is not a
plain name. -/
theorem own_read_not_refused :
    let w : Workbench Unit := new .builtin (Scene.insert {} { id := "a", name := "a" }) {} .still ()
    ∃ f c, w.calculator.compile "self.position.x" "a" = .ok (f, c) ∧
      ReadsFrom { w with formulas := w.formulas.insert ⟨"a", "position.x"⟩ f } ⟨"a", "position.x"⟩
        ⟨"a", "position.x"⟩ ∧
      ¬ ∃ e, ((setFormula "a" "position.x" "self.position.x").run w).1 = .error (.cycle e) := by
  intro w
  have hparse : (Expr.ofSource "self.position.x").toOption.any
      (fun e => e.same (.reference "self" ["position", "x"])) := by decide +kernel
  obtain ⟨tree, hsource, hsame⟩ : ∃ tree, Expr.ofSource "self.position.x" = .ok tree ∧
      tree.same (.reference "self" ["position", "x"]) := by
    generalize Expr.ofSource "self.position.x" = parsed at hparse
    cases parsed with
    | error e => cases hparse
    | ok tree => exact ⟨tree, rfl, hparse⟩
  have hpath : Path.ofString "position.x" = ["position", "x"] := by decide +kernel
  have hself : w.stores.identify? (w.view "a") "self" = some "a" := by decide +kernel
  have hcompile : ∃ f c, w.calculator.compile "self.position.x" "a" = .ok (f, c) := by
    unfold Calculator.compile
    rw [hsource]
    exact ⟨_, _, rfl⟩
  obtain ⟨f, c, hcompile⟩ := hcompile
  have htree : f.tree = .reference "self" ["position", "x"] := by
    obtain ⟨-, -, -, -, h⟩ := Calculator.compile_spec hcompile
    rw [← Except.ok.inj (hsource.symm.trans h)]
    exact Expr.eq_reference_of_same hsame
  refine ⟨f, c, hcompile, ⟨?_, f, Std.ExtTreeMap.getElem?_insert_self, "self", ["position", "x"],
    ?_, ?_, ?_⟩, fun h => ?_⟩
  · rw [Std.ExtTreeMap.getElem?_insert_self]
    rfl
  · rw [htree]
    exact List.mem_singleton_self _
  · exact hself
  · exact .inl (hpath ▸ List.prefix_refl _)
  · obtain ⟨-, hset⟩ :=
      cycle_refused_iff_plain (Scene.insert {} { id := "a", name := "a" }) {} .still () []
    have hobject : (w.scene.get? "a").isSome := by decide +kernel
    obtain ⟨-, -, -, hplain⟩ := hset "a" "position.x" "self.position.x" f c hobject hcompile
    exact absurd (hplain h) (by decide +kernel)

end Workbench

end Parametric
