import Parametric.Proofs.Formula.Calculator
import Parametric.Workbench.Basic

/-!
# What formulas read

The producers of a formula cover all that its value depends on: it is the same in two workbenches of
the same shape that agree on the properties among the producers and on the variables named in the
formula (`Workbench.meaning_congr`).
-/

namespace Parametric

namespace Workbench

variable {σ : Type} {w w' : Workbench σ}

/-- The entities that a formula depends on, when its object lies where it does. -/
def reads (w : Workbench σ) (f : Formula) : List Entity :=
  (w.producers f (w.containerOf? f.object)).map (·.1)

/-- The properties among them: what is not read as a variable. -/
def propertyReads (w : Workbench σ) (f : Formula) : List Entity :=
  ((w.producers f (w.containerOf? f.object)).filter (·.2.kind ≠ .variable)).map (·.1)

/-- What the tree of a formula means for its object. -/
def meaning (w : Workbench σ) (f : Formula) : Except EvalError Value :=
  (w.calculator.evaluator w.stores (w.view f.object) 0).value f.tree 1

theorem reads_of_core (w : Workbench σ) {f f' : Formula} (h : f'.core = f.core) :
    w.reads f' = w.reads f := by
  have hcore : w.reads f' = w.reads f'.core := rfl
  rw [hcore, h]
  rfl

theorem meaning_of_core (w : Workbench σ) {f f' : Formula} (h : f'.core = f.core) :
    w.meaning f' = w.meaning f := by
  have hcore : w.meaning f' = w.meaning f'.core := rfl
  rw [hcore, h]
  rfl

/-- The value of a property with a plain name is the leaf of its field. -/
theorem property?_of_field? {object : ObjectId} {property : String} {v : Value}
    (hplain : Path.Plain property)
    (h : w.scene.objects.field? ⟨object, property⟩ = some (.leaf v)) :
    w.property? object property = some v := by
  unfold ObjectTable.field? at h
  unfold property? Scene.get?
  rw [Path.ofString_of_plain hplain]
  cases ho : w.scene.objects.get? object with
  | none => simp [ho] at h
  | some o =>
    simp only [ho, Option.bind_some] at h ⊢
    rw [Object.value?_cons, h]
    rfl

/-! ## Producers -/

theorem identify_congr (h : w.scene.objects.shape = w'.scene.objects.shape) (reference : String) :
    w.identify reference = w'.identify reference := by
  unfold identify Scene.get?
  rw [ObjectTable.isSome_get?_congr h, ObjectTable.findByName?_congr h]

theorem producers_congr (h : w.scene.objects.shape = w'.scene.objects.shape) (f : Formula)
    (container : Option ObjectId) : w.producers f container = w'.producers f container := by
  have hproducer : ∀ d, w.producer? f.object container d = w'.producer? f.object container d := by
    intro d
    cases d with
    | object reference path => simp only [producer?, identify_congr h]
    | container property => rfl
    | own property => rfl
  simp only [producers, hproducer]

theorem reads_congr (h : w.scene.objects.shape = w'.scene.objects.shape) (f : Formula) :
    w.reads f = w'.reads f := by
  unfold reads containerOf?
  rw [producers_congr h, ObjectTable.containerOf?_congr h]

theorem mem_reads_of_mem_propertyReads {f : Formula} {e : Entity} (h : e ∈ w.propertyReads f) :
    e ∈ w.reads f := by
  obtain ⟨p, hp, he⟩ := List.mem_map.1 h
  exact List.mem_map.2 ⟨p, List.mem_of_mem_filter hp, he⟩

/-- No dependency is about a variable. -/
theorem kind_of_producer? {owner : ObjectId} {container : Option ObjectId} {d : Dependency}
    {e : Entity} {kind : EdgeKind} (h : w.producer? owner container d = some (e, kind)) :
    kind ≠ .variable := by
  unfold producer? at h
  rintro rfl
  cases d with
  | object reference path =>
    dsimp only at h
    split at h
    · cases h
    · split at h
      · cases container <;> cases h
      · cases h
  | container property => cases container <;> cases h
  | own property => cases h

theorem mem_propertyReads_of_dependency {f : Formula} {d : Dependency} (hd : d ∈ f.dependencies)
    {e : Entity} {kind : EdgeKind}
    (he : w.producer? f.object (w.containerOf? f.object) d = some (e, kind)) :
    e ∈ w.propertyReads f := by
  refine List.mem_map.2 ⟨(e, ⟨kind, some d.text⟩), List.mem_filter.2 ⟨?_, ?_⟩, rfl⟩
  · exact List.mem_append_left _ (List.mem_filterMap.2 ⟨d, hd, by rw [he]; rfl⟩)
  · exact decide_eq_true (kind_of_producer? he)

/-- A dependency on a reference is about the object that the reference stands for. -/
theorem producer?_of_identify? {owner id : ObjectId} {reference : String}
    (hid : w.stores.identify? (w.view owner) reference = some id) (path : Path) :
    w.producer? owner (w.containerOf? owner) (.object reference path) =
      some (⟨id, path.head?.getD ""⟩, .reference) := by
  unfold Stores.identify? at hid
  unfold producer?
  by_cases hself : reference = Viewpoint.selfName
  · rw [if_pos hself, view, Viewpoint.object_ofObject] at hid
    cases hid
    simp only [hself, if_true]
  · by_cases hparent : reference = Viewpoint.parentName
    · rw [if_neg hself, if_pos hparent, view, Viewpoint.container_ofObject] at hid
      simp only [hparent, containerOf?, hid, if_true, Option.map_some]
      rfl
    · rw [if_neg hself, if_neg hparent] at hid
      change (if (w.scene.get? reference).isSome then some reference
        else w.scene.objects.findByName? reference) = some id at hid
      have hidentify : w.identify reference = id := by
        unfold identify
        by_cases hget : (w.scene.get? reference).isSome = true
        · rw [if_pos hget] at hid ⊢
          exact Option.some.inj hid
        · rw [if_neg hget] at hid ⊢
          rw [hid]
          rfl
      simp only [hself, hparent, hidentify, if_false]

/-- A reference that a dependency leads to an object that is there stands for that object. -/
theorem identify?_of_producer? {owner : ObjectId} {reference : String} {path : Path} {p : Entity}
    {kind : EdgeKind}
    (h : w.producer? owner (w.containerOf? owner) (.object reference path) = some (p, kind))
    (hsome : (w.scene.get? p.object).isSome) :
    w.stores.identify? (w.view owner) reference = some p.object ∧
      p.property = path.head?.getD "" := by
  unfold producer? at h
  unfold Stores.identify?
  dsimp only at h
  by_cases hself : reference = Viewpoint.selfName
  · rw [if_pos hself] at h ⊢
    cases h
    exact ⟨congrArg some (Viewpoint.object_ofObject _ _), rfl⟩
  · by_cases hparent : reference = Viewpoint.parentName
    · rw [if_neg hself, if_pos hparent] at h ⊢
      obtain ⟨c, hc, heq⟩ := Option.map_eq_some_iff.1 h
      cases heq
      exact ⟨(Viewpoint.container_ofObject _ _).trans hc, rfl⟩
    · rw [if_neg hself, if_neg hparent] at h ⊢
      cases h
      refine ⟨?_, rfl⟩
      show (if (w.scene.get? reference).isSome then some reference
        else w.scene.objects.findByName? reference) = some (w.identify reference)
      unfold identify at hsome ⊢
      by_cases hget : (w.scene.get? reference).isSome
      · rw [if_pos hget, if_pos hget]
      · rw [if_neg hget, if_neg hget]
        cases hname : w.scene.objects.findByName? reference with
        | some y => rfl
        | none =>
          -- Nothing that is there is called so.
          rw [if_neg hget, hname] at hsome
          exact absurd hsome hget

/-- A reference is an edge from the property that its path starts with. -/
theorem mem_propertyReads_of_reference {f : Formula} (hf : f.Compiled w.calculator.functions)
    {reference : String} {path : Path} (hnode : .reference reference path ∈ f.tree.nodes)
    {id : ObjectId} (hid : w.stores.identify? (w.view f.object) reference = some id) :
    (⟨id, path.head?.getD ""⟩ : Entity) ∈ w.propertyReads f := by
  have hdep : Dependency.object reference path ∈ f.dependencies :=
    hf.mem_dependencies_iff.2 ⟨_, hnode, rfl⟩
  exact mem_propertyReads_of_dependency hdep (producer?_of_identify? hid path)

theorem mem_reads_of_reference {f : Formula} (hf : f.Compiled w.calculator.functions)
    {reference : String} {path : Path} (hnode : .reference reference path ∈ f.tree.nodes)
    {id : ObjectId} (hid : w.stores.identify? (w.view f.object) reference = some id) :
    (⟨id, path.head?.getD ""⟩ : Entity) ∈ w.reads f :=
  mem_reads_of_mem_propertyReads (mem_propertyReads_of_reference hf hnode hid)

/-- A call is an edge from the property of the container that its function depends on. -/
theorem mem_propertyReads_of_call {f : Formula} (hf : f.Compiled w.calculator.functions)
    {name : String} {args : List Expr} (hnode : .call name args ∈ f.tree.nodes) {property : String}
    (himplicit : (w.calculator.functions[name]?).bind Function.implicit =
      some (.container property)) {id : ObjectId} (hid : w.containerOf? f.object = some id) :
    (⟨id, property⟩ : Entity) ∈ w.propertyReads f := by
  have hdep : Dependency.container property ∈ f.dependencies :=
    hf.mem_dependencies_iff.2 ⟨_, hnode, by rw [Expr.dependency?, himplicit]; rfl⟩
  have hproducer : w.producer? f.object (w.containerOf? f.object) (.container property) =
      some (⟨id, property⟩, .implicit) := by
    rw [producer?, hid]
    rfl
  exact mem_propertyReads_of_dependency hdep hproducer

theorem mem_reads_of_call {f : Formula} (hf : f.Compiled w.calculator.functions) {name : String}
    {args : List Expr} (hnode : .call name args ∈ f.tree.nodes) {property : String}
    (himplicit : (w.calculator.functions[name]?).bind Function.implicit =
      some (.container property)) {id : ObjectId} (hid : w.containerOf? f.object = some id) :
    (⟨id, property⟩ : Entity) ∈ w.reads f :=
  mem_reads_of_mem_propertyReads (mem_propertyReads_of_call hf hnode himplicit hid)

/-- A call is an edge from the property of the formula's object that its function depends on. -/
theorem mem_reads_of_own {f : Formula} (hf : f.Compiled w.calculator.functions) {name : String}
    {args : List Expr} (hnode : .call name args ∈ f.tree.nodes) {property : String}
    (himplicit : (w.calculator.functions[name]?).bind Function.implicit = some (.own property)) :
    (⟨f.object, property⟩ : Entity) ∈ w.reads f := by
  have hdep : Dependency.own property ∈ f.dependencies :=
    hf.mem_dependencies_iff.2 ⟨_, hnode, by rw [Expr.dependency?, himplicit]; rfl⟩
  exact mem_reads_of_mem_propertyReads (mem_propertyReads_of_dependency hdep rfl)

/-- A call that asks about children is an edge from the list of them. -/
theorem mem_reads_of_ask {f : Formula} (hfunctions : w.calculator.functions = .builtin)
    (hf : f.Compiled w.calculator.functions) {name : String} {args : List Expr}
    (hnode : .call name args ∈ f.tree.nodes) {g : Function σ} {query : Query}
    (hg : w.calculator.functions[name]? = some g) (hbody : g.body = .ask query) {c : Call}
    (hobject : c.object = f.object) (hcontainer : c.container = w.containerOf? f.object)
    (hkeyed : c.objects.Keyed) {key : QueryKey} (hkey : query.key c = .ok key) :
    (⟨key.container, Names.children⟩ : Entity) ∈ w.reads f := by
  have hplace := Query.container_of_key hkeyed hkey
  have himplicit := Builtin.implicit_of_ask g (Registry.mem_all_of_builtin (hfunctions ▸ hg)) query
    hbody
  have hcall : (w.calculator.functions[name]?).bind Function.implicit = g.implicit := by
    rw [hg, Option.bind_some]
  rw [himplicit] at hcall
  split at hplace
  next hquery =>
    rw [if_pos hquery] at hcall
    rw [hplace, hobject]
    exact mem_reads_of_own hf hnode hcall
  next hquery =>
    rw [if_neg hquery] at hcall
    exact mem_reads_of_call hf hnode hcall (hcontainer ▸ hplace)

/-- A variable is an edge from the entity of its name. -/
theorem mem_reads_of_variable {f : Formula} {name : String} (hname : name ∈ f.variableNames) :
    Entity.ofVariable name ∈ w.reads f := by
  unfold reads producers
  rw [List.map_append]
  exact List.mem_append_right _ (List.mem_map.2 ⟨_, List.mem_map.2 ⟨name, hname, rfl⟩, rfl⟩)

/-! ## Values -/

/-- Two workbenches with the built-in functions and the same settings, and the same scene apart from
properties. -/
structure SameShape (w w' : Workbench σ) : Prop where
  functions : w.calculator.functions = .builtin
  functions' : w'.calculator.functions = .builtin
  settings : w.calculator.settings = w'.calculator.settings
  shape : w.scene.objects.shape = w'.scene.objects.shape

/-- The meaning of a formula depends on the properties among its producers and on the variables that
it names. -/
theorem meaning_congr (h : SameShape w w') {f : Formula} (hf : f.Compiled w.calculator.functions)
    (hfields : ∀ e ∈ w.propertyReads f, w.scene.objects.field? e = w'.scene.objects.field? e)
    (hvars : ∀ slot : Slot, slot.name ∈ f.variableNames → w.vars[slot]? = w'.vars[slot]?) :
    w.meaning f = w'.meaning f := by
  have hview : w.view f.object = w'.view f.object := Viewpoint.ofObject_congr h.shape f.object
  unfold meaning
  refine Evaluator.value_congr (h.functions.trans h.functions'.symm)
    (congrArg EvaluationSettings.maxDepth h.settings) f.tree (fun n hn => ?_) 1
  cases n with
  | var name =>
    have hname : name ∈ f.variableNames := hf.mem_variableNames_iff.2 hn
    have hread : w.stores.variableOf (w.view f.object) name =
        w'.stores.variableOf (w'.view f.object) name := by
      rw [← hview]
      exact Stores.variableOf_congr (fun slot hslot => hvars slot (hslot ▸ hname)) _
    simp only [Evaluator.SameAt, Evaluator.lookup, Evaluator.resolve, Calculator.evaluator, hread]
  | reference object path =>
    have hread : w.stores.propertyOf (w.view f.object) object path =
        w'.stores.propertyOf (w'.view f.object) object path := by
      rw [← hview]
      refine Stores.propertyOf_congr h.shape fun id name rest hid hpath => ?_
      refine hfields ⟨id, name⟩ ?_
      have := mem_propertyReads_of_reference hf hn hid
      rwa [hpath] at this
    simp only [Evaluator.SameAt, Evaluator.lookup, Evaluator.resolve, Calculator.evaluator, hread]
  | call name args =>
    intro vs
    have halike : ((w.calculator.evaluator w.stores (w.view f.object) 0).call 0).Alike
        ((w'.calculator.evaluator w'.stores (w'.view f.object) 0).call 0) :=
      ⟨congrArg Viewpoint.object hview, congrArg Viewpoint.container hview, h.shape,
        congrArg EvaluationSettings.maxVisited h.settings⟩
    refine congrFun (Evaluator.called_congr h.functions h.functions' halike name ?_) vs
    · intro property himplicit id hid
      refine hfields ⟨id, property⟩ (mem_propertyReads_of_call hf hn himplicit ?_)
      rw [← hid]
      exact (Viewpoint.container_ofObject w.scene.objects f.object).symm
  | _ => trivial

end Workbench

end Parametric
