import Parametric.Formula.Calculator
import Parametric.Proofs.Formula.Meaning
import Parametric.Proofs.Formula.Parser

/-!
# Compiling and evaluating formulas

What compiling puts into a formula (`Calculator.compile_spec`) and what an evaluation notes on it.
An evaluation gives the value of the tree (`Calculator.evaluate_spec`). With the caches it gives the
value of the tree or the cached result (`Calculator.evaluateCached_recall`), so the value when
nothing is cached for the object of the formula (`Calculator.evaluateCached_spec`). The value of a
constant formula is the same wherever its tree is evaluated (`Formula.value_of_isConstant`).
-/

namespace Parametric

/-! ## Formulas -/

/-- A formula as it was compiled, without what came of its evaluations. -/
def Formula.core (f : Formula) : Formula :=
  { f with lastValue := none, evaluated := false, errors := [], failing := false }

/-- The dependencies of a formula are those of its tree, and all names in it are plain. -/
structure Formula.Compiled {σ : Type} (functions : Registry σ) (f : Formula) : Prop where
  dependencies : f.dependencies = f.tree.dependencies functions
  variableNames : f.variableNames = f.tree.variableNames
  wellNamed : f.tree.WellNamed

namespace Formula

theorem compiled_ofTree {σ : Type} (functions : Registry σ) (id : FormulaId) (source : String)
    {tree : Expr} (h : tree.WellNamed) (object : ObjectId) :
    (ofTree functions id source tree object).Compiled functions :=
  ⟨rfl, rfl, h⟩

theorem Compiled.of_core {σ : Type} {functions : Registry σ} {f f' : Formula}
    (h : f.Compiled functions) (hcore : f'.core = f.core) : f'.Compiled functions := by
  injection hcore with _ _ htree _ hdependencies hvariables
  refine ⟨?_, ?_, ?_⟩
  · rw [hdependencies, htree, h.dependencies]
  · rw [hvariables, htree, h.variableNames]
  · rw [htree]
    exact h.wellNamed

/-- A compiled formula has the dependencies of the nodes of its tree. -/
theorem Compiled.mem_dependencies_iff {σ : Type} {functions : Registry σ} {f : Formula}
    (h : f.Compiled functions) {d : Dependency} :
    d ∈ f.dependencies ↔ ∃ n ∈ f.tree.nodes, n.dependency? functions = some d := by
  rw [h.dependencies, Expr.dependencies, List.mem_eraseDups, List.mem_filterMap]

/-- The variables of a compiled formula are those of its tree. -/
theorem Compiled.mem_variableNames_iff {σ : Type} {functions : Registry σ} {f : Formula}
    (h : f.Compiled functions) {name : String} :
    name ∈ f.variableNames ↔ .var name ∈ f.tree.nodes := by
  rw [h.variableNames, Expr.variableNames, List.mem_eraseDups, List.mem_filterMap]
  constructor
  · rintro ⟨n, hn, hname⟩
    cases n <;> cases hname
    exact hn
  · exact fun hn => ⟨_, hn, rfl⟩

theorem object_of_core {f f' : Formula} (hcore : f'.core = f.core) : f'.object = f.object := by
  injection hcore

/-- What a formula says of its last evaluation. -/
def Noted (f : Formula) : Except EvalError Value → Prop
  | .ok v => f.failing = false ∧ f.lastValue = some v
  | .error _ => f.failing = true

theorem isConstant_iff (f : Formula) :
    f.isConstant ↔ f.dependencies = [] ∧ f.variableNames = [] := by
  unfold isConstant
  rw [Bool.and_eq_true, List.isEmpty_iff, List.isEmpty_iff]

theorem settled?_eq_some {f : Formula} {v : Value} (h : f.settled? = some v) :
    f.isConstant ∧ f.Noted (.ok v) := by
  unfold settled? at h
  split at h
  next hconstant =>
    rw [Bool.and_eq_true, Bool.not_eq_true'] at hconstant
    exact ⟨hconstant.1, hconstant.2, h⟩
  next => cases h

theorem Noted.settled? {f : Formula} {result : Except EvalError Value} (h : f.Noted result)
    {v : Value} (hv : f.settled? = some v) : result = .ok v := by
  obtain ⟨-, hfailing, hlast⟩ := settled?_eq_some hv
  cases result with
  | ok w => rw [Option.some.inj (hlast.symm.trans h.2)]
  | error e => rw [Noted, hfailing] at h; cases h

section

variable {σ : Type} {functions : Registry σ} {f : Formula}

/-- The tree of a constant formula has no variables and no references, and what it calls depends on
nothing. -/
theorem Compiled.independent (h : f.Compiled functions) (hconstant : f.isConstant) {n : Expr}
    (hn : n ∈ f.tree.nodes) : n.dependency? functions = none ∧ ∀ name, n ≠ .var name := by
  obtain ⟨hdependencies, hvars⟩ := f.isConstant_iff.1 hconstant
  refine ⟨Option.eq_none_iff_forall_ne_some.2 fun d hd => ?_, ?_⟩
  · have hmem := h.mem_dependencies_iff.2 ⟨n, hn, hd⟩
    simp [hdependencies] at hmem
  · rintro name rfl
    have hmem := h.mem_variableNames_iff.2 hn
    simp [hvars] at hmem

/-- What a constant formula calls depends on nothing. -/
theorem Compiled.implicit_of_isConstant (h : f.Compiled functions) (hconstant : f.isConstant)
    {name : String} {args : List Expr} (hn : .call name args ∈ f.tree.nodes) {g : Function σ}
    (hg : functions[name]? = some g) : g.implicit = none := by
  obtain ⟨himplicit, -⟩ := h.independent hconstant hn
  rwa [Expr.dependency?, hg, Option.bind_some, Option.map_eq_none_iff] at himplicit

variable {ev ev' : Evaluator σ} (hfunctions : ev.functions = .builtin)
include hfunctions

/-- The value of a constant formula is the same wherever its tree is evaluated. -/
theorem value_of_isConstant (hfunctions' : ev'.functions = .builtin)
    (hdepth : ev.maxDepth = ev'.maxDepth) (host : σ) (hf : f.Compiled ev.functions)
    (hconstant : f.isConstant) : ev.value f.tree 1 = ev'.value f.tree 1 := by
  have hsame := hfunctions.trans hfunctions'.symm
  refine Evaluator.value_congr hsame hdepth f.tree (fun n hn => ?_) 1
  cases n with
  | var name => exact absurd rfl ((hf.independent hconstant hn).2 name)
  | reference object path => cases (hf.independent hconstant hn).1
  | call name args =>
    refine congrFun (Evaluator.called_of_run? hsame host fun g hg => ?_)
    have himplicit := hf.implicit_of_isConstant hconstant hn hg
    rw [hfunctions] at hg
    exact Builtin.blind_of_mem g (Registry.mem_all_of_builtin hg) himplicit _ _
  | _ => trivial

/-- A constant formula asks nothing. -/
theorem asksAt_of_isConstant (hf : f.Compiled ev.functions) (hconstant : f.isConstant) :
    ∀ n ∈ f.tree.nodes, ev.AsksAt (fun _ => False) n := by
  intro n hn
  cases n with
  | call name args =>
    intro g query key hg hbody _
    have himplicit := hf.implicit_of_isConstant hconstant hn hg
    rw [hfunctions] at hg
    rw [Builtin.implicit_of_ask g (Registry.mem_all_of_builtin hg) query hbody] at himplicit
    cases himplicit
  | _ => trivial

end

end Formula

namespace Calculator

variable {σ : Type} {c c' c'' : Calculator σ} {f f' : Formula} {stores : Stores} {view : Viewpoint}
  {result : Except EvalError Value}

/-! ## Steps that keep the caches right -/

/-- The functions and settings are the same, and nothing came into the caches. -/
structure Kept (c c' : Calculator σ) : Prop where
  functions : c'.functions = c.functions
  settings : c'.settings = c.settings
  answers : ∀ P : QueryKey → Value → Prop, c.answers.Holds P → c'.answers.Holds P
  results : ∀ P : ResultKey → Value → Prop, c.results.Holds P → c'.results.Holds P
  compiled : c.compiled ≤ c'.compiled

theorem Kept.refl (c : Calculator σ) : Kept c c :=
  ⟨rfl, rfl, fun _ h => h, fun _ h => h, le_rfl⟩

theorem Kept.trans (h : Kept c c') (h' : Kept c' c'') : Kept c c'' :=
  ⟨h'.functions.trans h.functions, h'.settings.trans h.settings,
    fun P hP => h'.answers P (h.answers P hP), fun P hP => h'.results P (h.results P hP),
    h.compiled.trans h'.compiled⟩

theorem Kept.evaluator (h : Kept c c') (stores : Stores) (view : Viewpoint) (now : Nat) :
    c'.evaluator stores view now = c.evaluator stores view now := by
  simp only [Calculator.evaluator, h.functions, h.settings]

theorem kept_invalidate (c : Calculator σ) (object : ObjectId) : Kept c (c.invalidate object).2 :=
  ⟨rfl, rfl, fun _ h => h.dropOwner object, fun _ h => h.dropOwner object, le_rfl⟩

theorem kept_clearCaches (c : Calculator σ) : Kept c c.clearCaches :=
  ⟨rfl, rfl, fun _ _ => Cache.Holds.clear _, fun _ _ => Cache.Holds.clear _, le_rfl⟩

/-- No result is cached for an object. -/
def Misses (c : Calculator σ) (object : ObjectId) : Prop :=
  ∀ key : ResultKey, key.object = object → c.results.entries[key]? = none

theorem misses_invalidate (c : Calculator σ) (object : ObjectId) :
    (c.invalidate object).2.Misses object := by
  intro key hkey
  exact (Cache.getElem?_dropOwner c.results object key).trans (if_pos hkey)

/-- Nothing comes into the results. -/
theorem Kept.misses (h : Kept c c') {object : ObjectId} (hmisses : c.Misses object) :
    c'.Misses object := by
  have hresults := h.results (fun key _ => key.object ≠ object) fun key entry hentry hkey => by
    rw [hmisses key hkey] at hentry
    cases hentry
  exact fun key hkey => Option.eq_none_iff_forall_ne_some.2 fun entry hentry =>
    hresults key entry hentry hkey

theorem Misses.invalidate {object : ObjectId} (h : c.Misses object) (other : ObjectId) :
    (c.invalidate other).2.Misses object := (kept_invalidate c other).misses h

/-- No answer about a container is cached. -/
def Unasked (c : Calculator σ) (container : ObjectId) : Prop :=
  ∀ key : QueryKey, key.container = container → c.answers.entries[key]? = none

theorem unasked_invalidate (c : Calculator σ) (container : ObjectId) :
    (c.invalidate container).2.Unasked container := by
  intro key hkey
  exact (Cache.getElem?_dropOwner c.answers container key).trans (if_pos hkey)

theorem Unasked.invalidate {container : ObjectId} (h : c.Unasked container) (other : ObjectId) :
    (c.invalidate other).2.Unasked container := by
  intro key hkey
  refine (Cache.getElem?_dropOwner c.answers other key).trans ?_
  rw [h key hkey, ite_self]

/-! ## Compiling -/

/-- A compiled formula belongs to its object and depends on what its tree says. -/
theorem compile_spec {source : String} {object : ObjectId}
    (h : c.compile source object = .ok (f, c')) :
    f.object = object ∧ f.Compiled c.functions ∧ Kept c c' ∧ f.settled? = none ∧
      Expr.ofSource source = .ok f.tree := by
  unfold compile at h
  cases hsource : Expr.ofSource source with
  | error e => simp [hsource, bind, Except.bind] at h
  | ok tree =>
    simp only [hsource, bind, Except.bind, pure, Except.pure, Except.ok.injEq, Prod.mk.injEq] at h
    obtain ⟨rfl, rfl⟩ := h
    refine ⟨rfl, Formula.compiled_ofTree _ _ _ (Expr.wellNamed_of_ofSource hsource) _,
      ⟨rfl, rfl, fun _ h => h, fun _ h => h, Nat.le_succ _⟩, ?_, rfl⟩
    simp [Formula.settled?, Formula.ofTree]

/-- An identifier that a compiled formula was given. -/
def Issued (c : Calculator σ) (id : FormulaId) : Prop := ∃ n < c.compiled, id = .ofSerial n

theorem Kept.issued (h : Kept c c') {id : FormulaId} (hid : c.Issued id) : c'.Issued id := by
  obtain ⟨n, hn, rfl⟩ := hid
  exact ⟨n, hn.trans_le h.compiled, rfl⟩

/-- A compiled formula is given a new identifier. -/
theorem compile_issued {source : String} {object : ObjectId}
    (h : c.compile source object = .ok (f, c')) : ¬ c.Issued f.id ∧ c'.Issued f.id := by
  unfold compile at h
  obtain ⟨tree, -, h⟩ := Run.ok_of_bind h
  cases h
  refine ⟨?_, c.compiled, Nat.lt_succ_self _, rfl⟩
  rintro ⟨n, hn, hid⟩
  exact absurd (FormulaId.ofSerial_injective hid) hn.ne'

/-! ## Evaluating -/

theorem core_note (c : Calculator σ) (f : Formula) (result : Except EvalError Value) :
    (c.note f result).core = f.core := by
  cases result <;> rfl

theorem noted_note (c : Calculator σ) (f : Formula) (result : Except EvalError Value) :
    (c.note f result).Noted result := by
  cases result with
  | ok v => exact ⟨rfl, rfl⟩
  | error e => rfl

/-- An evaluation without the caches changes the state of host functions only. -/
theorem evaluate_kept (h : c.evaluate f stores view = (result, f', c')) :
    f'.core = f.core ∧ Kept c c' := by
  unfold evaluate at h
  split at h
  · cases h
    exact ⟨rfl, .refl c⟩
  · cases h
    exact ⟨core_note c f _, ⟨rfl, rfl, fun _ h => h, fun _ h => h, le_rfl⟩⟩

/-- An evaluation with the caches changes what is cached and the state of host functions. -/
theorem evaluateCached_core (h : c.evaluateCached f stores view = (result, f', c')) :
    f'.core = f.core ∧ c'.functions = c.functions ∧ c'.settings = c.settings := by
  unfold evaluateCached at h
  split at h
  · cases h
    exact ⟨rfl, rfl, rfl⟩
  · dsimp only at h
    split at h
    · cases h
      exact ⟨rfl, rfl, rfl⟩
    · cases h
      exact ⟨core_note _ f _, rfl, rfl⟩

/-- An evaluation compiles nothing, and no result comes into the cache but its own. -/
theorem evaluateCached_results (h : c.evaluateCached f stores view = (result, f', c')) :
    c'.compiled = c.compiled ∧ ∀ P : ResultKey → Value → Prop, c.results.Holds P →
      (∀ v, result = .ok v → P ⟨view.object, f.id, view.container⟩ v) → c'.results.Holds P := by
  unfold evaluateCached at h
  split at h
  · cases h
    exact ⟨rfl, fun _ hP _ => hP⟩
  · dsimp only at h
    have hget := fun (P : ResultKey → Value → Prop) (hP : c.results.Holds P) =>
      (hP.get ⟨view.object, f.id, view.container⟩ c.clock.read.1).1
    split at h
    next v results heq =>
      cases h
      rw [heq] at hget
      exact ⟨rfl, fun P hP _ => hget P hP⟩
    next results heq =>
      cases h
      rw [heq] at hget
      refine ⟨rfl, fun P hP hnew => ?_⟩
      dsimp only
      split
      next v hv => exact (hget P hP).insert (hnew v hv) _
      next => exact hget P hP

/-- An evaluation notes what it gives. -/
theorem evaluate_noted (h : c.evaluate f stores view = (result, f', c')) : f'.Noted result := by
  unfold evaluate at h
  split at h
  next hs =>
    cases h
    exact (Formula.settled?_eq_some hs).2
  · cases h
    exact noted_note c f _

theorem evaluateCached_noted (hmisses : c.Misses view.object)
    (h : c.evaluateCached f stores view = (result, f', c')) : f'.Noted result := by
  unfold evaluateCached at h
  split at h
  next hs =>
    cases h
    exact (Formula.settled?_eq_some hs).2
  · dsimp only at h
    rw [Cache.get_of_eq_none (hmisses _ rfl)] at h
    cases h
    exact noted_note _ f _

/-- An evaluator sees the same at every reading of the clock. -/
theorem value_now (c : Calculator σ) (stores : Stores) (view : Viewpoint) (now : Nat) (e : Expr) :
    (c.evaluator stores view now).value e 1 = (c.evaluator stores view 0).value e 1 := by
  have hsame : ∀ n ∈ e.nodes,
      Evaluator.SameAt (c.evaluator stores view now) (c.evaluator stores view 0) n := by
    intro n _
    cases n with
    | var name => exact rfl
    | reference object path => exact rfl
    | call name args => exact fun _ => rfl
    | _ => trivial
  refine Evaluator.value_congr ?_ ?_ e hsame 1 <;> rfl

variable (hbudget : 0 < c.settings.timeout) (hfree : Evaluator.HostFree c.functions)
include hbudget hfree

/-- The first evaluation gives the value of the tree and notes it. -/
theorem evaluate_spec (hsettled : f.settled? = none)
    (h : c.evaluate f stores view = (result, f', c')) :
    result = (c.evaluator stores view 0).value f.tree 1 ∧ f'.Noted result := by
  unfold evaluate at h
  rw [hsettled] at h
  cases h
  obtain ⟨hvalue, -⟩ := Evaluator.evaluate_eq_value (c.evaluator stores view 0) hbudget hfree f.tree
    none (fun _ h => by cases h) c.host
  exact ⟨hvalue, noted_note c f _⟩

/-- An evaluation with the caches gives the cached result, or the value of the tree if the cache of
answers is right about what the tree asks. A constant formula that has its value already keeps it.
-/
theorem evaluateCached_recall {asked : QueryKey → Prop} {P : ResultKey → Value → Prop}
    (hasks : ∀ n ∈ f.tree.nodes, (c.evaluator stores view 0).AsksAt asked n)
    (hanswers : c.answers.Holds ((c.evaluator stores view 0).Answered asked))
    (hresults : c.results.Holds P)
    (hsettled : ∀ v, f.settled? = some v → (c.evaluator stores view 0).value f.tree 1 = .ok v)
    (h : c.evaluateCached f stores view = (result, f', c')) :
    ((∃ v, result = .ok v ∧ f' = f ∧ P ⟨view.object, f.id, view.container⟩ v) ∨
      result = (c.evaluator stores view 0).value f.tree 1 ∧ f'.Noted result) ∧
      c'.answers.Holds ((c.evaluator stores view 0).Answered asked) := by
  unfold evaluateCached at h
  cases hs : f.settled? with
  | some v =>
    rw [hs] at h
    cases h
    exact ⟨.inr ⟨(hsettled v hs).symm, (Formula.settled?_eq_some hs).2⟩, hanswers⟩
  | none =>
    rw [hs] at h
    dsimp only at h
    have hfound := (hresults.get ⟨view.object, f.id, view.container⟩ c.clock.read.1).2
    split at h
    next v results heq =>
      cases h
      rw [heq] at hfound
      exact ⟨.inl ⟨v, rfl, rfl, hfound v rfl⟩, hanswers⟩
    next =>
      obtain ⟨hvalue, hholds⟩ := Evaluator.evaluate_eq_value_of_asks
        (c.evaluator stores view c.clock.read.1) hbudget hfree f.tree hasks (some c.answers)
        (fun _ heq => Option.some.inj heq ▸ hanswers) c.host
      cases h
      refine ⟨.inr ⟨hvalue.trans (value_now c stores view _ f.tree), noted_note _ f _⟩, ?_⟩
      have hgetD : ∀ answers : Option (Cache QueryKey Value),
          (∀ cache, answers = some cache →
            cache.Holds ((c.evaluator stores view 0).Answered asked)) →
          (answers.getD c.answers).Holds ((c.evaluator stores view 0).Answered asked) := by
        intro answers h
        cases answers with
        | none => exact hanswers
        | some cache => exact h cache rfl
      exact hgetD _ hholds

/-- When nothing is cached for the object, an evaluation gives the value of the tree and notes it.
-/
theorem evaluateCached_of_misses {asked : QueryKey → Prop} (hmisses : c.Misses view.object)
    (hasks : ∀ n ∈ f.tree.nodes, (c.evaluator stores view 0).AsksAt asked n)
    (hanswers : c.answers.Holds ((c.evaluator stores view 0).Answered asked))
    (hsettled : ∀ v, f.settled? = some v → (c.evaluator stores view 0).value f.tree 1 = .ok v)
    (h : c.evaluateCached f stores view = (result, f', c')) :
    result = (c.evaluator stores view 0).value f.tree 1 ∧ f'.Noted result ∧
      c'.answers.Holds ((c.evaluator stores view 0).Answered asked) := by
  have hresults : c.results.Holds fun key _ => key.object ≠ view.object := by
    intro key e he hkey
    rw [hmisses key hkey] at he
    cases he
  obtain ⟨hresult, hholds⟩ :=
    evaluateCached_recall hbudget hfree hasks hanswers hresults hsettled h
  obtain ⟨hvalue, hnoted⟩ := hresult.resolve_left fun ⟨_, _, _, hne⟩ => hne rfl
  exact ⟨hvalue, hnoted, hholds⟩

/-- When nothing is cached for the object and all answers are right, an evaluation gives the value
of the tree and notes it. -/
theorem evaluateCached_spec (hmisses : c.Misses view.object)
    (hanswers : c.answers.Holds (c.evaluator stores view 0).Answers)
    (hsettled : ∀ v, f.settled? = some v → (c.evaluator stores view 0).value f.tree 1 = .ok v)
    (h : c.evaluateCached f stores view = (result, f', c')) :
    result = (c.evaluator stores view 0).value f.tree 1 ∧ f'.Noted result ∧
      c'.answers.Holds (c.evaluator stores view 0).Answers := by
  obtain ⟨hvalue, hnoted, hholds⟩ := evaluateCached_of_misses hbudget hfree hmisses
    (fun n _ => Evaluator.asksAt_true _ n) (fun key e he _ => hanswers key e he) hsettled h
  exact ⟨hvalue, hnoted, fun key e he => hholds key e he trivial⟩

end Calculator

end Parametric
