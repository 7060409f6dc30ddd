import Parametric.Formula.Basic
import Parametric.Proofs.Formula.Failure
import Parametric.Proofs.Formula.Local

/-!
# What the issues of a formula foresee

The issues of a formula are read off its nodes, of which an evaluation visits only some. What a call
fails with before its function runs is one of them: an unknown function, or a number of arguments
that the function does not take. A choice is told apart by its three arguments in an evaluation, and
by the numbers that it is declared with in the issues; these are the same for functions that are
`Declared`.
-/

namespace Parametric

variable {σ : Type}

/-- A function is declared with any numbers of arguments and a body that is run on them, or as a
choice. -/
inductive Function.Declared : Function σ → Prop
  | run {f : Function σ} (h : f.isSelect = false) : Declared f
  | choice (name : String) (implicit : Option Implicit) : Declared (.ofSelect name implicit)

theorem Function.Declared.accepts_iff {f : Function σ} (h : f.Declared) (hselect : f.isSelect)
    (count : Nat) : f.accepts count ↔ count = 3 := by
  cases h with
  | run hrun =>
    rw [hrun] at hselect
    cases hselect
  | choice name implicit =>
    rw [accepts, Bool.and_eq_true, decide_eq_true_eq, decide_eq_true_eq]
    change 3 ≤ count ∧ count ≤ 3 ↔ count = 3
    omega

namespace Builtin

@[simp]
theorem declared_ofArgs (name : String) (minArgs maxArgs : Nat)
    (run : List Value → Except FunctionFault Value) :
    (ofArgs name minArgs maxArgs run : Function σ).Declared := .run rfl

@[simp]
theorem declared_ofSelect (name : String) : (Function.ofSelect name : Function σ).Declared :=
  .choice name none

@[simp]
theorem declared_ask (name : String) (minArgs maxArgs : Nat) (implicit : Option Implicit)
    (query : Query) : (⟨name, minArgs, maxArgs, implicit, .ask query⟩ : Function σ).Declared :=
  .run rfl

@[simp]
theorem declared_ofDimension (name property : String) :
    (ofDimension name property : Function σ).Declared := .run rfl

theorem declared_of_mem : ∀ f ∈ (all : List (Function σ)), f.Declared := by
  simp [all, arithmetic, easing, trigonometry, containment, ofOne, ofTwo, ofMany, ofCurve,
    ofSiblings]

end Builtin

namespace Evaluator

variable {ev : Evaluator σ} {n : Expr}

theorem issue?_of_unknownFunction {name : String} (h : ev.RaisedAt n (.unknownFunction name)) :
    Formula.issue? ev.functions n = some (.unknownFunction name) := by
  cases h with
  | operands _ h => cases h
  | unknownFunction args h => rw [Formula.issue?, h]

theorem issue?_of_arity
    (hdeclared : ∀ (name : String) f, ev.functions[name]? = some f → f.Declared)
    {name : String} {min max got : Nat} (h : ev.RaisedAt n (.arity name min max got)) :
    Formula.issue? ev.functions n = some (.arity name min max got) := by
  cases h with
  | operands _ h => cases h
  | @arity _ args f hf h =>
    have haccepts : f.accepts args.length = false := by
      split at h
      next hselect =>
        rw [← Bool.not_eq_true, (hdeclared name f hf).accepts_iff hselect]
        exact h
      next => exact h
    simp only [Formula.issue?, hf, haccepts]
    rfl

end Evaluator

/-- For a registry that is built from declared functions: when the evaluation of a formula fails
with an unknown function, that function is one of the issues of the formula; when it fails with a
number of arguments, an issue has the same name, bounds and number. So a formula without issues
never fails with either. -/
theorem Formula.issues_foresee (fs : List (Function σ)) (hfs : ∀ f ∈ fs, f.Declared)
    (ev : Evaluator σ) (hfunctions : ev.functions = fs.foldl Registry.register ∅) (f : Formula)
    (answers : Option (Cache QueryKey Value)) (host : σ) :
    let result := (ev.evaluate f.tree answers host).1
    let issues := f.issues ev.functions
    (∀ name, result = .error (.unknownFunction name) → .unknownFunction name ∈ issues) ∧
    (∀ name min max got, result = .error (.arity name min max got) →
      .arity name min max got ∈ issues) ∧
    (issues = [] → (∀ name, result ≠ .error (.unknownFunction name)) ∧
      ∀ name min max got, result ≠ .error (.arity name min max got)) := by
  intro result issues
  have hdeclared : ∀ (name : String) g, ev.functions[name]? = some g → g.Declared :=
    fun name g hg => hfs g (Registry.mem_of_built (hfunctions ▸ hg))
  have hunknown : ∀ name, result = .error (.unknownFunction name) →
      .unknownFunction name ∈ issues := by
    intro name h
    obtain htime | ⟨-, hdeep⟩ | ⟨n, hn, hraised⟩ := Evaluator.error_of_evaluate h
    · cases htime
    · cases hdeep
    · exact List.mem_filterMap.2 ⟨n, hn, Evaluator.issue?_of_unknownFunction hraised⟩
  have harity : ∀ name min max got, result = .error (.arity name min max got) →
      .arity name min max got ∈ issues := by
    intro name min max got h
    obtain htime | ⟨-, hdeep⟩ | ⟨n, hn, hraised⟩ := Evaluator.error_of_evaluate h
    · cases htime
    · cases hdeep
    · exact List.mem_filterMap.2 ⟨n, hn, Evaluator.issue?_of_arity hdeclared hraised⟩
  refine ⟨hunknown, harity, fun hnone => ⟨fun name h => ?_, fun name min max got h => ?_⟩⟩
  · have hmem := hunknown name h
    rw [hnone] at hmem
    cases hmem
  · have hmem := harity name min max got h
    rw [hnone] at hmem
    cases hmem

/-- The number of arguments in the branch that is taken is foreseen. -/
theorem Formula.power_foreseen :
    let ev : Evaluator Unit := ⟨.builtin, 50, 1000, 1000, ⟨{}, ∅⟩, ⟨"a", none, none⟩, 0⟩
    let tree : Expr := .conditional (.literal (.bool true))
      (.call "pow" [.literal (.ofNat 1)]) (.call "nope" [])
    let f := Formula.ofTree ev.functions (.ofSerial 0) "true ? pow(1) : nope()" tree "a"
    (∀ g ∈ (Builtin.all : List (Function Unit)), g.Declared) ∧
      ev.functions = Builtin.all.foldl Registry.register ∅ ∧
      (ev.evaluate f.tree none ()).1 = .error (.arity "pow" 2 2 1) ∧
      .arity "pow" 2 2 1 ∈ f.issues ev.functions := by
  intro ev tree f
  have hresult : (ev.evaluate f.tree none ()).1 = .error (.arity "pow" 2 2 1) := by decide
  obtain ⟨-, harity, -⟩ := issues_foresee Builtin.all Builtin.declared_of_mem ev rfl f none ()
  exact ⟨Builtin.declared_of_mem, rfl, hresult, harity _ _ _ _ hresult⟩

end Parametric
