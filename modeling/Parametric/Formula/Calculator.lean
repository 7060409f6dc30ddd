import Parametric.Formula.Basic
import Parametric.Formula.Builtin
import Parametric.Formula.Eval
import Parametric.Settings

/-!
# The calculator

The calculator compiles formulas and evaluates them, with a cache of results and a cache of answers
about containers. Results belong to the object that they were computed for; answers belong to the
container that was asked about.

The clock is a list of readings without end: whoever makes a calculator says what it will read.
-/

namespace Parametric

/-- A clock in milliseconds. -/
structure Clock where
  /-- What each reading shows. -/
  shows : Nat → Nat
  /-- The number of readings taken. -/
  taken : Nat := 0

/-- A clock that stands still. -/
def Clock.still : Clock := ⟨fun _ => 0, 0⟩

/-- Take a reading. -/
def Clock.read (c : Clock) : Nat × Clock := (c.shows c.taken, { c with taken := c.taken + 1 })

/-- The key of a cached result. -/
structure ResultKey where
  object : ObjectId
  formula : FormulaId
  container : Option ObjectId
deriving DecidableEq

namespace ResultKey

instance : Owned ResultKey := ⟨ResultKey.object⟩

/-- The object, the formula and the container in turn. -/
instance : Ord ResultKey where
  compare a b := (compare a.object b.object).then
    ((compare a.formula b.formula).then (compare a.container b.container))

theorem compare_eq_compareLex : (compare : ResultKey → ResultKey → Ordering) =
    compareLex (compareOn ResultKey.object)
      (compareLex (compareOn ResultKey.formula) (compareOn ResultKey.container)) := rfl

instance : Std.TransOrd ResultKey := by
  rw [Std.TransOrd, compare_eq_compareLex]
  infer_instance

instance : Std.LawfulEqOrd ResultKey where
  eq_of_compare {a b} h := by
    obtain ⟨ho, h⟩ : compare a.object b.object = .eq ∧
        (compare a.formula b.formula).then (compare a.container b.container) = .eq :=
      Ordering.then_eq_eq.1 h
    obtain ⟨hf, hc⟩ := Ordering.then_eq_eq.1 h
    have ho := Std.LawfulEqOrd.eq_of_compare ho
    have hf := Std.LawfulEqOrd.eq_of_compare hf
    have hc := Std.LawfulEqOrd.eq_of_compare hc
    cases a
    cases b
    simp_all

end ResultKey

/-- Functions, settings and caches. -/
structure Calculator (σ : Type) where
  functions : Registry σ
  settings : EvaluationSettings
  results : Cache ResultKey Value
  answers : Cache QueryKey Value
  clock : Clock
  compiled : Nat
  host : σ

namespace Calculator

variable {σ : Type}

def new (functions : Registry σ) (settings : EvaluationSettings) (clock : Clock) (host : σ) :
    Calculator σ :=
  { functions, settings, clock, host, compiled := 0,
    results := .new settings.resultLife settings.cacheCapacity,
    answers := .new settings.queryLife settings.cacheCapacity }

/-- Compile a source text for an object. The names in it need not stand for anything yet. -/
def compile (c : Calculator σ) (source : String) (object : ObjectId) :
    Except CompileError (Formula × Calculator σ) := do
  let tree ← Expr.ofSource source
  return (.ofTree c.functions (.ofSerial c.compiled) source tree object,
    { c with compiled := c.compiled + 1 })

/-- An evaluator for one pass. -/
def evaluator (c : Calculator σ) (stores : Stores) (view : Viewpoint) (now : Nat) :
    Evaluator σ :=
  { functions := c.functions, maxDepth := c.settings.maxDepth, budget := c.settings.timeout,
    maxVisited := c.settings.maxVisited, stores, view, now }

/-- Note the outcome of an evaluation on a formula. -/
def note (c : Calculator σ) (f : Formula) : Except EvalError Value → Formula
  | .ok v => f.succeed v
  | .error e => f.fail e c.settings.maxErrors

/-- Evaluate a formula and note the outcome, without the caches. A constant formula that has a value
is not evaluated again. -/
def evaluate (c : Calculator σ) (f : Formula) (stores : Stores) (view : Viewpoint) :
    Except EvalError Value × Formula × Calculator σ :=
  match f.settled? with
  | some v => (.ok v, f, c)
  | none =>
    let (result, _, host) := (c.evaluator stores view 0).evaluate f.tree none c.host
    (result, c.note f result, { c with host })

/-- Evaluate a formula and note the outcome, or take its cached result. -/
def evaluateCached (c : Calculator σ) (f : Formula) (stores : Stores) (view : Viewpoint) :
    Except EvalError Value × Formula × Calculator σ :=
  match f.settled? with
  | some v => (.ok v, f, c)
  | none =>
    let key : ResultKey := ⟨view.object, f.id, view.container⟩
    let (now, clock) := c.clock.read
    let c := { c with clock }
    match c.results.get key now with
    | (some v, results) => (.ok v, f, { c with results })
    | (none, results) =>
      let (result, answers, host) :=
        (c.evaluator stores view now).evaluate f.tree (some c.answers) c.host
      let results := match result with
        | .ok v => results.insert key v now
        | .error _ => results
      (result, c.note f result, { c with results, answers := answers.getD c.answers, host })

/-- Drop the cached results of an object and the answers about it: how many they were, and the
calculator without them. -/
def invalidate (c : Calculator σ) (object : ObjectId) : Nat × Calculator σ :=
  let (m, results) := c.results.dropOwner object
  let (n, answers) := c.answers.dropOwner object
  (m + n, { c with results, answers })

def clearCaches (c : Calculator σ) : Calculator σ :=
  { c with results := c.results.clear, answers := c.answers.clear }

def stats (c : Calculator σ) : Nat × Nat := (c.results.hits, c.results.misses)

end Calculator

end Parametric
