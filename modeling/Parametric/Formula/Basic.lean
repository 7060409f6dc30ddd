import Parametric.Formula.Function
import Parametric.Formula.Id
import Parametric.Formula.Parser

/-!
# Formulas

A formula is an expression bound to an object, with what it depends on and what came of its
evaluations so far. The dependencies are read off the expression: references to objects, variables,
and what the functions that it calls depend on.
-/

namespace Parametric

/-- What can change the value of a formula, variables aside. -/
inductive Dependency
  /-- A property of an object, with the reference as written. -/
  | object (reference : String) (path : Path)
  /-- A property of the container of the formula's object. -/
  | container (property : String)
  /-- A property of the formula's object. -/
  | own (property : String)
deriving DecidableEq, Repr

namespace Dependency

def text : Dependency → String
  | object reference path => reference ++ "." ++ path.text
  | container property => "parent." ++ property
  | own property => "self." ++ property

/-- What a call depends on although it names no reference. -/
def ofImplicit : Implicit → Dependency
  | .container property => container property
  | .own property => own property

/-- The reference to an object. -/
def reference? : Dependency → Option String
  | object reference _ => some reference
  | _ => none

end Dependency

namespace Expr

variable {σ : Type}

/-- The dependency that a node adds. -/
def dependency? (functions : Registry σ) : Expr → Option Dependency
  | reference object path => some (.object object path)
  | call name _ => (functions[name]?.bind Function.implicit).map .ofImplicit
  | _ => none

def variableName? : Expr → Option String
  | var name => some name
  | _ => none

/-- The dependencies of an expression, each once and in the order of their first nodes. -/
def dependencies (functions : Registry σ) (e : Expr) : List Dependency :=
  (e.nodes.filterMap (dependency? functions)).eraseDups

/-- The names of the variables of an expression, each once and in the order of their first nodes. -/
def variableNames (e : Expr) : List String := (e.nodes.filterMap variableName?).eraseDups

end Expr

/-- A compiled formula. -/
structure Formula where
  id : FormulaId
  source : String
  tree : Expr
  object : ObjectId
  dependencies : List Dependency
  /-- The names of the variables, without their dollar signs. -/
  variableNames : List String
  /-- The last value that was computed; failures keep it. -/
  lastValue : Option Value := none
  evaluated : Bool := false
  /-- The latest errors, the oldest first. -/
  errors : List EvalError := []
  failing : Bool := false

namespace Formula

variable {σ : Type}

/-- A formula that was never evaluated. -/
def ofTree (functions : Registry σ) (id : FormulaId) (source : String) (tree : Expr)
    (object : ObjectId) : Formula :=
  { id, source, tree, object, dependencies := tree.dependencies functions,
    variableNames := tree.variableNames }

/-- Nothing can change the value of the formula. -/
def isConstant (f : Formula) : Bool := f.dependencies.isEmpty && f.variableNames.isEmpty

/-- The value of a constant formula, once it has one. -/
def settled? (f : Formula) : Option Value :=
  if f.isConstant && !f.failing then f.lastValue else none

/-- Note a value. -/
def succeed (f : Formula) (v : Value) : Formula :=
  { f with lastValue := some v, evaluated := true, failing := false }

/-- Note an error; of all errors the latest `limit` are kept. -/
def fail (f : Formula) (e : EvalError) (limit : Nat) : Formula :=
  let kept := f.errors.drop (f.errors.length + 1 - limit)
  { f with evaluated := true, failing := true,
           errors := if limit = 0 then f.errors else kept ++ [e] }

def lastError? (f : Formula) : Option EvalError := f.errors.getLast?

def references (f : Formula) : List String := f.dependencies.filterMap Dependency.reference?

end Formula

/-- What is wrong with a call, as far as it shows before evaluation. -/
inductive Issue
  | unknownFunction (name : String)
  | arity (name : String) (min max got : Nat)
deriving DecidableEq, Repr

def Issue.message : Issue → String
  | unknownFunction name => "unknown function: " ++ name
  | arity name min max got => arityText name min max got

namespace Formula

variable {σ : Type}

def issue? (functions : Registry σ) : Expr → Option Issue
  | .call name args =>
    match functions[name]? with
    | none => some (.unknownFunction name)
    | some f =>
      if f.accepts args.length then none
      else some (.arity name f.minArgs f.maxArgs args.length)
  | _ => none

/-- The issues of a formula, in the order of its nodes. -/
def issues (functions : Registry σ) (f : Formula) : List Issue :=
  f.tree.nodes.filterMap (issue? functions)

end Formula

end Parametric
