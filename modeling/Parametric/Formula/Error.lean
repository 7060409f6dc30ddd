import Parametric.Formula.Expr
import Parametric.Scene.Lookup

/-!
# Errors of evaluation

Each error is a cause; `message` gives its text.
-/

namespace Parametric

/-- Why the body of a function failed. Arguments are counted from one. -/
inductive FunctionFault
  | notANumber (index : Nat) (got : Kind)
  | missingArgument (index : Nat)
  | negativeRoot
  | reversedBounds (lo hi : Float)
  | noContainer
  | unknownContainer (id : ObjectId)
  | noProperty (container : ObjectId) (property : String)
  | tooManyChildren (container : ObjectId) (count limit : Nat)
  | notAChild (subject container : ObjectId)
  /-- The result is infinite or no number. -/
  | nonFinite
  /-- The arguments lie outside what the function is defined for. No function should get so far:
  this is no answer to a user but a gap in the function itself. -/
  | undefined
  /-- A reason in the words of a host function. -/
  | other (reason : String)
deriving DecidableEq

def FunctionFault.message : FunctionFault → String
  | notANumber index got =>
    "argument " ++ toString index ++ " must be a number, got " ++ got.name
  | missingArgument index => "missing argument " ++ toString index
  | negativeRoot => "sqrt of a negative number"
  | reversedBounds lo hi =>
    "clamp bounds reversed: " ++ Decimal.text lo ++ " > " ++ Decimal.text hi
  | noContainer => "object has no container"
  | unknownContainer id => "container " ++ id ++ " not found"
  | noProperty container property => "container " ++ container ++ " has no " ++ property
  | tooManyChildren container count limit =>
    container ++ " has " ++ toString count ++ " children, above the query limit of " ++
      toString limit
  | notAChild subject container => subject ++ " is not a child of " ++ container
  | nonFinite => "non-finite result"
  | undefined => "no result is defined"
  | other reason => reason

/-- Why an evaluation failed. -/
inductive EvalError
  | lookup (e : LookupError)
  | unknownFunction (name : String)
  | arity (name : String) (min max got : Nat)
  | functionFailed (name : String) (fault : FunctionFault)
  | tooDeep (limit : Nat)
  /-- The budget in milliseconds is used up. -/
  | timeout (budget : Nat)
  | divisionByZero
  | mismatch (op : BinaryOp) (left right : Kind)
  | unexpectedKind (expected got : Kind)
  | nonFinite (op : BinaryOp)
deriving DecidableEq

/-- A time in seconds or milliseconds, whichever is the larger unit in it. -/
def durationText (ms : Nat) : String :=
  if ms = 0 then "0ns"
  else if ms < 1000 then toString ms ++ "ms"
  else
    let places := [ms / 100 % 10, ms / 10 % 10, ms % 10].reverse.dropWhile (· = 0)
    let fraction := String.join (places.reverse.map toString)
    toString (ms / 1000) ++ (if fraction = "" then "" else "." ++ fraction) ++ "s"

/-- The bounds on a number of arguments that were not met. -/
def arityText (name : String) (min max got : Nat) : String :=
  name ++ "() takes " ++ toString min ++ "..=" ++ toString max ++ " arguments, got " ++ toString got

def EvalError.message : EvalError → String
  | lookup e => e.message
  | unknownFunction name => "unknown function: " ++ name
  | arity name min max got => arityText name min max got
  | functionFailed name fault => name ++ "() failed: " ++ fault.message
  | tooDeep limit => "recursion limit of " ++ toString limit ++ " exceeded"
  | timeout budget => "evaluation exceeded its " ++ durationText budget ++ " budget"
  | divisionByZero => "division by zero"
  | mismatch op left right =>
    "type error: " ++ op.symbol ++ " cannot be applied to " ++ left.name ++ " and " ++ right.name
  | unexpectedKind expected got =>
    "type error: expected " ++ expected.name ++ ", got " ++ got.name
  | nonFinite op => "non-finite result from " ++ op.symbol

end Parametric
