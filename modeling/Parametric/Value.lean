import Parametric.Json.Basic
import Parametric.Number

/-!
# Values

What a formula computes and a property holds: a number, a text or a truth value. Nothing is
converted between the three.
-/

namespace Parametric

/-- The kind of a value. -/
inductive Kind
  | number
  | string
  | bool
deriving DecidableEq, Repr

def Kind.name : Kind → String
  | number => "number"
  | string => "string"
  | bool => "bool"

/-- A value. Equality is identity: it tells the two zeros apart, and what is no number by its
sign. -/
inductive Value
  | number (n : Number)
  | string (s : String)
  | bool (b : Bool)
deriving DecidableEq

namespace Value

def kind : Value → Kind
  | number _ => .number
  | string _ => .string
  | bool _ => .bool

def number? : Value → Option Float
  | number n => some n
  | _ => none

def string? : Value → Option String
  | string s => some s
  | _ => none

/-- Equality as formulas see it: numbers compare as numbers, so the zeros are equal and `NaN`
differs from itself. -/
def same : Value → Value → Bool
  | number m, number n => m.toFloat == n.toFloat
  | string s, string t => s == t
  | bool b, bool c => b == c
  | _, _ => false

def text : Value → String
  | number n => n.text
  | string s => s
  | bool true => "true"
  | bool false => "false"

def ofNat (n : Nat) : Value := number (Float.ofNat n)

def ofInt (n : Int) : Value := number (Float.ofInt n)

def ofJson? : Json → Option Value
  | .number n => n.toFloat?.map fun x => number x
  | .string s => some (string s)
  | .bool b => some (bool b)
  | _ => none

end Value

end Parametric
