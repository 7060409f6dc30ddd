import Parametric.Json.Number

/-!
# JSON documents

The tree of a document. Objects keep their members in order, repeated names included: what a
repeated name means is for the reader of the object to say. A part that is well formed but stands
for nothing is `unusable`; only a reader that has no use for the part can accept it.
-/

namespace Parametric

/-- A JSON document. -/
inductive Json
  | null
  | bool (b : Bool)
  | number (n : Json.Number)
  | string (s : String)
  | array (items : List Json)
  | object (members : List (String × Json))
  /-- Text with half a surrogate pair, or nesting beyond the limit. -/
  | unusable

namespace Json

def string? : Json → Option String
  | string s => some s
  | _ => none

def bool? : Json → Option Bool
  | bool b => some b
  | _ => none

def float? : Json → Option Float
  | number n => n.toFloat?
  | _ => none

/-- A natural no larger than `limit`. -/
def natUpTo? (limit : Nat) : Json → Option Nat
  | number n => n.toNat? limit
  | _ => none

def array? : Json → Option (List Json)
  | array items => some items
  | _ => none

/-- The items of an array, all of which must decode. -/
def list? {α : Type} (decode : Json → Option α) (j : Json) : Option (List α) := do
  (← j.array?).mapM decode

def object? : Json → Option (List (String × Json))
  | object members => some members
  | _ => none

/-- Null is no value, anything else must decode. -/
def nullable? {α : Type} (decode : Json → Option α) : Json → Option (Option α)
  | null => some none
  | j => (decode j).map some

def isNull : Json → Bool
  | null => true
  | _ => false

mutual

/-- Whether every part of the document has a value. -/
def hasValues : Json → Bool
  | number .tooLarge => false
  | unusable => false
  | array items => haveValues items
  | object members => membersHaveValues members
  | _ => true

def haveValues : List Json → Bool
  | [] => true
  | j :: js => hasValues j && haveValues js

def membersHaveValues : List (String × Json) → Bool
  | [] => true
  | (_, j) :: ms => hasValues j && membersHaveValues ms

end

end Json

end Parametric
