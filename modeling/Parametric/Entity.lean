import Std.Data.ExtTreeMap
import Std.Data.ExtTreeSet
import Parametric.Json.Record

/-!
# Objects and entities

An entity is a property of an object, or a variable: the unit that changes and that formulas
depend on. Entities are ordered by object first and property second.
-/

namespace Parametric

abbrev ObjectId := String

/-- An object and one of its properties. -/
structure Entity where
  object : ObjectId
  property : String
deriving DecidableEq, Repr

namespace Entity

/-- The object that stands for the owner of all variables. -/
def variableOwner : ObjectId := "$var"

/-- The entity of a variable, whatever its scope. -/
def ofVariable (name : String) : Entity := ⟨variableOwner, name⟩

def isVariable (e : Entity) : Bool := e.object = variableOwner

def text (e : Entity) : String := e.object ++ "." ++ e.property

/-- By object, then by property. -/
instance : Ord Entity where
  compare a b := (compare a.object b.object).then (compare a.property b.property)

theorem compare_eq_compareLex : (compare : Entity → Entity → Ordering) =
    compareLex (compareOn Entity.object) (compareOn Entity.property) := rfl

instance : Std.TransOrd Entity := by
  rw [Std.TransOrd, compare_eq_compareLex]
  infer_instance

instance : Std.LawfulEqOrd Entity where
  eq_of_compare {a b} h := by
    obtain ⟨ho, hp⟩ : compare a.object b.object = .eq ∧ compare a.property b.property = .eq :=
      Ordering.then_eq_eq.1 h
    cases a
    cases b
    simp_all

def ofJson? (j : Json) : Option Entity := do
  let r ← Json.Record.ofJson? ["object", "property"] j
  return ⟨← r.required? "object" Json.string?, ← r.required? "property" Json.string?⟩

end Entity

/-- A finite map whose keys are in order. -/
abbrev Table (κ ν : Type) [Ord κ] := Std.ExtTreeMap κ ν

/-- A finite set whose elements are in order. -/
abbrev Group (κ : Type) [Ord κ] := Std.ExtTreeSet κ

/-! ## Names of properties that the engine knows -/

namespace Names

def width : String := "width"
def height : String := "height"
def depth : String := "depth"
def size : String := "size"
def children : String := "children"
def layout : String := "layout"
def x : String := "x"
def y : String := "y"
def z : String := "z"

/-- The names whose values place an object in space. -/
def geometry : List String := [x, y, z, width, height, depth]

end Names

end Parametric
