import Parametric.Entity
import Parametric.Value

/-!
# Variables

Variables live in scopes. A global variable has only its name; one of another scope belongs to an
object, its context, so that the same name can stand for different values in different places.
-/

namespace Parametric

/-- Where a variable can be seen. -/
inductive Scope
  | global
  /-- Inside a container. -/
  | container
  /-- On one object. -/
  | local
  /-- On the objects made from a template. -/
  | template
deriving DecidableEq, Repr

namespace Scope

def name : Scope → String
  | global => "global"
  | container => "container"
  | .local => "local"
  | template => "template"

/-- The scopes in the order in which a variable is looked for. -/
def searchOrder : List Scope := [.local, .container, .global, .template]

def all : List Scope := [.global, .container, .local, .template]

/-- The place of a scope in the order of slots. -/
def rank : Scope → Nat
  | global => 0
  | container => 1
  | .local => 2
  | template => 3

def ofName? (s : String) : Option Scope := all.find? (·.name = s)

end Scope

/-- The slot of a variable: a global one has no context, every other one has. -/
structure Slot where
  scope : Scope
  context : Option ObjectId
  name : String
deriving DecidableEq

namespace Slot

/-- The scope, the context and the name in turn. -/
instance : Ord Slot where
  compare a b := (compare a.scope.rank b.scope.rank).then
    ((compare a.context b.context).then (compare a.name b.name))

theorem compare_eq_compareLex : (compare : Slot → Slot → Ordering) =
    compareLex (compareOn fun s => s.scope.rank)
      (compareLex (compareOn Slot.context) (compareOn Slot.name)) := rfl

instance : Std.TransOrd Slot := by
  rw [Std.TransOrd, compare_eq_compareLex]
  infer_instance

theorem rank_injective {s t : Scope} (h : s.rank = t.rank) : s = t := by
  cases s <;> cases t <;> simp_all [Scope.rank]

instance : Std.LawfulEqOrd Slot where
  eq_of_compare {a b} h := by
    obtain ⟨hs, h⟩ : compare a.scope.rank b.scope.rank = .eq ∧
        (compare a.context b.context).then (compare a.name b.name) = .eq :=
      Ordering.then_eq_eq.1 h
    obtain ⟨hc, hn⟩ := Ordering.then_eq_eq.1 h
    have hs := rank_injective (Std.LawfulEqOrd.eq_of_compare hs)
    have hc := Std.LawfulEqOrd.eq_of_compare hc
    have hn := Std.LawfulEqOrd.eq_of_compare hn
    cases a
    cases b
    simp_all

end Slot

/-- Why an operation on variables was refused. -/
inductive VariableError
  | alreadyDefined (name : String) (scope : Scope)
  | notDefined (name : String) (scope : Scope)
  /-- Only global variables do without a context. -/
  | missingContext (scope : Scope)
deriving DecidableEq, Repr

def VariableError.message : VariableError → String
  | alreadyDefined name scope =>
    "variable $" ++ name ++ " already defined in " ++ scope.name ++ " scope"
  | notDefined name scope => "variable $" ++ name ++ " not defined in " ++ scope.name ++ " scope"
  | missingContext scope => scope.name ++ " scope variables need a context id"

/-- The variables with their values. -/
abbrev VariableTable := Table Slot Value

namespace VariableTable

/-- The slot of a variable. The context of a global variable is ignored. -/
def slot (name : String) (scope : Scope) (context : Option ObjectId) :
    Except VariableError Slot :=
  match scope, context with
  | .global, _ => .ok ⟨.global, none, name⟩
  | scope, some c => .ok ⟨scope, some c, name⟩
  | scope, none => .error (.missingContext scope)

def define (t : VariableTable) (name : String) (scope : Scope) (context : Option ObjectId)
    (v : Value) : Except VariableError VariableTable := do
  let s ← slot name scope context
  if t.contains s then throw (.alreadyDefined name scope) else return t.insert s v

/-- Change a variable: its old value, and the table with the new one. -/
def update (t : VariableTable) (name : String) (scope : Scope) (context : Option ObjectId)
    (v : Value) : Except VariableError (Value × VariableTable) := do
  let s ← slot name scope context
  match t[s]? with
  | some old => return (old, t.insert s v)
  | none => throw (.notDefined name scope)

/-- Remove a variable: its value, and the table without it. -/
def delete (t : VariableTable) (name : String) (scope : Scope) (context : Option ObjectId) :
    Except VariableError (Value × VariableTable) := do
  let s ← slot name scope context
  match t[s]? with
  | some old => return (old, t.erase s)
  | none => throw (.notDefined name scope)

/-- Make or change a variable. -/
def assign (t : VariableTable) (name : String) (scope : Scope) (context : Option ObjectId)
    (v : Value) : Except VariableError VariableTable := do
  return t.insert (← slot name scope context) v

/-- Remove the variables of a context: how many they were, and the table without them. -/
def removeContext (t : VariableTable) (owner : ObjectId) : Nat × VariableTable :=
  let kept := t.filter fun s _ => s.context ≠ some owner
  (t.size - kept.size, kept)

end VariableTable

end Parametric
