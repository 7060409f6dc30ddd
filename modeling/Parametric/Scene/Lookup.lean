import Parametric.Scene.Object
import Parametric.Scene.Variable

/-!
# Lookup

How the names in a formula are resolved. A formula is read from the viewpoint of an object: `self`
is that object, `parent` its container, and its own identifier and those of its container and
template pick the contexts of variables.
-/

namespace Parametric

/-- A name that stands for nothing. -/
inductive LookupError
  | noVariable (name : String)
  | noObject (reference : String)
  | noProperty (object : String) (path : Path)
deriving DecidableEq, Repr

def LookupError.message : LookupError → String
  | noVariable name => "undefined variable: $" ++ name
  | noObject reference => "object not found: " ++ reference
  | noProperty object path => "property not found: " ++ object ++ "." ++ path.text

/-- The object that a formula is evaluated for, with the container and template it is taken to
have. -/
structure Viewpoint where
  object : ObjectId
  container : Option ObjectId := none
  template : Option ObjectId := none
deriving DecidableEq, Repr

namespace Viewpoint

/-- The name of the object of the viewpoint. -/
def selfName : String := "self"

/-- The name of its container. -/
def parentName : String := "parent"

/-- The context of the variables of a scope. -/
def contextOf (view : Viewpoint) : Scope → Option ObjectId
  | .global => none
  | .container => view.container
  | .local => some view.object
  | .template => view.template

/-- The viewpoint of an object with its own container and template. -/
def ofObject (objects : ObjectTable) (id : ObjectId) : Viewpoint :=
  match objects.get? id with
  | some o => ⟨id, o.container, o.template⟩
  | none => ⟨id, none, none⟩

end Viewpoint

/-- What formulas read: objects and variables. -/
structure Stores where
  objects : ObjectTable
  vars : VariableTable

namespace Stores

/-- The variable of a name in one scope. -/
def variableIn? (s : Stores) (view : Viewpoint) (name : String) (scope : Scope) : Option Value :=
  match VariableTable.slot name scope (view.contextOf scope) with
  | .ok slot => s.vars[slot]?
  | .error _ => none

/-- The variable of a name in the first scope that has one. -/
def variableOf (s : Stores) (view : Viewpoint) (name : String) : Except LookupError Value :=
  match Scope.searchOrder.findSome? (s.variableIn? view name) with
  | some v => .ok v
  | none => .error (.noVariable name)

/-- The identifier that a reference stands for: `self` and `parent`, then identifiers, then
names. -/
def identify? (s : Stores) (view : Viewpoint) (reference : String) : Option ObjectId :=
  if reference = Viewpoint.selfName then some view.object
  else if reference = Viewpoint.parentName then view.container
  else if (s.objects.get? reference).isSome then some reference
  else s.objects.findByName? reference

/-- The object that a reference stands for. -/
def objectOf (s : Stores) (view : Viewpoint) (reference : String) : Except LookupError Object :=
  match (s.identify? view reference).bind s.objects.get? with
  | some o => .ok o
  | none => .error (.noObject reference)

/-- The value of a property of the object that a reference stands for. -/
def propertyOf (s : Stores) (view : Viewpoint) (reference : String) (path : Path) :
    Except LookupError Value := do
  let o ← s.objectOf view reference
  match o.value? path with
  | some v => return v
  | none => throw (.noProperty reference path)

end Stores

end Parametric
