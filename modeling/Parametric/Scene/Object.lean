import Parametric.Entity
import Parametric.Property

/-!
# Objects

The objects of a scene, each with a name, a container it may lie in, and its properties.

* `ObjectTable` holds objects by identifier beside the children of every container, in the order in
  which they came to it;
* `ObjectTable.insert`, `remove` and `reparent` keep the two in step.
-/

namespace Parametric

/-- An object of a scene. -/
structure Object where
  id : ObjectId
  name : String
  /-- The object that this one lies in. -/
  container : Option ObjectId := none
  /-- The object that this one was made from. -/
  template : Option ObjectId := none
  properties : Fields := []

namespace Object

/-- Write a value at a path of properties; an empty path changes nothing. -/
def set (o : Object) (v : Value) : Path → Object
  | [] => o
  | path => { o with properties := ((Property.record o.properties).set v path).fields }

/-- The property at the end of a path; an empty path leads nowhere. -/
def property? (o : Object) : Path → Option Property
  | [] => none
  | path => (Property.record o.properties).lookup path

/-- The value at the end of a path. -/
def value? (o : Object) (path : Path) : Option Value :=
  (o.property? path).bind Property.value?

/-- The number of a property. -/
def number? (o : Object) (name : String) : Option Float :=
  (o.value? [name]).bind Value.number?

def ofJson? (j : Json) : Option Object := do
  let r ← Json.Record.ofJson? ["id", "name", "container", "template", "properties"] j
  let fields (j : Json) : Option Fields :=
    match j with
    | .object members => Property.fieldsOfJson? members []
    | _ => none
  return {
    id := ← r.required? "id" Json.string?
    name := ← r.required? "name" Json.string?
    container := ← r.withDefault? "container" none (Json.nullable? Json.string?)
    template := ← r.withDefault? "template" none (Json.nullable? Json.string?)
    properties := ← r.withDefault? "properties" [] fields }

end Object

/-- The objects of a scene and the children of their containers. -/
structure ObjectTable where
  objects : Table ObjectId Object := ∅
  /-- The children of each container that has any, in the order in which they came to it. -/
  children : Table ObjectId (List ObjectId) := ∅

namespace ObjectTable

def get? (t : ObjectTable) (id : ObjectId) : Option Object := t.objects[id]?

/-- The first object of a name, in the order of the identifiers. -/
def findByName? (t : ObjectTable) (name : String) : Option ObjectId :=
  (t.objects.toList.find? (·.2.name = name)).map (·.1)

/-- The children of a container, whether or not it exists itself. -/
def childrenOf (t : ObjectTable) (container : ObjectId) : List ObjectId :=
  t.children[container]?.getD []

def containerOf? (t : ObjectTable) (id : ObjectId) : Option ObjectId :=
  (t.get? id).bind Object.container

/-- Take a child off the list of a container. -/
def detach (t : ObjectTable) (container child : ObjectId) : ObjectTable :=
  match t.children[container]? with
  | none => t
  | some ids =>
    let kept := ids.filter (· ≠ child)
    { t with children :=
        if kept.isEmpty then t.children.erase container else t.children.insert container kept }

/-- Add a child at the end of the list of its container, if it has one. -/
def attach (t : ObjectTable) (container : Option ObjectId) (child : ObjectId) : ObjectTable :=
  match container with
  | none => t
  | some c => { t with children := t.children.insert c (t.childrenOf c ++ [child]) }

/-- Insert an object, or replace the one with its identifier. An object that stays in its container
keeps its place there. -/
def insert (t : ObjectTable) (o : Object) : ObjectTable :=
  let held := t.get? o.id
  let t := { t with objects := t.objects.insert o.id o }
  match held with
  | none => t.attach o.container o.id
  | some old =>
    if old.container = o.container then t
    else
      match old.container with
      | none => t.attach o.container o.id
      | some c => (t.detach c o.id).attach o.container o.id

/-- Remove an object. Its children keep it as their container. -/
def remove (t : ObjectTable) (id : ObjectId) : Option Object × ObjectTable :=
  match t.get? id with
  | none => (none, t)
  | some o =>
    let t := { t with objects := t.objects.erase id }
    match o.container with
    | none => (some o, t)
    | some c => (some o, t.detach c id)

/-- Move an object into a container, or out of all. -/
def reparent? (t : ObjectTable) (id : ObjectId) (container : Option ObjectId) :
    Option ObjectTable :=
  (t.get? id).map fun o => t.insert { o with container }

/-- Write a value at a path of an object. -/
def set? (t : ObjectTable) (id : ObjectId) (path : Path) (v : Value) : Option ObjectTable :=
  (t.get? id).map fun o => { t with objects := t.objects.insert id (o.set v path) }

end ObjectTable

end Parametric
