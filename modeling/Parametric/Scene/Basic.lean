import Parametric.Scene.Lookup
import Parametric.Update.PendingBounds

/-!
# Scenes

A scene holds objects and the bounds that were last calculated for containers. The bounds of an
object come from its position and its extent, where a missing number is zero. What moves or resizes
an object in a container contributes its new bounds to the container.
-/

namespace Parametric

/-- Objects, and the bounds of containers. -/
structure Scene where
  objects : ObjectTable := {}
  /-- The bounds of each container as they were last calculated. -/
  containerBounds : Table ObjectId Bounds := ∅
  recalculations : Nat := 0

namespace Scene

/-! ## Reading -/

def get? (s : Scene) (id : ObjectId) : Option Object := s.objects.get? id

/-- An object, or the error that there is none. -/
def require (s : Scene) (id : ObjectId) : Except ApplyError Object :=
  match s.get? id with
  | some o => .ok o
  | none => .error (.noObject id)

/-- The value of a property whose path is cut at every point. -/
def valueAt? (s : Scene) (id : ObjectId) (path : String) : Option Value :=
  (s.get? id).bind (·.value? (Path.pieces path))

/-- The bounds of an object from its own numbers. -/
def boundsOf? (s : Scene) (id : ObjectId) : Option Bounds :=
  (s.get? id).map fun o =>
    let read (name : String) : Float := (o.number? name).getD 0.0
    .ofOriginSize ⟨read Names.x, read Names.y, read Names.z⟩
      ⟨read Names.width, read Names.height, read Names.depth⟩

/-- What an object contributes to its container, if it has one. -/
def contribution? (s : Scene) (id : ObjectId) : Option Contribution := do
  let parent ← s.objects.containerOf? id
  return ⟨parent, id, ← s.boundsOf? id⟩

/-! ## Writing -/

/-- Insert an object, or replace the one with its identifier. -/
def insert (s : Scene) (o : Object) : Scene := { s with objects := s.objects.insert o }

/-- Remove an object and the bounds calculated for it. -/
def remove (s : Scene) (id : ObjectId) : Option Object × Scene :=
  let (o, objects) := s.objects.remove id
  (o, { s with objects, containerBounds := s.containerBounds.erase id })

/-- Calculate the bounds of a container from its children; `latest` takes the place of what the
children say themselves. -/
def recalculate (s : Scene) (parent : ObjectId) (latest : ChildBounds) : Scene :=
  let boxes := (s.objects.childrenOf parent).filterMap fun c => latest[c]?.or (s.boundsOf? c)
  { s with containerBounds := s.containerBounds.insert parent (.unionAll boxes),
           recalculations := s.recalculations + 1 }

/-- Write a value into a property. A write to one of the numbers that place the object contributes
its new bounds. -/
def write (s : Scene) (e : Entity) (v : Value) :
    Except ApplyError (Option Contribution × Scene) :=
  match s.objects.set? e.object (Path.ofString e.property) v with
  | none => .error (.noObject e.object)
  | some objects =>
    let s := { s with objects }
    .ok (if Names.geometry.contains e.property then s.contribution? e.object else none, s)

/-! ## Changes -/

/-- Write a number into a property of an object that is there. -/
def writeNumber (s : Scene) (id : ObjectId) (name : String) (x : Float) : Scene :=
  { s with objects := (s.objects.set? id [name] (.number x)).getD s.objects }

/-- Resize an object; without a payload it was resized already. -/
def resize (s : Scene) (id : ObjectId) (payload : Payload) : Outcome × Scene :=
  let s := match payload with
    | .size w h d =>
      ((s.writeNumber id Names.width w).writeNumber id Names.height h).writeNumber id Names.depth d
    | _ => s
  (⟨none, s.contribution? id⟩, s)

/-- Change the layout of an object; without a payload it was changed already. -/
def arrange (s : Scene) (id : ObjectId) (payload : Payload) : Outcome × Scene :=
  let s := match payload with
    | .layout config =>
      { s with objects := (s.objects.set? id [Names.layout] (.string config)).getD s.objects }
    | _ => s
  (⟨s.valueAt? id Names.layout, none⟩, s)

/-- Move an object into a container, or out of all. The container that it left is recalculated. -/
def move (s : Scene) (o : Object) (previous parent : Option ObjectId) : Scene :=
  let s := if o.container = parent then s
    else { s with objects := (s.objects.reparent? o.id parent).getD s.objects }
  match previous with
  | some old =>
    if previous ≠ parent ∧ (s.get? old).isSome then s.recalculate old ∅ else s
  | none => s

/-- Move an object; without a payload it was moved already. -/
def rehouse (s : Scene) (o : Object) (payload : Payload) : Outcome × Scene :=
  let (bounds, s) := match payload with
    | .hierarchy previous parent =>
      let s := s.move o previous parent
      (s.contribution? o.id, s)
    | _ => (none, s)
  (⟨some (Value.ofNat (s.objects.childrenOf o.id).length), bounds⟩, s)

/-- Write a property; without a value it was written already. -/
def change (s : Scene) (id : ObjectId) (property : String) (value : Option Value) :
    Except ApplyError (Outcome × Scene) := do
  let (bounds, s) ← match value with
    | some v => s.write ⟨id, property⟩ v
    | none => pure (if Names.geometry.contains property then s.contribution? id else none, s)
  return (⟨s.valueAt? id property, bounds⟩, s)

def applyChange (s : Scene) (r : Request) : Except ApplyError (Outcome × Scene) := do
  let o ← s.require r.target.object
  match r.kind, r.payload with
  | .size, payload => return s.resize r.target.object payload
  | .layout, payload => return s.arrange r.target.object payload
  | .hierarchy, payload => return s.rehouse o payload
  | .property, .property name value => s.change r.target.object name value
  | kind, payload => throw (.unsupported kind payload.name)

/-- Recalculate a container from the latest bounds of some of its children. -/
def applyBounds (s : Scene) (parent : ObjectId) (latest : ChildBounds) :
    Except ApplyError Scene := do
  let _ ← s.require parent
  return s.recalculate parent latest

end Scene

end Parametric
