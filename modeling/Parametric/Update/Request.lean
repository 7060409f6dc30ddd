import Parametric.Bounds
import Parametric.Entity
import Parametric.Value

/-!
# Requests

A change to an object is scheduled as a request. Its kind and its payload say which entity it is
keyed by and which entities it affects; the consumers of those are recomputed after it.
-/

namespace Parametric

abbrev RequestId := Nat

def RequestId.text (id : RequestId) : String := "#" ++ toString id

/-! ## Priorities -/

/-- How urgent a request is, the most urgent first. -/
inductive Priority
  /-- The user is waiting. -/
  | immediate
  | high
  | normal
  | low
  /-- Work in the background. -/
  | batch
deriving DecidableEq, Repr

namespace Priority

/-- All priorities, the most urgent first. -/
def all : List Priority := [immediate, high, normal, low, batch]

/-- The place of a priority; a lower one is more urgent. -/
def band : Priority → Nat
  | immediate => 0
  | high => 1
  | normal => 2
  | low => 3
  | batch => 4

def name : Priority → String
  | immediate => "immediate"
  | high => "high"
  | normal => "normal"
  | low => "low"
  | batch => "batch"

def ofName? (s : String) : Option Priority := all.find? (·.name = s)

instance : LT Priority := ⟨fun p q => p.band < q.band⟩

instance (p q : Priority) : Decidable (p < q) := inferInstanceAs (Decidable (p.band < q.band))

end Priority

/-! ## Kinds and payloads -/

/-- The kind of a change. -/
inductive ChangeKind
  | size
  | layout
  | hierarchy
  | property
  /-- A consumer is evaluated again because a producer changed. Only the scheduler asks for it. -/
  | recompute
deriving DecidableEq, Repr

namespace ChangeKind

def name : ChangeKind → String
  | size => "size_change"
  | layout => "layout_config"
  | hierarchy => "hierarchy_change"
  | property => "property_change"
  | recompute => "recompute"

/-- The kinds that can be asked for from outside. -/
def external : List ChangeKind := [size, layout, hierarchy, property]

end ChangeKind

/-- What a change carries. -/
inductive Payload
  | none
  | size (width height depth : Float)
  | layout (config : String)
  | hierarchy (previousParent parent : Option ObjectId)
  | property (property : String) (value : Option Value)
  /-- The producer whose change is the reason, with its value if it has one. -/
  | recompute (property : String) (trigger : Entity) (triggerValue : Option Value)
deriving DecidableEq

namespace Payload

def name : Payload → String
  | none => "none"
  | size .. => "size"
  | layout .. => "layout"
  | hierarchy .. => "hierarchy"
  | property .. => "property"
  | recompute .. => "recompute"

/-- Whether a payload is the reason for a recompute. -/
def isRecompute : Payload → Bool
  | recompute .. => true
  | _ => false

def forms : List String := ["none", "size", "layout", "hierarchy", "property", "recompute"]

def ofJson? (j : Json) : Option Payload := do
  let (form, j) ← Json.tagged? "type" j
  match form with
  | "none" => if (j.array?.getD []).isEmpty then return none else Option.none
  | "size" =>
    let r ← Json.Record.ofJson? ["width", "height", "depth"] j
    return size (← r.required? "width" Json.float?) (← r.required? "height" Json.float?)
      (← r.required? "depth" Json.float?)
  | "layout" =>
    let r ← Json.Record.ofJson? ["config"] j
    return layout (← r.required? "config" Json.string?)
  | "hierarchy" =>
    let r ← Json.Record.ofJson? ["previous_parent", "parent"] j
    return hierarchy (← r.optional? "previous_parent" Json.string?)
      (← r.optional? "parent" Json.string?)
  | "property" =>
    let r ← Json.Record.ofJson? ["property", "value"] j
    return property (← r.required? "property" Json.string?) (← r.optional? "value" Value.ofJson?)
  | "recompute" =>
    let r ← Json.Record.ofJson? ["property", "trigger", "trigger_value"] j
    return recompute (← r.required? "property" Json.string?)
      (← r.required? "trigger" Entity.ofJson?) (← r.optional? "trigger_value" Value.ofJson?)
  | _ => Option.none

end Payload

/-! ## Errors -/

/-- Why a change was not scheduled. -/
inductive ScheduleError
  /-- No change of this kind can be asked for. -/
  | unknownKind (name : String)
  | payloadMismatch (kind : ChangeKind) (payload : String)
deriving DecidableEq, Repr

def ScheduleError.message : ScheduleError → String
  | unknownKind name => "unknown update kind: " ++ name
  | payloadMismatch kind payload => kind.name ++ " cannot carry a " ++ payload ++ " payload"

/-- Why a request could not be applied to the scene. -/
inductive ApplyError
  | noObject (id : ObjectId)
  /-- The scene knows nothing to do for this kind with this form of payload. -/
  | unsupported (kind : ChangeKind) (payload : String)
  | failed (reason : String)
deriving DecidableEq, Repr

def ApplyError.message : ApplyError → String
  | noObject id => "object not found: " ++ id
  | unsupported kind payload =>
    "scene cannot apply " ++ kind.name ++ " with a " ++ payload ++ " payload"
  | failed reason => reason

namespace ChangeKind

def ofName (s : String) : Except ScheduleError ChangeKind :=
  match external.find? (·.name = s) with
  | some kind => .ok kind
  | none => .error (.unknownKind s)

/-- The entity that a change to an object is keyed by. A recompute and a change of a property are
about the property that they name; the other kinds stand for the object as a whole. -/
def target (kind : ChangeKind) (object : ObjectId) (payload : Payload) :
    Except ScheduleError Entity :=
  match kind, payload with
  | size, .size .. | size, .none => .ok ⟨object, Names.size⟩
  | layout, .layout _ | layout, .none => .ok ⟨object, Names.layout⟩
  | hierarchy, .hierarchy .. | hierarchy, .none => .ok ⟨object, Names.children⟩
  | property, .property p _ => .ok ⟨object, p⟩
  | recompute, .recompute p _ _ => .ok ⟨object, p⟩
  | kind, payload => .error (.payloadMismatch kind payload.name)

/-- The entities that a change affects. A change of size affects the three extents, a move the child
lists of the object and of both containers. -/
def affected (kind : ChangeKind) (target : Entity) (payload : Payload) : List Entity :=
  match kind with
  | size => [Names.width, Names.height, Names.depth].map (Entity.mk target.object)
  | layout => [⟨target.object, Names.layout⟩]
  | hierarchy =>
    let parents := match payload with
      | .hierarchy previous parent => previous.toList ++ parent.toList
      | _ => []
    ((target.object :: parents).eraseDups).map (Entity.mk · Names.children)
  | property => [target]
  | recompute => [target]

end ChangeKind

/-! ## Requests -/

/-- Where a request is in its life. -/
inductive RequestState
  | queued
  | processing
  | applied
  | failed
  /-- A newer change to the same target took its place before it was served. -/
  | superseded
deriving DecidableEq, Repr

def RequestState.name : RequestState → String
  | queued => "queued"
  | processing => "processing"
  | applied => "applied"
  | failed => "failed"
  | superseded => "superseded"

/-- A unit of work. -/
structure Request where
  id : RequestId
  /-- The external change that this request follows from. -/
  root : RequestId
  target : Entity
  kind : ChangeKind
  payload : Payload
  priority : Priority
  state : RequestState := .queued
deriving DecidableEq

/-- The entities whose consumers follow once the request is applied. -/
def Request.affected (r : Request) : List Entity := r.kind.affected r.target r.payload

/-- The new bounds of an object, for its container. -/
structure Contribution where
  parent : ObjectId
  child : ObjectId
  bounds : Bounds
deriving DecidableEq

/-- What came of applying a request. -/
structure Outcome where
  /-- The new value of the target. -/
  value : Option Value := none
  bounds : Option Contribution := none
deriving DecidableEq

end Parametric
