import Parametric.Workbench.Drain
import Parametric.Workbench.Edit

/-!
# Scripts

A script describes a scene, its variables and its formulas, and a list of steps that are taken one
after the other. Running a script settles the scene, takes each step and settles it again.

A formula that cannot be put in place and a step that is refused do not stop a run; a variable that
cannot be made does.
-/

namespace Parametric

/-- A variable with its value. -/
structure VariableSpec where
  name : String
  scope : Scope := .global
  context : Option ObjectId := none
  value : Value

/-- A formula for a property. -/
structure FormulaSpec where
  object : ObjectId
  property : String
  source : String

/-- A step of a script. -/
inductive Step
  | setValue (object : ObjectId) (property : String) (value : Value)
  | setFormula (f : FormulaSpec)
  /-- Pass on a change of a kind given by name. -/
  | notify (object : ObjectId) (kind : String) (payload : Payload) (priority : Priority)
  | updateVariable (v : VariableSpec)
  | addObject (o : Object)
  | removeObject (id : ObjectId)

/-- A scene with the steps to take in it. -/
structure Script where
  objects : List Object := []
  vars : List VariableSpec := []
  formulas : List FormulaSpec := []
  steps : List Step := []

/-! ## Documents -/

/-- A variable from a document, in which `variant?` reads the name of the scope; without a scope it
is global. -/
def VariableSpec.ofJson? (variant? : Json → Option String) (j : Json) : Option VariableSpec := do
  let r ← Json.Record.ofJson? ["name", "scope", "context", "value"] j
  return {
    name := ← r.required? "name" Json.string?
    scope := ← r.withDefault? "scope" .global fun j => (variant? j).bind Scope.ofName?
    context := ← r.withDefault? "context" none (Json.nullable? Json.string?)
    value := ← r.required? "value" Value.ofJson? }

def FormulaSpec.ofJson? (j : Json) : Option FormulaSpec := do
  let r ← Json.Record.ofJson? ["object", "property", "source"] j
  return {
    object := ← r.required? "object" Json.string?
    property := ← r.required? "property" Json.string?
    source := ← r.required? "source" Json.string? }

namespace Step

/-- The variant that a part of a step names. Its one member may be an empty object in place of
null. -/
def variant? : Json → Option String
  | .object [(s, .object [])] => some s
  | j => Json.variant? j

/-- The payload of a step, which may give its form by the place of the form in the list. -/
def payloadOfJson? : Json → Option Payload
  | .object members =>
    let name (m : String × Json) : String × Json :=
      match m with
      | ("type", .number (.natural n)) =>
        ("type", (Payload.forms[n]?.map Json.string).getD m.2)
      | m => m
    Payload.ofJson? (.object (members.map name))
  | .array (.number (.natural n) :: items) =>
    Payload.forms[n]?.bind fun form => Payload.ofJson? (.array (.string form :: items))
  | j => Payload.ofJson? j

/-- A step from a document, in which every part must have a value. -/
def ofJson? (j : Json) : Option Step := do
  if !j.hasValues then none
  let (op, j) ← Json.tagged? "op" j
  match op with
  | "set_value" =>
    let r ← Json.Record.ofJson? ["object", "property", "value"] j
    return setValue (← r.required? "object" Json.string?) (← r.required? "property" Json.string?)
      (← r.required? "value" Value.ofJson?)
  | "set_formula" => return setFormula (← FormulaSpec.ofJson? j)
  | "notify" =>
    let r ← Json.Record.ofJson? ["object", "kind", "payload", "priority"] j
    return notify (← r.required? "object" Json.string?) (← r.required? "kind" Json.string?)
      (← r.withDefault? "payload" .none payloadOfJson?)
      (← r.withDefault? "priority" .normal fun j => (variant? j).bind Priority.ofName?)
  | "update_variable" => return updateVariable (← VariableSpec.ofJson? variant? j)
  | "add_object" =>
    let r ← Json.Record.ofJson? ["object"] j
    return addObject (← r.required? "object" Object.ofJson?)
  | "remove_object" =>
    let r ← Json.Record.ofJson? ["object"] j
    return removeObject (← r.required? "object" Json.string?)
  | _ => none

end Step

/-- Why a script could not be taken from a file. -/
inductive ScriptError
  /-- The file could not be read. -/
  | unreadable
  /-- The text is no document of a script. -/
  | malformed
deriving DecidableEq, Repr

namespace Script

def ofJson? (j : Json) : Option Script := do
  let r ← Json.Record.ofJson? ["objects", "variables", "formulas", "edits"] j
  return {
    objects := ← r.withDefault? "objects" [] (Json.list? Object.ofJson?)
    vars := ← r.withDefault? "variables" [] (Json.list? (VariableSpec.ofJson? Json.variant?))
    formulas := ← r.withDefault? "formulas" [] (Json.list? FormulaSpec.ofJson?)
    steps := ← r.withDefault? "edits" [] (Json.list? Step.ofJson?) }

/-- A script from the contents of a file, if it could be read. -/
def ofFile : Option String → Except ScriptError Script
  | none => .error .unreadable
  | some text =>
    match (Json.read? text).bind ofJson? with
    | none => .error .malformed
    | some s => .ok s

/-! ## A script to show -/

/-- A cabinet of a width, height and depth. -/
def cabinet (width height depth : Nat) : Object :=
  { id := "cabinet", name := "Cabinet",
    properties := [(Names.depth, .leaf (.ofNat depth)), (Names.height, .leaf (.ofNat height)),
      (Names.width, .leaf (.ofNat width))] }

/-- A door of the cabinet. -/
def door (id name : String) : Object :=
  { id, name, container := some "cabinet", properties := [(Names.height, .leaf (.ofNat 0))] }

/-- The gap around the doors. -/
def gap (width : Nat) : VariableSpec := { name := "gap", value := .ofNat width }

/-- A cabinet with two doors side by side; the cabinet grows, and then the gap does. -/
def demo : Script where
  objects := [cabinet 120 80 60, door "door1" "LeftDoor", door "door2" "RightDoor"]
  vars := [gap 2]
  formulas :=
    [⟨"door1", Names.width, "(containerWidth() - $gap * (siblingCount() + 1)) / siblingCount()"⟩,
      ⟨"door1", Names.height, "containerHeight() - $gap * 2"⟩,
      ⟨"door2", Names.width, "LeftDoor.width"⟩,
      ⟨"door2", Names.height, "LeftDoor.height"⟩,
      ⟨"door1", Names.x, "$gap"⟩,
      ⟨"door2", Names.x, "LeftDoor.x + LeftDoor.width + $gap"⟩]
  steps :=
    [.notify "cabinet" ChangeKind.size.name (.size 160.0 90.0 60.0) .immediate,
      .updateVariable (gap 3)]

/-! ## Running -/

/-- A variable of a script that could not be made. -/
structure RunError where
  variableName : String
  cause : WorkbenchError

def RunError.message (e : RunError) : String :=
  "defining $" ++ e.variableName ++ ": " ++ e.cause.message

variable {σ : Type}

/-- Make the variables of a script. -/
def defineAll : List VariableSpec → Workbench σ → Except RunError (Workbench σ)
  | [], w => .ok w
  | v :: vs, w =>
    match (Workbench.defineVariable v.name v.scope v.context v.value).run w with
    | (.ok _, w) => defineAll vs w
    | (.error e, _) => .error ⟨v.name, e⟩

def edit : Step → Edit σ Unit
  | .setValue object property v => discard (Workbench.setValue object property v .normal)
  | .setFormula f => discard (Workbench.setFormula f.object f.property f.source)
  | .notify object kind payload priority =>
    discard (Workbench.notifyChange object kind payload priority)
  | .updateVariable v => discard (Workbench.updateVariable v.name v.scope v.context v.value)
  | .addObject o => discard (Workbench.addObject o)
  | .removeObject id => discard (Workbench.removeObject id)

/-- Take a step and settle the scene; after a step that is refused it is left as it is. -/
def takeStep (w : Workbench σ) (s : Step) : Workbench σ :=
  match (edit s).run w with
  | (.ok (), w) => w.drain.2
  | (.error _, w) => w

/-- Run a script on an empty workbench. -/
def runOn (s : Script) (w : Workbench σ) : Except RunError (Workbench σ) := do
  let w := { w with scene := s.objects.foldl Scene.insert w.scene }
  let w ← defineAll s.vars w
  let w := s.formulas.foldl (fun w f => ((edit (.setFormula f)).run w).2) w
  return s.steps.foldl takeStep w.drain.2

def run (s : Script) (settings : Settings) : Except RunError (Workbench Unit) :=
  s.runOn (.new Registry.builtin {} settings .still ())

end Script

/-! ## Reports -/

namespace Workbench

variable {σ : Type}

/-- A property that a formula drives: its value, the error if the formula fails, and the source. -/
def line (w : Workbench σ) (target : Entity) (f : Formula) : String :=
  let shown := ((w.property? target.object target.property).map Value.text).getD "-"
  let trouble := match f.failing, f.lastError? with
    | true, some e => "  [error: " ++ e.message ++ "]"
    | _, _ => ""
  target.text ++ " = " ++ shown ++ trouble ++ "  (" ++ f.source ++ ")"

/-- The lines of all formulas, in the order of their properties. -/
def report (w : Workbench σ) : List String :=
  w.formulas.toList.map fun (target, f) => w.line target f

end Workbench

end Parametric
