import Parametric.Formula.Calculator
import Parametric.Scene.Basic
import Parametric.Update.Scheduler

/-!
# The workbench

A workbench holds a scene, its variables, the formulas that drive its properties, and what keeps
them up to date: the calculator and the scheduler. This module has its state and what can be read
from it.

The edges of the dependency graph are what the formulas in place depend on. References are resolved
when a formula is bound; one that stands for nothing yet is kept as written, so that it matches an
object with that identifier later.
-/

namespace Parametric

/-- Why an operation on a workbench failed. -/
inductive WorkbenchError
  | compile (e : CompileError)
  | eval (e : EvalError)
  | cycle (e : CycleError)
  | schedule (e : ScheduleError)
  | vars (e : VariableError)
  | apply (e : ApplyError)
  | noObject (id : ObjectId)
  /-- No formula drives the property. -/
  | noFormula (e : Entity)
deriving DecidableEq

def WorkbenchError.message : WorkbenchError → String
  | compile e => "compile error: " ++ e.message
  | eval e => "evaluation error: " ++ e.message
  | cycle e => e.message
  | schedule e => e.message
  | vars e => e.message
  | apply e => "scene rejected update: " ++ e.message
  | noObject id => "object not found: " ++ id
  | noFormula e => "property not found: " ++ e.text

/-- A scene with its formulas and variables. -/
structure Workbench (σ : Type) where
  calculator : Calculator σ
  scheduler : Scheduler
  /-- The formula of each property that one drives. -/
  formulas : Table Entity Formula
  vars : VariableTable
  scene : Scene

namespace Workbench

variable {σ : Type}

/-- A workbench without formulas and variables. -/
def new (functions : Registry σ) (scene : Scene) (settings : Settings) (clock : Clock) (host : σ) :
    Workbench σ :=
  { calculator := .new functions settings.evaluation clock host
    scheduler := { settings := settings.propagation }
    formulas := ∅
    vars := ∅
    scene }

/-- What formulas read. -/
def stores (w : Workbench σ) : Stores := ⟨w.scene.objects, w.vars⟩

def view (w : Workbench σ) (id : ObjectId) : Viewpoint := .ofObject w.scene.objects id

def formula? (w : Workbench σ) (object : ObjectId) (property : String) : Option Formula :=
  w.formulas[Entity.mk object property]?

/-- The current value of a property, given by a dotted path. -/
def property? (w : Workbench σ) (object : ObjectId) (property : String) : Option Value :=
  (w.scene.get? object).bind (·.value? (Path.ofString property))

def containerOf? (w : Workbench σ) (object : ObjectId) : Option ObjectId :=
  w.scene.objects.containerOf? object

/-- The object that a reference stands for by identifier or by name; the reference itself when it
stands for none. -/
def identify (w : Workbench σ) (reference : String) : ObjectId :=
  if (w.scene.get? reference).isSome then reference
  else (w.scene.objects.findByName? reference).getD reference

/-- The entity that a dependency of a formula of `owner` is about, and how it is named. What depends
on the container is about nothing when there is none. -/
def producer? (w : Workbench σ) (owner : ObjectId) (container : Option ObjectId) :
    Dependency → Option (Entity × EdgeKind)
  | .object reference path =>
    let property := path.head?.getD ""
    if reference = Viewpoint.selfName then some (⟨owner, property⟩, .reference)
    else if reference = Viewpoint.parentName then
      container.map fun c => (⟨c, property⟩, .reference)
    else some (⟨w.identify reference, property⟩, .reference)
  | .container property => container.map fun c => (⟨c, property⟩, .implicit)
  | .own property => some (⟨owner, property⟩, .implicit)

/-- The edges into a formula whose object lies in `container`. -/
def producers (w : Workbench σ) (f : Formula) (container : Option ObjectId) :
    List (Entity × Edge) :=
  let named := f.dependencies.filterMap fun d =>
    (w.producer? f.object container d).map fun (e, kind) => (e, ⟨kind, some d.text⟩)
  let vars := f.variableNames.map fun v =>
    (Entity.ofVariable v, ⟨.variable, some ("$" ++ v)⟩)
  named ++ vars

/-- Drop the cached results that read any of `changed`, directly or through other formulas. -/
def invalidate (w : Workbench σ) (changed : List Entity) : Workbench σ :=
  let owners := (changed ++ w.scheduler.graph.downstream changed).map Entity.object
  let owners : Group ObjectId := .ofList owners
  { w with calculator := owners.toList.foldl (fun c o => (c.invalidate o).2) w.calculator }

end Workbench

end Parametric
