import Parametric.Workbench.Basic

/-!
# Editing a workbench

The operations that change a workbench. Each one puts its change in place, drops the cached results
that may depend on it, and schedules what follows from it for the next drain.
-/

namespace Parametric

/-- An operation on a workbench that may fail; what it did before it failed stays. -/
abbrev Edit (σ : Type) := ExceptT WorkbenchError (StateM (Workbench σ))

namespace Workbench

variable {σ : Type}

/-! ## Steps -/

/-- Fail with the error of a part of the workbench. -/
def lift {ε α : Type} (wrap : ε → WorkbenchError) : Except ε α → Edit σ α
  | .ok a => pure a
  | .error e => throw (wrap e)

def propagate (c : Change) : Edit σ RequestId := do
  let (id, scheduler) ← lift .schedule ((← get).scheduler.propagate c)
  modify ({ · with scheduler })
  return id

/-- Schedule the news that a property has a value, or that it may have changed. -/
def announce (e : Entity) (value : Option Value) (priority : Priority := .normal) :
    Edit σ RequestId :=
  propagate ⟨e.object, .property, .property e.property value, priority⟩

def write (e : Entity) (v : Value) : Edit σ Unit := do
  let (_, scene) ← lift .apply ((← get).scene.write e v)
  modify ({ · with scene })

/-- Take the formula off a property. -/
def detach (e : Entity) : Edit σ (Option Formula) := do
  let w ← get
  match w.formulas[e]? with
  | none => return none
  | some f =>
    set { w with formulas := w.formulas.erase e, scheduler := (w.scheduler.removeConsumer e).2 }
    return some f

/-- Bind a formula again, as one whose object lies in `container`. When that would close a cycle its
old edges stay. -/
def rebind (e : Entity) (container : Option ObjectId) : Edit σ Unit := do
  let w ← get
  match w.formulas[e]? with
  | none => return
  | some f =>
    let (_, scheduler) := w.scheduler.replaceProducers e (w.producers f container)
    set { w with scheduler }

/-- The properties of an object that formulas drive. -/
def driven (w : Workbench σ) (object : ObjectId) : List Entity :=
  w.formulas.keys.filter (·.object = object)

/-! ## Formulas and values -/

/-- Let a formula drive a property, and answer its value. A source that does not compile and a cycle
leave everything as it was. A formula that cannot be evaluated is put in place all the same, so that
it picks up once what it needs is there. -/
def setFormula (object : ObjectId) (property source : String) : Edit σ Value := do
  let w ← get
  if (w.scene.get? object).isNone then throw (.noObject object)
  let (f, calculator) ← lift .compile (w.calculator.compile source object)
  let target : Entity := ⟨object, property⟩
  let producers := w.producers f (w.containerOf? object)
  let (bound, scheduler) := w.scheduler.replaceProducers target producers
  set { w with scheduler }
  lift .cycle bound
  let (result, f, calculator) := calculator.evaluate f w.stores (w.view object)
  set { w with calculator, scheduler, formulas := w.formulas.insert target f }
  let v ← lift .eval result
  write target v
  modify (·.invalidate [target])
  let _ ← announce target (some v)
  return v

/-- Write a value into a property, in place of a formula if one drives it. -/
def setValue (object : ObjectId) (property : String) (v : Value) (priority : Priority) :
    Edit σ RequestId := do
  let target : Entity := ⟨object, property⟩
  let _ ← detach target
  write target v
  modify (·.invalidate [target])
  announce target (some v) priority

/-- Take the formula off a property, which keeps its value. -/
def clearFormula (object : ObjectId) (property : String) : Edit σ (Option Formula) :=
  detach ⟨object, property⟩

/-! ## Objects -/

/-- Whether a formula may read differently once an object is there. -/
def concerns (w : Workbench σ) (o : Object) (e : Entity) (f : Formula) : Bool :=
  f.references.any (fun r => r = o.id || r = o.name) || w.containerOf? e.object = some o.id

/-- Add an object, and bind the formulas that were waiting for it. -/
def addObject (o : Object) : Edit σ RequestId := do
  modify fun w => { w with scene := w.scene.insert o }
  let w ← get
  let waiting := (w.formulas.toList.filter fun (e, f) => w.concerns o e f).map (·.1)
  set (w.invalidate waiting)
  for e in waiting do
    rebind e (w.containerOf? e.object)
    let _ ← announce e none
  propagate ⟨o.id, .hierarchy, .hierarchy none o.container, .normal⟩

/-- The properties of an object that formulas depend on. -/
def produced (w : Workbench σ) (object : ObjectId) : List Entity :=
  let producers := w.scheduler.graph.edges.keys.map Link.producer
  (Std.ExtTreeSet.ofList (producers.filter (·.object = object))).toList

/-- Remove an object with its formulas, its variables and its edges. What depended on it is
scheduled, and fails until the object comes back. -/
def removeObject (id : ObjectId) : Edit σ Object := do
  let w ← get
  let (removed, scene) := w.scene.remove id
  set { w with scene }
  match removed with
  | none => throw (.noObject id)
  | some removed =>
    for e in w.driven id do
      let _ ← detach e
    modify fun w => { w with vars := (VariableTable.removeContext w.vars id).2 }
    let changed := (← get).produced id
    modify (·.invalidate changed)
    for e in changed do
      let _ ← announce e none
    if let some parent := removed.container then
      let _ ← propagate ⟨parent, .hierarchy, .none, .normal⟩
    modify fun w => { w with scheduler := (w.scheduler.removeObject id).2 }
    return removed

/-! ## Variables -/

/-- Schedule what depends on a variable. -/
def announceVariable (name : String) (v : Option Value) : Edit σ RequestId := do
  modify (·.invalidate [.ofVariable name])
  announce (.ofVariable name) v

def defineVariable (name : String) (scope : Scope) (context : Option ObjectId) (v : Value) :
    Edit σ RequestId := do
  let vars ← lift .vars (VariableTable.define (← get).vars name scope context v)
  modify ({ · with vars })
  announceVariable name (some v)

def updateVariable (name : String) (scope : Scope) (context : Option ObjectId) (v : Value) :
    Edit σ RequestId := do
  let (_, vars) ← lift .vars
    (VariableTable.update (← get).vars name scope context v)
  modify ({ · with vars })
  announceVariable name (some v)

def deleteVariable (name : String) (scope : Scope) (context : Option ObjectId) :
    Edit σ RequestId := do
  let (_, vars) ← lift .vars (VariableTable.delete (← get).vars name scope context)
  modify ({ · with vars })
  announceVariable name none

/-! ## News from the scene -/

/-- Pass on a change that the scene asks for, with its kind by name. The formulas of an object that
moves read from its new container. -/
def notifyChange (object : ObjectId) (kindName : String) (payload : Payload)
    (priority : Priority) : Edit σ RequestId := do
  let kind ← lift .schedule (ChangeKind.ofName kindName)
  let target ← lift .schedule (kind.target object payload)
  modify (·.invalidate (kind.affected target payload))
  let id ← propagate ⟨object, kind, payload, priority⟩
  match kind, payload with
  | .hierarchy, .hierarchy _ parent =>
    for e in (← get).driven object do
      rebind e parent
      let _ ← announce e none priority
    return id
  | _, _ => return id

/-- Leave a change for the next drain to read. -/
def submitChange (c : Change) : Edit σ RequestId := do
  let w ← get
  let (taken, scheduler) := w.scheduler.submit c
  set { w with scheduler }
  lift .schedule taken

/-- Evaluate the formula of a property now, or take its cached result, without writing the value. -/
def evaluateProperty (object : ObjectId) (property : String) : Edit σ Value := do
  let w ← get
  let target : Entity := ⟨object, property⟩
  match w.formulas[target]? with
  | none => throw (.noFormula target)
  | some f =>
    let (result, f, calculator) := w.calculator.evaluateCached f w.stores (w.view object)
    set { w with calculator, formulas := w.formulas.insert target f }
    lift .eval result

end Workbench

end Parametric
