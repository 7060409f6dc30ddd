import Parametric.Workbench.Basic

/-!
# Draining a workbench

How the requests of a drain are applied to the scene. A formula owns its property: any change to the
property evaluates the formula again. What no formula drives is left to the scene.
-/

namespace Parametric

namespace Workbench

variable {σ : Type}

/-- The parts of a workbench that a drain changes. -/
structure Bench (σ : Type) where
  scene : Scene
  calculator : Calculator σ
  formulas : Table Entity Formula

namespace Bench

/-- Evaluate the formula of a property, if one drives it, and write its value. -/
def evaluate (b : Bench σ) (vars : VariableTable) (target : Entity) :
    Except ApplyError (Option Outcome) × Bench σ :=
  match b.formulas[target]? with
  | none => (.ok none, b)
  | some f =>
    let (result, f, calculator) := b.calculator.evaluateCached f ⟨b.scene.objects, vars⟩
      (.ofObject b.scene.objects target.object)
    let b := { b with calculator, formulas := b.formulas.insert target f }
    match result with
    | .error e => (.error (.failed (target.text ++ ": " ++ e.message)), b)
    | .ok v =>
      match b.scene.write target v with
      | .error e => (.error e, b)
      | .ok (bounds, scene) => (.ok (some ⟨some v, bounds⟩), { b with scene })

/-- Drop the cached results of an object and of its container. -/
def invalidate (b : Bench σ) (object : ObjectId) : Bench σ :=
  let calculator := (b.calculator.invalidate object).2
  match b.scene.objects.containerOf? object with
  | none => { b with calculator }
  | some c => { b with calculator := (calculator.invalidate c).2 }

/-- Apply a request about a property that no formula drives. A property of an object that is gone
may still be reported as changed. -/
def applyPlain (b : Bench σ) (r : Request) : Except ApplyError Outcome × Bench σ :=
  match r.kind, r.payload with
  | .recompute, _ => (.ok {}, b)
  | kind, payload =>
    let gone := match kind, payload with
      | .property, .property _ none => (b.scene.get? r.target.object).isNone
      | _, _ => false
    if gone then (.ok {}, b)
    else match b.scene.applyChange r with
      | .error e => (.error e, b)
      | .ok (outcome, scene) => (.ok outcome, { b with scene })

/-- Apply a request. A change of a variable has nothing to do: its value is in place. -/
def apply (b : Bench σ) (vars : VariableTable) (r : Request) :
    Except ApplyError Outcome × Bench σ :=
  if r.target.isVariable then
    let value := match r.payload with
      | .property _ v => v
      | _ => none
    (.ok ⟨value, none⟩, b)
  else
    let b := b.invalidate r.target.object
    if r.kind = .recompute ∨ r.kind = .property then
      match b.evaluate vars r.target with
      | (.error e, b) => (.error e, b)
      | (.ok (some outcome), b) => (.ok outcome, b)
      | (.ok none, b) => b.applyPlain r
    else b.applyPlain r

/-- Recalculate a container. -/
def applyBounds (b : Bench σ) (parent : ObjectId) (children : ChildBounds) :
    Except ApplyError Unit × Bench σ :=
  match b.scene.applyBounds parent children with
  | .error e => (.error e, b)
  | .ok scene => (.ok (), { b with scene })

end Bench

/-- The applier of a workbench with given variables. -/
def applier (vars : VariableTable) : Applier (Bench σ) where
  apply r b :=
    let (result, b) := b.apply vars r
    .done result b
  applyBounds parent children b := b.applyBounds parent children

/-- Serve the waiting requests. When some are left, cached results may be older than what was
already applied, so they are dropped. -/
def drain (w : Workbench σ) : Report × Workbench σ :=
  let (report, scheduler, b) :=
    w.scheduler.drain (applier w.vars) ⟨w.scene, w.calculator, w.formulas⟩
  let calculator := if 0 < report.remaining then b.calculator.clearCaches else b.calculator
  (report, { w with scheduler, calculator, formulas := b.formulas, scene := b.scene })

end Workbench

end Parametric
