import Parametric.Proofs.Workbench.Steady

/-!
# Actions on a workbench

A workbench is used through the operations `Action`, where objects stay as they are: formulas,
values and variables are edited, properties are reported as changed, and drains serve what waits.
Every action keeps the workbench steady (`Action.steady`), so whatever actions were carried out, the
edges of the graph are what the formulas read (`steady_after`).
-/

namespace Parametric.Workbench

open Scheduler

variable {σ : Type} {w w' : Workbench σ} {ok : Entity → Prop}

namespace Steady

theorem new (ok : Entity → Prop) (scene : Scene) (settings : Settings) (clock : Clock) (host : σ) :
    Steady ok (new .builtin scene settings clock host) := by
  refine ⟨.new scene settings clock host, rfl, fun t r hr => ?_⟩
  simp [Workbench.new, Queue.pendingFor?_eq] at hr

/-- The scheduler waits for the same. -/
theorem of_bound (hw : Steady ok w) (hb : w'.Bound)
    (hqueue : w'.scheduler.queue = w.scheduler.queue)
    (hinbox : w'.scheduler.inbox = w.scheduler.inbox) : Steady ok w' :=
  ⟨hb, hinbox ▸ hw.unread, hqueue ▸ hw.queue⟩

theorem invalidate (hw : Steady ok w) (changed : List Entity) : Steady ok (w.invalidate changed) :=
  hw.of_bound (hw.bound.invalidate changed) rfl rfl

theorem announced (hw : Steady ok w) (e : Entity) {value : Option Value} (priority : Priority)
    (hok : value.isSome → ok e) : Steady ok (w.announced e value priority) := by
  obtain ⟨-, -, -, hunread, hall⟩ := Scheduler.announced_spec hw.bound.scheduler e value priority
  refine ⟨hw.bound.announced e value priority, hunread.trans hw.unread, ?_⟩
  exact hall _ (Request.stable_ofProperty ok) (fun id => .inr ⟨rfl, value, rfl, hok⟩) hw.queue

theorem detached (hw : Steady ok w) (e : Entity) : Steady ok (w.detached e) :=
  hw.of_bound (hw.bound.detached e) (queue_detached w e) (inbox_detached w e)

theorem setValue (hw : Steady ok w) {object : ObjectId} {property : String} (v : Value)
    (priority : Priority) (hok : ok ⟨object, property⟩) :
    Steady ok ((setValue object property v priority).run w).2 := by
  rw [run_setValue]
  have hdetached := hw.detached ⟨object, property⟩
  cases hwrite : (w.detached ⟨object, property⟩).scene.write ⟨object, property⟩ v with
  | error e => exact hdetached
  | ok written =>
    obtain ⟨bounds, scene⟩ := written
    have hscene := hdetached.of_bound (hdetached.bound.withScene (Scene.shape_write hwrite)) rfl rfl
    exact (hscene.invalidate _).announced _ _ fun _ => hok

theorem setFormula (hw : Steady ok w) {object : ObjectId} {property : String} (source : String)
    (hok : ok ⟨object, property⟩) : Steady ok ((setFormula object property source).run w).2 := by
  have h := Workbench.setsFormula w object property source
  generalize (Workbench.setFormula object property source).run w = outcome at h
  obtain ⟨r, w'⟩ := outcome
  have hbound' : w'.Bound := hw.bound.setsFormula h
  cases h with
  | refused => exact hw
  | cycle _ _ hbound | failed _ _ hbound _ =>
    obtain ⟨hqueue, hinbox⟩ := Scheduler.frame_replaceProducers hbound
    exact hw.of_bound hbound' hqueue hinbox
  | written hobject hcompile hbound heval hwrite =>
    obtain ⟨hf, hcompiled, hkept, -⟩ := Calculator.compile_spec hcompile
    obtain ⟨hcore, hkept'⟩ := Calculator.evaluate_kept heval
    have hinsert := hw.bound.insert hobject hf hcompiled hcore hbound (hkept.trans hkept')
    obtain ⟨hqueue, hinbox⟩ := Scheduler.frame_replaceProducers hbound
    have hscene := hw.of_bound (hinsert.withScene (Scene.shape_write hwrite)) hqueue hinbox
    exact (hscene.invalidate _).announced _ _ fun _ => hok

theorem setsVariable (hw : Steady ok w) {name : String} (h : SetsVariable w name w')
    (hok : ok (.ofVariable name)) : Steady ok w' := by
  cases h with
  | refused => exact hw
  | @changed vars value hvars =>
    have hchanged : Steady ok { w with vars } := hw.of_bound (hw.bound.withVars vars) rfl rfl
    exact (hchanged.invalidate _).announced _ _ fun _ => hok

theorem notifyProperty (hw : Steady ok w) (object : ObjectId) {payload : Payload}
    (priority : Priority)
    (hok : ∀ property v, payload = .property property (some v) → ok ⟨object, property⟩) :
    Steady ok ((notifyChange object ChangeKind.property.name payload priority).run w).2 := by
  rw [run_notifyProperty]
  cases payload with
  | property property value =>
    refine (hw.invalidate _).announced _ _ fun hsome => ?_
    obtain ⟨v, rfl⟩ := Option.isSome_iff_exists.1 hsome
    exact hok property v rfl
  | _ => exact hw

end Steady

/-! ## Actions -/

/-- An operation on a workbench that leaves the objects as they are. -/
inductive Action
  | setFormula (object : ObjectId) (property source : String)
  | setValue (object : ObjectId) (property : String) (v : Value) (priority : Priority)
  | clearFormula (object : ObjectId) (property : String)
  | defineVariable (name : String) (scope : Scope) (context : Option ObjectId) (v : Value)
  | updateVariable (name : String) (scope : Scope) (context : Option ObjectId) (v : Value)
  | deleteVariable (name : String) (scope : Scope) (context : Option ObjectId)
  /-- The news that a property changed; another payload is refused. -/
  | notifyProperty (object : ObjectId) (payload : Payload) (priority : Priority)
  | drain

namespace Action

/-- The workbench after an action. -/
def run (w : Workbench σ) : Action → Workbench σ
  | setFormula object property source => ((Workbench.setFormula object property source).run w).2
  | setValue object property v priority => ((Workbench.setValue object property v priority).run w).2
  | clearFormula object property => ((Workbench.clearFormula object property).run w).2
  | defineVariable name scope context v => ((Workbench.defineVariable name scope context v).run w).2
  | updateVariable name scope context v => ((Workbench.updateVariable name scope context v).run w).2
  | deleteVariable name scope context => ((Workbench.deleteVariable name scope context).run w).2
  | notifyProperty object payload priority =>
    ((notifyChange object ChangeKind.property.name payload priority).run w).2
  | drain => w.drain.2

/-- The entities that an action gives a value are `ok`. -/
def Writes (ok : Entity → Prop) : Action → Prop
  | setFormula object property _ => ok ⟨object, property⟩
  | setValue object property _ _ => ok ⟨object, property⟩
  | defineVariable name .. | updateVariable name .. | deleteVariable name .. =>
    ok (.ofVariable name)
  | notifyProperty object payload _ =>
    ∀ property v, payload = .property property (some v) → ok ⟨object, property⟩
  | clearFormula .. | drain => True

theorem writes_true (a : Action) : a.Writes fun _ => True := by
  cases a <;> simp [Writes]

/-- An action keeps the workbench steady. -/
theorem steady (hw : Steady ok w) {a : Action} (ha : a.Writes ok) : Steady ok (a.run w) := by
  cases a with
  | setFormula object property source => exact hw.setFormula source ha
  | setValue object property v priority => exact hw.setValue v priority ha
  | clearFormula object property => exact hw.detached _
  | defineVariable name scope context v =>
    exact hw.setsVariable (setsVariable_define w name scope context v) ha
  | updateVariable name scope context v =>
    exact hw.setsVariable (setsVariable_update w name scope context v) ha
  | deleteVariable name scope context =>
    exact hw.setsVariable (setsVariable_delete w name scope context) ha
  | notifyProperty object payload priority => exact hw.notifyProperty object priority ha
  | drain =>
    exact (Served.drain (P := fun _ _ => True)
      ⟨fun _ _ _ _ => trivial, fun _ _ _ _ _ _ => trivial⟩ hw trivial).1

end Action

/-- The workbench after some actions. -/
def after (w : Workbench σ) (actions : List Action) : Workbench σ := actions.foldl Action.run w

theorem steady_after (hw : Steady ok w) {actions : List Action} (h : ∀ a ∈ actions, a.Writes ok) :
    Steady ok (w.after actions) := by
  induction actions generalizing w with
  | nil => exact hw
  | cons a actions ih =>
    obtain ⟨ha, hrest⟩ := List.forall_mem_cons.1 h
    exact ih (Action.steady hw ha) hrest

end Parametric.Workbench
