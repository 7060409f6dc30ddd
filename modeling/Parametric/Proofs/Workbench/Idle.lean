import Parametric.Proofs.Workbench.Action
import Parametric.Proofs.Workbench.Settled

/-!
# Idle workbenches

With the built-in functions every action keeps the workbench settled up to what waits
(`Action.settled`): a change makes all formulas that read it wait, and a formula that waits is
settled when it is served. So when nothing waits, every formula agrees with the scene and the
variables (`formulas_agree_of_isIdle`).
-/

namespace Parametric.Workbench

open Scheduler

variable {σ : Type} {w w' : Workbench σ} {pend : Entity → Prop}

/-- Once a change is announced, what reads it and what waited before waits. -/
theorem Bound.waits_announced (hw : w.Bound) {target : Entity}
    (hpend : ∀ e, pend e → e = target ∨ w.scheduler.graph.Feeds target e ∨ w.scheduler.Waits e)
    (value : Option Value) (priority : Priority) (e : Entity) (he : pend e) :
    ((w.invalidate [target]).announced target value priority).scheduler.Waits e := by
  obtain ⟨hkeeps, htarget, hreaders, -⟩ :=
    Scheduler.announced_spec hw.scheduler target value priority
  rcases hpend e he with rfl | he | he
  · exact htarget
  · exact hreaders e he
  · exact hkeeps.waits e he

/-- Putting a formula in place evaluates it, or leaves formulas, values and variables as they are.
What waits still waits, and so does what reads a value that was written. -/
theorem SetsFormula.evaluated {target : Entity} {source : String}
    {result : Except WorkbenchError Value} (hset : SetsFormula w target source result w')
    (hw : w.Bound) (h : w.Coherent)
    (hundotted : (w.scene.get? target.object).isSome → Path.Undotted target.property) :
    (∀ e, w.scheduler.Waits e → w'.scheduler.Waits e) ∧ (SameContent w w' ∨
      (w.scene.get? target.object).isSome ∧ ∃ f, Evaluated w target result.isOk f w' ∧
        (result.isOk → ∀ {e : Entity} {g : Formula}, w.formulas[e]? = some g →
          target ∈ w.reads g → w'.scheduler.Waits e)) := by
  cases hset with
  | refused => exact ⟨fun _ he => he, .inl (.refl w)⟩
  | cycle _ _ hbound => exact ⟨waits_replaceProducers hbound, .inl (.rescheduled _ _)⟩
  | @failed f f' _ calculator scheduler e hobject hcompile hbound heval =>
    obtain ⟨hf, hcompiled, -⟩ := Calculator.compile_spec hcompile
    obtain ⟨hcore, hcompiled', hkept, hresult, hnoted⟩ := h.evaluate_spec hw hcompile heval
    have hinsert := hw.insert hobject hf hcompiled hcore hbound hkept
    refine ⟨waits_replaceProducers hbound, .inr ⟨hobject, f', ⟨⟨hkept.functions, hkept.settings,
      hkept.answers _, rfl, fun _ _ => rfl, fun _ _ => rfl⟩, rfl, hcompiled',
      hinsert.notMem_reads Std.ExtTreeMap.getElem?_insert_self, hnoted, fun v hv => ?_⟩,
      fun hok => by cases hok⟩⟩
    rw [← hresult] at hv
    cases hv
  | @written f f' _ calculator scheduler v bounds scene hobject hcompile hbound heval hwrite =>
    obtain ⟨hf, hcompiled, -⟩ := Calculator.compile_spec hcompile
    obtain ⟨hcore, hcompiled', hkept, hresult, hnoted⟩ := h.evaluate_spec hw hcompile heval
    have hinsert := hw.insert hobject hf hcompiled hcore hbound hkept
    let placed : Workbench σ := { w with
      calculator, scheduler, formulas := w.formulas.insert target f', scene }
    have hchanges : Changes w placed (· = target) :=
      .write (hundotted hobject) hwrite hkept.functions hkept.settings (hkept.answers _) rfl rfl
    have hsame : SameContent placed
        ((placed.invalidate [target]).announced target (some v) .normal) :=
      (SameContent.invalidate placed [target]).trans (.announced _ _ _ _)
    have hwaits : ∀ e, target = e ∨ placed.scheduler.graph.Feeds target e ∨
        placed.scheduler.Waits e →
        ((placed.invalidate [target]).announced target (some v) .normal).scheduler.Waits e :=
      (hinsert.withScene (Scene.shape_write hwrite)).waits_announced
        (fun e he => he.imp_left Eq.symm) (some v) .normal
    refine ⟨fun e he => hwaits e (.inr (.inr (waits_replaceProducers hbound e he))),
      .inr ⟨hobject, f', ⟨(hchanges.same hsame).mono fun e he => ⟨he, rfl⟩, rfl, hcompiled',
      hinsert.notMem_reads Std.ExtTreeMap.getElem?_insert_self, hnoted, fun u hu => ?_⟩,
      fun _ {e g} hg hp => hwaits e ?_⟩⟩
    · rw [← hresult] at hu
      cases hu
      exact ⟨bounds, hwrite⟩
    · -- The formula that reads the target is not the one that was put in place there.
      have hne : target ≠ e := by
        rintro rfl
        exact hw.notMem_reads hg hp
      refine .inr (.inl ((hinsert.edges _ e).2 ⟨g, ?_, hp⟩))
      exact (Table.getElem?_insert _ _ _ _).trans (by rw [if_neg hne, hg])

namespace Settled

theorem new (scene : Scene) (settings : Settings) (clock : Clock) (host : σ)
    (howner : scene.get? Entity.variableOwner = none) (htimeout : 0 < settings.evaluation.timeout) :
    Settled (new .builtin scene settings clock host) pend where
  toCoherent := .new scene settings clock host howner htimeout
  plain hf := by simp [Workbench.new] at hf
  agrees hf := by simp [Workbench.new] at hf

/-- A property of an object has a plain name when it is no variable. -/
theorem plain_of_isSome (h : w.Settled pend) {e : Entity} (he : e.Plain)
    (hobject : (w.scene.get? e.object).isSome) : Path.Plain e.property :=
  he.resolve_left (not_isVariable_of_isSome h.owner hobject)

/-- Once a change is announced, what reads it waits. -/
theorem announced (h : w.Settled pend) (hw : w.Bound) {target : Entity}
    (hpend : ∀ e, pend e → e = target ∨ w.scheduler.graph.Feeds target e ∨ w.scheduler.Waits e)
    (value : Option Value) (priority : Priority) :
    let w' := (w.invalidate [target]).announced target value priority
    w'.Settled w'.scheduler.Waits :=
  ((SameContent.invalidate w [target]).trans (.announced _ target value priority)).settled hw h
    (hw.waits_announced hpend value priority)

/-- When one entity changed and the formulas are the same, the formulas that read it are to be
computed. -/
theorem changed (h : w.Settled w.scheduler.Waits) (hw : w.Bound) {target : Entity}
    (hc : Changes w w' (· = target)) (hformulas : w'.formulas = w.formulas) :
    w'.Settled fun e => e = target ∨ w.scheduler.graph.Feeds target e ∨ w.scheduler.Waits e := by
  refine h.step hw hc fun {e f} hf => .inl ⟨hformulas ▸ hf, ?_⟩
  rintro (he | he | ⟨p, hp, rfl⟩)
  · exact .inr (.inr he)
  · exact .inl he
  · exact .inr (.inl ((hw.edges p e).2 ⟨f, hformulas ▸ hf, hp⟩))

theorem detached (h : w.Settled w.scheduler.Waits) (hw : w.Bound) (e : Entity) :
    (w.detached e).Settled (w.detached e).scheduler.Waits := by
  refine h.still hw (changes_detached w e) fun {x f} hf => ⟨formula_of_detached hf, fun hx => ?_⟩
  rwa [Waits, queue_detached]

theorem setValue (h : w.Settled w.scheduler.Waits) (hw : w.Bound) {object : ObjectId}
    {property : String} (v : Value) (priority : Priority)
    (hplain : Entity.Plain ⟨object, property⟩) :
    let w' := ((setValue object property v priority).run w).2
    w'.Settled w'.scheduler.Waits := by
  have hdetached := h.detached hw ⟨object, property⟩
  have hbound := hw.detached ⟨object, property⟩
  rw [run_setValue]
  cases hwrite : (w.detached ⟨object, property⟩).scene.write ⟨object, property⟩ v with
  | error e => exact hdetached
  | ok written =>
    obtain ⟨bounds, scene⟩ := written
    have hname := hdetached.plain_of_isSome hplain (Scene.isSome_of_write hwrite)
    have hchanges : Changes (w.detached ⟨object, property⟩)
        { w.detached ⟨object, property⟩ with scene } (· = ⟨object, property⟩) :=
      .write hname.2 hwrite rfl rfl (fun h => h) rfl rfl
    exact (hdetached.changed hbound hchanges rfl).announced
      (hbound.withScene (Scene.shape_write hwrite)) (fun _ he => he) (some v) priority

theorem setFormula (h : w.Settled w.scheduler.Waits) (hw : w.Bound) {object : ObjectId}
    {property : String} (source : String) (hplain : Entity.Plain ⟨object, property⟩) :
    let w' := ((setFormula object property source).run w).2
    w'.Settled w'.scheduler.Waits := by
  intro w'
  obtain ⟨hwaits, hsame | ⟨hobject, f, heval, hreaders⟩⟩ :=
    (Workbench.setsFormula w object property source).evaluated hw h.toCoherent
      fun hobject => (h.plain_of_isSome hplain hobject).2
  · exact hsame.settled hw h hwaits
  · exact h.put hw heval (h.plain_of_isSome hplain hobject) (fun e _ => hwaits e) hreaders

theorem setsVariable (h : w.Settled w.scheduler.Waits) (hw : w.Bound) {name : String}
    (hset : SetsVariable w name w') : w'.Settled w'.scheduler.Waits := by
  cases hset with
  | refused => exact h
  | @changed vars value hvars =>
    have hchanges : Changes w { w with vars } (· = .ofVariable name) :=
      ⟨rfl, rfl, fun h => h, rfl, fun _ _ => rfl, fun slot hslot => hvars slot fun heq => hslot ?_⟩
    · exact (h.changed hw hchanges rfl).announced (hw.withVars vars) (fun _ he => he) value .normal
    · rw [heq]

theorem notifyProperty (h : w.Settled w.scheduler.Waits) (hw : w.Bound) (object : ObjectId)
    (payload : Payload) (priority : Priority) :
    let w' := ((notifyChange object ChangeKind.property.name payload priority).run w).2
    w'.Settled w'.scheduler.Waits := by
  rw [run_notifyProperty]
  cases payload with
  | property property value => exact h.announced hw (fun _ he => .inr (.inr he)) value priority
  | _ => exact h

end Settled

/-- Applying requests keeps every formula settled or waiting. -/
theorem served_settled : Served Entity.Plain (Settled : Workbench σ → _) :=
  ⟨fun hw hsame h hpend => hsame.settled hw h hpend,
    fun hw hr happlies h hpend hreaders => happlies.settled hw hr h hpend hreaders⟩

/-- An action keeps every formula settled or waiting. -/
theorem Action.settled (hw : Steady Entity.Plain w) (h : w.Settled w.scheduler.Waits) {a : Action}
    (ha : a.Writes Entity.Plain) : (a.run w).Settled (a.run w).scheduler.Waits := by
  cases a with
  | setFormula object property source => exact h.setFormula hw.bound source ha
  | setValue object property v priority => exact h.setValue hw.bound v priority ha
  | clearFormula object property => exact h.detached hw.bound _
  | defineVariable name scope context v =>
    exact h.setsVariable hw.bound (setsVariable_define w name scope context v)
  | updateVariable name scope context v =>
    exact h.setsVariable hw.bound (setsVariable_update w name scope context v)
  | deleteVariable name scope context =>
    exact h.setsVariable hw.bound (setsVariable_delete w name scope context)
  | notifyProperty object payload priority =>
    exact h.notifyProperty hw.bound object payload priority
  | drain => exact (served_settled.drain hw h).2

theorem settled_after (hw : Steady Entity.Plain w) (h : w.Settled w.scheduler.Waits)
    {actions : List Action} (hplain : ∀ a ∈ actions, a.Writes Entity.Plain) :
    (w.after actions).Settled (w.after actions).scheduler.Waits := by
  induction actions generalizing w with
  | nil => exact h
  | cons a actions ih =>
    obtain ⟨ha, hrest⟩ := List.forall_mem_cons.1 hplain
    exact ih (Action.steady hw ha) (Action.settled hw h ha) hrest

/-- Take a workbench with the built-in functions, time to evaluate them and no object in the place
of the variables. Whatever actions were carried out on it that write properties with plain names,
once nothing waits every formula agrees with the scene and the variables: what its tree gives
without the caches is the value that it noted and that its property has, and it is failing if its
tree gives none. -/
theorem formulas_agree_of_isIdle (scene : Scene) (settings : Settings) (clock : Clock) (host : σ)
    (howner : scene.get? Entity.variableOwner = none) (htimeout : 0 < settings.evaluation.timeout)
    (actions : List Action) (hplain : ∀ a ∈ actions, a.Writes Entity.Plain)
    (hidle : ((new .builtin scene settings clock host).after actions).scheduler.isIdle)
    (object : ObjectId) (property : String) (f : Formula)
    (hf : ((new .builtin scene settings clock host).after actions).formula? object property =
      some f) :
    let w := (new .builtin scene settings clock host).after actions
    match ((w.calculator.evaluator w.stores (w.view object) 0).evaluate f.tree none
      w.calculator.host).1 with
    | .ok v => f.failing = false ∧ f.lastValue = some v ∧ w.property? object property = some v
    | .error _ => f.failing = true := by
  have hnew : Steady Entity.Plain (new .builtin scene settings clock host) :=
    .new _ _ _ _ _
  have hw := steady_after hnew hplain
  have h := settled_after hnew (.new scene settings clock host howner htimeout) hplain
  generalize (new .builtin scene settings clock host).after actions = w at hw h hidle hf ⊢
  obtain ⟨hvalue, -⟩ :=
    Evaluator.evaluate_eq_value (w.calculator.evaluator w.stores (w.view object) 0)
      h.timeout (hw.bound.hostFree rfl) f.tree none (fun _ heq => by cases heq) w.calculator.host
  have hmeaning :
      (w.calculator.evaluator w.stores (w.view object) 0).value f.tree 1 = w.meaning f := by
    rw [meaning, (hw.bound.formulas hf).1]
  obtain ⟨hnoted, hfield⟩ := (h.agrees hf).resolve_right (not_waits_of_isIdle hidle _)
  intro w'
  rw [hvalue, hmeaning]
  cases hm : w.meaning f with
  | error e => rwa [hm] at hnoted
  | ok v =>
    rw [hm] at hnoted
    exact ⟨hnoted.1, hnoted.2, property?_of_field? (h.plain hf) (hfield v hm)⟩

/-- A formula follows a value that changed after the formula was put in place. -/
theorem formula_follows_value :
    let w := (new .builtin (Scene.insert {} { id := "a", name := "a" }) {} .still ()).after
      [.setValue "a" "x" (.bool true) .normal, .setFormula "a" "y" "self.x",
        .setValue "a" "x" (.bool false) .high, .drain]
    ∃ f, w.formula? "a" "y" = some f ∧ f.failing = false ∧ f.lastValue = some (.bool false) ∧
      w.property? "a" "y" = some (.bool false) := by
  let actions : List Action :=
    [.setValue "a" "x" (.bool true) .normal, .setFormula "a" "y" "self.x",
      .setValue "a" "x" (.bool false) .high, .drain]
  let w : Workbench Unit :=
    (new .builtin (Scene.insert {} { id := "a", name := "a" }) {} .still ()).after actions
  have hsome : (w.formula? "a" "y").isSome := by decide +kernel
  obtain ⟨f, hf⟩ := Option.isSome_iff_exists.1 hsome
  have hx : Path.Plain "x" := by decide
  have hy : Path.Plain "y" := by decide
  have hplain : ∀ a ∈ actions, a.Writes Entity.Plain := by
    simp [actions, Action.Writes, Entity.Plain, hx, hy]
  have hvalue : (w.formula? "a" "y").map (fun f =>
      ((w.calculator.evaluator w.stores (w.view "a") 0).evaluate f.tree none w.calculator.host).1) =
      some (.ok (.bool false)) := by decide +kernel
  rw [hf, Option.map_some, Option.some.injEq] at hvalue
  have hagree : match ((w.calculator.evaluator w.stores (w.view "a") 0).evaluate f.tree none
      w.calculator.host).1 with
      | .ok v => f.failing = false ∧ f.lastValue = some v ∧ w.property? "a" "y" = some v
      | .error _ => f.failing = true :=
    formulas_agree_of_isIdle (Scene.insert {} { id := "a", name := "a" }) {} .still ()
      (by decide +kernel) (by decide) actions hplain (by decide +kernel) "a" "y" f hf
  rw [hvalue] at hagree
  exact ⟨f, hf, hagree⟩

end Parametric.Workbench
