import Parametric.Proofs.Workbench.Standing

/-!
# What formulas have noted

A formula is compiled and evaluated when it is put in place, and evaluated again when it is asked
for or served. So what these steps establish and keep holds of the formulas of every workbench
(`Lifelong`, `lifelong_run`). In particular the tree of a formula is what its source says
(`lifelong_sourced`), and a constant formula has noted the value of its tree, or none
(`settled_perform`).
-/

namespace Parametric

/-- The tree of a formula is what its source says. -/
def Formula.Sourced (f : Formula) : Prop := Expr.ofSource f.source = .ok f.tree

theorem Formula.Sourced.of_core {f f' : Formula} (h : f.Sourced) (hcore : f'.core = f.core) :
    f'.Sourced := by
  injection hcore with _ hsource htree
  unfold Sourced
  rw [hsource, htree]
  exact h

namespace Workbench

open Scheduler

variable {σ : Type} {w w' : Workbench σ} {functions : Registry σ} {settings : EvaluationSettings}
  {good : Formula → Prop}

/-- What is established when a formula is compiled and evaluated, and kept when it is evaluated
again. -/
structure Lifelong (functions : Registry σ) (settings : EvaluationSettings)
    (good : Formula → Prop) : Prop where
  compiled : ∀ {c c' c'' : Calculator σ} {source : String} {object : ObjectId} {f f' : Formula}
    {stores : Stores} {view : Viewpoint} {result : Except EvalError Value},
    c.functions = functions → c.settings = settings → c.compile source object = .ok (f, c') →
    c'.evaluate f stores view = (result, f', c'') → good f'
  evaluated : ∀ {c c' : Calculator σ} {f f' : Formula} {stores : Stores} {view : Viewpoint}
    {result : Except EvalError Value}, c.functions = functions → c.settings = settings → good f →
    c.evaluateCached f stores view = (result, f', c') → good f'

/-- All formulas are good. -/
def All (good : Formula → Prop) (w : Workbench σ) : Prop :=
  ∀ (e : Entity) (f : Formula), w.formulas[e]? = some f → good f

namespace All

theorem congr (h : w.All good) (hformulas : w'.formulas = w.formulas) : w'.All good :=
  fun e f hf => h e f (hformulas ▸ hf)

theorem insert (h : w.All good) {target : Entity} {f : Formula} (hf : good f)
    (hformulas : w'.formulas = w.formulas.insert target f) : w'.All good := by
  intro e g hg
  rw [hformulas, Table.getElem?_insert] at hg
  split at hg
  · cases hg
    exact hf
  · exact h e g hg

theorem detached (h : w.All good) (e : Entity) : (w.detached e).All good :=
  fun x f hf => h x f (formula_of_detached hf)

theorem setValue (h : w.All good) (object : ObjectId) (property : String) (v : Value)
    (priority : Priority) : ((setValue object property v priority).run w).2.All good := by
  rw [run_setValue]
  have hdetached := h.detached ⟨object, property⟩
  cases (w.detached ⟨object, property⟩).scene.write ⟨object, property⟩ v with
  | error e => exact hdetached
  | ok written => exact hdetached.congr rfl

theorem setsVariable (h : w.All good) {name : String} (hset : SetsVariable w name w') :
    w'.All good := by
  cases hset with
  | refused => exact h
  | changed => exact h.congr rfl

theorem removeObject (hs : w.scheduler.Sound) (h : w.All good) (id : ObjectId) :
    ((removeObject id).run w).2.All good := by
  cases hthere : w.scene.get? id with
  | none =>
    exact h.congr (sameContent_removeObject_of_none hthere).formulas
  | some o => exact fun e f hf => h e f ((removed_removeObject hs hthere).formula_of hf).1

section

variable (hgood : Lifelong functions settings good) (hw : w.Standing functions settings)
include hgood hw

theorem setFormula (h : w.All good) (object : ObjectId) (property source : String) :
    ((setFormula object property source).run w).2.All good := by
  have hset := setsFormula w object property source
  generalize (Workbench.setFormula object property source).run w = outcome at hset
  obtain ⟨result, w'⟩ := outcome
  cases hset with
  | refused => exact h
  | cycle => exact h.congr rfl
  | failed _ hcompile _ heval =>
    exact h.insert (hgood.compiled hw.functions hw.settings hcompile heval) rfl
  | written _ hcompile _ heval =>
    exact h.insert (hgood.compiled hw.functions hw.settings hcompile heval) rfl

theorem evaluateProperty (h : w.All good) (object : ObjectId) (property : String) :
    ((evaluateProperty object property).run w).2.All good := by
  rw [run_evaluateProperty]
  cases hf : w.formulas[Entity.mk object property]? with
  | none => exact h
  | some f =>
    dsimp only
    generalize heval : w.calculator.evaluateCached f w.stores (w.view object) = evaluated
    obtain ⟨result, f', calculator'⟩ := evaluated
    exact h.insert (hgood.evaluated hw.functions hw.settings (h _ f hf) heval) rfl

theorem effect {r : Request} {result : Except ApplyError Outcome} (h : w.All good)
    (heffect : Effect w r result w') : w'.All good := by
  cases heffect with
  | noted => exact h.congr rfl
  | changed => exact h.congr rfl
  | failed _ hf hc _ heval =>
    exact h.insert (hgood.evaluated (hc.functions.trans hw.functions)
      (hc.settings.trans hw.settings) (h _ _ hf) heval) rfl
  | computed _ hf hc _ heval =>
    exact h.insert (hgood.evaluated (hc.functions.trans hw.functions)
      (hc.settings.trans hw.settings) (h _ _ hf) heval) rfl

theorem drain (h : w.All good) : w.drain.2.All good := by
  have hdrained : (w.withBench (w.scheduler.drain (applier w.vars) w.bench).2.2).Standing
      functions settings ∧
      (w.withBench (w.scheduler.drain (applier w.vars) w.bench).2.2).All good := by
    refine state_drain (K := fun b => (w.withBench b).Standing functions settings ∧
      (w.withBench b).All good) (fun r b _ hb => ?_) (fun parent children b hb => ?_) w.scheduler
      ⟨hw, h⟩
    · have heffect := Bench.effect_apply (w.withBench b) r
      exact ⟨hb.1.effect heffect, hb.2.effect hgood hb.1 heffect⟩
    · have hsame := sameContent_applyBounds w b parent children
      exact ⟨hb.1.same hsame, hb.2.congr hsame.formulas⟩
  exact hdrained.2.congr rfl

end

end All

/-- Whatever is done with a workbench, its formulas stay good. -/
theorem lifelong_run (hgood : Lifelong functions settings good) (hs : w.scheduler.Sound)
    (hw : w.Standing functions settings) (h : w.All good) (op : Operation) :
    (op.run w).All good := by
  cases op with
  | act a =>
    cases a with
    | setFormula object property source => exact h.setFormula hgood hw object property source
    | setValue object property v priority => exact h.setValue object property v priority
    | clearFormula object property => exact h.detached _
    | defineVariable name scope context v =>
      exact h.setsVariable (setsVariable_define w name scope context v)
    | updateVariable name scope context v =>
      exact h.setsVariable (setsVariable_update w name scope context v)
    | deleteVariable name scope context =>
      exact h.setsVariable (setsVariable_delete w name scope context)
    | notifyProperty object payload priority =>
      exact h.congr (sameContent_notifyChange _ _ _ _ _).formulas
    | drain => exact h.drain hgood hw
  | notify object kind payload priority =>
    exact h.congr (sameContent_notifyChange _ _ _ _ _).formulas
  | submit c => exact h.congr (sameContent_submitChange w c).formulas
  | evaluate object property => exact h.evaluateProperty hgood hw object property
  | addObject o =>
    obtain ⟨scheduler, hrun⟩ := run_addObject w o
    show ((addObject o).run w).2.All good
    rw [hrun]
    exact h.congr rfl
  | removeObject id => exact h.removeObject hs id

theorem lifelong_perform (hgood : Lifelong functions settings good) (hs : w.scheduler.Sound)
    (hw : w.Standing functions settings) (h : w.All good) (ops : List Operation) :
    (w.perform ops).All good := by
  induction ops generalizing w with
  | nil => exact h
  | cons op ops ih =>
    exact ih (sound_run hs op) (standing_run hw hs op) (lifelong_run hgood hs hw h op)

/-! ## Sources -/

/-- Formulas are compiled from their sources, and keep them. -/
theorem lifelong_sourced (functions : Registry σ) (settings : EvaluationSettings) :
    Lifelong functions settings Formula.Sourced where
  compiled := by
    intro c c' c'' source object f f' stores view result _ _ hcompile heval
    obtain ⟨-, -, -, -, htree⟩ := Calculator.compile_spec hcompile
    have hsource : f.source = source := by
      obtain ⟨tree, -, h⟩ := Run.ok_of_bind hcompile
      cases h
      rfl
    have hf : f.Sourced := by
      unfold Formula.Sourced
      rw [hsource, htree]
    exact hf.of_core (Calculator.evaluate_kept heval).1
  evaluated _ _ hf heval := hf.of_core (Calculator.evaluateCached_core heval).1

/-! ## Constant formulas -/

/-- A formula was compiled, and a value that it may answer as a constant is the value of its tree
wherever that is evaluated. -/
structure Sincere (σ : Type) (settings : EvaluationSettings) (f : Formula) : Prop where
  compiled : f.Compiled (.builtin : Registry σ)
  settled : ∀ v, f.settled? = some v → ∀ ev : Evaluator σ, ev.functions = .builtin →
    ev.maxDepth = settings.maxDepth → ev.value f.tree 1 = .ok v

/-- A formula that noted the value of its tree, if it is constant, is sincere. -/
theorem Sincere.of_noted {f f' : Formula} (hf : f.Compiled (.builtin : Registry σ))
    (hcore : f'.core = f.core) {ev : Evaluator σ} (hfunctions : ev.functions = .builtin)
    (hdepth : ev.maxDepth = settings.maxDepth) (host : σ)
    (hnoted : f.isConstant → f'.Noted (ev.value f.tree 1)) : Sincere σ settings f' := by
  refine ⟨hf.of_core hcore, fun v hv ev' hfunctions' hdepth' => ?_⟩
  have hconstant : f.isConstant := by
    have hsame : f'.core.isConstant = f.core.isConstant := congrArg Formula.isConstant hcore
    exact hsame.symm.trans (Formula.settled?_eq_some hv).1
  have htree : f'.core.tree = f.core.tree := congrArg Formula.tree hcore
  have hvalue : ev'.value f'.core.tree 1 = .ok v := by
    rw [htree, ← (hnoted hconstant).settled? hv]
    exact (Formula.value_of_isConstant hfunctions hfunctions' (hdepth.trans hdepth'.symm) host
      (hfunctions.symm ▸ hf) hconstant).symm
  exact hvalue

theorem lifelong_sincere (htimeout : 0 < settings.timeout) :
    Lifelong (.builtin : Registry σ) settings (Sincere σ settings) where
  compiled := by
    intro c c' c'' source object f f' stores view result hfunctions hsettings hcompile heval
    obtain ⟨-, hcompiled, hkept, hfresh, -⟩ := Calculator.compile_spec hcompile
    have hfunctions' : c'.functions = .builtin := hkept.functions.trans hfunctions
    have hfree : Evaluator.HostFree c'.functions := by
      rw [hfunctions']
      exact fun _ _ hg => Registry.hostFree_builtin hg
    have hsettings' : c'.settings = settings := hkept.settings.trans hsettings
    obtain ⟨hvalue, hnoted⟩ := Calculator.evaluate_spec (hsettings'.symm ▸ htimeout) hfree hfresh
      heval
    have hdepth : (c'.evaluator stores view 0).maxDepth = settings.maxDepth :=
      congrArg EvaluationSettings.maxDepth hsettings'
    exact .of_noted (hfunctions ▸ hcompiled) (Calculator.evaluate_kept heval).1 hfunctions' hdepth
      c'.host fun _ => hvalue ▸ hnoted
  evaluated := by
    intro c c' f f' stores view result hfunctions hsettings hf heval
    have hfree : Evaluator.HostFree c.functions := by
      rw [hfunctions]
      exact fun _ _ hg => Registry.hostFree_builtin hg
    have hcompiled : f.Compiled c.functions := hfunctions.symm ▸ hf.compiled
    have hdepth : (c.evaluator stores view 0).maxDepth = settings.maxDepth :=
      congrArg EvaluationSettings.maxDepth hsettings
    by_cases hconstant : f.isConstant
    · -- A constant formula asks nothing, so the caches need not be right.
      have hasks : ∀ n ∈ f.tree.nodes, (c.evaluator stores view 0).AsksAt (fun _ => False) n :=
        Formula.asksAt_of_isConstant hfunctions hcompiled hconstant
      obtain ⟨⟨v, -, rfl, -⟩ | ⟨hvalue, hnoted⟩, -⟩ := Calculator.evaluateCached_recall
        (P := fun _ _ => True) (hsettings.symm ▸ htimeout) hfree hasks
        (fun _ _ _ hasked => hasked.elim) (fun _ _ _ => trivial)
        (fun v hv => hf.settled v hv _ hfunctions hdepth) heval
      · exact hf
      · exact .of_noted hf.compiled (Calculator.evaluateCached_core heval).1 hfunctions hdepth
          c.host fun _ => hvalue ▸ hnoted
    · exact .of_noted hf.compiled (Calculator.evaluateCached_core heval).1 hfunctions hdepth c.host
        fun h => absurd h hconstant

/-- Whatever was done with a workbench, what a formula may answer as a constant is what it means. -/
theorem settled_perform (scene : Scene) (settings : Settings) (clock : Clock) (host : σ)
    (hscene : scene.objects.Keyed) (htimeout : 0 < settings.evaluation.timeout)
    (ops : List Operation) :
    let w := (new .builtin scene settings clock host).perform ops
    ∀ (e : Entity) (f : Formula) (v : Value), w.formulas[e]? = some f → f.settled? = some v →
      w.meaning f = .ok v := by
  intro w e f v hf hv
  have hstanding : w.Standing .builtin settings.evaluation :=
    standing_perform .builtin scene settings clock host hscene ops
  have hsincere : w.All (Sincere σ settings.evaluation) :=
    lifelong_perform (lifelong_sincere htimeout) (Sound.new _) (.new _ _ _ _ _ hscene)
      (fun e f hf => by simp [new] at hf) ops
  exact (hsincere e f hf).settled v hv _ hstanding.functions
    (congrArg EvaluationSettings.maxDepth hstanding.settings)

end Workbench

end Parametric
