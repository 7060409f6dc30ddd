import Parametric.Proofs.Scene.Change
import Parametric.Proofs.Workbench.Serve

/-!
# Coherent workbenches

In a coherent workbench there is time for evaluations, the cached answers about containers are
right, and so are the values of constant formulas (`Workbench.Coherent`). So an evaluation that
finds no cached result gives what the formula means (`Coherent.evaluateCached_spec`). Writes keep
this wherever they go, since neither the answers nor the constant formulas depend on a property
(`Coherent.step`).
-/

namespace Parametric

/-- Cached answers are right for every evaluation with the same settings in a scene of the same
shape. -/
theorem Calculator.answers_congr {σ : Type} {c c' : Calculator σ} {stores stores' : Stores}
    {view view' : Viewpoint} (hsettings : c.settings = c'.settings)
    (hshape : stores.objects.shape = stores'.objects.shape) {key : QueryKey} {v : Value}
    (h : (c.evaluator stores view 0).Answers key v) :
    (c'.evaluator stores' view' 0).Answers key v := by
  intro object
  rw [← h object]
  show Query.answer { (c'.evaluator stores' view' 0).call 0 with object } key =
    Query.answer { (c.evaluator stores view 0).call 0 with object } key
  refine Query.answer_congr ?_ ?_ ?_
  · rfl
  · exact congrArg EvaluationSettings.maxVisited hsettings.symm
  · exact ObjectTable.childrenOf_congr hshape.symm _

namespace Workbench

variable {σ : Type} {w w' : Workbench σ}

/-- What may be cached as the answer to a question about a container. -/
def Answers (w : Workbench σ) : QueryKey → Value → Prop :=
  (w.calculator.evaluator w.stores (w.view "") 0).Answers

/-! ## Changes -/

/-- Between two workbenches only the entities that are `changed` changed, and maybe formulas. -/
structure Changes (w w' : Workbench σ) (changed : Entity → Prop) : Prop where
  functions : w'.calculator.functions = w.calculator.functions
  settings : w'.calculator.settings = w.calculator.settings
  answers : w.calculator.answers.Holds w.Answers → w'.calculator.answers.Holds w.Answers
  shape : w'.scene.objects.shape = w.scene.objects.shape
  fields : ∀ x, ¬ changed x → w'.scene.objects.field? x = w.scene.objects.field? x
  vars : ∀ slot : Slot, ¬ changed (.ofVariable slot.name) → w'.vars[slot]? = w.vars[slot]?

theorem Changes.mono {changed changed' : Entity → Prop} (hc : Changes w w' changed)
    (h : ∀ e, changed e → changed' e) : Changes w w' changed' :=
  ⟨hc.functions, hc.settings, hc.answers, hc.shape, fun x hx => hc.fields x fun h' => hx (h x h'),
    fun slot hslot => hc.vars slot fun h' => hslot (h _ h')⟩

/-- A formula that reads nothing that changed means the same. -/
theorem Changes.meaning {changed : Entity → Prop} (hc : Changes w w' changed)
    (hfunctions : w.calculator.functions = .builtin) {f : Formula}
    (hf : f.Compiled w.calculator.functions) (hreads : ∀ p ∈ w.reads f, ¬ changed p) :
    w'.meaning f = w.meaning f := by
  have hshape : SameShape w w' :=
    ⟨hfunctions, hc.functions.trans hfunctions, hc.settings.symm, hc.shape.symm⟩
  refine (meaning_congr hshape hf
    (fun e he => (hc.fields e (hreads e (mem_reads_of_mem_propertyReads he))).symm)
    fun slot hslot => (hc.vars slot (hreads _ (mem_reads_of_variable hslot))).symm).symm

/-- A constant formula reads nothing. -/
theorem reads_of_isConstant (w : Workbench σ) {f : Formula} (h : f.isConstant) :
    w.reads f = [] := by
  obtain ⟨hdependencies, hvars⟩ := f.isConstant_iff.1 h
  simp [reads, producers, hdependencies, hvars]

/-- What differs at most in what waits, what is cached and the bounds of containers did not change.
-/
theorem SameContent.changes (h : SameContent w w') (changed : Entity → Prop) :
    Changes w w' changed where
  functions := h.calculator.functions
  settings := h.calculator.settings
  answers := h.calculator.answers _
  shape := by rw [h.objects]
  fields x _ := by rw [h.objects]
  vars slot _ := by rw [h.vars]

/-- A change is followed by what only affects caches and what waits. -/
theorem Changes.same {changed : Entity → Prop} {w'' : Workbench σ} (hc : Changes w w' changed)
    (hsame : SameContent w' w'') : Changes w w'' changed where
  functions := hsame.calculator.functions.trans hc.functions
  settings := hsame.calculator.settings.trans hc.settings
  answers h := hsame.calculator.answers _ (hc.answers h)
  shape := hsame.objects ▸ hc.shape
  fields e he := by
    rw [hsame.objects]
    exact hc.fields e he
  vars slot hslot := by
    rw [hsame.vars]
    exact hc.vars slot hslot

/-- Taking a formula off changes nothing else. -/
theorem changes_detached (w : Workbench σ) (e : Entity) :
    Changes w (w.detached e) fun _ => False := by
  unfold detached
  rw [run_detach]
  cases w.formulas[e]? <;> exact ⟨rfl, rfl, fun h => h, rfl, fun _ _ => rfl, fun _ _ => rfl⟩

/-- A write to any path changes no variable and not the shape. -/
theorem Changes.writeAt {scene : Scene} {target : Entity} {v : Value}
    {bounds : Option Contribution} (hwrite : w.scene.write target v = .ok (bounds, scene))
    (hfunctions : w'.calculator.functions = w.calculator.functions)
    (hsettings : w'.calculator.settings = w.calculator.settings)
    (hanswers : w.calculator.answers.Holds w.Answers → w'.calculator.answers.Holds w.Answers)
    (hscene : w'.scene = scene) (hvars : w'.vars = w.vars) : Changes w w' fun _ => True where
  functions := hfunctions
  settings := hsettings
  answers := hanswers
  shape := by
    rw [hscene]
    exact Scene.shape_write hwrite
  fields x hx := (hx trivial).elim
  vars slot _ := by rw [hvars]

/-- A write to a name without a dot changes one entity at most. -/
theorem Changes.write {scene : Scene} {target : Entity} {v : Value} {bounds : Option Contribution}
    (hundotted : Path.Undotted target.property)
    (hwrite : w.scene.write target v = .ok (bounds, scene))
    (hfunctions : w'.calculator.functions = w.calculator.functions)
    (hsettings : w'.calculator.settings = w.calculator.settings)
    (hanswers : w.calculator.answers.Holds w.Answers → w'.calculator.answers.Holds w.Answers)
    (hscene : w'.scene = scene) (hvars : w'.vars = w.vars) : Changes w w' (· = target) := by
  have hwrites := Scene.writes_write hundotted hwrite
  have hc := Changes.writeAt hwrite hfunctions hsettings hanswers hscene hvars
  refine ⟨hc.functions, hc.settings, hc.answers, hc.shape, fun x hx => ?_, fun slot _ => ?_⟩
  · rw [hscene]
    exact (hwrites.fields x).resolve_right fun ⟨_, hxv, _⟩ => hx hxv.1
  · rw [hvars]

/-- When no object takes the place of the variables, an object that is there does not. -/
theorem not_isVariable_of_isSome (howner : w.scene.get? Entity.variableOwner = none) {e : Entity}
    (hsome : (w.scene.get? e.object).isSome) : ¬ e.isVariable := by
  intro hvariable
  rw [of_decide_eq_true hvariable, howner] at hsome
  cases hsome

/-- A calculator with the functions of the workbench has no functions of a host. -/
theorem Bound.hostFree (hw : w.Bound) {c : Calculator σ}
    (hc : c.functions = w.calculator.functions) : Evaluator.HostFree c.functions := by
  rw [hc, hw.functions]
  exact fun _ _ hf => Registry.hostFree_builtin hf

/-- What the tree of a formula gives now, without the caches. -/
def fresh (w : Workbench σ) (f : Formula) : Except EvalError Value :=
  ((w.calculator.evaluator w.stores (w.view f.object) 0).evaluate f.tree none w.calculator.host).1

/-- Without host functions, and with time, the tree of a formula gives what it means. -/
theorem fresh_eq_meaning (htimeout : 0 < w.calculator.settings.timeout)
    (hfree : Evaluator.HostFree w.calculator.functions) (f : Formula) :
    w.fresh f = w.meaning f :=
  (Evaluator.evaluate_eq_value (w.calculator.evaluator w.stores (w.view f.object) 0)
    htimeout hfree f.tree none (fun _ heq => by cases heq) w.calculator.host).1

/-! ## What evaluations rest on -/

/-- An evaluation without cached results gives what a formula means. -/
structure Coherent (w : Workbench σ) : Prop where
  /-- An evaluation has time to be made. -/
  timeout : 0 < w.calculator.settings.timeout
  answers : w.calculator.answers.Holds w.Answers
  /-- No object takes the place of the variables. -/
  owner : w.scene.get? Entity.variableOwner = none
  constant : ∀ {e : Entity} {f : Formula}, w.formulas[e]? = some f → ∀ v, f.settled? = some v →
    w.meaning f = .ok v

namespace Coherent

theorem new (scene : Scene) (settings : Settings) (clock : Clock) (host : σ)
    (howner : scene.get? Entity.variableOwner = none) (htimeout : 0 < settings.evaluation.timeout) :
    Coherent (new .builtin scene settings clock host) :=
  ⟨htimeout, .new _ _, howner, fun hf => by simp [Workbench.new] at hf⟩

/-- A change reaches neither the answers nor the constant formulas, which may be put in place with
their values. -/
theorem step (h : w.Coherent) (hw : w.Bound) {changed : Entity → Prop} (hc : Changes w w' changed)
    (hformulas : ∀ {e : Entity} {f : Formula}, w'.formulas[e]? = some f →
      w.formulas[e]? = some f ∨ ∀ v, f.settled? = some v → w'.meaning f = .ok v) :
    w'.Coherent where
  timeout := by
    rw [hc.settings]
    exact h.timeout
  answers key e he :=
    Calculator.answers_congr hc.settings.symm hc.shape.symm (hc.answers h.answers key e he)
  owner := by
    have hsome := ObjectTable.isSome_get?_congr hc.shape Entity.variableOwner
    have hnone : w.scene.objects.get? Entity.variableOwner = none := h.owner
    rw [hnone] at hsome
    exact Option.isNone_iff_eq_none.1 (Option.isSome_eq_false_iff.1 hsome)
  constant := by
    intro e f hf v hv
    rcases hformulas hf with hold | hconstant
    · -- A constant formula reads nothing, so no change reaches it.
      have hreads := w.reads_of_isConstant (Formula.settled?_eq_some hv).1
      rw [hc.meaning hw.functions (hw.formulas hold).2.2 (by simp [hreads])]
      exact h.constant hold v hv
    · exact hconstant v hv

/-- A formula that noted what it means may be put in place. -/
theorem put (h : w.Coherent) (hw : w.Bound) {changed : Entity → Prop} (hc : Changes w w' changed)
    {target : Entity} {f : Formula} (hformulas : w'.formulas = w.formulas.insert target f)
    (hcompiled : f.Compiled w.calculator.functions) (hnoted : f.Noted (w.meaning f)) :
    w'.Coherent := by
  refine h.step hw hc fun {e g} hg => ?_
  rw [hformulas, Table.getElem?_insert] at hg
  split at hg
  · cases hg
    refine .inr fun v hv => ?_
    have hreads := w.reads_of_isConstant (Formula.settled?_eq_some hv).1
    rw [hc.meaning hw.functions hcompiled (by simp [hreads])]
    exact hnoted.settled? hv
  · exact .inl hg

/-- When nothing is cached for its object, evaluating a formula gives what it means, and notes it.
-/
theorem evaluateCached_spec (h : w.Coherent) (hw : w.Bound) {target : Entity}
    {f f' : Formula} {c c' : Calculator σ} {result : Except EvalError Value}
    (hf : w.formulas[target]? = some f) (hc : w.calculator.Kept c)
    (hmisses : c.Misses target.object)
    (heval : c.evaluateCached f w.stores (w.view target.object) = (result, f', c')) :
    f'.core = f.core ∧ result = w.meaning f' ∧ f'.Noted (w.meaning f') ∧
      c'.functions = w.calculator.functions ∧ c'.settings = w.calculator.settings ∧
      c'.answers.Holds w.Answers := by
  obtain ⟨hcore, hfunctions, hsettings⟩ := Calculator.evaluateCached_core heval
  have hmeaning : (c.evaluator w.stores (w.view target.object) 0).value f.tree 1 = w.meaning f := by
    rw [hc.evaluator, meaning, (hw.formulas hf).1]
  have hanswers : c.answers.Holds (c.evaluator w.stores (w.view target.object) 0).Answers :=
    fun key e he => Calculator.answers_congr hc.settings.symm rfl (hc.answers _ h.answers key e he)
  have htimeout : 0 < c.settings.timeout := by
    rw [hc.settings]
    exact h.timeout
  have hmisses' : c.Misses (w.view target.object).object := by
    rwa [view, Viewpoint.object_ofObject]
  obtain ⟨hresult, hnoted, hholds⟩ :=
    Calculator.evaluateCached_spec htimeout (hw.hostFree hc.functions) hmisses' hanswers
      (fun v hv => hmeaning.trans (h.constant hf v hv)) heval
  rw [hmeaning, ← meaning_of_core w hcore] at hresult
  exact ⟨hcore, hresult, hresult ▸ hnoted, hfunctions.trans hc.functions,
    hsettings.trans hc.settings,
    fun key e he => Calculator.answers_congr hc.settings rfl (hholds key e he)⟩

/-- The first evaluation of a formula gives what it means, and notes it. -/
theorem evaluate_spec (h : w.Coherent) (hw : w.Bound) {source : String} {object : ObjectId}
    {f f' : Formula} {c c' : Calculator σ} {result : Except EvalError Value}
    (hcompile : w.calculator.compile source object = .ok (f, c))
    (heval : c.evaluate f w.stores (w.view object) = (result, f', c')) :
    f'.core = f.core ∧ f'.Compiled w.calculator.functions ∧ w.calculator.Kept c' ∧
      result = w.meaning f' ∧ f'.Noted (w.meaning f') := by
  obtain ⟨hobject, hcompiled, hkept, hfresh, -⟩ := Calculator.compile_spec hcompile
  obtain ⟨hcore, hkept'⟩ := Calculator.evaluate_kept heval
  have htimeout : 0 < c.settings.timeout := by
    rw [hkept.settings]
    exact h.timeout
  obtain ⟨hresult, hnoted⟩ :=
    Calculator.evaluate_spec htimeout (hw.hostFree hkept.functions) hfresh heval
  have hmeaning : (c.evaluator w.stores (w.view object) 0).value f.tree 1 = w.meaning f' := by
    rw [meaning_of_core w hcore, hkept.evaluator, meaning, hobject]
  rw [hmeaning] at hresult
  exact ⟨hcore, hcompiled.of_core hcore, hkept.trans hkept', hresult, hresult ▸ hnoted⟩

theorem fresh (h : w.Coherent) (hw : w.Bound) (f : Formula) : w.fresh f = w.meaning f :=
  fresh_eq_meaning h.timeout (hw.hostFree rfl) f

theorem same (h : w.Coherent) (hw : w.Bound) (hsame : SameContent w w') : w'.Coherent :=
  h.step hw (hsame.changes fun _ => False) fun hf => .inl (hsame.formulas ▸ hf)

end Coherent

/-- Applying a request about a property keeps a workbench coherent, whatever the property. -/
theorem Applies.coherent {r : Request} {result : Except ApplyError Outcome}
    (happly : Applies w r result w') (hw : w.Bound) (h : w.Coherent) : w'.Coherent := by
  cases happly with
  | noted hc => exact h.same hw ⟨hc, rfl, rfl, rfl⟩
  | stored hc _ _ _ _ hwrite =>
    exact h.step hw (.writeAt hwrite hc.functions hc.settings (hc.answers _) rfl rfl)
      fun hf => .inl hf
  | @failed f f' _ calculator' e _ hf hc hmisses heval =>
    obtain ⟨hcore, -, hnoted, hfunctions, hsettings, hholds⟩ :=
      h.evaluateCached_spec hw hf hc hmisses heval
    have hchanges : Changes w { w with
        calculator := calculator', formulas := w.formulas.insert r.target f' } (fun _ => False) :=
      ⟨hfunctions, hsettings, fun _ => hholds, rfl, fun _ _ => rfl, fun _ _ => rfl⟩
    exact h.put hw hchanges rfl ((hw.formulas hf).2.2.of_core hcore) hnoted
  | computed hf hc hmisses heval hwrite =>
    obtain ⟨hcore, -, hnoted, hfunctions, hsettings, hholds⟩ :=
      h.evaluateCached_spec hw hf hc hmisses heval
    exact h.put hw (.writeAt hwrite hfunctions hsettings (fun _ => hholds) rfl rfl) rfl
      ((hw.formulas hf).2.2.of_core hcore) hnoted

end Workbench

end Parametric
