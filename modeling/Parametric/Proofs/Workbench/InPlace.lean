import Parametric.Proofs.Workbench.Ownership
import Parametric.Proofs.Workbench.Recall

/-!
# Requests that leave objects in place

Before a request is applied, the cached results of its object and the answers about that object and
its container are dropped, which are all that an evaluation would take from the caches. So it gives
what the formula means (`Grounded.evaluateCached_spec`). A request that moves no object changes at
most the entities that it affects, and notes on the formula of its target what the formula means
(`Effect.changes`, `Effect.formulas`). So it keeps a workbench whose evaluations can be relied on
(`Ready`), and after it the only formulas whose cached results may be wrong are those that read what
it affects (`Effect.recalls`).
-/

namespace Parametric

namespace Request

theorem Evaluates.affected {r : Request} (h : r.Evaluates) : r.affected = [r.target] := by
  rcases h with h | h <;> rw [Request.affected, h] <;> rfl

/-- What a request writes is among the entities that it affects. -/
theorem Writes.mem_affected {r : Request} {e : Entity} {v : Value} (h : r.Writes e v) :
    e ∈ r.affected := by
  rcases h with ⟨hobject, himposes⟩ | ⟨rfl, hkind, -⟩
  · unfold Request.affected ChangeKind.affected
    obtain ⟨object, property⟩ := e
    obtain rfl : object = r.target.object := hobject
    unfold ChangeKind.imposes at himposes
    split at himposes
    next hkind _ =>
      simp only [hkind]
      simp only [List.mem_cons, Prod.mk.injEq, List.not_mem_nil, or_false] at himposes
      rcases himposes with ⟨rfl, -⟩ | ⟨rfl, -⟩ | ⟨rfl, -⟩ <;> simp
    next hkind _ =>
      simp only [hkind]
      simp only [List.mem_cons, Prod.mk.injEq, List.not_mem_nil, or_false] at himposes
      simp [himposes.1]
    · cases himposes
  · rw [Evaluates.affected (.inr hkind)]
    exact List.mem_singleton_self _

/-- A request that moves no object writes what it says. -/
theorem InPlace.writes {imposed : Entity → Value → Prop} {r : Request} (hr : r.InPlace imposed)
    (hvariable : ¬ r.target.isVariable) {s s' : Scene} {outcome : Outcome}
    (h : s.applyChange r = .ok (outcome, s')) : s.objects.Writes r.Writes s'.objects := by
  refine Scene.writes_applyChange hr.kind (fun hkind name value hpayload => ?_) h
  obtain ⟨hundotted, value', hvalue⟩ := hr.property hkind hvariable
  rw [hpayload] at hvalue
  cases hvalue
  exact ⟨rfl, hundotted⟩

end Request

/-- What an evaluation for an object asks is about the children of the object and of its container.
-/
theorem Calculator.asksAt_nearby {σ : Type} (c : Calculator σ) (stores : Stores)
    (hkeyed : stores.objects.Keyed) (object : ObjectId) (now : Nat) (n : Expr) :
    (c.evaluator stores (.ofObject stores.objects object) now).AsksAt (fun key =>
      key.container = object ∨ stores.objects.containerOf? object = some key.container) n := by
  cases n with
  | call name args =>
    intro g query key hg hbody hkey
    have hplace := Query.container_of_key hkeyed hkey
    split at hplace
    · exact .inl (hplace.trans (Viewpoint.object_ofObject _ _))
    · exact .inr ((Viewpoint.container_ofObject _ _).symm.trans hplace)
  | _ => trivial

namespace Workbench

open Scheduler

variable {σ : Type} {w w' : Workbench σ} {r : Request} {result : Except ApplyError Outcome}
  {imposed : Entity → Value → Prop} {pend pend' : Entity → Prop}

/-- A bound and coherent workbench whose formulas drive plain names. -/
structure Ready (w : Workbench σ) : Prop extends Bound w, Coherent w where
  plain : ∀ {e : Entity} {f : Formula}, w.formulas[e]? = some f → Path.Plain e.property

/-- With the built-in functions and time to evaluate them, the formulas drive plain names of objects
that are there, and the values of constant ones are right. The cached answers need not be. -/
structure Grounded (w : Workbench σ) : Prop where
  functions : w.calculator.functions = .builtin
  timeout : 0 < w.calculator.settings.timeout
  /-- No formula drives a property in the place of the variables. -/
  owner : ∀ {e : Entity} {f : Formula}, w.formulas[e]? = some f → ¬ e.isVariable
  keyed : w.scene.objects.Keyed
  formulas : ∀ {e : Entity} {f : Formula}, w.formulas[e]? = some f →
    f.object = e.object ∧ (w.scene.get? e.object).isSome ∧ f.Compiled w.calculator.functions
  plain : ∀ {e : Entity} {f : Formula}, w.formulas[e]? = some f → Path.Plain e.property
  constant : ∀ {e : Entity} {f : Formula}, w.formulas[e]? = some f → ∀ v, f.settled? = some v →
    w.meaning f = .ok v

theorem Ready.grounded (h : w.Ready) (hkeyed : w.scene.objects.Keyed) : w.Grounded where
  functions := h.functions
  timeout := h.timeout
  owner hf := not_isVariable_of_isSome h.owner (h.formulas hf).2.1
  keyed := hkeyed
  formulas := h.formulas
  plain := h.plain
  constant := h.constant

namespace Grounded

/-- A formula asks about its own children and those of its container. -/
theorem asksAt (h : w.Grounded) (f : Formula) :
    ∀ n ∈ f.tree.nodes, (w.calculator.evaluator w.stores (w.view f.object) 0).AsksAt
      (fun key => key.container = f.object ∨ w.containerOf? f.object = some key.container) n :=
  fun n _ => w.calculator.asksAt_nearby w.stores h.keyed f.object 0 n

/-- When neither a result nor an answer is cached for its object, nor an answer for its container,
evaluating a formula gives what it means, and notes it. -/
theorem evaluateCached_spec (h : w.Grounded) {target : Entity} {f f' : Formula}
    {c c' : Calculator σ} {result : Except EvalError Value} (hf : w.formulas[target]? = some f)
    (hc : w.calculator.Kept c) (hmisses : c.Misses target.object)
    (hunasked : ∀ x, x = target.object ∨ w.containerOf? target.object = some x → c.Unasked x)
    (heval : c.evaluateCached f w.stores (w.view target.object) = (result, f', c')) :
    f'.core = f.core ∧ result = w.meaning f ∧ f'.Noted (w.meaning f) ∧
      c'.functions = w.calculator.functions ∧ c'.settings = w.calculator.settings ∧
      (w.calculator.answers.Holds w.Answers → c'.answers.Holds w.Answers) := by
  obtain ⟨hcore, hfunctions, hsettings⟩ := Calculator.evaluateCached_core heval
  have hobject := (h.formulas hf).1
  rw [← hobject] at hmisses hunasked heval
  have hevaluator := hc.evaluator w.stores (w.view f.object) 0
  have hmeaning : (c.evaluator w.stores (w.view f.object) 0).value f.tree 1 = w.meaning f := by
    rw [hevaluator]
    rfl
  have htimeout : 0 < c.settings.timeout := by
    rw [hc.settings]
    exact h.timeout
  have hfree : Evaluator.HostFree c.functions := by
    rw [hc.functions, h.functions]
    exact fun _ _ hg => Registry.hostFree_builtin hg
  have hmisses : c.Misses (w.view f.object).object := by
    rwa [view, Viewpoint.object_ofObject]
  have hsettled : ∀ v, f.settled? = some v →
      (c.evaluator w.stores (w.view f.object) 0).value f.tree 1 = .ok v :=
    fun v hv => hmeaning.trans (h.constant hf v hv)
  have hasks := h.asksAt f
  rw [← hevaluator] at hasks
  obtain ⟨hresult, hnoted, -⟩ := Calculator.evaluateCached_of_misses htimeout hfree hmisses hasks
    (fun key entry hentry hasked => by rw [hunasked _ hasked key rfl] at hentry; cases hentry)
    hsettled heval
  rw [hmeaning] at hresult
  refine ⟨hcore, hresult, hresult ▸ hnoted, hfunctions.trans hc.functions,
    hsettings.trans hc.settings, fun hholds key entry hentry => ?_⟩
  obtain ⟨-, -, hanswers⟩ := Calculator.evaluateCached_spec htimeout hfree hmisses
    (fun key entry hentry => Calculator.answers_congr hc.settings.symm rfl
      (hc.answers _ hholds key entry hentry)) hsettled heval
  exact Calculator.answers_congr hc.settings rfl (hanswers key entry hentry)

/-- A constant formula means the same when the scene and the variables change. -/
theorem meaning_of_isConstant (h : w.Grounded)
    (hfunctions : w'.calculator.functions = w.calculator.functions)
    (hsettings : w'.calculator.settings = w.calculator.settings) {f : Formula}
    (hf : f.Compiled w.calculator.functions) (hconstant : f.isConstant) :
    w'.meaning f = w.meaning f := by
  refine (Formula.value_of_isConstant h.functions (hfunctions.trans h.functions) ?_
    w.calculator.host hf hconstant).symm
  exact congrArg EvaluationSettings.maxDepth hsettings.symm

/-- Formulas with the same cores and right constants, and a scene with the same objects. -/
theorem step (h : w.Grounded) (hfunctions : w'.calculator.functions = w.calculator.functions)
    (hsettings : w'.calculator.settings = w.calculator.settings)
    (hkeyed : w'.scene.objects.Keyed)
    (hobjects : ∀ id, (w'.scene.get? id).isSome = (w.scene.get? id).isSome)
    (hformulas : ∀ {e : Entity} {f' : Formula}, w'.formulas[e]? = some f' →
      ∃ f, w.formulas[e]? = some f ∧ f'.core = f.core ∧ (f' = f ∨ f'.Noted (w.meaning f))) :
    w'.Grounded where
  functions := hfunctions.trans h.functions
  timeout := by
    rw [hsettings]
    exact h.timeout
  owner hf' := by
    obtain ⟨f, hf, -⟩ := hformulas hf'
    exact h.owner hf
  keyed := hkeyed
  formulas hf' := by
    obtain ⟨f, hf, hcore, -⟩ := hformulas hf'
    obtain ⟨hobject, hsome, hcompiled⟩ := h.formulas hf
    refine ⟨(Formula.object_of_core hcore).trans hobject, (hobjects _).trans hsome, ?_⟩
    rw [hfunctions]
    exact hcompiled.of_core hcore
  plain hf' := by
    obtain ⟨f, hf, -⟩ := hformulas hf'
    exact h.plain hf
  constant := by
    intro e f' hf' v hv
    obtain ⟨f, hf, hcore, hsame⟩ := hformulas hf'
    have hcompiled := (h.formulas hf).2.2.of_core hcore
    rw [h.meaning_of_isConstant hfunctions hsettings hcompiled (Formula.settled?_eq_some hv).1,
      meaning_of_core w hcore]
    rcases hsame with rfl | hnoted
    · exact h.constant hf v hv
    · exact hnoted.settled? hv

theorem same (h : w.Grounded) (hsame : SameContent w w') : w'.Grounded :=
  h.step hsame.calculator.functions hsame.calculator.settings
    (h.keyed.of_shape (congrArg ObjectTable.shape hsame.objects))
    (fun id => by rw [Scene.get?, Scene.get?, hsame.objects])
    fun {e f} hf => ⟨f, hsame.formulas ▸ hf, rfl, .inl rfl⟩

end Grounded

theorem Ready.same (h : w.Ready) (hsame : SameContent w w') (hsound : w'.scheduler.Sound)
    (hgraph : w'.scheduler.graph = w.scheduler.graph) : w'.Ready :=
  ⟨hsame.bound h.toBound hsound hgraph, h.toCoherent.same h.toBound hsame,
    fun hf => h.plain (hsame.formulas ▸ hf)⟩

/-- A formula may be put in place of one with the same core. -/
theorem map_core_insert {formulas : Table Entity Formula} {target : Entity} {f f' : Formula}
    (hf : formulas[target]? = some f) (hcore : f'.core = f.core) (e : Entity) :
    ((formulas.insert target f')[e]?).map Formula.core = (formulas[e]?).map Formula.core := by
  rw [Table.getElem?_insert]
  split
  next he => rw [← he, hf, Option.map_some, Option.map_some, hcore]
  next => rfl

namespace Effect

/-- A request that moves no object changes nothing but what it affects, and that only if it
succeeds. -/
theorem changes (heffect : Effect w r result w') (h : w.Grounded) (hr : r.InPlace imposed) :
    Changes w w' fun e => result.isOk ∧ e ∈ r.affected := by
  cases heffect with
  | @noted _ calculator hc =>
    have hsame : SameContent w { w with calculator } := ⟨hc, rfl, rfl, rfl⟩
    exact hsame.changes _
  | changed hc hvariable hnone hchange =>
    have hwrites := hr.writes hvariable hchange
    refine ⟨hc.functions, hc.settings, hc.answers _, hwrites.shape, fun x hx => ?_, fun _ _ => rfl⟩
    refine (hwrites.fields x).resolve_right ?_
    rintro ⟨v, hv, -⟩
    exact hx ⟨rfl, hv.mem_affected⟩
  | failed _ hf hc hmisses heval _ hunasked =>
    obtain ⟨-, -, -, hfunctions, hsettings, hholds⟩ :=
      h.evaluateCached_spec hf hc hmisses hunasked heval
    exact ⟨hfunctions, hsettings, hholds, rfl, fun _ _ => rfl, fun _ _ => rfl⟩
  | computed hr hf hc hmisses heval hwrite hunasked =>
    obtain ⟨-, -, -, hfunctions, hsettings, hholds⟩ :=
      h.evaluateCached_spec hf hc hmisses hunasked heval
    refine Changes.mono
      (.write (h.plain hf).2 hwrite hfunctions hsettings hholds rfl rfl) ?_
    rintro e rfl
    exact ⟨rfl, hr.affected ▸ List.mem_singleton_self _⟩

/-- After a request each formula is the same, or it is the formula of the target and has noted what
it means. -/
theorem formulas (heffect : Effect w r result w') (h : w.Grounded) {e : Entity} {f' : Formula}
    (hf' : w'.formulas[e]? = some f') : w.formulas[e]? = some f' ∨ e = r.target ∧
      ∃ f, w.formulas[e]? = some f ∧ f'.core = f.core ∧ f'.Noted (w.meaning f) := by
  have hplaced : ∀ {f g : Formula}, w.formulas[r.target]? = some f → g.core = f.core →
      g.Noted (w.meaning f) → (w.formulas.insert r.target g)[e]? = some f' →
      w.formulas[e]? = some f' ∨ e = r.target ∧
        ∃ f, w.formulas[e]? = some f ∧ f'.core = f.core ∧ f'.Noted (w.meaning f) := by
    intro f g hf hcore hnoted hg
    rw [Table.getElem?_insert] at hg
    split at hg
    next he =>
      cases hg
      exact .inr ⟨he.symm, f, he ▸ hf, hcore, hnoted⟩
    next => exact .inl hg
  cases heffect with
  | noted => exact .inl hf'
  | changed => exact .inl hf'
  | failed _ hf hc hmisses heval _ hunasked =>
    obtain ⟨hcore, -, hnoted, -⟩ := h.evaluateCached_spec hf hc hmisses hunasked heval
    exact hplaced hf hcore hnoted hf'
  | computed _ hf hc hmisses heval _ hunasked =>
    obtain ⟨hcore, -, hnoted, -⟩ := h.evaluateCached_spec hf hc hmisses hunasked heval
    exact hplaced hf hcore hnoted hf'

/-- A request compiles no formula and takes none off. -/
theorem cores (heffect : Effect w r result w') (e : Entity) :
    (w'.formulas[e]?).map Formula.core = (w.formulas[e]?).map Formula.core := by
  cases heffect with
  | noted => rfl
  | changed => rfl
  | failed _ hf _ _ heval => exact map_core_insert hf (Calculator.evaluateCached_core heval).1 e
  | computed _ hf _ _ heval => exact map_core_insert hf (Calculator.evaluateCached_core heval).1 e

theorem grounded (heffect : Effect w r result w') (h : w.Grounded) (hr : r.InPlace imposed) :
    w'.Grounded := by
  have hc := heffect.changes h hr
  refine h.step hc.functions hc.settings (h.keyed.of_shape hc.shape)
    (ObjectTable.isSome_get?_congr hc.shape) fun {e f'} hf' => ?_
  rcases heffect.formulas h hf' with hf | ⟨-, f, hf, hcore, hnoted⟩
  · exact ⟨f', hf, rfl, .inl rfl⟩
  · exact ⟨f, hf, hcore, .inr hnoted⟩

theorem ready (heffect : Effect w r result w') (h : w.Ready) (hkeyed : w.scene.objects.Keyed)
    (hr : r.InPlace imposed) : w'.Ready := by
  have hgrounded := h.grounded hkeyed
  have hc := heffect.changes hgrounded hr
  have hgrounded' := heffect.grounded hgrounded hr
  have hsound : w'.scheduler.Sound := heffect.scheduler ▸ h.scheduler
  refine ⟨h.toBound.congr hsound (by rw [heffect.scheduler]) heffect.cores hc.functions hc.shape,
    ⟨hgrounded'.timeout, fun key e he => ?_, ?_, hgrounded'.constant⟩, hgrounded'.plain⟩
  · exact Calculator.answers_congr hc.settings.symm hc.shape.symm (hc.answers h.answers key e he)
  · have hsome := ObjectTable.isSome_get?_congr hc.shape Entity.variableOwner
    have hnone : w.scene.objects.get? Entity.variableOwner = none := h.owner
    rw [hnone] at hsome
    exact Option.isNone_iff_eq_none.1 (Option.isSome_eq_false_iff.1 hsome)

/-- After a request the results that are cached are right, but for what is pending and what reads
the entities that the request affects. -/
theorem recalls (heffect : Effect w r result w') (h : w.Ready) (hr : r.InPlace imposed)
    (hrecalls : w.Recalls pend) (hpend : ∀ e, pend e → e = r.target ∨ pend' e)
    (hreaders : result.isOk → ∀ p ∈ r.affected, ∀ e, w.scheduler.graph.Feeds p e → pend' e) :
    w'.Recalls pend' := by
  -- The formula of the target is evaluated, or nothing is cached for it.
  have hresults : w.calculator.compiled ≤ w'.calculator.compiled ∧
      w'.calculator.results.Holds (w.Recalled fun e => pend e ∧ e ≠ r.target) := by
    have hdropped : ∀ {calculator : Calculator σ}, w.calculator.Kept calculator →
        (r.target.isVariable ∨ calculator.Misses r.target.object) →
        w.calculator.compiled ≤ calculator.compiled ∧
          calculator.results.Holds (w.Recalled fun e => pend e ∧ e ≠ r.target) := by
      intro calculator hc hmisses
      refine ⟨hc.compiled, fun key entry hentry => ?_⟩
      obtain ⟨hkey, hrecalled⟩ := hc.results _ hrecalls.results key entry hentry
      refine ⟨hkey, fun e g hg heq => (hrecalled e g hg heq).imp_right fun he => ⟨he, ?_⟩⟩
      rintro rfl
      obtain ⟨hobject, hsome, -⟩ := h.formulas hg
      rcases hmisses with hvariable | hmisses
      · exact absurd hvariable (not_isVariable_of_isSome h.owner hsome)
      · have hnone := hmisses key (by rw [heq]; exact hobject)
        rw [hentry] at hnone
        cases hnone
    cases heffect with
    | noted hc _ hmisses => exact hdropped hc hmisses
    | changed hc _ _ _ hmisses => exact hdropped hc (.inr hmisses)
    | failed _ hf hc hmisses heval =>
      exact hrecalls.evaluated h.toCoherent h.toBound hf hc hmisses heval
    | computed _ hf hc hmisses heval =>
      exact hrecalls.evaluated h.toCoherent h.toBound hf hc hmisses heval
  have hgrounded := h.grounded hrecalls.keyed
  refine hrecalls.step h.toBound (heffect.changes hgrounded hr) hresults.1 hresults.2 r.target
    fun {e f'} hf' => .inl ?_
  have hrest : ∀ {g : Formula}, w.formulas[e]? = some g →
      (pend e ∧ e ≠ r.target) ∨ (∃ p ∈ w.reads g, result.isOk ∧ p ∈ r.affected) → pend' e := by
    rintro g hg (⟨he, hne⟩ | ⟨p, hp, hok, haffected⟩)
    · exact (hpend e he).resolve_left hne
    · exact hreaders hok p haffected e ((h.edges p e).2 ⟨g, hg, hp⟩)
  rcases heffect.formulas hgrounded hf' with hf | ⟨-, f, hf, hcore, -⟩
  · exact ⟨f', hf, rfl, hrest hf⟩
  · exact ⟨f, hf, hcore, hrest hf⟩

end Effect

end Workbench

end Parametric
