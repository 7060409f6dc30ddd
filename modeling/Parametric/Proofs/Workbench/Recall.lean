import Parametric.Proofs.Scene.Objects
import Parametric.Proofs.Workbench.Idle
import Parametric.Proofs.Workbench.Operation

/-!
# Cached results

A workbench recalls right when what is cached as the result of a formula is what the formula means,
unless the formula is pending (`Workbench.Recalls`). A change to a property or a variable leaves
pending what reads it (`Recalls.step`), and a formula that is evaluated in a drain is cached with
what it means then (`Recalls.evaluated`). So once nothing waits all cached results are right,
whatever plain names were written and whatever was evaluated in between (`recalls_perform`).
-/

namespace Parametric.Workbench

open Scheduler

variable {σ : Type} {w w' : Workbench σ} {pend pend' mid : Entity → Prop}

/-- The key under which the result of a formula is cached. -/
def resultKey (w : Workbench σ) (f : Formula) : ResultKey :=
  ⟨f.object, f.id, w.containerOf? f.object⟩

/-- A value may be cached under a key: the formula of the key means it, or is pending. -/
def Recalled (w : Workbench σ) (pend : Entity → Prop) (key : ResultKey) (v : Value) : Prop :=
  w.calculator.Issued key.formula ∧ ∀ (e : Entity) (f : Formula), w.formulas[e]? = some f →
    key = w.resultKey f → w.meaning f = .ok v ∨ pend e

/-- What is cached for a formula is right or pending, no two formulas share an identifier, and every
object lies under its own. -/
structure Recalls (w : Workbench σ) (pend : Entity → Prop) : Prop where
  issued : ∀ {e : Entity} {f : Formula}, w.formulas[e]? = some f → w.calculator.Issued f.id
  distinct : ∀ {e e' : Entity} {f f' : Formula}, w.formulas[e]? = some f →
    w.formulas[e']? = some f' → f.id = f'.id → e = e'
  results : w.calculator.results.Holds (w.Recalled pend)
  keyed : w.scene.objects.Keyed

theorem resultKey_of_core (w : Workbench σ) {f f' : Formula} (h : f'.core = f.core) :
    w.resultKey f' = w.resultKey f := by
  have hcore : w.resultKey f' = w.resultKey f'.core := rfl
  rw [hcore, h]
  rfl

theorem resultKey_congr (h : w'.scene.objects.shape = w.scene.objects.shape) (f : Formula) :
    w'.resultKey f = w.resultKey f := by
  unfold resultKey containerOf?
  rw [ObjectTable.containerOf?_congr h]

theorem view_eq (w : Workbench σ) (f : Formula) :
    (⟨(w.view f.object).object, f.id, (w.view f.object).container⟩ : ResultKey) =
      w.resultKey f := by
  unfold view resultKey
  rw [Viewpoint.object_ofObject, Viewpoint.container_ofObject]
  rfl

namespace Recalls

theorem new (functions : Registry σ) {scene : Scene} (hscene : scene.objects.Keyed)
    (settings : Settings) (clock : Clock) (host : σ) :
    Recalls (new functions scene settings clock host) pend :=
  ⟨fun hf => by simp [Workbench.new] at hf, fun hf => by simp [Workbench.new] at hf, .new _ _,
    hscene⟩

/-! ## Changes -/

/-- After a change each formula is in place with its identifier, and pending if it reads something
that changed, or `target` has a formula with a new identifier. -/
theorem step (h : w.Recalls pend) (hw : w.Bound) {changed : Entity → Prop}
    (hc : Changes w w' changed) (hcompiled : w.calculator.compiled ≤ w'.calculator.compiled)
    (hresults : w'.calculator.results.Holds (w.Recalled mid)) (target : Entity)
    (hformulas : ∀ {e : Entity} {f : Formula}, w'.formulas[e]? = some f →
      (∃ g, w.formulas[e]? = some g ∧ f.core = g.core ∧
        (mid e ∨ (∃ p ∈ w.reads g, changed p) → pend' e)) ∨
      (e = target ∧ ¬ w.calculator.Issued f.id ∧ w'.calculator.Issued f.id)) :
    w'.Recalls pend' := by
  have hid : ∀ {f g : Formula}, f.core = g.core → f.id = g.id := fun hcore => by injection hcore
  have hissued : ∀ {id : FormulaId}, w.calculator.Issued id → w'.calculator.Issued id :=
    fun ⟨n, hn, hserial⟩ => ⟨n, hn.trans_le hcompiled, hserial⟩
  refine ⟨fun {e f} hf => ?_, fun {e e' f f'} hf hf' heq => ?_, fun key entry hentry => ?_,
    h.keyed.of_shape hc.shape⟩
  · rcases hformulas hf with ⟨g, hg, hcore, -⟩ | ⟨-, -, hnew⟩
    · rw [hid hcore]
      exact hissued (h.issued hg)
    · exact hnew
  · rcases hformulas hf with ⟨g, hg, hcore, -⟩ | ⟨he, hnew, -⟩ <;>
      rcases hformulas hf' with ⟨g', hg', hcore', -⟩ | ⟨he', hnew', -⟩
    · rw [hid hcore, hid hcore'] at heq
      exact h.distinct hg hg' heq
    · rw [← heq, hid hcore] at hnew'
      exact absurd (h.issued hg) hnew'
    · rw [heq, hid hcore'] at hnew
      exact absurd (h.issued hg') hnew
    · exact he.trans he'.symm
  · obtain ⟨hkey, hrecalled⟩ := hresults key entry hentry
    refine ⟨hissued hkey, fun e f hf heq => ?_⟩
    rw [resultKey_congr hc.shape] at heq
    rcases hformulas hf with ⟨g, hg, hcore, hpend⟩ | ⟨-, hnew, -⟩
    · rw [resultKey_of_core w hcore] at heq
      rcases hrecalled e g hg heq with hvalue | hmid
      · by_cases hreads : ∃ p ∈ w.reads g, changed p
        · exact .inr (hpend (.inr hreads))
        · simp only [not_exists, not_and] at hreads
          rw [meaning_of_core w' hcore, hc.meaning hw.functions (hw.formulas hg).2.2 hreads]
          exact .inl hvalue
      · exact .inr (hpend (.inl hmid))
    · rw [heq] at hkey
      exact absurd hkey hnew

/-- When only cached results were dropped, those that are left are right. -/
theorem still (h : w.Recalls pend) (hw : w.Bound) (hc : Changes w w' fun _ => False)
    (hkept : w.calculator.Kept w'.calculator)
    (hformulas : ∀ {e : Entity} {f : Formula}, w'.formulas[e]? = some f →
      w.formulas[e]? = some f ∧ (pend e → pend' e)) : w'.Recalls pend' := by
  -- No formula is new, so any entity will do for the one that might have a new formula.
  refine h.step hw hc hkept.compiled (hkept.results _ h.results) ⟨"", ""⟩
    fun {e f} hf => .inl ⟨f, (hformulas hf).1, rfl, ?_⟩
  rintro (he | ⟨p, -, hp⟩)
  · exact (hformulas hf).2 he
  · exact hp.elim

end Recalls

theorem SameContent.recalls (h : SameContent w w') (hw : w.Bound) (hrecalls : w.Recalls pend)
    (hpend : ∀ e, pend e → pend' e) : w'.Recalls pend' :=
  hrecalls.still hw (h.changes _) h.calculator fun {e _} hf => ⟨h.formulas ▸ hf, hpend e⟩

/-! ## Evaluations -/

/-- When nothing is cached for its object, a formula is cached with what it means, if that is a
value. -/
theorem Recalls.evaluated (h : w.Recalls pend) (hcoherent : w.Coherent) (hw : w.Bound)
    {target : Entity} {f f' : Formula} {c c' : Calculator σ} {result : Except EvalError Value}
    (hf : w.formulas[target]? = some f) (hc : w.calculator.Kept c)
    (hmisses : c.Misses target.object)
    (heval : c.evaluateCached f w.stores (w.view target.object) = (result, f', c')) :
    w.calculator.compiled ≤ c'.compiled ∧
      c'.results.Holds (w.Recalled fun e => pend e ∧ e ≠ target) := by
  obtain ⟨hcore, hresult, -⟩ := hcoherent.evaluateCached_spec hw hf hc hmisses heval
  obtain ⟨hcompiled, hresults⟩ := Calculator.evaluateCached_results heval
  have hobject := (hw.formulas hf).1
  refine ⟨hcompiled ▸ hc.compiled, hresults _ (fun key entry hentry => ?_) fun v hv => ?_⟩
  · obtain ⟨hkey, hrecalled⟩ := hc.results _ h.results key entry hentry
    refine ⟨hkey, fun e g hg heq => (hrecalled e g hg heq).imp_right fun he => ⟨he, ?_⟩⟩
    rintro rfl
    have hnone := hmisses key (by rw [heq]; exact (hw.formulas hg).1)
    rw [hentry] at hnone
    cases hnone
  · rw [← hobject, view_eq]
    refine ⟨h.issued hf, fun e g hg heq => .inl ?_⟩
    obtain rfl := h.distinct hf hg (congrArg ResultKey.formula heq)
    obtain rfl : f = g := Option.some.inj (hf.symm.trans hg)
    rw [← meaning_of_core w hcore, ← hresult, hv]

/-- Applying a request about a property leaves pending what reads the property. -/
theorem Applies.recalls {r : Request} {result : Except ApplyError Outcome}
    (happly : Applies w r result w') (hw : w.Bound) (hr : r.OfProperty Entity.Plain)
    (hsettled : w.Settled pend) (h : w.Recalls pend) (hpend : ∀ e, pend e → e = r.target ∨ pend' e)
    (hreaders : result.isOk → ∀ e, w.scheduler.graph.Feeds r.target e → pend' e) :
    w'.Recalls pend' := by
  have hreads : ∀ {e : Entity} {g : Formula}, w.formulas[e]? = some g → result.isOk →
      (∃ p ∈ w.reads g, p = r.target) → pend' e := by
    rintro e g hg hok ⟨p, hp, rfl⟩
    exact hreaders hok e ((hw.edges _ e).2 ⟨g, hg, hp⟩)
  -- What is pending besides the target stays pending.
  have hput : ∀ {f f' : Formula} {changed : Entity → Prop}, w.formulas[r.target]? = some f →
      f'.core = f.core → (∀ e, changed e → e = r.target ∧ result.isOk) →
      ∀ {e : Entity} {g : Formula}, (w.formulas.insert r.target f')[e]? = some g →
        ∃ x, w.formulas[e]? = some x ∧ g.core = x.core ∧
          ((pend e ∧ e ≠ r.target) ∨ (∃ p ∈ w.reads x, changed p) → pend' e) := by
    intro f f' changed hf hcore hchanged e g hg
    have hrest : ∀ {x : Formula}, w.formulas[e]? = some x →
        (pend e ∧ e ≠ r.target) ∨ (∃ p ∈ w.reads x, changed p) → pend' e := by
      rintro x hx (⟨he, hne⟩ | ⟨p, hp, hchange⟩)
      · exact (hpend e he).resolve_left hne
      · exact hreads hx (hchanged p hchange).2 ⟨p, hp, (hchanged p hchange).1⟩
    rw [Table.getElem?_insert] at hg
    split at hg
    next he =>
      subst he
      cases hg
      exact ⟨f, hf, hcore, hrest hf⟩
    next => exact ⟨g, hg, rfl, hrest hg⟩
  cases happly with
  | @noted _ calculator hc hnone =>
    have hsame : SameContent w { w with calculator } := ⟨hc, rfl, rfl, rfl⟩
    refine h.still hw (hsame.changes _) hc fun {e f} hf => ⟨hf, fun he =>
      (hpend e he).resolve_left ?_⟩
    rintro rfl
    rcases hnone with hvariable | hnone
    · have hobject := (hw.formulas hf).2.1
      rw [of_decide_eq_true hvariable, hsettled.owner] at hobject
      cases hobject
    · rw [hnone] at hf
      cases hf
  | stored hc hnone hvariable hkind hpayload hwrite =>
    have hplain := (hr.written hkind hpayload).resolve_left hvariable
    refine h.step hw (Changes.write hplain.2 hwrite hc.functions hc.settings (hc.answers _) rfl rfl)
      hc.compiled (hc.results _ h.results) r.target
      fun {e f} hf => .inl ⟨f, hf, rfl, ?_⟩
    rintro (he | he)
    · refine (hpend e he).resolve_left ?_
      rintro rfl
      rw [hnone] at hf
      cases hf
    · exact hreads hf rfl he
  | @failed f f' _ calculator' e _ hf hc hmisses heval =>
    obtain ⟨hcore, -, -, hfunctions, hsettings, hholds⟩ :=
      hsettled.evaluateCached_spec hw hf hc hmisses heval
    obtain ⟨hcompiled, hresults⟩ := h.evaluated hsettled.toCoherent hw hf hc hmisses heval
    have hchanges : Changes w { w with
        calculator := calculator', formulas := w.formulas.insert r.target f' } (fun _ => False) :=
      ⟨hfunctions, hsettings, fun _ => hholds, rfl, fun _ _ => rfl, fun _ _ => rfl⟩
    exact h.step hw hchanges hcompiled hresults r.target
      fun hg => .inl (hput hf hcore (fun _ he => he.elim) hg)
  | computed hf hc hmisses heval hwrite =>
    obtain ⟨hcore, -, -, hfunctions, hsettings, hholds⟩ :=
      hsettled.evaluateCached_spec hw hf hc hmisses heval
    obtain ⟨hcompiled, hresults⟩ := h.evaluated hsettled.toCoherent hw hf hc hmisses heval
    exact h.step hw
      (Changes.write (hsettled.plain hf).2 hwrite hfunctions hsettings (fun _ => hholds) rfl rfl)
      hcompiled hresults r.target
      fun hg => .inl (hput hf hcore (fun _ he => ⟨he, rfl⟩) hg)

/-! ## Operations -/

namespace Recalls

theorem announced (h : w.Recalls pend) (hw : w.Bound) {target : Entity}
    (hpend : ∀ e, pend e → e = target ∨ w.scheduler.graph.Feeds target e ∨ w.scheduler.Waits e)
    (value : Option Value) (priority : Priority) :
    let w' := (w.invalidate [target]).announced target value priority
    w'.Recalls w'.scheduler.Waits :=
  ((SameContent.invalidate w [target]).trans (.announced _ target value priority)).recalls hw h
    (hw.waits_announced hpend value priority)

/-- When one entity changed and the formulas are the same, the formulas that read it are to be
computed. -/
theorem changed (h : w.Recalls pend) (hw : w.Bound) {target : Entity}
    (hc : Changes w w' (· = target)) (hkept : w.calculator.Kept w'.calculator)
    (hformulas : w'.formulas = w.formulas) :
    w'.Recalls fun e => e = target ∨ w.scheduler.graph.Feeds target e ∨ pend e := by
  refine h.step hw hc hkept.compiled (hkept.results _ h.results) target
    fun {e f} hf => .inl ⟨f, hformulas ▸ hf, rfl, ?_⟩
  rintro (he | ⟨p, hp, rfl⟩)
  · exact .inr (.inr he)
  · exact .inr (.inl ((hw.edges p e).2 ⟨f, hformulas ▸ hf, hp⟩))

theorem detached (h : w.Recalls pend) (hw : w.Bound) (e : Entity)
    (hpend : ∀ x, pend x → pend' x) : (w.detached e).Recalls pend' := by
  have hkept : w.calculator.Kept (w.detached e).calculator := by
    rw [calculator_detached]
    exact .refl _
  exact h.still hw (changes_detached w e) hkept fun {x f} hf => ⟨formula_of_detached hf, hpend x⟩

/-- Taking a formula off takes nothing off what waits. -/
theorem detached_waits (h : w.Recalls w.scheduler.Waits) (hw : w.Bound) (e : Entity) :
    (w.detached e).Recalls (w.detached e).scheduler.Waits :=
  h.detached hw e fun x hx => by rwa [Waits, queue_detached]

theorem setValue (h : w.Recalls w.scheduler.Waits) (hsettled : w.Settled w.scheduler.Waits)
    (hw : w.Bound) {object : ObjectId} {property : String} (v : Value) (priority : Priority)
    (hplain : Entity.Plain ⟨object, property⟩) :
    let w' := ((setValue object property v priority).run w).2
    w'.Recalls w'.scheduler.Waits := by
  have hdetached := h.detached_waits hw ⟨object, property⟩
  have hbound := hw.detached ⟨object, property⟩
  rw [run_setValue]
  cases hwrite : (w.detached ⟨object, property⟩).scene.write ⟨object, property⟩ v with
  | error e => exact hdetached
  | ok written =>
    obtain ⟨bounds, scene⟩ := written
    have hname := (hsettled.detached hw ⟨object, property⟩).plain_of_isSome hplain
      (Scene.isSome_of_write hwrite)
    have hchanges : Changes (w.detached ⟨object, property⟩)
        { w.detached ⟨object, property⟩ with scene } (· = ⟨object, property⟩) :=
      .write hname.2 hwrite rfl rfl (fun h => h) rfl rfl
    exact (hdetached.changed hbound hchanges (.refl _) rfl).announced
      (hbound.withScene (Scene.shape_write hwrite)) (fun _ he => he) (some v) priority

/-- Putting a formula in place leaves cached results as right as they were, or its value is written
and what reads it is pending until that is announced. -/
theorem setsFormula (h : w.Recalls pend) (hw : w.Bound) {target : Entity} {source : String}
    {result : Except WorkbenchError Value}
    (hname : (w.scene.get? target.object).isSome → Path.Plain target.property)
    (hset : SetsFormula w target source result w') :
    (w'.scheduler.queue = w.scheduler.queue ∧ w'.Recalls pend) ∨
    ∃ (placed : Workbench σ) (v : Value), placed.Bound ∧
      placed.scheduler.queue = w.scheduler.queue ∧
      (placed.Recalls fun e => e = target ∨ placed.scheduler.graph.Feeds target e ∨ pend e) ∧
      w' = (placed.invalidate [target]).announced target (some v) .normal := by
  -- The new formula has a new identifier, under which nothing is cached.
  have hnew : ∀ {f f' : Formula} {c c' : Calculator σ},
      w.calculator.compile source target.object = .ok (f, c) → c.Kept c' → f'.core = f.core →
      ¬ w.calculator.Issued f'.id ∧ c'.Issued f'.id := by
    intro f f' c c' hcompile hkept hcore
    obtain ⟨hfresh, hissued⟩ := Calculator.compile_issued hcompile
    have hid : f'.id = f.id := by injection hcore
    rw [hid]
    exact ⟨hfresh, hkept.issued hissued⟩
  cases hset with
  | refused => exact .inl ⟨rfl, h⟩
  | @cycle _ _ _ scheduler _ _ hbound =>
    have hsame : SameContent w { w with scheduler } := .rescheduled _ _
    exact .inl ⟨(frame_replaceProducers hbound).1, hsame.recalls hw h fun _ he => he⟩
  | @failed f f' _ calculator scheduler e hobject hcompile hbound heval =>
    obtain ⟨hcore, hkept'⟩ := Calculator.evaluate_kept heval
    have hkept := (Calculator.compile_spec hcompile).2.2.1.trans hkept'
    have hchanges : Changes w { w with
        calculator, scheduler, formulas := w.formulas.insert target f' } (fun _ => False) :=
      ⟨hkept.functions, hkept.settings, hkept.answers _, rfl, fun _ _ => rfl, fun _ _ => rfl⟩
    refine .inl ⟨(frame_replaceProducers hbound).1,
      h.step hw hchanges hkept.compiled (hkept.results _ h.results) target fun {e g} hg => ?_⟩
    rw [Table.getElem?_insert] at hg
    split at hg
    next he =>
      cases hg
      exact .inr ⟨he.symm, hnew hcompile hkept' hcore⟩
    next =>
      refine .inl ⟨g, hg, rfl, ?_⟩
      rintro (he | ⟨p, -, hp⟩)
      · exact he
      · exact hp.elim
  | @written f f' _ calculator scheduler v bounds scene hobject hcompile hbound heval hwrite =>
    obtain ⟨hf, hcompiled, hkept₀, -⟩ := Calculator.compile_spec hcompile
    obtain ⟨hcore, hkept'⟩ := Calculator.evaluate_kept heval
    have hkept := hkept₀.trans hkept'
    have hinsert := hw.insert hobject hf hcompiled hcore hbound hkept
    let placed : Workbench σ := { w with
      calculator, scheduler, formulas := w.formulas.insert target f', scene }
    have hchanges : Changes w placed (· = target) :=
      .write (hname hobject).2 hwrite hkept.functions hkept.settings (hkept.answers _) rfl rfl
    refine .inr ⟨placed, v, hinsert.withScene (Scene.shape_write hwrite),
      (frame_replaceProducers hbound).1, ?_, rfl⟩
    refine h.step hw hchanges hkept.compiled (hkept.results _ h.results) target
      fun {e g} hg => ?_
    have hplaced : (w.formulas.insert target f')[e]? = some g := hg
    rw [Table.getElem?_insert] at hg
    split at hg
    next he =>
      cases hg
      exact .inr ⟨he.symm, hnew hcompile hkept' hcore⟩
    next =>
      refine .inl ⟨g, hg, rfl, ?_⟩
      rintro (he | ⟨p, hp, rfl⟩)
      · exact .inr (.inr he)
      · exact .inr (.inl ((hinsert.edges _ e).2 ⟨g, hplaced, hp⟩))

theorem setFormula (h : w.Recalls w.scheduler.Waits) (hsettled : w.Settled w.scheduler.Waits)
    (hw : w.Bound) {object : ObjectId} {property : String} (source : String)
    (hplain : Entity.Plain ⟨object, property⟩) :
    let w' := ((setFormula object property source).run w).2
    w'.Recalls w'.scheduler.Waits := by
  intro w'
  rcases h.setsFormula hw (hsettled.plain_of_isSome hplain)
    (Workbench.setsFormula w object property source) with
    ⟨hqueue, hrecalls⟩ | ⟨placed, v, hbound, hqueue, hrecalls, heq⟩
  · have hwaits : w'.scheduler.Waits = w.scheduler.Waits := by
      funext e
      rw [Waits, Waits, hqueue]
    rwa [hwaits]
  · have hwaits : placed.scheduler.Waits = w.scheduler.Waits := by
      funext e
      rw [Waits, Waits, hqueue]
    have hannounced := hrecalls.announced hbound (fun e he => hwaits ▸ he) (some v) .normal
    change w' = _ at heq
    rwa [← heq] at hannounced

theorem setsVariable (h : w.Recalls w.scheduler.Waits) (hw : w.Bound) {name : String}
    (hset : SetsVariable w name w') : w'.Recalls w'.scheduler.Waits := by
  cases hset with
  | refused => exact h
  | @changed vars value hvars =>
    have hchanges : Changes w { w with vars } (· = .ofVariable name) := by
      refine ⟨rfl, rfl, fun h => h, rfl, fun _ _ => rfl, fun slot hslot => hvars slot ?_⟩
      rintro rfl
      exact hslot rfl
    exact (h.changed hw hchanges (.refl _) rfl).announced (hw.withVars vars) (fun _ he => he) value
      .normal

theorem notifyProperty (h : w.Recalls w.scheduler.Waits) (hw : w.Bound) (object : ObjectId)
    (payload : Payload) (priority : Priority) :
    let w' := ((notifyChange object ChangeKind.property.name payload priority).run w).2
    w'.Recalls w'.scheduler.Waits := by
  rw [run_notifyProperty]
  cases payload with
  | property property value => exact h.announced hw (fun _ he => .inr (.inr he)) value priority
  | _ => exact h

end Recalls

/-- Applying requests keeps the cached results right, and every formula settled or waiting. -/
theorem served_recalls :
    Served Entity.Plain fun (w : Workbench σ) pend => w.Settled pend ∧ w.Recalls pend :=
  ⟨fun hw hsame h hpend => ⟨hsame.settled hw h.1 hpend, hsame.recalls hw h.2 hpend⟩,
    fun hw hr happlies h hpend hreaders => ⟨happlies.settled hw hr h.1 hpend hreaders,
      happlies.recalls hw hr h.1 h.2 hpend hreaders⟩⟩

theorem Action.recalls (hw : Steady Entity.Plain w) (hsettled : w.Settled w.scheduler.Waits)
    (h : w.Recalls w.scheduler.Waits) {a : Action} (ha : a.Writes Entity.Plain) :
    (a.run w).Recalls (a.run w).scheduler.Waits := by
  cases a with
  | setFormula object property source => exact h.setFormula hsettled hw.bound source ha
  | setValue object property v priority => exact h.setValue hsettled hw.bound v priority ha
  | clearFormula object property => exact h.detached_waits hw.bound _
  | defineVariable name scope context v =>
    exact h.setsVariable hw.bound (setsVariable_define w name scope context v)
  | updateVariable name scope context v =>
    exact h.setsVariable hw.bound (setsVariable_update w name scope context v)
  | deleteVariable name scope context =>
    exact h.setsVariable hw.bound (setsVariable_delete w name scope context)
  | notifyProperty object payload priority =>
    exact h.notifyProperty hw.bound object payload priority
  | drain => exact (served_recalls.drain hw ⟨hsettled, h⟩).2.2

/-! ## Questions -/

theorem run_evaluateProperty (w : Workbench σ) (object : ObjectId) (property : String) :
    (evaluateProperty object property).run w = match w.formulas[Entity.mk object property]? with
      | none => (.error (.noFormula ⟨object, property⟩), w)
      | some f =>
        let (result, f', calculator) := w.calculator.evaluateCached f w.stores (w.view object)
        (result.mapError .eval,
          { w with calculator, formulas := w.formulas.insert ⟨object, property⟩ f' }) := by
  unfold evaluateProperty
  rw [Run.run_bind, Run.run_get]
  dsimp only
  cases w.formulas[Entity.mk object property]? with
  | none => exact Run.run_throw _ _
  | some f =>
    dsimp only
    rw [Run.run_bind, Run.run_set]
    dsimp only
    cases (w.calculator.evaluateCached f w.stores (w.view object)).1 <;> rfl

/-- A question about a formula that is not pending is answered with what the formula means. It is
answered from the cache, which leaves the formula as it is, or computed, which notes what the
formula means. -/
theorem Recalls.evaluateCached (h : w.Recalls pend) (hcoherent : w.Coherent) (hw : w.Bound)
    {target : Entity} {f f' : Formula} {c : Calculator σ} {result : Except EvalError Value}
    (hf : w.formulas[target]? = some f)
    (heval : w.calculator.evaluateCached f w.stores (w.view target.object) = (result, f', c)) :
    (result = w.meaning f ∨ pend target) ∧ (f' = f ∨ f'.Noted (w.meaning f)) ∧
      c.answers.Holds w.Answers ∧ c.results.Holds (w.Recalled pend) := by
  have hobject := (hw.formulas hf).1
  rw [← hobject] at heval
  obtain ⟨hresult, hanswers⟩ := Calculator.evaluateCached_recall hcoherent.timeout
    (hw.hostFree rfl) (fun n _ => Evaluator.asksAt_true _ n)
    (fun key e he _ => Calculator.answers_congr rfl rfl (hcoherent.answers key e he)) h.results
    (hcoherent.constant hf) heval
  obtain ⟨-, hresults⟩ := Calculator.evaluateCached_results heval
  rw [view_eq] at hresult hresults
  refine ⟨?_, ?_, fun key e he => Calculator.answers_congr ?_ rfl (hanswers key e he trivial),
    hresults _ h.results fun v hv => ?_⟩
  · rcases hresult with ⟨v, rfl, -, -, hrecalled⟩ | ⟨hvalue, -⟩
    · exact (hrecalled target f hf rfl).imp_left Eq.symm
    · exact .inl hvalue
  · rcases hresult with ⟨-, -, hsame, -⟩ | ⟨hvalue, hnoted⟩
    · exact .inl hsame
    · rw [hvalue] at hnoted
      exact .inr hnoted
  · rfl
  · rcases hresult with ⟨u, hu, -, hrecalled⟩ | ⟨hvalue, -⟩
    · obtain rfl : v = u := by
        rw [hv] at hu
        exact Except.ok.inj hu
      exact hrecalled
    · refine ⟨h.issued hf, fun e g hg heq => .inl ?_⟩
      obtain rfl := h.distinct hf hg (congrArg ResultKey.formula heq)
      obtain rfl : f = g := Option.some.inj (hf.symm.trans hg)
      exact hvalue.symm.trans hv

/-- A formula that was asked for may be put back as it comes out. -/
theorem Recalls.asked (hw : Steady Entity.Plain w) (hsettled : w.Settled w.scheduler.Waits)
    (h : w.Recalls w.scheduler.Waits) {target : Entity} {f f' : Formula} {c : Calculator σ}
    {result : Except EvalError Value} (hf : w.formulas[target]? = some f)
    (heval : w.calculator.evaluateCached f w.stores (w.view target.object) = (result, f', c)) :
    let w' : Workbench σ := { w with calculator := c, formulas := w.formulas.insert target f' }
    Steady Entity.Plain w' ∧ w'.Settled w'.scheduler.Waits ∧ w'.Recalls w'.scheduler.Waits := by
  obtain ⟨hcore, hfunctions, hsettings⟩ := Calculator.evaluateCached_core heval
  obtain ⟨hcompiled, -⟩ := Calculator.evaluateCached_results heval
  obtain ⟨-, hnoted, hanswers, hresults⟩ := h.evaluateCached hsettled.toCoherent hw.bound hf heval
  intro w'
  have hchanges : Changes w w' (fun _ => False) :=
    ⟨hfunctions, hsettings, fun _ => hanswers, rfl, fun _ _ => rfl, fun _ _ => rfl⟩
  have hplaced : ∀ {e : Entity} {g : Formula}, w'.formulas[e]? = some g →
      w.formulas[e]? = some g ∨ target = e ∧ g = f' := by
    intro e g hg
    have hg : (w.formulas.insert target f')[e]? = some g := hg
    rw [Table.getElem?_insert] at hg
    split at hg
    next he => exact .inr ⟨he, (Option.some.inj hg).symm⟩
    next => exact .inl hg
  have hbound : w'.Bound := by
    refine hw.bound.congr hw.bound.scheduler rfl (fun e => ?_) hfunctions rfl
    show ((w.formulas.insert target f')[e]?).map Formula.core = _
    rw [Table.getElem?_insert]
    split
    next he => rw [← he, hf, Option.map_some, Option.map_some, hcore]
    next => rfl
  refine ⟨hw.of_bound hbound rfl rfl, hsettled.step hw.bound hchanges fun {e g} hg => ?_,
    h.step hw.bound hchanges hcompiled.ge hresults target
      fun {e g} hg => .inl ?_⟩
  · have hkeep : ∀ {x : Formula}, w.formulas[e]? = some x →
        w.scheduler.Waits e ∨ False ∨ (∃ p ∈ w.reads x, False) → w.scheduler.Waits e := by
      rintro x - (he | he | ⟨p, -, hp⟩)
      · exact he
      · exact he.elim
      · exact hp.elim
    rcases hplaced hg with hold | ⟨rfl, rfl⟩
    · exact .inl ⟨hold, hkeep hold⟩
    · rcases hnoted with rfl | hnoted
      · exact .inl ⟨hf, hkeep hf⟩
      · -- What the formula means did not change, so its property still has the value.
        have hmeaning : w'.meaning g = w.meaning f := by
          rw [hchanges.meaning hw.bound.functions ((hw.bound.formulas hf).2.2.of_core hcore)
            (fun _ _ => id), meaning_of_core w hcore]
        refine .inr ⟨hsettled.plain hf, fun v hv => hmeaning.trans (hnoted.settled? hv),
          (hsettled.agrees hf).imp_left fun hagrees => ⟨hmeaning ▸ hnoted, fun v hv => ?_⟩⟩
        exact hagrees.2 v (hmeaning ▸ hv)
  · have hkeep : ∀ {x : Formula},
        w.scheduler.Waits e ∨ (∃ p ∈ w.reads x, False) → w.scheduler.Waits e := by
      rintro x (he | ⟨p, -, hp⟩)
      · exact he
      · exact hp.elim
    rcases hplaced hg with hold | ⟨rfl, rfl⟩
    · exact ⟨g, hold, rfl, hkeep⟩
    · exact ⟨f, hf, hcore, hkeep⟩

/-- A question keeps what the workbench keeps from action to action. -/
theorem evaluates (hw : Steady Entity.Plain w) (hsettled : w.Settled w.scheduler.Waits)
    (h : w.Recalls w.scheduler.Waits) (object : ObjectId) (property : String) :
    let w' := ((evaluateProperty object property).run w).2
    Steady Entity.Plain w' ∧ w'.Settled w'.scheduler.Waits ∧ w'.Recalls w'.scheduler.Waits := by
  rw [run_evaluateProperty]
  cases hf : w.formulas[Entity.mk object property]? with
  | none => exact ⟨hw, hsettled, h⟩
  | some f => exact h.asked hw hsettled hf rfl

/-- An action that writes plain names, or a question. -/
def Operation.Plain : Operation → Prop
  | act a => a.Writes Entity.Plain
  | evaluate _ _ => True
  | notify .. | submit _ | addObject _ | removeObject _ => False

/-- After operations on plain names the cached results are right, and formulas settled, up to what
waits. -/
theorem recalls_perform {ops : List Operation} (hw : Steady Entity.Plain w)
    (hsettled : w.Settled w.scheduler.Waits) (h : w.Recalls w.scheduler.Waits)
    (hops : ∀ op ∈ ops, op.Plain) :
    Steady Entity.Plain (w.perform ops) ∧
      (w.perform ops).Settled (w.perform ops).scheduler.Waits ∧
      (w.perform ops).Recalls (w.perform ops).scheduler.Waits := by
  induction ops generalizing w with
  | nil => exact ⟨hw, hsettled, h⟩
  | cons op ops ih =>
    obtain ⟨hop, hrest⟩ := List.forall_mem_cons.1 hops
    cases op with
    | act a =>
      exact ih (Action.steady hw hop) (Action.settled hw hsettled hop)
        (Action.recalls hw hsettled h hop) hrest
    | evaluate object property =>
      obtain ⟨hw', hsettled', h'⟩ := evaluates hw hsettled h object property
      exact ih hw' hsettled' h' hrest
    | notify => exact hop.elim
    | submit => exact hop.elim
    | addObject => exact hop.elim
    | removeObject => exact hop.elim

end Parametric.Workbench
