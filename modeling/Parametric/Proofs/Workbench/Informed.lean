import Parametric.Proofs.Workbench.Idle
import Parametric.Proofs.Workbench.Ownership
import Parametric.Proofs.Workbench.Writes

/-!
# Informed formulas

A formula is informed when it has noted what its tree means. While all names that are written have
no dots, every formula is informed or drives a property that waits (`Workbench.Informed`): a change
makes all formulas that read it wait, and a formula that is served notes what its tree means. A
write to the empty name changes no object, so the formulas may drive it as well.
-/

namespace Parametric.Workbench

open Scheduler

variable {σ : Type} {w w' : Workbench σ} {pend pend' : Entity → Prop}

/-- Formulas drive names without a dot, and each has noted what its tree means or drives a property
that is pending. -/
structure Informed (w : Workbench σ) (pend : Entity → Prop) : Prop where
  undotted : ∀ {e : Entity} {f : Formula}, w.formulas[e]? = some f → Path.Undotted e.property
  noted : ∀ {e : Entity} {f : Formula}, w.formulas[e]? = some f → f.Noted (w.meaning f) ∨ pend e

namespace Informed

theorem new (scene : Scene) (settings : Settings) (clock : Clock) (host : σ) :
    Informed (new .builtin scene settings clock host) pend :=
  ⟨fun hf => by simp [Workbench.new] at hf, fun hf => by simp [Workbench.new] at hf⟩

/-! ## Changes -/

/-- After a change each formula is still in place, and pending if it reads something that changed,
or it is put in place anew. -/
theorem step (h : w.Informed pend) (hw : w.Bound) {changed : Entity → Prop}
    (hc : Changes w w' changed)
    (hformulas : ∀ {e : Entity} {f : Formula}, w'.formulas[e]? = some f →
      (w.formulas[e]? = some f ∧ (pend e ∨ (∃ p ∈ w.reads f, changed p) → pend' e)) ∨
      (Path.Undotted e.property ∧ f.Noted (w'.meaning f))) : w'.Informed pend' where
  undotted hf := by
    rcases hformulas hf with ⟨hold, -⟩ | ⟨hundotted, -⟩
    · exact h.undotted hold
    · exact hundotted
  noted := by
    intro e f hf
    rcases hformulas hf with ⟨hold, hpend⟩ | ⟨-, hnoted⟩
    · by_cases hsame : pend e ∨ ∃ p ∈ w.reads f, changed p
      · exact .inr (hpend hsame)
      · simp only [not_or, not_exists, not_and] at hsame
        obtain ⟨hnot, hreads⟩ := hsame
        rw [hc.meaning hw.functions (hw.formulas hold).2.2 hreads]
        exact .inl ((h.noted hold).resolve_right hnot)
    · exact .inl hnoted

/-- When no property and no variable changed, the formulas that are still in place stay informed. -/
theorem still (h : w.Informed pend) (hw : w.Bound) (hc : Changes w w' fun _ => False)
    (hformulas : ∀ {e : Entity} {f : Formula}, w'.formulas[e]? = some f →
      w.formulas[e]? = some f ∧ (pend e → pend' e)) : w'.Informed pend' := by
  refine h.step hw hc fun {e f} hf => .inl ⟨(hformulas hf).1, ?_⟩
  rintro (he | ⟨p, -, hp⟩)
  · exact (hformulas hf).2 he
  · exact hp.elim

theorem same (h : w.Informed pend) (hw : w.Bound) (hsame : SameContent w w')
    (hpend : ∀ e, pend e → pend' e) : w'.Informed pend' :=
  h.still hw (hsame.changes _) fun {e _} hf => ⟨hsame.formulas ▸ hf, hpend e⟩

/-- A formula may be evaluated, if what reads its value is pending. -/
theorem put (h : w.Informed pend) (hw : w.Bound) {target : Entity} {written : Bool} {f : Formula}
    (heval : Evaluated w target written f w') (hundotted : Path.Undotted target.property)
    (hrest : ∀ e, e ≠ target → pend e → pend' e)
    (hreaders : written → ∀ {e : Entity} {g : Formula}, w.formulas[e]? = some g →
      target ∈ w.reads g → pend' e) : w'.Informed pend' := by
  refine h.step hw heval.changes fun {e g} hg => ?_
  rw [heval.formulas, Table.getElem?_insert] at hg
  split at hg
  next he =>
    subst he
    cases hg
    exact .inr ⟨hundotted, heval.meaning hw ▸ heval.noted⟩
  next he =>
    refine .inl ⟨hg, ?_⟩
    rintro (hsome | ⟨p, hp, rfl, hwritten⟩)
    · exact hrest e (Ne.symm he) hsome
    · exact hreaders hwritten hg hp

end Informed

/-! ## Requests -/

/-- After a request was applied its target is informed, if a formula drives it, and what reads the
target is pending. -/
theorem Applies.informed {r : Request} {result : Except ApplyError Outcome}
    (happly : Applies w r result w') (hw : w.Bound) (hr : r.OfProperty Entity.Undotted)
    (hcoherent : w.Coherent) (h : w.Informed pend) (hpend : ∀ e, pend e → e = r.target ∨ pend' e)
    (hreaders : result.isOk → ∀ e, w.scheduler.graph.Feeds r.target e → pend' e) :
    w'.Informed pend' := by
  have hrest : ∀ e, e ≠ r.target → pend e → pend' e :=
    fun e he hpe => (hpend e hpe).resolve_left he
  have hreads : result.isOk → ∀ {e : Entity} {g : Formula}, w.formulas[e]? = some g →
      r.target ∈ w.reads g → pend' e :=
    fun hok e g hg hp => hreaders hok e ((hw.edges _ e).2 ⟨g, hg, hp⟩)
  have hundotted : (w.formulas[r.target]?).isSome → Path.Undotted r.target.property :=
    fun hsome => by
      obtain ⟨f, hf⟩ := Option.isSome_iff_exists.1 hsome
      exact h.undotted hf
  rcases happly.evaluated hw hcoherent hr hundotted with
    ⟨hnone, hformulas, hchanges⟩ | ⟨hsome, f, heval⟩
  · refine h.step hw hchanges fun {e f} hf => ?_
    rw [hformulas] at hf
    have hne : e ≠ r.target := by
      rintro rfl
      rw [hnone] at hf
      cases hf
    refine .inl ⟨hf, ?_⟩
    rintro (he | ⟨p, hp, rfl, hok⟩)
    · exact hrest e hne he
    · exact hreads hok hf hp
  · exact h.put hw heval (hundotted hsome) hrest hreads

/-- Applying requests keeps every formula informed or waiting. -/
theorem served_informed :
    Served Entity.Undotted fun (w : Workbench σ) pend => w.Coherent ∧ w.Informed pend :=
  ⟨fun hw hsame h hpend => ⟨h.1.same hw hsame, h.2.same hw hsame hpend⟩,
    fun hw hr happlies h hpend hreaders =>
      ⟨happlies.coherent hw h.1, happlies.informed hw hr h.1 h.2 hpend hreaders⟩⟩

/-! ## Actions -/

namespace Informed

/-- Once a change is announced, what reads it waits. -/
theorem announced (h : w.Informed pend) (hw : w.Bound) {target : Entity}
    (hpend : ∀ e, pend e → e = target ∨ w.scheduler.graph.Feeds target e ∨ w.scheduler.Waits e)
    (value : Option Value) (priority : Priority) :
    let w' := (w.invalidate [target]).announced target value priority
    w'.Informed w'.scheduler.Waits :=
  h.same hw ((SameContent.invalidate w [target]).trans (.announced _ target value priority))
    (hw.waits_announced hpend value priority)

/-- When one entity changed and the formulas are the same, the formulas that read it are to be
computed. -/
theorem changed (h : w.Informed w.scheduler.Waits) (hw : w.Bound) {target : Entity}
    (hc : Changes w w' (· = target)) (hformulas : w'.formulas = w.formulas) :
    w'.Informed fun e => e = target ∨ w.scheduler.graph.Feeds target e ∨ w.scheduler.Waits e := by
  refine h.step hw hc fun {e f} hf => .inl ⟨hformulas ▸ hf, ?_⟩
  rintro (he | ⟨p, hp, rfl⟩)
  · exact .inr (.inr he)
  · exact .inr (.inl ((hw.edges p e).2 ⟨f, hformulas ▸ hf, hp⟩))

theorem detached (h : w.Informed w.scheduler.Waits) (hw : w.Bound) (e : Entity) :
    (w.detached e).Informed (w.detached e).scheduler.Waits := by
  refine h.still hw (changes_detached w e) fun {x f} hf => ⟨formula_of_detached hf, fun hx => ?_⟩
  rwa [Waits, queue_detached]

theorem setValue (h : w.Informed w.scheduler.Waits) (hw : w.Bound) {object : ObjectId}
    {property : String} (v : Value) (priority : Priority) (hproperty : Path.Undotted property) :
    let w' := ((setValue object property v priority).run w).2
    w'.Informed w'.scheduler.Waits := by
  have hdetached := h.detached hw ⟨object, property⟩
  have hbound := hw.detached ⟨object, property⟩
  rw [run_setValue]
  cases hwrite : (w.detached ⟨object, property⟩).scene.write ⟨object, property⟩ v with
  | error e => exact hdetached
  | ok written =>
    obtain ⟨bounds, scene⟩ := written
    have hchanges : Changes (w.detached ⟨object, property⟩)
        { w.detached ⟨object, property⟩ with scene } (· = ⟨object, property⟩) :=
      .write hproperty hwrite rfl rfl (fun h => h) rfl rfl
    exact (hdetached.changed hbound hchanges rfl).announced
      (hbound.withScene (Scene.shape_write hwrite)) (fun _ he => he) (some v) priority

theorem setFormula (h : w.Informed w.scheduler.Waits) (hcoherent : w.Coherent) (hw : w.Bound)
    {object : ObjectId} {property : String} (source : String)
    (hproperty : Path.Undotted property) :
    let w' := ((setFormula object property source).run w).2
    w'.Informed w'.scheduler.Waits := by
  intro w'
  obtain ⟨hwaits, hsame | ⟨-, f, heval, hreaders⟩⟩ :=
    (Workbench.setsFormula w object property source).evaluated hw hcoherent fun _ => hproperty
  · exact h.same hw hsame hwaits
  · exact h.put hw heval hproperty (fun e _ => hwaits e) hreaders

theorem setsVariable (h : w.Informed w.scheduler.Waits) (hw : w.Bound) {name : String}
    (hset : SetsVariable w name w') : w'.Informed w'.scheduler.Waits := by
  cases hset with
  | refused => exact h
  | @changed vars value hvars =>
    have hchanges : Changes w { w with vars } (· = .ofVariable name) :=
      ⟨rfl, rfl, fun h => h, rfl, fun _ _ => rfl, fun slot hslot => hvars slot fun heq => hslot ?_⟩
    · exact (h.changed hw hchanges rfl).announced (hw.withVars vars) (fun _ he => he) value .normal
    · rw [heq]

theorem notifyProperty (h : w.Informed w.scheduler.Waits) (hw : w.Bound) (object : ObjectId)
    (payload : Payload) (priority : Priority) :
    let w' := ((notifyChange object ChangeKind.property.name payload priority).run w).2
    w'.Informed w'.scheduler.Waits := by
  rw [run_notifyProperty]
  cases payload with
  | property property value => exact h.announced hw (fun _ he => .inr (.inr he)) value priority
  | _ => exact h

end Informed

/-- An action keeps every formula informed or waiting. -/
theorem Action.informed (hw : Steady Entity.Undotted w) (hcoherent : w.Coherent)
    (h : w.Informed w.scheduler.Waits) {a : Action} (ha : Operation.InPlace (.act a)) :
    (a.run w).Informed (a.run w).scheduler.Waits := by
  cases a with
  | setFormula object property source => exact h.setFormula hcoherent hw.bound source ha
  | setValue object property v priority => exact h.setValue hw.bound v priority ha
  | clearFormula object property => exact h.detached hw.bound _
  | defineVariable name scope context v =>
    exact h.setsVariable hw.bound (setsVariable_define w name scope context v)
  | updateVariable name scope context v =>
    exact h.setsVariable hw.bound (setsVariable_update w name scope context v)
  | deleteVariable name scope context =>
    exact h.setsVariable hw.bound (setsVariable_delete w name scope context)
  | notifyProperty object payload priority =>
    exact h.notifyProperty hw.bound object payload priority
  | drain => exact (served_informed.drain hw ⟨hcoherent, h⟩).2.2

/-- An action that names no property with a dot writes to none. -/
theorem Action.writes_undotted {a : Action} (ha : Operation.InPlace (.act a)) :
    a.Writes Entity.Undotted := by
  cases a with
  | setFormula | setValue => exact .inr ha
  | clearFormula | drain => trivial
  | defineVariable | updateVariable | deleteVariable => exact .inl (decide_eq_true rfl)
  | notifyProperty => exact fun property v hpayload => .inr (ha property _ hpayload)

theorem informed_after (hw : Steady Entity.Undotted w) (hcoherent : w.Coherent)
    (h : w.Informed w.scheduler.Waits) {actions : List Action}
    (hundotted : ∀ a ∈ actions, Operation.InPlace (.act a)) :
    (w.after actions).Informed (w.after actions).scheduler.Waits := by
  induction actions generalizing w with
  | nil => exact h
  | cons a actions ih =>
    obtain ⟨ha, hrest⟩ := List.forall_mem_cons.1 hundotted
    exact ih (Action.steady hw (Action.writes_undotted ha)) (hcoherent.act hw a)
      (Action.informed hw hcoherent h ha) hrest

end Parametric.Workbench
