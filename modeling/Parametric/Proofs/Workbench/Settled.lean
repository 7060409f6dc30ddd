import Parametric.Proofs.Workbench.Coherent

/-!
# Settled formulas

A formula agrees with a workbench when it has noted what its tree means, and the property that it
drives has that value (`Workbench.Agrees`). A workbench is settled up to some entities when every
other formula agrees (`Workbench.Settled`). A change to a property or a variable unsettles the
formulas that read it and no others (`Settled.step`), and evaluating a formula settles it
(`Settled.put`), since no formula reads what it drives. What an evaluation leaves is said once, in
`Workbench.Evaluated`: a request about a property evaluates the formula that drives it
(`Applies.evaluated`).
-/

namespace Parametric

/-- A variable, or a property with a name without a dot. -/
def Entity.Undotted (e : Entity) : Prop := e.isVariable ∨ Path.Undotted e.property

/-- A variable, or a property with a plain name. -/
def Entity.Plain (e : Entity) : Prop := e.isVariable ∨ Path.Plain e.property

theorem Entity.Plain.undotted {e : Entity} (h : e.Plain) : e.Undotted := h.imp_right And.right

namespace Workbench

variable {σ : Type} {w w' : Workbench σ} {pend pend' : Entity → Prop}

/-! ## Evaluations -/

/-- No formula reads what it drives. -/
theorem Bound.notMem_reads (hw : w.Bound) {e : Entity} {f : Formula}
    (hf : w.formulas[e]? = some f) : e ∉ w.reads f :=
  fun hmem => hw.scheduler.graph.acyclic e (.single ((hw.edges e e).2 ⟨f, hf, hmem⟩))

/-- The formula of an entity was put in place, or evaluated again: it has noted what it means, and
its value is `written`, if it has one. -/
structure Evaluated (w : Workbench σ) (target : Entity) (written : Bool) (f : Formula)
    (w' : Workbench σ) : Prop where
  changes : Changes w w' fun e => e = target ∧ written
  formulas : w'.formulas = w.formulas.insert target f
  compiled : f.Compiled w.calculator.functions
  notMem_reads : target ∉ w.reads f
  noted : f.Noted (w.meaning f)
  write : ∀ v, w.meaning f = .ok v → ∃ bounds, w.scene.write target v = .ok (bounds, w'.scene)

/-- What it read did not change. -/
theorem Evaluated.meaning {target : Entity} {written : Bool} {f : Formula}
    (h : Evaluated w target written f w') (hw : w.Bound) : w'.meaning f = w.meaning f :=
  h.changes.meaning hw.functions h.compiled fun _ hp hchanged => h.notMem_reads (hchanged.1 ▸ hp)

/-- Applying a request about a property evaluates the formula of its target, or changes the target
at most, which no formula drives. -/
theorem Applies.evaluated {r : Request} {result : Except ApplyError Outcome}
    (happly : Applies w r result w') (hw : w.Bound) (h : w.Coherent)
    (hr : r.OfProperty Entity.Undotted)
    (hundotted : (w.formulas[r.target]?).isSome → Path.Undotted r.target.property) :
    (w.formulas[r.target]? = none ∧ w'.formulas = w.formulas ∧
      Changes w w' fun e => e = r.target ∧ result.isOk) ∨
    (w.formulas[r.target]?).isSome ∧ ∃ f, Evaluated w r.target result.isOk f w' := by
  cases happly with
  | @noted _ calculator hc hnone =>
    have hsame : SameContent w { w with calculator } := ⟨hc, rfl, rfl, rfl⟩
    refine .inl ⟨hnone.elim (fun hvariable => ?_) id, rfl, hsame.changes _⟩
    refine Option.eq_none_iff_forall_ne_some.2 fun f hf => ?_
    exact not_isVariable_of_isSome h.owner (hw.formulas hf).2.1 hvariable
  | @stored _ calculator _ scene _ hc hnone hvariable hkind hpayload hwrite =>
    have hname := (hr.written hkind hpayload).resolve_left hvariable
    have hchanges : Changes w { w with calculator, scene } (· = r.target) :=
      .write hname hwrite hc.functions hc.settings (hc.answers _) rfl rfl
    exact .inl ⟨hnone, rfl, hchanges.mono fun e he => ⟨he, rfl⟩⟩
  | @failed f f' _ calculator' e _ hf hc hmisses heval =>
    obtain ⟨hcore, hresult, hnoted, hfunctions, hsettings, hholds⟩ :=
      h.evaluateCached_spec hw hf hc hmisses heval
    refine .inr ⟨hf ▸ rfl, f', ⟨hfunctions, hsettings, fun _ => hholds, rfl, fun _ _ => rfl,
      fun _ _ => rfl⟩, rfl, (hw.formulas hf).2.2.of_core hcore,
      reads_of_core w hcore ▸ hw.notMem_reads hf, hnoted, fun v hv => ?_⟩
    rw [← hresult] at hv
    cases hv
  | @computed f f' _ calculator' _ _ scene bounds hf hc hmisses heval hwrite =>
    obtain ⟨hcore, hresult, hnoted, hfunctions, hsettings, hholds⟩ :=
      h.evaluateCached_spec hw hf hc hmisses heval
    have hchanges : Changes w { w with
        calculator := calculator', formulas := w.formulas.insert r.target f', scene }
        (· = r.target) :=
      .write (hundotted (hf ▸ rfl)) hwrite hfunctions hsettings (fun _ => hholds) rfl rfl
    refine .inr ⟨hf ▸ rfl, f', hchanges.mono fun e he => ⟨he, rfl⟩, rfl,
      (hw.formulas hf).2.2.of_core hcore, reads_of_core w hcore ▸ hw.notMem_reads hf, hnoted,
      fun u hu => ?_⟩
    rw [← hresult] at hu
    cases hu
    exact ⟨bounds, hwrite⟩

/-! ## Agreement -/

/-- A formula has noted what its tree means, and its property has that value. -/
def Agrees (w : Workbench σ) (e : Entity) (f : Formula) : Prop :=
  f.Noted (w.meaning f) ∧ ∀ v, w.meaning f = .ok v → w.scene.objects.field? e = some (.leaf v)

/-- Every formula agrees with the workbench or drives a property that is pending. -/
structure Settled (w : Workbench σ) (pend : Entity → Prop) : Prop extends Coherent w where
  plain : ∀ {e : Entity} {f : Formula}, w.formulas[e]? = some f → Path.Plain e.property
  agrees : ∀ {e : Entity} {f : Formula}, w.formulas[e]? = some f → w.Agrees e f ∨ pend e

/-! ## Changes -/

namespace Settled

/-- After a change each formula is still in place, and pending if it reads something that changed,
or it is put in place anew. -/
theorem step (h : w.Settled pend) (hw : w.Bound) {changed : Entity → Prop}
    (hc : Changes w w' changed)
    (hformulas : ∀ {e : Entity} {f : Formula}, w'.formulas[e]? = some f →
      (w.formulas[e]? = some f ∧ (pend e ∨ changed e ∨ (∃ p ∈ w.reads f, changed p) → pend' e)) ∨
      (Path.Plain e.property ∧ (∀ v, f.settled? = some v → w'.meaning f = .ok v) ∧
        (w'.Agrees e f ∨ pend' e))) :
    w'.Settled pend' where
  toCoherent := h.toCoherent.step hw hc fun {e f} hf => (hformulas hf).imp And.left (·.2.1)
  plain hf := by
    rcases hformulas hf with ⟨hold, -⟩ | ⟨hplain, -⟩
    · exact h.plain hold
    · exact hplain
  agrees := by
    intro e f hf
    rcases hformulas hf with ⟨hold, hpend⟩ | ⟨-, -, hagrees⟩
    · by_cases hsame : pend e ∨ changed e ∨ ∃ p ∈ w.reads f, changed p
      · exact .inr (hpend hsame)
      · simp only [not_or, not_exists, not_and] at hsame
        obtain ⟨hnot, he, hreads⟩ := hsame
        have hmeaning := hc.meaning hw.functions (hw.formulas hold).2.2 hreads
        obtain ⟨hnoted, hvalue⟩ := (h.agrees hold).resolve_right hnot
        refine .inl ⟨hmeaning ▸ hnoted, fun v hv => ?_⟩
        rw [hc.fields e he]
        exact hvalue v (hmeaning ▸ hv)
    · exact hagrees

/-- When no property and no variable changed, the formulas that are still in place stay settled. -/
theorem still (h : w.Settled pend) (hw : w.Bound) (hc : Changes w w' fun _ => False)
    (hformulas : ∀ {e : Entity} {f : Formula}, w'.formulas[e]? = some f →
      w.formulas[e]? = some f ∧ (pend e → pend' e)) : w'.Settled pend' := by
  refine h.step hw hc fun {e f} hf => .inl ⟨(hformulas hf).1, ?_⟩
  rintro (he | he | ⟨p, -, hp⟩)
  · exact (hformulas hf).2 he
  · exact he.elim
  · exact hp.elim

/-- A formula may be evaluated, if what reads its value is pending. -/
theorem put (h : w.Settled pend) (hw : w.Bound) {target : Entity} {written : Bool} {f : Formula}
    (heval : Evaluated w target written f w') (hplain : Path.Plain target.property)
    (hrest : ∀ e, e ≠ target → pend e → pend' e)
    (hreaders : written → ∀ {e : Entity} {g : Formula}, w.formulas[e]? = some g →
      target ∈ w.reads g → pend' e) : w'.Settled pend' := by
  have hmeaning := heval.meaning hw
  refine h.step hw heval.changes fun {e g} hg => ?_
  rw [heval.formulas, Table.getElem?_insert] at hg
  split at hg
  next he =>
    subst he
    cases hg
    refine .inr ⟨hplain, fun v hv => hmeaning.trans (heval.noted.settled? hv),
      .inl ⟨hmeaning ▸ heval.noted, fun v hv => ?_⟩⟩
    obtain ⟨bounds, hwrite⟩ := heval.write v (hmeaning.symm.trans hv)
    exact (Scene.field?_write hplain hwrite _).trans (if_pos rfl)
  next he =>
    refine .inl ⟨hg, ?_⟩
    rintro (hsome | ⟨rfl, -⟩ | ⟨p, hp, rfl, hwritten⟩)
    · exact hrest e (Ne.symm he) hsome
    · exact absurd rfl he
    · exact hreaders hwritten hg hp

end Settled

theorem SameContent.settled (h : SameContent w w') (hw : w.Bound) (hsettled : w.Settled pend)
    (hpend : ∀ e, pend e → pend' e) : w'.Settled pend' :=
  hsettled.still hw (h.changes _) fun {e _} hf => ⟨h.formulas ▸ hf, hpend e⟩

/-! ## Requests -/

/-- After a request was applied its target agrees, if a formula drives it, and what reads the target
is pending. -/
theorem Applies.settled {r : Request} {result : Except ApplyError Outcome}
    (happly : Applies w r result w') (hw : w.Bound) (hr : r.OfProperty Entity.Plain)
    (h : w.Settled pend) (hpend : ∀ e, pend e → e = r.target ∨ pend' e)
    (hreaders : result.isOk → ∀ e, w.scheduler.graph.Feeds r.target e → pend' e) :
    w'.Settled pend' := by
  have hrest : ∀ e, e ≠ r.target → pend e → pend' e :=
    fun e he hpe => (hpend e hpe).resolve_left he
  have hreads : result.isOk → ∀ {e : Entity} {g : Formula}, w.formulas[e]? = some g →
      r.target ∈ w.reads g → pend' e :=
    fun hok e g hg hp => hreaders hok e ((hw.edges _ e).2 ⟨g, hg, hp⟩)
  have hplain : (w.formulas[r.target]?).isSome → Path.Plain r.target.property := fun hsome => by
    obtain ⟨f, hf⟩ := Option.isSome_iff_exists.1 hsome
    exact h.plain hf
  rcases happly.evaluated hw h.toCoherent (hr.mono fun _ => Entity.Plain.undotted)
    (fun hsome => (hplain hsome).2) with ⟨hnone, hformulas, hchanges⟩ | ⟨hsome, f, heval⟩
  · refine h.step hw hchanges fun {e f} hf => ?_
    rw [hformulas] at hf
    have hne : e ≠ r.target := by
      rintro rfl
      rw [hnone] at hf
      cases hf
    refine .inl ⟨hf, ?_⟩
    rintro (he | ⟨rfl, -⟩ | ⟨p, hp, rfl, hok⟩)
    · exact hrest e hne he
    · exact absurd rfl hne
    · exact hreads hok hf hp
  · exact h.put hw heval (hplain hsome) hrest hreads

end Workbench

end Parametric
