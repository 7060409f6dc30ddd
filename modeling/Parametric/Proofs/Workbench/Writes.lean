import Parametric.Proofs.Lens
import Parametric.Proofs.Workbench.Cycles
import Parametric.Proofs.Workbench.Idle
import Parametric.Proofs.Workbench.Operation

/-!
# What follows a write

A value may be written under any path of names. When the path is a plain name, all formulas are up
to date again once nothing waits. Any other path, a nested one or one with a stray dot, names an
entity that no formula reads: its news wait alone and no formula is evaluated (`Workbench.Echoes`),
so a formula is up to date afterwards only if the write changed neither what its tree gives nor its
property (`plain_write_followed`).
-/

namespace Parametric

/-- A request to compute again, or the news that the target has a value. -/
def Request.Reports (v : Value) (r : Request) : Prop :=
  r.kind = .recompute ∨ r.kind = .property ∧ r.payload = .property r.target.property (some v)

theorem Request.stable_reports (v : Value) : Request.Stable (Reports v) := by
  refine ⟨fun r hr => .inl hr, fun r priority payload _ hr => ?_⟩
  refine hr.imp_right fun ⟨hkind, hpayload⟩ => ⟨hkind, ?_⟩
  simp [absorb, hpayload, Payload.isRecompute]

theorem Request.Reports.affected {v : Value} {r : Request} (hr : r.Reports v) :
    r.affected = [r.target] := by
  rcases hr with hkind | ⟨hkind, -⟩ <;> rw [Request.affected, hkind] <;> rfl

/-! ## Writing a value twice -/

theorem Object.set_set (o : Object) (v : Value) (path : Path) :
    (o.set v path).set v path = o.set v path := by
  cases path with
  | nil => rfl
  | cons name path =>
    have hrecord : ∀ p : Property, Property.record (p.set v (name :: path)).fields =
        p.set v (name :: path) := fun _ => rfl
    simp only [set, hrecord, Property.set_set]

/-- Writing a value once more changes nothing. -/
theorem ObjectTable.set?_set? {t t' t'' : ObjectTable} {id : ObjectId} {path : Path} {v : Value}
    (h : t.set? id path v = some t') (h' : t'.set? id path v = some t'') : t'' = t' := by
  unfold set? at h
  obtain ⟨o, ho, rfl⟩ := Option.map_eq_some_iff.1 h
  have hget : ObjectTable.get? { t with objects := t.objects.insert id (o.set v path) } id =
      some (o.set v path) := by
    rw [get?, Table.getElem?_insert, if_pos rfl]
  unfold set? at h'
  rw [hget, Option.map_some, Option.some.injEq, Object.set_set] at h'
  rw [← h']
  congr 1
  ext1 a
  rw [Table.getElem?_insert, Table.getElem?_insert]
  split <;> rfl

namespace Workbench

open Scheduler

variable {σ : Type} {w w' base : Workbench σ} {e : Entity} {v : Value} {r : Request}

/-! ## Formulas that are up to date -/

/-- A formula noted what its tree gives, and if that is a value its property has it. -/
def UpToDate (w : Workbench σ) (e : Entity) (f : Formula) : Prop :=
  f.Noted (w.fresh f) ∧ ∀ v, w.fresh f = .ok v → w.property? e.object e.property = some v

/-- The field of a plain name with a value is a leaf. -/
theorem field?_of_property? (hplain : Path.Plain e.property)
    (h : w.property? e.object e.property = some v) :
    w.scene.objects.field? e = some (.leaf v) := by
  unfold property? Scene.get? at h
  rw [Path.ofString_of_plain hplain] at h
  unfold ObjectTable.field?
  cases ho : w.scene.objects.get? e.object with
  | none => simp [ho] at h
  | some o =>
    simp only [ho, Option.bind_some, Object.value?_cons] at h ⊢
    obtain ⟨p, hp, hvalue⟩ := Option.bind_eq_some_iff.1 h
    cases p with
    | leaf u =>
      cases hvalue
      exact hp
    | record fs => cases hvalue

theorem agrees_iff_of_fresh {f : Formula} (hfresh : w.fresh f = w.meaning f)
    (hplain : Path.Plain e.property) : w.Agrees e f ↔ w.UpToDate e f := by
  unfold Agrees UpToDate
  rw [hfresh]
  refine and_congr_right fun _ => forall₂_congr fun v _ => ?_
  exact ⟨property?_of_field? hplain, field?_of_property? hplain⟩

theorem agrees_iff_upToDate (h : w.Coherent) (hw : w.Bound) {f : Formula}
    (hplain : Path.Plain e.property) : w.Agrees e f ↔ w.UpToDate e f :=
  agrees_iff_of_fresh (h.fresh hw f) hplain

/-- A formula that was up to date and noted nothing since is up to date if its tree gives the same
value, and its property still has it. -/
theorem UpToDate.iff_same {f : Formula} (h : w.UpToDate e f) :
    w'.UpToDate e f ↔ (w'.fresh f).toOption = (w.fresh f).toOption ∧
      ∀ v, w.fresh f = .ok v → w'.property? e.object e.property = some v := by
  obtain ⟨hnoted, -⟩ := h
  unfold UpToDate
  cases hfresh : w.fresh f with
  | error reason =>
    rw [hfresh] at hnoted
    cases hfresh' : w'.fresh f with
    | error reason' => exact ⟨fun _ => ⟨rfl, by simp⟩, fun _ => ⟨hnoted, by simp⟩⟩
    | ok v =>
      refine ⟨fun hv => ?_, fun hv => by simp [Except.toOption] at hv⟩
      obtain ⟨⟨hfailing, -⟩, -⟩ := hv
      have htrue : f.failing = true := hnoted
      rw [hfailing] at htrue
      cases htrue
  | ok u =>
    rw [hfresh] at hnoted
    cases hfresh' : w'.fresh f with
    | error reason =>
      refine ⟨fun hv => ?_, fun hv => by simp [Except.toOption] at hv⟩
      have hfailing : f.failing = true := hv.1
      rw [hnoted.1] at hfailing
      cases hfailing
    | ok v =>
      constructor
      · rintro ⟨⟨-, hlast⟩, hproperty⟩
        obtain rfl : u = v := Option.some.inj (hnoted.2.symm.trans hlast)
        exact ⟨rfl, hproperty⟩
      · rintro ⟨hsame, hproperty⟩
        obtain rfl : v = u := Option.some.inj hsame
        exact ⟨hnoted, hproperty⟩

/-! ## Whatever is written -/

/-- Applying requests keeps a workbench coherent. -/
theorem served_coherent (ok : Entity → Prop) :
    Served ok fun (w : Workbench σ) _ => w.Coherent :=
  ⟨fun hw hsame h _ => h.same hw hsame, fun hw _ happlies h _ _ => happlies.coherent hw h⟩

namespace Coherent

theorem detached (h : w.Coherent) (hw : w.Bound) (e : Entity) : (w.detached e).Coherent :=
  h.step hw (changes_detached w e) fun hf => .inl (formula_of_detached hf)

theorem announced (h : w.Coherent) (hw : w.Bound) (e : Entity) (value : Option Value)
    (priority : Priority) : ((w.invalidate [e]).announced e value priority).Coherent :=
  h.same hw ((SameContent.invalidate w [e]).trans (.announced _ e value priority))

theorem setValue (h : w.Coherent) (hw : w.Bound) (object : ObjectId) (property : String)
    (v : Value) (priority : Priority) :
    ((setValue object property v priority).run w).2.Coherent := by
  have hdetached := h.detached hw ⟨object, property⟩
  have hbound := hw.detached ⟨object, property⟩
  rw [run_setValue]
  cases hwrite : (w.detached ⟨object, property⟩).scene.write ⟨object, property⟩ v with
  | error e => exact hdetached
  | ok written =>
    obtain ⟨bounds, scene⟩ := written
    have hwritten : Coherent { w.detached ⟨object, property⟩ with scene } :=
      hdetached.step hbound (.writeAt hwrite rfl rfl (fun h => h) rfl rfl) fun hf => .inl hf
    exact hwritten.announced (hbound.withScene (Scene.shape_write hwrite)) _ _ _

theorem setFormula (h : w.Coherent) (hw : w.Bound) (object : ObjectId) (property source : String) :
    ((setFormula object property source).run w).2.Coherent := by
  have hspec := Workbench.setsFormula w object property source
  generalize (Workbench.setFormula object property source).run w = outcome at hspec
  obtain ⟨result, w'⟩ := outcome
  cases hspec with
  | refused => exact h
  | cycle => exact h.same hw (.rescheduled _ _)
  | @failed f f' _ calculator scheduler e hobject hcompile hbound heval =>
    obtain ⟨-, hcompiled, hkept, -, hnoted⟩ := h.evaluate_spec hw hcompile heval
    have hchanges : Changes w { w with
        calculator, scheduler, formulas := w.formulas.insert ⟨object, property⟩ f' }
        (fun _ => False) :=
      ⟨hkept.functions, hkept.settings, hkept.answers _, rfl, fun _ _ => rfl, fun _ _ => rfl⟩
    exact h.put hw hchanges rfl hcompiled hnoted
  | @written f f' _ calculator scheduler v bounds scene hobject hcompile hbound heval hwrite =>
    obtain ⟨hf, hcompiled, -⟩ := Calculator.compile_spec hcompile
    obtain ⟨hcore, hcompiled', hkept, -, hnoted⟩ := h.evaluate_spec hw hcompile heval
    have hinsert := hw.insert hobject hf hcompiled hcore hbound hkept
    let placed : Workbench σ := { w with
      calculator, scheduler, formulas := w.formulas.insert ⟨object, property⟩ f', scene }
    have hput : placed.Coherent :=
      h.put hw (.writeAt hwrite hkept.functions hkept.settings (hkept.answers _) rfl rfl) rfl
        hcompiled' hnoted
    exact hput.announced (hinsert.withScene (Scene.shape_write hwrite)) _ _ _

theorem setsVariable (h : w.Coherent) (hw : w.Bound) {name : String}
    (hset : SetsVariable w name w') : w'.Coherent := by
  cases hset with
  | refused => exact h
  | @changed vars value hvars =>
    have hchanges : Changes w { w with vars } (fun _ => True) :=
      ⟨rfl, rfl, fun h => h, rfl, fun _ _ => rfl, fun _ hslot => (hslot trivial).elim⟩
    exact (h.step hw hchanges fun hf => .inl hf).announced (hw.withVars vars) _ _ _

theorem notifyProperty (h : w.Coherent) (hw : w.Bound) (object : ObjectId) (payload : Payload)
    (priority : Priority) :
    ((notifyChange object ChangeKind.property.name payload priority).run w).2.Coherent := by
  rw [run_notifyProperty]
  cases payload with
  | property property value => exact h.announced hw _ _ _
  | _ => exact h

/-- Every action keeps a workbench coherent. -/
theorem act {ok : Entity → Prop} (h : w.Coherent) (hw : Steady ok w) (a : Action) :
    (a.run w).Coherent := by
  cases a with
  | setFormula object property source => exact h.setFormula hw.bound object property source
  | setValue object property v priority => exact h.setValue hw.bound object property v priority
  | clearFormula object property => exact h.detached hw.bound _
  | defineVariable name scope context v =>
    exact h.setsVariable hw.bound (setsVariable_define w name scope context v)
  | updateVariable name scope context v =>
    exact h.setsVariable hw.bound (setsVariable_update w name scope context v)
  | deleteVariable name scope context =>
    exact h.setsVariable hw.bound (setsVariable_delete w name scope context)
  | notifyProperty object payload priority =>
    exact h.notifyProperty hw.bound object payload priority
  | drain => exact ((served_coherent ok).drain hw h).2

end Coherent

theorem coherent_after (hw : Steady (fun _ => True) w) (h : w.Coherent) (actions : List Action) :
    (w.after actions).Coherent := by
  induction actions generalizing w with
  | nil => exact h
  | cons a actions ih => exact ih (Action.steady hw a.writes_true) (h.act hw a)

/-! ## Writes that no formula reads -/

/-- At most the news of one property waits, which no formula drives or reads. Formulas, variables
and objects are as in `base`, where writing the value of the news changes nothing. -/
structure Echoes (base : Workbench σ) (e : Entity) (v : Value) (w : Workbench σ) : Prop where
  serves : w.scheduler.Serves (Request.Reports v)
  waits : ∀ t, w.scheduler.Waits t → t = e
  unfed : ∀ c, ¬ w.scheduler.graph.Feeds e c
  undriven : base.formulas[e]? = none
  written : ∀ {t : ObjectTable},
    base.scene.objects.set? e.object (Path.ofString e.property) v = some t →
    t = base.scene.objects
  formulas : w.formulas = base.formulas
  vars : w.vars = base.vars
  objects : w.scene.objects = base.scene.objects

namespace Echoes

/-- What waits is news of the property. -/
theorem pop (h : Echoes base e v w) {queue : Queue}
    (hpop : w.scheduler.queue.pop = (some r, queue)) :
    r.target = e ∧ r.Reports v ∧
      Echoes base e v { w with scheduler := { w.scheduler with queue } } := by
  obtain ⟨hr, hserves⟩ := h.serves.pop hpop
  obtain ⟨hpending, -, hpendingFor⟩ := h.serves.sound.numbered.indexed.pop_some hpop
  have htarget : r.target = e := h.waits _ (by rw [Waits, hpending, Option.isSome_some])
  refine ⟨htarget, hr, { h with serves := hserves, waits := fun t ht => ?_ }⟩
  rw [Waits, hpendingFor] at ht
  split at ht
  · cases ht
  · exact h.waits t ht

/-- Serving the news writes the value once more, and changes nothing. -/
theorem effect (h : Echoes base e v w) (htarget : r.target = e) (hr : r.Reports v)
    {result : Except ApplyError Outcome} (heffect : Effect w r result w') :
    Echoes base e v w' := by
  have hnone : w.formulas[r.target]? = none := by
    rw [h.formulas, htarget]
    exact h.undriven
  cases heffect with
  | noted => exact { h with }
  | @changed outcome calculator scene _ _ _ hchange =>
    suffices hobjects : scene.objects = w.scene.objects from
      { h with objects := hobjects.trans h.objects }
    rcases hr with hkind | ⟨hkind, hpayload⟩
    · obtain ⟨error, herror⟩ := w.scene.applyChange_recompute hkind
      rw [herror] at hchange
      cases hchange
    · rcases w.scene.applyChange_property hkind hpayload with
        ⟨error, herror⟩ | ⟨outcome, hok⟩ | ⟨u, bounds, scene, outcome, hu, hwrite, hok⟩
      · rw [herror] at hchange
        cases hchange
      · rw [hok] at hchange
        cases hchange
        rfl
      · rw [hok] at hchange
        cases hchange
        obtain rfl : v = u := Option.some.inj hu
        unfold Scene.write at hwrite
        rw [htarget, h.objects] at hwrite
        split at hwrite
        · cases hwrite
        next ht =>
          cases hwrite
          rw [h.objects]
          exact h.written ht
  | failed _ hf =>
    rw [hnone] at hf
    cases hf
  | computed _ hf =>
    rw [hnone] at hf
    cases hf

/-- Nothing follows from the news, since nothing reads the property. -/
theorem cascade (h : Echoes base e v w) (htarget : r.target = e) (hr : r.Reports v)
    (outcome : Outcome) :
    Echoes base e v { w with scheduler := w.scheduler.cascade r outcome } := by
  have hsound := h.serves.sound
  obtain ⟨queue, next, heq, -⟩ := cascade_spec hsound.numbered r outcome
  have hwaits := waits_cascade hsound r outcome
  have hserves := h.serves.cascade (Request.stable_reports v) r outcome
  rw [heq] at hwaits hserves ⊢
  refine { h with serves := hserves, waits := fun t ht => ?_ }
  rcases (hwaits t).1 ht with ⟨x, hx, ht⟩ | ht
  · rw [hr.affected, htarget, List.mem_singleton] at hx
    subst hx
    exact absurd ht (h.unfed t)
  · exact h.waits t ht

theorem course (base : Workbench σ) (e : Entity) (v : Value) : Course (Echoes base e v) where
  sound h := h.serves.sound
  unread h := h.serves.unread
  same h hsame halike := { h with
    serves := h.serves.alike halike
    waits := fun t ht => h.waits t (by rwa [Waits, ← halike.pendingFor])
    unfed := by
      rw [halike.graph]
      exact h.unfed
    formulas := hsame.formulas.trans h.formulas
    vars := hsame.vars.trans h.vars
    objects := hsame.objects.trans h.objects }
  failed h hpop heffect := by
    obtain ⟨htarget, hr, hpopped⟩ := h.pop hpop
    exact hpopped.effect htarget hr heffect
  applied h hpop heffect := by
    obtain ⟨htarget, hr, hpopped⟩ := h.pop hpop
    exact (hpopped.effect htarget hr heffect).cascade htarget hr _

theorem drains (h : Echoes base e v w) (n : Nat) :
    Echoes base e v (w.after (List.replicate n .drain)) := by
  induction n generalizing w with
  | zero => exact h
  | succ n ih => exact ih ((course base e v).drain h)

end Echoes

/-- What no formula reads is written, and its news wait alone. -/
theorem echoes_setValue (hw : w.Bound) (hunread : w.scheduler.inbox.unread = [])
    (hidle : w.scheduler.isIdle) {object : ObjectId} {property : String} (v : Value)
    (priority : Priority) (hundriven : w.formulas[Entity.mk object property]? = none)
    (hunfed : ∀ c, ¬ w.scheduler.graph.Feeds ⟨object, property⟩ c) :
    let w' := ((setValue object property v priority).run w).2
    w'.formulas = w.formulas ∧ Echoes w' ⟨object, property⟩ v w' := by
  have hserves : w.scheduler.Serves (Request.Reports v) :=
    ⟨hw.scheduler, hunread, all_of_isIdle hidle _⟩
  rw [run_setValue, detached_of_none hundriven]
  cases hwrite : w.scene.write ⟨object, property⟩ v with
  | error e =>
    refine ⟨rfl, hserves, fun t ht => (not_waits_of_isIdle hidle t ht).elim, hunfed, hundriven,
      fun {t} ht => ?_, rfl, rfl, rfl⟩
    unfold Scene.write at hwrite
    rw [ht] at hwrite
    cases hwrite
  | ok written =>
    obtain ⟨bounds, scene⟩ := written
    have hreports : (w.scheduler.announced ⟨object, property⟩ (some v) priority).Serves
        (Request.Reports v) :=
      hserves.announced (Request.stable_reports v) _ _ _ fun _ => .inr ⟨rfl, rfl⟩
    refine ⟨rfl, hreports, fun t ht => ?_, ?_, hundriven, fun {t} ht => ?_, rfl, rfl, rfl⟩
    · rcases (waits_announced hw.scheduler _ _ _ t).1 ht with rfl | ht | ht
      · rfl
      · -- What is downstream of the property starts with an edge out of it.
        obtain ⟨hne, root, hroot, hpath⟩ := (Graph.mem_downstream_iff hw.scheduler.graph _ t).1 ht
        obtain rfl := List.mem_singleton.1 hroot
        rcases Relation.ReflTransGen.cases_head hpath with rfl | ⟨c, hc, -⟩
        · exact absurd (List.mem_singleton_self _) hne
        · exact absurd hc (hunfed c)
      · exact (not_waits_of_isIdle hidle t ht).elim
    · obtain ⟨hkeeps, -⟩ := announced_spec hw.scheduler ⟨object, property⟩ (some v) priority
      have hgraph : (w.scheduler.announced ⟨object, property⟩ (some v) priority).graph =
          w.scheduler.graph := hkeeps.graph
      exact fun c hc => hunfed c (hgraph ▸ hc)
    · unfold Scene.write at hwrite
      split at hwrite
      · cases hwrite
      next ht' =>
        cases hwrite
        exact ObjectTable.set?_set? ht' ht

/-- Take a workbench with the built-in functions, time to evaluate them and no object in the place
of the variables. Let any actions be carried out on it, and let nothing wait and all formulas be up
to date and drive plain names. Then write a value and drain until nothing waits. When the value was
written to a plain name, every formula is up to date. When it was not, no formula was evaluated: one
is up to date exactly if its tree gives the value that it gave before, and its property has it. -/
theorem plain_write_followed (scene : Scene) (settings : Settings) (clock : Clock) (host : σ)
    (howner : scene.get? Entity.variableOwner = none) (htimeout : 0 < settings.evaluation.timeout)
    (actions : List Action) (object : ObjectId) (property : String) (v : Value)
    (priority : Priority) (drains : Nat) :
    let w := (new .builtin scene settings clock host).after actions
    let w' := w.after (.setValue object property v priority :: List.replicate drains .drain)
    w.scheduler.isIdle → w'.scheduler.isIdle →
    (∀ (e : Entity) (f : Formula), w.formulas[e]? = some f →
      Path.Plain e.property ∧ w.UpToDate e f) →
    (Path.Plain property →
      ∀ (e : Entity) (f : Formula), w'.formulas[e]? = some f → w'.UpToDate e f) ∧
    (¬ Path.Plain property → w'.formulas = w.formulas ∧
      ∀ (e : Entity) (f : Formula), w.formulas[e]? = some f →
        (w'.UpToDate e f ↔ (w'.fresh f).toOption = (w.fresh f).toOption ∧
          ∀ u, w.fresh f = .ok u → w'.property? e.object e.property = some u)) := by
  intro w w' hidle hidle' hformulas
  have hw : Steady (fun _ => True) w := steady_after (.new _ _ _ _ _) fun a _ => a.writes_true
  have hcoherent : w.Coherent :=
    coherent_after (.new _ _ _ _ _) (.new scene settings clock host howner htimeout) actions
  refine ⟨fun hplain e f hf => ?_, fun hplain => ?_⟩
  · -- Nothing waits in `w` and everything agrees, so the write is an action among others.
    have hsettled : w.Settled w.scheduler.Waits :=
      { hcoherent with
        plain := fun hf => (hformulas _ _ hf).1
        agrees := fun hf =>
          .inl ((agrees_iff_upToDate hcoherent hw.bound (hformulas _ _ hf).1).2
            (hformulas _ _ hf).2) }
    have hsteady : Steady Entity.Plain w := ⟨hw.bound, hw.unread, all_of_isIdle hidle _⟩
    have hwrites : ∀ a ∈ Action.setValue object property v priority ::
        List.replicate drains .drain, a.Writes Entity.Plain := by
      simp [Action.Writes, Entity.Plain, hplain]
    have hsteady' : Steady Entity.Plain w' := steady_after hsteady hwrites
    have hsettled' : w'.Settled w'.scheduler.Waits := settled_after hsteady hsettled hwrites
    exact (agrees_iff_upToDate hsettled'.toCoherent hsteady'.bound (hsettled'.plain hf)).1
      ((hsettled'.agrees hf).resolve_right (not_waits_of_isIdle hidle' e))
  · have hundriven : w.formulas[Entity.mk object property]? = none :=
      Option.eq_none_iff_forall_ne_some.2 fun f hf => hplain (hformulas _ _ hf).1
    have hunfed : ∀ c, ¬ w.scheduler.graph.Feeds ⟨object, property⟩ c := by
      intro c hc
      obtain ⟨f, hf, hread⟩ := (hw.bound.edges _ c).1 hc
      exact hplain
        (plain_of_mem_reads hw.bound.functions (hw.bound.formulas hf).2.2 hread)
    obtain ⟨hsame, hechoes⟩ :=
      echoes_setValue hw.bound hw.unread hidle v priority hundriven hunfed
    have hdone : w'.formulas = w.formulas := (hechoes.drains drains).formulas.trans hsame
    exact ⟨hdone, fun e f hf => (hformulas e f hf).2.iff_same⟩

/-- A formula that reads a nested property does not follow a write to it. -/
theorem nested_write_not_followed :
    let position : Property := .record [("x", .leaf (.string "old"))]
    let scene : Scene := Scene.insert (Scene.insert {}
      { id := "a", name := "a", properties := [("position", position)] }) { id := "b", name := "b" }
    let w := (new .builtin scene {} .still ()).after [.setFormula "b" "y" "a.position.x", .drain]
    let w' := w.after
      (.setValue "a" "position.x" (.string "new") .normal :: List.replicate 1 .drain)
    w.scheduler.isIdle ∧ w'.scheduler.isIdle ∧ w'.formulas = w.formulas ∧
      ∃ f, w.formula? "b" "y" = some f ∧ w.UpToDate ⟨"b", "y"⟩ f ∧
        w'.fresh f = .ok (.string "new") ∧ ¬ w'.UpToDate ⟨"b", "y"⟩ f := by
  intro position scene w w'
  have hidle : w.scheduler.isIdle := by decide +kernel
  have hidle' : w'.scheduler.isIdle := by decide +kernel
  have hkeys : w.formulas.keys = [⟨"b", "y"⟩] := by decide +kernel
  have hsome : (w.formula? "b" "y").isSome := by decide +kernel
  obtain ⟨f, hf⟩ := Option.isSome_iff_exists.1 hsome
  have hfresh : (w.formula? "b" "y").map w.fresh = some (.ok (.string "old")) := by decide +kernel
  have hfresh' : (w.formula? "b" "y").map w'.fresh = some (.ok (.string "new")) := by
    decide +kernel
  have hnoted : (w.formula? "b" "y").map (fun f => (f.failing, f.lastValue)) =
      some (false, some (.string "old")) := by decide +kernel
  rw [hf, Option.map_some, Option.some.injEq] at hfresh hfresh' hnoted
  have hproperty : w.property? "b" "y" = some (.string "old") := by decide +kernel
  have hupToDate : w.UpToDate ⟨"b", "y"⟩ f := by
    refine ⟨?_, fun v hv => ?_⟩
    · rw [hfresh]
      exact Prod.ext_iff.1 hnoted
    · rw [hfresh] at hv
      cases hv
      exact hproperty
  have hformulas : ∀ (e : Entity) (g : Formula), w.formulas[e]? = some g →
      Path.Plain e.property ∧ w.UpToDate e g := by
    intro e g hg
    have he : e ∈ w.formulas.keys := Table.mem_keys_iff.2 (hg ▸ rfl)
    rw [hkeys, List.mem_singleton] at he
    subst he
    obtain rfl : f = g := Option.some.inj (hf.symm.trans hg)
    exact ⟨by decide, hupToDate⟩
  obtain ⟨-, hnested⟩ := plain_write_followed scene {} .still () (by decide +kernel) (by decide)
    [.setFormula "b" "y" "a.position.x", .drain] "a" "position.x" (.string "new") .normal 1
    hidle hidle' hformulas
  obtain ⟨hsame, hiff⟩ := hnested (by decide)
  refine ⟨hidle, hidle', hsame, f, hf, hupToDate, hfresh', fun h => ?_⟩
  obtain ⟨hvalue, -⟩ := (hiff _ f hf).1 h
  rw [hfresh, hfresh'] at hvalue
  exact absurd hvalue (by decide)

end Workbench

end Parametric
