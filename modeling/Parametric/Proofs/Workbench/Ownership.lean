import Parametric.Proofs.Scene.Change
import Parametric.Proofs.Workbench.Operation

/-!
# Who owns a property

A formula that has a value keeps it in the property that it drives: whatever is written there is
written by the formula, apart from the numbers and the layout that news of a change of size or
layout carry (`Workbench.Owned`). Every operation that leaves the objects where they are keeps this
(`owned_perform`), so it holds after all of them (`owned_unless_imposed`).
-/

namespace Parametric

namespace ChangeKind

variable {object : ObjectId} {payload : Payload} {target : Entity}

theorem object_of_target {kind : ChangeKind} (h : kind.target object payload = .ok target) :
    target.object = object := by
  unfold ChangeKind.target at h
  split at h <;> cases h <;> rfl

theorem property_of_target (h : ChangeKind.property.target object payload = .ok target) :
    ∃ value, payload = .property target.property value := by
  cases payload <;> cases h
  exact ⟨_, rfl⟩

end ChangeKind

/-- A request that moves no object, names no dotted property and writes no value past the formulas
but `imposed` ones. -/
structure Request.InPlace (imposed : Entity → Value → Prop) (r : Request) : Prop where
  kind : r.kind ≠ .hierarchy
  property : r.kind = .property → ¬ r.target.isVariable →
    Path.Undotted r.target.property ∧ ∃ value, r.payload = .property r.target.property value
  imposes : ∀ name v, (name, v) ∈ r.kind.imposes r.payload → imposed ⟨r.target.object, name⟩ v

theorem Request.stable_inPlace (imposed : Entity → Value → Prop) :
    Request.Stable (InPlace imposed) := by
  refine ⟨fun r hr => ?_, fun r priority payload _ hr => ?_⟩
  · refine ⟨by simp [hr], fun h => by simp [hr] at h, fun name v hv => ?_⟩
    rw [hr] at hv
    cases hv
  · refine ⟨hr.kind, fun hkind hvariable => ?_, fun name v hv => hr.imposes name v ?_⟩
    · obtain ⟨hundotted, value, hpayload⟩ := hr.property hkind hvariable
      exact ⟨hundotted, value, by simp [absorb, hpayload, Payload.isRecompute]⟩
    · unfold absorb at hv
      dsimp only at hv
      split at hv
      next hrecompute =>
        cases hpayload : r.payload <;> simp [hpayload, Payload.isRecompute] at hrecompute
        cases payload <;> simp_all [Payload.isRecompute, ChangeKind.imposes]
      next => exact hv

namespace Workbench

open Scheduler

variable {σ : Type} {w w' : Workbench σ} {imposed : Entity → Value → Prop} {r : Request}

/-- The property that a formula drives has the value of the formula, if it has one, or a value that
was imposed on the property. A property without a name is none. -/
def Owns (w : Workbench σ) (imposed : Entity → Value → Prop) (e : Entity) (f : Formula) : Prop :=
  f.failing = false → e.property ≠ "" → ∃ v u, f.lastValue = some v ∧ (u = v ∨ imposed e u) ∧
    w.scene.objects.field? e = some (.leaf u)

/-- Formulas own their properties, and what waits keeps it so. -/
structure Owned (imposed : Entity → Value → Prop) (w : Workbench σ) : Prop where
  serves : w.scheduler.Serves (Request.InPlace imposed)
  object : ∀ {e : Entity} {f : Formula}, w.formulas[e]? = some f → (w.scene.get? e.object).isSome
  undotted : ∀ {e : Entity} {f : Formula}, w.formulas[e]? = some f → Path.Undotted e.property
  owns : ∀ {e : Entity} {f : Formula}, w.formulas[e]? = some f → w.Owns imposed e f

/-- An operation that leaves the objects in place and names no property with a dot. -/
def Operation.InPlace : Operation → Prop
  | act (.setFormula _ property _) | act (.setValue _ property _ _) => Path.Undotted property
  | act (.notifyProperty _ payload _) =>
    ∀ property value, payload = .property property value → Path.Undotted property
  | act _ => True
  | notify _ kind payload _ => kind ≠ .hierarchy ∧
    ∀ property value, payload = .property property value → Path.Undotted property
  | submit _ | evaluate _ _ | addObject _ | removeObject _ => False

namespace Owned

/-- Each formula is still in place, and at most imposed values were written to its property, or it
is put in place anew. -/
theorem step (h : Owned imposed w) (hserves : w'.scheduler.Serves (Request.InPlace imposed))
    {W : Entity → Value → Prop} (hwrites : w.scene.objects.Writes W w'.scene.objects)
    (hformulas : ∀ {e : Entity} {f : Formula}, w'.formulas[e]? = some f →
      w.formulas[e]? = some f ∧ (∀ v, W e v → imposed e v) ∨
      (w.scene.get? e.object).isSome ∧ Path.Undotted e.property ∧ w'.Owns imposed e f) :
    Owned imposed w' := by
  have hobject : ∀ id, (w.scene.get? id).isSome → (w'.scene.get? id).isSome := by
    intro id hid
    have hsome := ObjectTable.isSome_get?_congr hwrites.shape id
    exact hsome.trans hid
  refine ⟨hserves, fun {e f} hf => ?_, fun {e f} hf => ?_, fun {e f} hf => ?_⟩
  · rcases hformulas hf with ⟨hold, -⟩ | ⟨hnew, -, -⟩
    · exact hobject _ (h.object hold)
    · exact hobject _ hnew
  · rcases hformulas hf with ⟨hold, -⟩ | ⟨-, hnew, -⟩
    · exact h.undotted hold
    · exact hnew
  · rcases hformulas hf with ⟨hold, himposed⟩ | ⟨-, -, hnew⟩
    · intro hfailing hname
      obtain ⟨v, u, hlast, hu, hfield⟩ := h.owns hold hfailing hname
      rcases hwrites.fields e with heq | ⟨u', hW, hfield'⟩
      · exact ⟨v, u, hlast, hu, heq.trans hfield⟩
      · exact ⟨v, u', hlast, .inr (himposed u' hW), hfield'⟩
    · exact hnew

/-- When no value is written, the formulas that are still in place own their properties. -/
theorem still (h : Owned imposed w) (hserves : w'.scheduler.Serves (Request.InPlace imposed))
    (hobjects : w'.scene.objects = w.scene.objects)
    (hformulas : ∀ {e : Entity} {f : Formula}, w'.formulas[e]? = some f →
      w.formulas[e]? = some f ∨ (w.scene.get? e.object).isSome ∧ Path.Undotted e.property ∧
        f.failing = true) : Owned imposed w' := by
  have hwrites : w.scene.objects.Writes (fun _ _ => False) w'.scene.objects :=
    hobjects ▸ .refl _
  refine h.step hserves hwrites fun {e f} hf => (hformulas hf).imp ?_ ?_
  · exact fun hold => ⟨hold, fun _ hv => hv.elim⟩
  · rintro ⟨hobject, hundotted, hfailing⟩
    refine ⟨hobject, hundotted, fun h => ?_⟩
    rw [hfailing] at h
    cases h

/-- A formula that has a value owns its property once the value is written. -/
theorem written (h : Owned imposed w) (hserves : w'.scheduler.Serves (Request.InPlace imposed))
    {target : Entity} {f : Formula} {v : Value} {bounds : Option Contribution}
    (hundotted : Path.Undotted target.property) (hnoted : f.Noted (.ok v))
    (hwrite : w.scene.write target v = .ok (bounds, w'.scene))
    (hformulas : w'.formulas = w.formulas.insert target f) : Owned imposed w' := by
  refine h.step hserves (Scene.writes_write hundotted hwrite) fun {e g} hg => ?_
  rw [hformulas, Table.getElem?_insert] at hg
  split at hg
  next he =>
    subst he
    cases hg
    refine .inr ⟨Scene.isSome_of_write hwrite, hundotted, fun _ hname => ?_⟩
    have hplain : Path.Plain target.property := ⟨hname, hundotted⟩
    refine ⟨v, v, hnoted.2, .inl rfl, ?_⟩
    rw [Scene.field?_write hplain hwrite, if_pos rfl]
  next he => exact .inl ⟨hg, fun _ hv => absurd hv.1.symm he⟩

/-- A formula without a value may be put in place. -/
theorem failing (h : Owned imposed w) (hserves : w'.scheduler.Serves (Request.InPlace imposed))
    {target : Entity} {f : Formula} (hobject : (w.scene.get? target.object).isSome)
    (hundotted : Path.Undotted target.property) (hfailing : f.failing = true)
    (hobjects : w'.scene.objects = w.scene.objects)
    (hformulas : w'.formulas = w.formulas.insert target f) : Owned imposed w' := by
  refine h.still hserves hobjects fun {e g} hg => ?_
  rw [hformulas, Table.getElem?_insert] at hg
  split at hg
  next he =>
    subst he
    cases hg
    exact .inr ⟨hobject, hundotted, hfailing⟩
  next => exact .inl hg

/-! ## Drains -/

/-- A request that moves no object leaves the properties to their formulas. -/
theorem effect (h : Owned imposed w) (hr : r.InPlace imposed)
    {result : Except ApplyError Outcome} (heffect : Effect w r result w') : Owned imposed w' := by
  have hserves := h.serves
  have hmiss : ∀ {c : Calculator σ}, c.Misses r.target.object →
      c.Misses (w.view r.target.object).object := by
    intro c hc
    rwa [view, Viewpoint.object_ofObject]
  cases heffect with
  | noted => exact h.still hserves rfl .inl
  | changed _ hvariable hnone hchange =>
    have hwrites := Scene.writes_applyChange hr.kind (fun hkind name value hpayload => by
      obtain ⟨hundotted, value', hvalue⟩ := hr.property hkind hvariable
      rw [hpayload] at hvalue
      cases hvalue
      exact ⟨rfl, hundotted⟩) hchange
    refine h.step hserves hwrites fun {e f} hf => .inl ⟨hf, ?_⟩
    rintro v (⟨hobject, himposes⟩ | ⟨rfl, hkind, -⟩)
    · have himposed := hr.imposes _ _ himposes
      rwa [← hobject] at himposed
    · rw [hnone (.inr hkind)] at hf
      cases hf
  | @failed f f' c c' value _ _ hf _ hmisses heval hwrite =>
    have hobject := h.object hf
    cases value with
    | error e =>
      exact h.failing hserves hobject (h.undotted hf)
        (Calculator.evaluateCached_noted (hmiss hmisses) heval) rfl rfl
    | ok v =>
      obtain ⟨bounds, scene, hok⟩ := w.scene.exists_write hobject v
      obtain ⟨e, he⟩ := hwrite v rfl
      rw [he] at hok
      cases hok
  | computed _ hf _ hmisses heval hwrite =>
    exact h.written hserves (h.undotted hf)
      (Calculator.evaluateCached_noted (hmiss hmisses) heval) hwrite rfl

theorem withScheduler (h : Owned imposed w) {scheduler : Scheduler}
    (hserves : scheduler.Serves (Request.InPlace imposed)) : Owned imposed { w with scheduler } :=
  h.still hserves rfl .inl

theorem course : Course (Owned (σ := σ) imposed) where
  sound h := h.serves.sound
  unread h := h.serves.unread
  same h hsame halike :=
    h.still (h.serves.alike halike) hsame.objects fun hf => .inl (hsame.formulas ▸ hf)
  failed h hpop heffect := by
    obtain ⟨hr, hserves⟩ := h.serves.pop hpop
    exact (h.withScheduler hserves).effect hr heffect
  applied h hpop heffect := by
    obtain ⟨hr, hserves⟩ := h.serves.pop hpop
    have heffected := (h.withScheduler hserves).effect hr heffect
    exact heffected.withScheduler
      (heffected.serves.cascade (Request.stable_inPlace imposed) _ _)

/-! ## Operations -/

theorem invalidate (h : Owned imposed w) (changed : List Entity) :
    Owned imposed (w.invalidate changed) :=
  h.still h.serves rfl .inl

theorem announced (h : Owned imposed w) {e : Entity} (value : Option Value) (priority : Priority)
    (he : ¬ e.isVariable → Path.Undotted e.property) :
    Owned imposed (w.announced e value priority) :=
  h.withScheduler <| h.serves.announced (Request.stable_inPlace imposed) e value priority fun _ =>
    ⟨by simp, fun _ hvariable => ⟨he hvariable, value, rfl⟩, fun _ _ hv => by cases hv⟩

theorem detached (h : Owned imposed w) (e : Entity) : Owned imposed (w.detached e) := by
  unfold Workbench.detached
  rw [run_detach]
  cases w.formulas[e]? with
  | none => exact h
  | some f =>
    refine h.still (h.serves.removeConsumer e) rfl fun {x g} hg => ?_
    rw [Table.getElem?_erase] at hg
    split at hg
    · cases hg
    · exact .inl hg

theorem setValue (h : Owned imposed w) {object : ObjectId} {property : String} (v : Value)
    (priority : Priority) (hproperty : Path.Undotted property) :
    Owned imposed ((setValue object property v priority).run w).2 := by
  rw [run_setValue]
  have hdetached := h.detached ⟨object, property⟩
  have hnone : (w.detached ⟨object, property⟩).formulas[Entity.mk object property]? = none := by
    rw [formulas_detached, if_pos rfl]
  cases hwrite : (w.detached ⟨object, property⟩).scene.write ⟨object, property⟩ v with
  | error e => exact hdetached
  | ok written =>
    obtain ⟨bounds, scene⟩ := written
    have hwritten : Owned imposed { w.detached ⟨object, property⟩ with scene } := by
      refine hdetached.step hdetached.serves (Scene.writes_write hproperty hwrite) ?_
      refine fun {e f} hf => .inl ⟨hf, ?_⟩
      rintro v ⟨rfl, -⟩
      change (w.detached _).formulas[_]? = some f at hf
      rw [hnone] at hf
      cases hf
    exact (hwritten.invalidate _).announced _ _ fun _ => hproperty

theorem setFormula (h : Owned imposed w) {object : ObjectId} {property : String} (source : String)
    (hproperty : Path.Undotted property) :
    Owned imposed ((setFormula object property source).run w).2 := by
  have hspec := Workbench.setsFormula w object property source
  generalize (Workbench.setFormula object property source).run w = outcome at hspec
  obtain ⟨result, w'⟩ := outcome
  have hserves : ∀ {producers : List (Entity × Edge)} {bound : Except CycleError Unit}
      {scheduler : Scheduler},
      w.scheduler.replaceProducers ⟨object, property⟩ producers = (bound, scheduler) →
      scheduler.Serves (Request.InPlace imposed) := by
    intro producers bound scheduler hbound
    cases hbound
    exact h.serves.replaceProducers _ _
  cases hspec with
  | refused => exact h
  | cycle _ _ hbound => exact h.withScheduler (hserves hbound)
  | failed hobject _ hbound heval =>
    exact h.failing (hserves hbound) hobject hproperty (Calculator.evaluate_noted heval) rfl rfl
  | @written f f' _ calculator scheduler v bounds scene _ _ hbound heval hwrite =>
    have hwritten : Owned imposed { w with
        calculator, scheduler, formulas := w.formulas.insert ⟨object, property⟩ f', scene } :=
      h.written (hserves hbound) hproperty (Calculator.evaluate_noted heval) hwrite rfl
    exact (hwritten.invalidate _).announced _ _ fun _ => hproperty

theorem setsVariable (h : Owned imposed w) {name : String} (hset : SetsVariable w name w') :
    Owned imposed w' := by
  cases hset with
  | refused => exact h
  | @changed vars value _ =>
    have hvars : Owned imposed { w with vars } := h.still h.serves rfl .inl
    exact (hvars.invalidate _).announced _ _ fun hvariable => absurd (decide_eq_true rfl) hvariable

theorem notifyChange (h : Owned imposed w) (object : ObjectId) {kind : ChangeKind}
    {payload : Payload} (priority : Priority) (hkind : kind ≠ .hierarchy)
    (hpayload : ∀ property value, payload = .property property value → Path.Undotted property)
    (himposes : ∀ name v, (name, v) ∈ kind.imposes payload → imposed ⟨object, name⟩ v) :
    Owned imposed ((notifyChange object kind.name payload priority).run w).2 := by
  rcases w.run_notifyChange object hkind payload priority with hrun | ⟨changed, hrun⟩
  · rw [hrun]
    exact h
  · rw [hrun]
    refine (h.invalidate changed).withScheduler (h.serves.afterChange
      (Request.stable_inPlace imposed) _ fun id target htarget => ⟨hkind, ?_, ?_⟩)
    · rintro (rfl : kind = .property) -
      obtain ⟨value, hvalue⟩ := ChangeKind.property_of_target htarget
      exact ⟨hpayload _ _ hvalue, value, hvalue⟩
    · rwa [ChangeKind.object_of_target htarget]

theorem act (h : Owned imposed w) {a : Action} (ha : Operation.InPlace (.act a)) :
    Owned imposed (a.run w) := by
  cases a with
  | setFormula object property source => exact h.setFormula source ha
  | setValue object property v priority => exact h.setValue v priority ha
  | clearFormula object property => exact h.detached _
  | defineVariable name scope context v =>
    exact h.setsVariable (setsVariable_define w name scope context v)
  | updateVariable name scope context v =>
    exact h.setsVariable (setsVariable_update w name scope context v)
  | deleteVariable name scope context =>
    exact h.setsVariable (setsVariable_delete w name scope context)
  | notifyProperty object payload priority =>
    exact h.notifyChange object priority (by decide) ha fun _ _ hv => by cases hv
  | drain => exact course.drain h

end Owned

/-- Operations in place leave the properties to their formulas, but for what the news among them
impose. -/
theorem owned_perform {ops : List Operation} (h : Owned imposed w)
    (hops : ∀ op ∈ ops, op.InPlace)
    (himposes : ∀ object kind payload priority, .notify object kind payload priority ∈ ops →
      ∀ name v, (name, v) ∈ kind.imposes payload → imposed ⟨object, name⟩ v) :
    Owned imposed (w.perform ops) := by
  induction ops generalizing w with
  | nil => exact h
  | cons op ops ih =>
    obtain ⟨hop, hrest⟩ := List.forall_mem_cons.1 hops
    have himposed := himposes
    refine ih ?_ hrest fun object kind payload priority hmem =>
      himposes object kind payload priority (List.mem_cons_of_mem _ hmem)
    cases op with
    | act a => exact h.act hop
    | notify object kind payload priority =>
      exact h.notifyChange object priority hop.1 hop.2
        (himposes object kind payload priority List.mem_cons_self)
    | submit => exact hop.elim
    | evaluate => exact hop.elim
    | addObject => exact hop.elim
    | removeObject => exact hop.elim

theorem Owned.new (functions : Registry σ) (scene : Scene) (settings : Settings) (clock : Clock)
    (host : σ) : Owned imposed (new functions scene settings clock host) := by
  refine ⟨⟨.new _, rfl, fun t r hr => ?_⟩, fun hf => ?_, fun hf => ?_, fun hf => ?_⟩
  · simp [Workbench.new, Queue.pendingFor?_eq] at hr
  all_goals simp [Workbench.new] at hf

/-- Take any workbench without formulas, and any operations on it that leave the objects in place
and name no property with a dot. At every moment each formula with a value, of a property with a
name, finds that value in its property, or a number or a layout there that news of a change of size
or layout carried for the property. -/
theorem owned_unless_imposed (functions : Registry σ) (scene : Scene) (settings : Settings)
    (clock : Clock) (host : σ) (ops : List Operation) (hops : ∀ op ∈ ops, op.InPlace)
    (object : ObjectId) (property : String) (f : Formula)
    (hf : ((new functions scene settings clock host).perform ops).formula? object property = some f)
    (hvalue : f.failing = false) (hname : property ≠ "") :
    let w := (new functions scene settings clock host).perform ops
    ∃ v, f.lastValue = some v ∧ (w.property? object property = some v ∨
      ∃ kind payload priority u, .notify object kind payload priority ∈ ops ∧
        (property, u) ∈ kind.imposes payload ∧ w.property? object property = some u) := by
  let imposed : Entity → Value → Prop := fun e u => ∃ kind payload priority,
    .notify e.object kind payload priority ∈ ops ∧ (e.property, u) ∈ kind.imposes payload
  have h : Owned imposed ((new functions scene settings clock host).perform ops) :=
    owned_perform (.new functions scene settings clock host) hops
      fun object kind payload priority hmem name v hv => ⟨kind, payload, priority, hmem, hv⟩
  have hplain : Path.Plain property := ⟨hname, h.undotted hf⟩
  obtain ⟨v, u, hlast, hu, hfield⟩ := h.owns hf hvalue hname
  have hproperty := property?_of_field? hplain hfield
  refine ⟨v, hlast, hu.imp ?_ ?_⟩
  · rintro rfl
    exact hproperty
  · rintro ⟨kind, payload, priority, hmem, hv⟩
    exact ⟨kind, payload, priority, u, hmem, hv, hproperty⟩

/-- News of a change of layout put their text in the place of the value of the formula. -/
theorem layout_imposed :
    let w := (new .builtin (Scene.insert {} { id := "a", name := "a" }) {} .still ()).perform
      [.act (.setFormula "a" "layout" "\"row\""), .act .drain,
        .notify "a" .layout (.layout "column") .normal, .act .drain]
    ∃ f, w.formula? "a" "layout" = some f ∧ f.failing = false ∧
      f.lastValue = some (.string "row") ∧ w.property? "a" "layout" = some (.string "column") ∧
      ∃ v, f.lastValue = some v ∧ (w.property? "a" "layout" = some v ∨
        ∃ kind payload priority u,
          .notify "a" kind payload priority ∈ [Operation.act (.setFormula "a" "layout" "\"row\""),
            .act .drain, .notify "a" .layout (.layout "column") .normal, .act .drain] ∧
          ("layout", u) ∈ kind.imposes payload ∧ w.property? "a" "layout" = some u) := by
  let ops : List Operation :=
    [.act (.setFormula "a" "layout" "\"row\""), .act .drain,
      .notify "a" .layout (.layout "column") .normal, .act .drain]
  let w : Workbench Unit :=
    (new .builtin (Scene.insert {} { id := "a", name := "a" }) {} .still ()).perform ops
  have hsome : (w.formula? "a" "layout").isSome := by decide +kernel
  obtain ⟨f, hf⟩ := Option.isSome_iff_exists.1 hsome
  have hfailing : (w.formula? "a" "layout").map Formula.failing = some false := by decide +kernel
  have hlast : (w.formula? "a" "layout").map Formula.lastValue = some (some (.string "row")) := by
    decide +kernel
  rw [hf, Option.map_some, Option.some.injEq] at hfailing hlast
  have hlayout : Path.Undotted "layout" := by decide
  have hops : ∀ op ∈ ops, op.InPlace := by
    simp [ops, Operation.InPlace, hlayout]
  exact ⟨f, hf, hfailing, hlast, by decide +kernel,
    owned_unless_imposed .builtin (Scene.insert {} { id := "a", name := "a" }) {} .still () ops hops
      "a" "layout" f hf hfailing (by decide)⟩

end Workbench

end Parametric
