import Parametric.Proofs.Workbench.InPlace
import Parametric.Proofs.Workbench.Writes

/-!
# Answers are never older than the scene

While no object comes, goes or moves, all that a workbench has cached is right between operations
(`Workbench.Current`). What is written at once makes nothing else wrong than the formulas that read
it, and their results are dropped with it. What is written in a drain makes its readers pending, and
the drain serves them or drops all results in the end (`Current.drain`). So a question about a
formula is always answered with what its tree gives at that moment (`answers_never_stale`).
-/

namespace Parametric.Workbench

open Scheduler

variable {σ : Type} {w w' : Workbench σ} {pend pend' : Entity → Prop}

/-- Evaluations can be relied on, nothing that waits moves an object, and what is cached for a
formula is right unless it is pending. -/
structure Current (w : Workbench σ) (pend : Entity → Prop) : Prop extends Ready w where
  serves : w.scheduler.Serves (Request.InPlace fun _ _ => True)
  recalls : w.Recalls pend

/-- No formula is pending. -/
abbrev Clean (w : Workbench σ) : Prop := w.Current fun _ => False

namespace SetsFormula

variable {target : Entity} {source : String} {result : Except WorkbenchError Value}

theorem formulas (h : SetsFormula w target source result w') {e : Entity} {f : Formula}
    (hf : w'.formulas[e]? = some f) : w.formulas[e]? = some f ∨ e = target := by
  have hinsert : ∀ {g : Formula}, (w.formulas.insert target g)[e]? = some f →
      w.formulas[e]? = some f ∨ e = target := by
    intro g hg
    rw [Table.getElem?_insert] at hg
    split at hg
    next he => exact .inr he.symm
    next => exact .inl hg
  cases h with
  | refused | cycle => exact .inl hf
  | failed | written => exact hinsert hf

/-- Putting a formula in place schedules the news of its value at most. -/
theorem serves {P : Request → Prop} (h : SetsFormula w target source result w')
    (hP : Request.Stable P) (hnew : ∀ id v,
      P ⟨id, id, target, .property, .property target.property (some v), .normal, .queued⟩)
    (hserves : w.scheduler.Serves P) : w'.scheduler.Serves P := by
  have hreplaced : ∀ {producers : List (Entity × Edge)} {bound : Except CycleError Unit}
      {scheduler : Scheduler}, w.scheduler.replaceProducers target producers = (bound, scheduler) →
      scheduler.Serves P := by
    intro producers bound scheduler hbound
    cases hbound
    exact hserves.replaceProducers _ _
  cases h with
  | refused => exact hserves
  | cycle _ _ hbound | failed _ _ hbound => exact hreplaced hbound
  | written _ _ hbound =>
    exact (hreplaced hbound).announced hP target _ _ fun id => hnew id _

end SetsFormula

/-! ## Dropped results -/

namespace Recalls

/-- Dropping the results of what changed, and of all that follows from it, leaves nothing pending.
-/
theorem invalidate (h : w.Recalls pend) (hw : w.Bound) {changed : List Entity}
    (hpend : ∀ e, pend e → e ∈ changed ++ w.scheduler.graph.downstream changed) :
    (w.invalidate changed).Recalls fun _ => False := by
  have hsame := SameContent.invalidate w changed
  have hresults : (w.invalidate changed).calculator.results.Holds (w.Recalled fun _ => False) := by
    intro key entry hentry
    obtain ⟨hkey, hrecalled⟩ := hsame.calculator.results _ h.results key entry hentry
    refine ⟨hkey, fun e f hf heq => (hrecalled e f hf heq).imp_right fun he => ?_⟩
    have hnone := misses_invalidate (hpend e he) key (by rw [heq]; exact (hw.formulas hf).1)
    rw [hentry] at hnone
    cases hnone
  refine h.step hw (hsame.changes fun _ => False) hsame.calculator.compiled hresults ⟨"", ""⟩
    fun {e f} hf => .inl ⟨f, hf, rfl, ?_⟩
  rintro (he | ⟨p, -, hp⟩)
  · exact he
  · exact hp

/-- Once a change is announced, the results of what reads it are gone. -/
theorem announced_drops (h : w.Recalls pend) (hw : w.Bound) {target : Entity}
    (hpend : ∀ e, pend e → e = target ∨ w.scheduler.graph.Feeds target e) (value : Option Value)
    (priority : Priority) :
    ((w.invalidate [target]).announced target value priority).Recalls fun _ => False := by
  have hdropped : (w.invalidate [target]).Recalls fun _ => False := by
    refine h.invalidate hw fun e he => ?_
    by_cases hmem : e = target
    · exact List.mem_append_left _ (List.mem_singleton.2 hmem)
    · refine List.mem_append_right _ ((Graph.mem_downstream_iff hw.scheduler.graph _ e).2
        ⟨fun hroot => hmem (List.mem_singleton.1 hroot), target, List.mem_singleton_self _, ?_⟩)
      exact .single ((hpend e he).resolve_left hmem)
  exact (SameContent.announced _ target value priority).recalls (hw.invalidate [target]) hdropped
    fun _ he => he

end Recalls

namespace Current

theorem new {scene : Scene} (hscene : scene.objects.Keyed) (settings : Settings) (clock : Clock)
    (host : σ) (howner : scene.get? Entity.variableOwner = none)
    (htimeout : 0 < settings.evaluation.timeout) :
    Current (new .builtin scene settings clock host) pend where
  toBound := .new scene settings clock host
  toCoherent := .new scene settings clock host howner htimeout
  plain hf := by simp [Workbench.new] at hf
  serves := ⟨.new _, rfl, fun t r hr => by simp [Workbench.new, Queue.pendingFor?_eq] at hr⟩
  recalls := .new _ hscene settings clock host

theorem same (h : w.Current pend) (hsame : SameContent w w')
    (hserves : w'.scheduler.Serves (Request.InPlace fun _ _ => True))
    (hgraph : w'.scheduler.graph = w.scheduler.graph) (hpend : ∀ e, pend e → pend' e) :
    w'.Current pend' :=
  ⟨h.toReady.same hsame hserves.sound hgraph, hserves, hsame.recalls h.toBound h.recalls hpend⟩

/-! ## Drains -/

/-- The request that was taken out of the queue is applied, which leaves what reads the entities
that it affects to wait if it succeeds. -/
theorem served (h : w.Current w.scheduler.Waits) {r : Request} {queue : Queue}
    (hpop : w.scheduler.queue.pop = (some r, queue)) {result : Except ApplyError Outcome}
    (heffect : Effect { w with scheduler := { w.scheduler with queue } } r result w')
    {s : Scheduler} (hs : Quiet { w.scheduler with queue } s)
    (hreaders : result.isOk → ∀ p ∈ r.affected, ∀ e, w.scheduler.graph.Feeds p e → s.Waits e) :
    Current { w' with scheduler := s } s.Waits := by
  obtain ⟨hr, hserves⟩ := h.serves.pop hpop
  obtain ⟨-, hwaits⟩ := Drain.pop_spec h.serves.sound hpop
  let popped : Workbench σ := { w with scheduler := { w.scheduler with queue } }
  have hpopped : popped.Current fun e => e = r.target ∨ popped.scheduler.Waits e :=
    h.same (.rescheduled _ _) hserves rfl hwaits
  have hrecalls : w'.Recalls s.Waits := heffect.recalls hpopped.toReady hr hpopped.recalls
    (fun e he => he.imp_right (hs.waits e)) hreaders
  have hready : w'.Ready := heffect.ready hpopped.toReady hpopped.recalls.keyed hr
  have hsame : SameContent w' { w' with scheduler := s } := .rescheduled _ _
  refine ⟨hready.same hsame hs.sound ?_, ⟨hs.sound, hs.unread.trans h.serves.unread,
    hs.all _ (Request.stable_inPlace _) hserves.all⟩, hsame.recalls hready.toBound hrecalls
    fun _ he => he⟩
  rw [heffect.scheduler]
  exact hs.graph

theorem course : Course fun w : Workbench σ => w.Current w.scheduler.Waits where
  sound h := h.serves.sound
  unread h := h.serves.unread
  same h hsame halike := h.same hsame (h.serves.alike halike) halike.graph fun e he => by
    rwa [Waits, halike.pendingFor]
  failed := by
    intro w w' r queue e h hpop heffect
    have hsound := (Drain.pop_spec h.serves.sound hpop).1
    have hserved := h.served hpop heffect (.refl hsound) fun h => by cases h
    have hscheduler : w'.scheduler = { w.scheduler with queue } := heffect.scheduler
    rw [← hscheduler] at hserved
    exact hserved
  applied := by
    intro w w' r queue outcome h hpop heffect
    have hsound := (Drain.pop_spec h.serves.sound hpop).1
    have hscheduler : w'.scheduler = { w.scheduler with queue } := heffect.scheduler
    rw [hscheduler]
    exact h.served hpop heffect (.cascade hsound r outcome) fun _ p hp e he =>
      (waits_cascade hsound r outcome e).2 (.inl ⟨p, hp, he⟩)

/-- After a drain nothing waits, or no result is cached. -/
theorem waits_or_cleared (w : Workbench σ) : (∀ e, ¬ w.drain.2.scheduler.Waits e) ∨
    ∀ P, w.drain.2.calculator.results.Holds P := by
  unfold drain
  dsimp only
  split
  next => exact .inr fun P => .clear _
  next hremaining =>
    refine .inl fun e => ?_
    have hsize : (w.scheduler.drain (applier w.vars)
        ⟨w.scene, w.calculator, w.formulas⟩).2.1.queue.requests.size = 0 :=
      Nat.eq_zero_of_not_pos hremaining
    simp [Waits, Queue.pendingFor?_eq, Std.ExtTreeMap.eq_empty_iff_size_eq_zero.2 hsize]

theorem drain (h : w.Clean) : w.drain.2.Clean := by
  have hwaiting : w.Current w.scheduler.Waits :=
    h.same (.refl w) h.serves rfl fun _ he => he.elim
  have hdrained := course.drain hwaiting
  rcases waits_or_cleared w with hnone | hcleared
  · exact hdrained.same (.refl _) hdrained.serves rfl hnone
  · exact { hdrained with recalls := { hdrained.recalls with results := hcleared _ } }

/-! ## Edits -/

theorem announced (h : w.Current pend) {target : Entity}
    (hpend : ∀ e, pend e → e = target ∨ w.scheduler.graph.Feeds target e) (value : Option Value)
    (priority : Priority) (htarget : ¬ target.isVariable → Path.Undotted target.property) :
    ((w.invalidate [target]).announced target value priority).Clean := by
  have hsame := (SameContent.invalidate w [target]).trans (.announced _ target value priority)
  have hserves := h.serves.announced (Request.stable_inPlace fun _ _ => True) target value priority
    fun _ => ⟨by simp, fun _ hvariable => ⟨htarget hvariable, value, rfl⟩, fun _ _ _ => trivial⟩
  have hgraph := (Scheduler.announced_spec h.serves.sound target value priority).1.graph
  exact ⟨h.toReady.same hsame hserves.sound hgraph, hserves,
    h.recalls.announced_drops h.toBound hpend value priority⟩

theorem detached (h : w.Clean) (e : Entity) : (w.detached e).Clean where
  toBound := h.toBound.detached e
  toCoherent := h.toCoherent.detached h.toBound e
  plain hf := h.plain (formula_of_detached hf)
  serves := by
    unfold Workbench.detached
    rw [run_detach]
    cases w.formulas[e]? with
    | none => exact h.serves
    | some f => exact h.serves.removeConsumer e
  recalls := h.recalls.detached h.toBound e fun _ he => he

theorem setValue (h : w.Clean) {object : ObjectId} {property : String} (v : Value)
    (priority : Priority) (hplain : Path.Plain property) :
    ((setValue object property v priority).run w).2.Clean := by
  have hdetached := h.detached ⟨object, property⟩
  rw [run_setValue]
  cases hwrite : (w.detached ⟨object, property⟩).scene.write ⟨object, property⟩ v with
  | error e => exact hdetached
  | ok written =>
    obtain ⟨bounds, scene⟩ := written
    have hchanges : Changes (w.detached ⟨object, property⟩)
        { w.detached ⟨object, property⟩ with scene } (· = ⟨object, property⟩) :=
      .write hplain.2 hwrite rfl rfl (fun h => h) rfl rfl
    have hwritten : Current { w.detached ⟨object, property⟩ with scene } fun e =>
        e = ⟨object, property⟩ ∨ (w.detached ⟨object, property⟩).scheduler.graph.Feeds
          ⟨object, property⟩ e ∨ False :=
      { toBound := hdetached.toBound.withScene (Scene.shape_write hwrite)
        toCoherent := hdetached.toCoherent.step hdetached.toBound hchanges fun hf => .inl hf
        plain := hdetached.plain
        serves := hdetached.serves
        recalls := hdetached.recalls.changed hdetached.toBound hchanges (.refl _) rfl }
    exact hwritten.announced (fun e he => he.imp_right fun he => he.resolve_right id) _ _
      fun _ => hplain.2

theorem setsVariable (h : w.Clean) {name : String} (hset : SetsVariable w name w') : w'.Clean := by
  cases hset with
  | refused => exact h
  | @changed vars value hvars =>
    have hchanges : Changes w { w with vars } (· = .ofVariable name) :=
      ⟨rfl, rfl, fun h => h, rfl, fun _ _ => rfl, fun slot hslot => hvars slot fun heq => hslot ?_⟩
    · have hset : Current { w with vars } fun e =>
          e = .ofVariable name ∨ w.scheduler.graph.Feeds (.ofVariable name) e ∨ False :=
        { toBound := h.toBound.withVars vars
          toCoherent := h.toCoherent.step h.toBound hchanges fun hf => .inl hf
          plain := h.plain
          serves := h.serves
          recalls := h.recalls.changed h.toBound hchanges (.refl _) rfl }
      exact hset.announced (fun e he => he.imp_right fun he => he.resolve_right id) _ _
        fun hvariable => absurd (decide_eq_true rfl) hvariable
    · rw [heq]

theorem notifyChange (h : w.Clean) (object : ObjectId) {kind : ChangeKind} {payload : Payload}
    (priority : Priority) (hkind : kind ≠ .hierarchy)
    (hpayload : ∀ property value, payload = .property property value → Path.Undotted property) :
    ((notifyChange object kind.name payload priority).run w).2.Clean := by
  rcases w.run_notifyChange object hkind payload priority with hrun | ⟨changed, hrun⟩
  · rw [hrun]
    exact h
  · have hsame := SameContent.invalidate w changed
    have hserves : (w.scheduler.afterChange ⟨object, kind, payload, priority⟩).Serves
        (Request.InPlace fun _ _ => True) := by
      refine h.serves.afterChange (Request.stable_inPlace _) _ fun id target htarget =>
        ⟨hkind, ?_, fun _ _ _ => trivial⟩
      rintro (rfl : kind = .property) -
      obtain ⟨value, hvalue⟩ := ChangeKind.property_of_target htarget
      exact ⟨hpayload _ _ hvalue, value, hvalue⟩
    have hgraph := (afterChange_spec h.serves.sound ⟨object, kind, payload, priority⟩).1.graph
    rw [hrun]
    exact h.same (hsame.trans (.rescheduled _ _)) hserves hgraph fun _ he => he

theorem setFormula (h : w.Clean) {object : ObjectId} {property : String} (source : String)
    (hplain : Path.Plain property) :
    ((setFormula object property source).run w).2.Clean := by
  have hset := Workbench.setsFormula w object property source
  have hcoherent := h.toCoherent.setFormula h.toBound object property source
  generalize (Workbench.setFormula object property source).run w = outcome at hset hcoherent
  obtain ⟨result, w'⟩ := outcome
  refine ⟨⟨h.toBound.setsFormula hset, hcoherent, fun {e f} hf => ?_⟩, ?_, ?_⟩
  · rcases hset.formulas hf with hold | rfl
    · exact h.plain hold
    · exact hplain
  · exact hset.serves (Request.stable_inPlace _) (fun _ _ =>
      ⟨by simp, fun _ _ => ⟨hplain.2, _, rfl⟩, fun _ _ _ => trivial⟩) h.serves
  · rcases h.recalls.setsFormula h.toBound (fun _ => hplain) hset with
      ⟨-, hrecalls⟩ | ⟨placed, v, hbound, -, hrecalls, rfl⟩
    · exact hrecalls
    · exact hrecalls.announced_drops hbound (fun e he => he.imp_right fun he => he.resolve_right id)
        _ _

/-! ## Questions -/

/-- A question is answered with what the formula means, if that is not pending. -/
theorem evaluateProperty (h : w.Current pend) {object : ObjectId} {property : String} {f : Formula}
    (hf : w.formulas[Entity.mk object property]? = some f) (hpend : ¬ pend ⟨object, property⟩) :
    ((evaluateProperty object property).run w).1 = (w.fresh f).mapError .eval := by
  rw [run_evaluateProperty, hf, h.toCoherent.fresh h.toBound]
  dsimp only
  cases heval : w.calculator.evaluateCached f w.stores (w.view object) with
  | mk result rest =>
    obtain ⟨hresult, -⟩ := h.recalls.evaluateCached h.toCoherent h.toBound hf heval
    rw [hresult.resolve_right hpend]

/-- A formula that was asked for may be put back as it comes out. -/
theorem asked (h : w.Current pend) {target : Entity} {f f' : Formula} {c : Calculator σ}
    {result : Except EvalError Value} (hf : w.formulas[target]? = some f)
    (heval : w.calculator.evaluateCached f w.stores (w.view target.object) = (result, f', c)) :
    Current { w with calculator := c, formulas := w.formulas.insert target f' } pend := by
  obtain ⟨hcore, hfunctions, hsettings⟩ := Calculator.evaluateCached_core heval
  obtain ⟨hcompiled, -⟩ := Calculator.evaluateCached_results heval
  obtain ⟨-, hnoted, hanswers, hresults⟩ :=
    h.recalls.evaluateCached h.toCoherent h.toBound hf heval
  have hchanges : Changes w { w with
      calculator := c, formulas := w.formulas.insert target f' } (fun _ => False) :=
    ⟨hfunctions, hsettings, fun _ => hanswers, rfl, fun _ _ => rfl, fun _ _ => rfl⟩
  have hplaced : ∀ {e : Entity} {g : Formula}, (w.formulas.insert target f')[e]? = some g →
      ∃ x, w.formulas[e]? = some x ∧ g.core = x.core ∧ (g = x ∨ g.Noted (w.meaning x)) := by
    intro e g hg
    rw [Table.getElem?_insert] at hg
    split at hg
    next he =>
      cases hg
      exact ⟨f, he ▸ hf, hcore, hnoted⟩
    next => exact ⟨g, hg, rfl, .inl rfl⟩
  refine ⟨⟨h.toBound.congr h.scheduler rfl (fun e => ?_) hfunctions rfl,
    h.toCoherent.step h.toBound hchanges fun {e g} hg => ?_, fun {e g} hg => ?_⟩, h.serves,
    h.recalls.step h.toBound hchanges hcompiled.ge hresults target fun {e g} hg => .inl ?_⟩
  · show ((w.formulas.insert target f')[e]?).map Formula.core = _
    rw [Table.getElem?_insert]
    split
    next he => rw [← he, hf, Option.map_some, Option.map_some, hcore]
    next => rfl
  · obtain ⟨x, hx, hsame, rfl | hvalue⟩ := hplaced hg
    · exact .inl hx
    · have hmeaning := hchanges.meaning h.functions ((h.formulas hx).2.2.of_core hsame)
        fun _ _ => id
      refine .inr fun v hv => ?_
      rw [hmeaning, meaning_of_core w hsame]
      exact hvalue.settled? hv
  · obtain ⟨x, hx, -⟩ := hplaced hg
    exact h.plain hx
  · obtain ⟨x, hx, hsame, -⟩ := hplaced hg
    refine ⟨x, hx, hsame, ?_⟩
    rintro (he | ⟨p, -, hp⟩)
    · exact he
    · exact hp.elim

end Current

/-! ## Operations -/

/-- An operation that neither adds nor removes nor moves an object, and names plain properties. -/
def Operation.Fixed : Operation → Prop
  | act (.setFormula _ property _) | act (.setValue _ property _ _) => Path.Plain property
  | act (.notifyProperty _ payload _) =>
    ∀ property value, payload = .property property value → Path.Plain property
  | act _ | evaluate _ _ => True
  | notify _ kind payload _ => kind ≠ .hierarchy ∧
    ∀ property value, payload = .property property value → Path.Plain property
  | submit _ | addObject _ | removeObject _ => False

namespace Current

theorem act (h : w.Clean) {a : Action} (ha : Operation.Fixed (.act a)) : (a.run w).Clean := by
  cases a with
  | setFormula object property source => exact h.setFormula source ha
  | setValue object property v priority => exact h.setValue v priority ha
  | clearFormula object property => exact h.detached _
  | defineVariable name scope context v =>
    exact h.setsVariable (setsVariable_define w name scope context v)
  | updateVariable name scope context v =>
    exact h.setsVariable (setsVariable_update w name scope context v)
  | deleteVariable name scope context =>
    exact h.setsVariable (setsVariable_delete w name scope context)
  | notifyProperty object payload priority =>
    exact h.notifyChange object priority (by decide) fun _ _ heq => (ha _ _ heq).2
  | drain => exact h.drain

theorem run (h : w.Clean) {op : Operation} (hop : op.Fixed) : (op.run w).Clean := by
  cases op with
  | act a => exact h.act hop
  | notify object kind payload priority =>
    exact h.notifyChange object priority hop.1 fun _ _ heq => (hop.2 _ _ heq).2
  | evaluate object property =>
    show ((Workbench.evaluateProperty object property).run w).2.Clean
    rw [run_evaluateProperty]
    cases hf : w.formulas[Entity.mk object property]? with
    | none => exact h
    | some f => exact h.asked hf rfl
  | submit => exact hop.elim
  | addObject => exact hop.elim
  | removeObject => exact hop.elim

theorem perform {ops : List Operation} (h : w.Clean) (hops : ∀ op ∈ ops, op.Fixed) :
    (w.perform ops).Clean := by
  induction ops generalizing w with
  | nil => exact h
  | cons op ops ih =>
    obtain ⟨hop, hrest⟩ := List.forall_mem_cons.1 hops
    exact ih (h.run hop) hrest

end Current

/-- Take a workbench with the built-in functions, time to evaluate them and no object in the place
of the variables, with any settings and any clock. Carry out any operations on it that add, remove
and move no object and name plain properties, drains that leave requests waiting included. A
question about a formula is then answered with what its tree gives at that moment without the
caches. -/
theorem answers_never_stale {scene : Scene} (hscene : scene.objects.Keyed) (settings : Settings)
    (clock : Clock) (host : σ) (howner : scene.get? Entity.variableOwner = none)
    (htimeout : 0 < settings.evaluation.timeout) (ops : List Operation)
    (hops : ∀ op ∈ ops, op.Fixed) (object : ObjectId) (property : String) :
    let w := (new .builtin scene settings clock host).perform ops
    (∀ f, w.formula? object property = some f →
      ((evaluateProperty object property).run w).1 = (w.fresh f).mapError .eval) ∧
    (w.formula? object property = none →
      ((evaluateProperty object property).run w).1 = .error (.noFormula ⟨object, property⟩)) := by
  intro w
  have h : w.Clean := Current.perform (.new hscene settings clock host howner htimeout) hops
  refine ⟨fun f hf => h.evaluateProperty hf not_false, fun hf => ?_⟩
  have hnone : w.formulas[Entity.mk object property]? = none := hf
  rw [run_evaluateProperty, hnone]

/-- A drain that is cut short leaves a property behind, but no answer. -/
theorem answered_after_short_drain :
    let a : Object := { id := "a", name := "a", properties := [("layout", .leaf (.string "row"))] }
    let b : Object := { id := "b", name := "b" }
    let w := (new .builtin (Scene.insert (Scene.insert {} a) b) { propagation.maxServed := 1 }
      .still ()).perform
        [.act (.setFormula "b" "m" "a.layout"), .act .drain, .evaluate "b" "m",
          .notify "a" .layout (.layout "column") .normal, .evaluate "b" "m", .act .drain]
    w.scheduler.isIdle = false ∧ w.property? "b" "m" = some (.string "row") ∧
      ((evaluateProperty "b" "m").run w).1 = .ok (.string "column") := by
  intro a b w
  have hscene : (Scene.insert (Scene.insert {} a) b).objects.Keyed :=
    (ObjectTable.Keyed.empty.insert a).insert b
  have hm : Path.Plain "m" := by decide
  obtain ⟨hanswer, -⟩ := answers_never_stale hscene { propagation.maxServed := 1 } .still ()
    (by decide +kernel) (by decide)
    [.act (.setFormula "b" "m" "a.layout"), .act .drain, .evaluate "b" "m",
      .notify "a" .layout (.layout "column") .normal, .evaluate "b" "m", .act .drain]
    (by simp [Operation.Fixed, hm]) "b" "m"
  have hfresh : (w.formula? "b" "m").map w.fresh = some (.ok (.string "column")) := by
    decide +kernel
  obtain ⟨f, hf, hcolumn⟩ := Option.map_eq_some_iff.1 hfresh
  refine ⟨by decide +kernel, by decide +kernel, ?_⟩
  rw [hanswer f hf, hcolumn]
  rfl

end Parametric.Workbench
