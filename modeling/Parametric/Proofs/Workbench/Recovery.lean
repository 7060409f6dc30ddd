import Parametric.Proofs.Update.Draining
import Parametric.Proofs.Workbench.Aftermath
import Parametric.Proofs.Workbench.Constants
import Parametric.Proofs.Workbench.Tuned

/-!
# Recovering from news

A formula follows what it reads when a fresh evaluation gives an error and it is failing, or gives
the value that its property has (`Workbench.Follows`). A workbench is quiescent when nothing waits
and every formula is bound to what it reads and follows it. When an object arrives in a quiescent
workbench, all requests that come of it are recomputes and news that say nothing new
(`Request.Heralds`). Serving these evaluates formulas and changes nothing else
(`Effect.heralds`). So every formula that waits or follows does so still, if it is bound to what it
reads (`Workbench.Recovers`), and every workbench comes to rest (`comes_to_rest`).
-/

namespace Parametric

namespace Request

variable {o : Object} {r : Request}

/-- A recompute, news of a property without a value, or the news that the object `o` lies where it
does. -/
def Heralds (o : Object) (r : Request) : Prop :=
  r.kind = .recompute ∨
    (r.kind = .property ∧ r.payload = .property r.target.property none) ∨
    r.kind = .hierarchy ∧ r.target = ⟨o.id, Names.children⟩ ∧
      r.payload = .hierarchy none o.container

theorem stable_heralds (o : Object) : Stable (Heralds o) where
  recompute _ hkind := .inl hkind
  absorb r priority payload _ h := by
    have hkept : ∀ {payload' : Payload}, r.payload = payload' → payload'.isRecompute = false →
        (r.absorb priority payload).payload = payload' := by
      rintro _ rfl hpayload
      simp [absorb, hpayload]
    rcases h with hkind | ⟨hkind, hpayload⟩ | ⟨hkind, htarget, hpayload⟩
    · exact .inl hkind
    · exact .inr (.inl ⟨hkind, hkept hpayload rfl⟩)
    · exact .inr (.inr ⟨hkind, htarget, hkept hpayload rfl⟩)

/-- News of a property that has a plain name are beside the formulas. -/
theorem Heralds.beside {driven : Entity → Prop} (hr : r.Heralds o) (h : r.Evaluates)
    (hplain : Path.Plain r.target.property) : r.Beside driven := by
  rcases hr with hkind | ⟨hkind, hpayload⟩ | ⟨hkind, -⟩
  · exact (stable_beside driven).recompute r hkind
  · exact beside_property hkind hpayload hplain.2
  · rcases h with h | h <;> cases hkind.symm.trans h

end Request

/-- News that an object lies where it does change no object. -/
theorem Scene.objects_applyChange_stay {s s' : Scene} {r : Request} {outcome : Outcome}
    (hkind : r.kind = .hierarchy)
    (hpayload : r.payload = .hierarchy none (s.objects.containerOf? r.target.object))
    (h : s.applyChange r = .ok (outcome, s')) : s'.objects = s.objects := by
  obtain ⟨o, ho, h⟩ := Run.ok_of_bind h
  have hplace : s.objects.containerOf? r.target.object = o.container :=
    congrArg (·.bind Object.container) (get?_of_require ho)
  rw [hkind, hpayload, hplace] at h
  cases h
  simp [move]

namespace Workbench

open Scheduler

variable {σ : Type} {base w w' : Workbench σ} {o : Object} {stale : Entity → Prop} {r : Request}
  {result : Except ApplyError Outcome} {e p : Entity} {f : Formula}

/-! ## Formulas that follow -/

/-- A formula fails if its tree gives an error now, and otherwise does not fail, and its property
has the value of the tree. -/
structure Follows (w : Workbench σ) (e : Entity) (f : Formula) : Prop where
  value : ∀ v, w.fresh f = .ok v → f.failing = false ∧ w.property? e.object e.property = some v
  error : ∀ reason, w.fresh f = .error reason → f.failing = true

/-- The same of what the tree means and of the field of the property. -/
structure Tracks (w : Workbench σ) (e : Entity) (f : Formula) : Prop where
  value : ∀ v, w.meaning f = .ok v →
    f.failing = false ∧ w.scene.objects.field? e = some (.leaf v)
  error : ∀ reason, w.meaning f = .error reason → f.failing = true

theorem UpToDate.follows (h : w.UpToDate e f) : w.Follows e f where
  value v hv := by
    have hnoted := h.1
    rw [hv] at hnoted
    exact ⟨hnoted.1, h.2 v hv⟩
  error reason hreason := by
    have hnoted := h.1
    rw [hreason] at hnoted
    exact hnoted

theorem Agrees.tracks (h : w.Agrees e f) : w.Tracks e f where
  value v hv := by
    have hnoted := h.1
    rw [hv] at hnoted
    exact ⟨hnoted.1, h.2 v hv⟩
  error reason hreason := by
    have hnoted := h.1
    rw [hreason] at hnoted
    exact hnoted

theorem Grounded.follows_iff (h : w.Grounded) (hf : w.formulas[e]? = some f) :
    w.Follows e f ↔ w.Tracks e f := by
  have hplain := h.plain hf
  constructor
  · rintro ⟨hvalue, herror⟩
    rw [h.fresh] at hvalue herror
    exact ⟨fun v hv => (hvalue v hv).imp_right (field?_of_property? hplain), herror⟩
  · rintro ⟨hvalue, herror⟩
    rw [← h.fresh] at hvalue herror
    exact ⟨fun v hv => (hvalue v hv).imp_right (property?_of_field? hplain), herror⟩

/-- A formula tracks what it did when neither what it means nor its field changed. -/
theorem Tracks.congr (h : w.Tracks e f) (hmeaning : w'.meaning f = w.meaning f)
    (hfield : w'.scene.objects.field? e = w.scene.objects.field? e) : w'.Tracks e f where
  value v hv := by
    rw [hfield]
    exact h.value v (hmeaning ▸ hv)
  error reason hreason := h.error reason (hmeaning ▸ hreason)

theorem Tracks.of_changes {changed : Entity → Prop} (htracks : w.Tracks e f)
    (hc : Changes w w' changed) (h : w.Grounded) (hf : w.formulas[e]? = some f)
    (hreads : ∀ p ∈ w.reads f, ¬ changed p) (he : ¬ changed e) : w'.Tracks e f :=
  htracks.congr (hc.meaning h.functions (h.formulas hf).2.2 hreads) (hc.fields e he)

theorem SameContent.tracks (hsame : SameContent w w') (h : w.Grounded)
    (hf : w.formulas[e]? = some f) (htracks : w.Tracks e f) : w'.Tracks e f :=
  htracks.of_changes (hsame.changes fun _ => False) h hf (fun _ _ => id) id

/-- After a request, a formula that tracked what it reads or was evaluated does so, unless it reads
what the request affects. -/
theorem Effect.tracks {driven : Entity → Prop} (heffect : Effect w r result w') (h : w.Grounded)
    (hr : r.Beside driven)
    (hdriven : ∀ {e : Entity} {f : Formula}, w.formulas[e]? = some f → driven e)
    {f' : Formula} (hf' : w'.formulas[e]? = some f') :
    ∃ f, w.formulas[e]? = some f ∧ f'.core = f.core ∧
      (e ∉ w.reads f → (e = r.target ∨ w.Tracks e f) →
        (result.isOk ∧ ∃ p ∈ r.affected, p ∈ w.reads f) ∨ w'.Tracks e f') := by
  by_cases he : e = r.target
  · obtain ⟨f, hf, hcore, hagrees⟩ := heffect.agrees h hr hdriven hf'
    exact ⟨f, hf, hcore, fun hself _ => (hagrees hself (.inl he)).imp_right Agrees.tracks⟩
  · have hf : w.formulas[e]? = some f' :=
      (heffect.formulas h hf').resolve_right fun ⟨htarget, _⟩ => he htarget
    refine ⟨f', hf, rfl, fun _ htracks => or_iff_not_imp_left.2 fun hreads => ?_⟩
    exact (htracks.resolve_left he).of_changes (heffect.changes h hr.toInPlace) h hf
      (fun p hp ⟨hok, haffected⟩ => hreads ⟨hok, p, haffected, hp⟩)
      fun ⟨_, haffected⟩ => he (hr.affects e haffected (hdriven hf))

/-! ## Serving what comes of an arrival -/

/-- What says nothing new evaluates the formula of its target, or there is none to evaluate and
nothing changes. -/
theorem Effect.heralds (h : Effect w r result w') (hr : r.Heralds o)
    (hplace : w.containerOf? o.id = o.container) :
    (SameContent w w' ∧ (r.Evaluates → r.target.isVariable ∨ w.formulas[r.target]? = none)) ∨
      r.Evaluates ∧ (w.formulas[r.target]?).isSome := by
  cases h with
  | noted hc hnone =>
    exact .inl ⟨⟨hc, rfl, rfl, rfl⟩, fun hkind => hnone.imp_right fun h => h hkind⟩
  | changed hc _ hnone hchange =>
    refine .inl ⟨⟨hc, rfl, rfl, ?_⟩, fun hkind => .inr (hnone hkind)⟩
    rcases hr with hkind | ⟨hkind, hpayload⟩ | ⟨hkind, htarget, hpayload⟩
    · obtain ⟨e, he⟩ := w.scene.applyChange_recompute hkind
      rw [he] at hchange
      cases hchange
    · exact Scene.objects_applyChange_news (.inl ⟨hkind, _, hpayload⟩) hchange
    · refine Scene.objects_applyChange_stay hkind ?_ hchange
      rw [hpayload, htarget]
      exact congrArg (Payload.hierarchy none) hplace.symm
  | failed hevaluates hf => exact .inr ⟨hevaluates, hf ▸ rfl⟩
  | computed hevaluates hf => exact .inr ⟨hevaluates, hf ▸ rfl⟩

/-- In `base` the object `o` lies where the news say, and the formulas that are not stale depend by
edges on all that they read. A formula that drives the list of its children is stale. -/
structure Welcoming (stale : Entity → Prop) (o : Object) (base : Workbench σ) : Prop where
  place : base.containerOf? o.id = o.container
  children : stale ⟨o.id, Names.children⟩
  edges : ∀ {e p : Entity} {f : Formula}, base.formulas[e]? = some f → ¬ stale e →
    p ∈ base.reads f → base.scheduler.graph.Feeds p e

/-- Since `base` formulas were evaluated and their values written. What comes of the arrival of `o`
is being served, and every formula waits, tracks what it reads or is stale. -/
structure Recovers (stale : Entity → Prop) (o : Object) (base w : Workbench σ) : Prop extends
    Grounded w where
  serves : w.scheduler.Serves (Request.Heralds o)
  graph : w.scheduler.graph = base.scheduler.graph
  shape : w.scene.objects.shape = base.scene.objects.shape
  cores : ∀ e : Entity, (w.formulas[e]?).map Formula.core = (base.formulas[e]?).map Formula.core
  settles : ∀ {e : Entity} {f : Formula}, w.formulas[e]? = some f →
    stale e ∨ w.scheduler.Waits e ∨ w.Tracks e f

namespace Recovers

theorem alike (h : Recovers stale o base w) (hsame : SameContent w w')
    (halike : Alike w.scheduler w'.scheduler) : Recovers stale o base w' where
  toGrounded := h.toGrounded.same hsame
  serves := h.serves.alike halike
  graph := halike.graph.trans h.graph
  shape := (congrArg ObjectTable.shape hsame.objects).trans h.shape
  cores e := by rw [hsame.formulas, h.cores]
  settles {e f} hf := by
    rw [hsame.formulas] at hf
    refine (h.settles hf).imp_right (Or.imp (fun he => ?_) (hsame.tracks h.toGrounded hf))
    rwa [Waits, halike.pendingFor]

/-- A formula has a formula with the same core in the base. -/
theorem exists_formula (h : Recovers stale o base w) (hf : w.formulas[e]? = some f) :
    ∃ g, base.formulas[e]? = some g ∧ g.core = f.core := by
  have hcore := h.cores e
  rw [hf, Option.map_some, eq_comm, Option.map_eq_some_iff] at hcore
  exact hcore

/-- A formula that is not stale depends by edges on what it reads. -/
theorem feeds (h : Recovers stale o base w) (hbase : Welcoming stale o base)
    (hf : w.formulas[e]? = some f) (hstale : ¬ stale e) (hp : p ∈ w.reads f) :
    w.scheduler.graph.Feeds p e := by
  obtain ⟨g, hg, hcore⟩ := h.exists_formula hf
  rw [h.graph]
  refine hbase.edges hg hstale ?_
  rwa [reads_of_core base hcore, ← reads_congr h.shape]

theorem place (h : Recovers stale o base w) (hbase : Welcoming stale o base) :
    w.containerOf? o.id = o.container :=
  (ObjectTable.containerOf?_congr h.shape o.id).trans hbase.place

/-- A formula is stale whose own request does not evaluate it. -/
theorem stale_of_target (h : Recovers stale o base w) (hbase : Welcoming stale o base)
    (hr : r.Heralds o) (hf : w.formulas[r.target]? = some f)
    (hnone : r.Evaluates → r.target.isVariable ∨ w.formulas[r.target]? = none) :
    stale r.target := by
  have hevaluates : ¬ r.Evaluates := by
    intro hevaluates
    rcases hnone hevaluates with hvariable | hnone
    · exact absurd hvariable (h.owner hf)
    · cases hf.symm.trans hnone
  rcases hr with hkind | ⟨hkind, -⟩ | ⟨-, htarget, -⟩
  · exact absurd (.inl hkind) hevaluates
  · exact absurd (.inr hkind) hevaluates
  · exact htarget ▸ hbase.children

theorem serve {queue : Queue} {s : Scheduler} (h : Recovers stale o base w)
    (hbase : Welcoming stale o base) (hpop : w.scheduler.queue.pop = (some r, queue))
    (heffect : Effect { w with scheduler := { w.scheduler with queue } } r result w')
    (hs : Quiet { w.scheduler with queue } s)
    (hreaders : result.isOk → ∀ p ∈ r.affected, ∀ c, w.scheduler.graph.Feeds p c → s.Waits c) :
    Recovers stale o base { w' with scheduler := s } := by
  let popped : Workbench σ := { w with scheduler := { w.scheduler with queue } }
  have hpopped : popped.Grounded := h.toGrounded.same (.rescheduled _ _)
  have hold : ∀ {e : Entity} {f : Formula}, w.Tracks e f → popped.Tracks e f :=
    fun htracks => ⟨htracks.value, htracks.error⟩
  obtain ⟨hr, hserves⟩ := h.serves.pop hpop
  obtain ⟨-, hwaits⟩ := Drain.pop_spec h.serves.sound hpop
  have hcontent : SameContent w' { w' with scheduler := s } := .rescheduled _ _
  have hserved : s.Serves (Request.Heralds o) :=
    ⟨hs.sound, hs.unread.trans h.serves.unread, hs.all _ (Request.stable_heralds o) hserves.all⟩
  have hcores : ∀ e : Entity, (w'.formulas[e]?).map Formula.core =
      (base.formulas[e]?).map Formula.core := fun e => (heffect.cores e).trans (h.cores e)
  rcases heffect.heralds hr (h.place hbase) with ⟨hsame, hnone⟩ | ⟨hevaluates, hsome⟩
  · have hgrounded : w'.Grounded := hpopped.same hsame
    have hshape : w'.scene.objects.shape = base.scene.objects.shape :=
      (congrArg ObjectTable.shape hsame.objects).trans h.shape
    refine ⟨hgrounded.same hcontent, hserved, hs.graph.trans h.graph, hshape, hcores,
      fun {e f} hf => ?_⟩
    have hf' : w.formulas[e]? = some f := by rwa [← hsame.formulas]
    rcases h.settles hf' with hstale | hwaiting | htracks
    · exact .inl hstale
    · rcases hwaits e hwaiting with rfl | hwaiting
      · exact .inl (h.stale_of_target hbase hr hf' hnone)
      · exact .inr (.inl (hs.waits e hwaiting))
    · exact .inr (.inr (hcontent.tracks hgrounded hf (hsame.tracks hpopped hf' (hold htracks))))
  · obtain ⟨g, hg⟩ := Option.isSome_iff_exists.1 hsome
    have hbeside : r.Beside fun _ => True := hr.beside hevaluates (h.plain hg)
    have hgrounded : w'.Grounded := heffect.grounded hpopped hbeside.toInPlace
    have hshape : w'.scene.objects.shape = base.scene.objects.shape :=
      (heffect.changes hpopped hbeside.toInPlace).shape.trans h.shape
    refine ⟨hgrounded.same hcontent, hserved, hs.graph.trans h.graph, hshape, hcores,
      fun {e f'} hf' => ?_⟩
    obtain ⟨f, hf, -, htracks⟩ := heffect.tracks hpopped hbeside (fun _ => trivial) hf'
    refine or_iff_not_imp_left.2 fun hstale => ?_
    have hself : e ∉ w.reads f := fun hmem => h.serves.sound.graph.acyclic e
      (.single (h.feeds hbase hf hstale hmem))
    have hnew : e = r.target ∨ w.Tracks e f →
        s.Waits e ∨ Tracks { w' with scheduler := s } e f' := by
      intro hdone
      refine (htracks hself (hdone.imp_right hold)).imp ?_ (hcontent.tracks hgrounded hf')
      exact fun ⟨hok, p, hp, hread⟩ => hreaders hok p hp e (h.feeds hbase hf hstale hread)
    rcases (h.settles hf).resolve_left hstale with hwaiting | hdone
    · rcases hwaits e hwaiting with htarget | hwaiting
      · exact hnew (.inl htarget)
      · exact .inl (hs.waits e hwaiting)
    · exact hnew (.inr hdone)

theorem course (hbase : Welcoming stale o base) : Course (Recovers stale o base) where
  sound h := h.serves.sound
  unread h := h.serves.unread
  same h hsame halike := h.alike hsame halike
  failed := by
    intro w w' r queue reason h hpop heffect
    have hpopped := (Drain.pop_spec h.serves.sound hpop).1
    have hscheduler : w'.scheduler = { w.scheduler with queue } := heffect.scheduler
    have hserved := h.serve hbase hpop heffect (.refl hpopped) fun hok => by cases hok
    rwa [← hscheduler] at hserved
  applied := by
    intro w w' r queue outcome h hpop heffect
    have hpopped := (Drain.pop_spec h.serves.sound hpop).1
    have hscheduler : w'.scheduler = { w.scheduler with queue } := heffect.scheduler
    rw [hscheduler]
    exact h.serve hbase hpop heffect (.cascade hpopped r outcome) fun _ p hp c hc =>
      (waits_cascade hpopped r outcome c).2 (.inl ⟨p, hp, hc⟩)

/-- When nothing waits, a formula that is not stale follows what it reads. -/
theorem follows (h : Recovers stale o base w) (hidle : w.scheduler.isIdle)
    (hf : w.formulas[e]? = some f) (hstale : ¬ stale e) : w.Follows e f :=
  (h.follows_iff hf).2 (((h.settles hf).resolve_left hstale).resolve_left
    (not_waits_of_isIdle hidle e))

end Recovers

/-! ## Coming to rest -/

theorem reserved_applier (vars : VariableTable) : (applier (σ := σ) vars).Reserved :=
  ⟨fun _ _ _ => rfl, fun _ _ _ => rfl⟩

theorem run_perform (w : Workbench σ) (ops : List Operation) (op : Operation) :
    op.run (w.perform ops) = w.perform (ops ++ [op]) := by
  unfold perform
  rw [List.foldl_append]
  rfl

theorem drained_succ (w : Workbench σ) (n : Nat) : w.drained (n + 1) = (w.drained n).drain.2 := by
  show w.drained (n + 1) = (Operation.act .drain).run (w.drained n)
  rw [drained, drained, run_perform, ← List.replicate_succ']

theorem vars_drained (w : Workbench σ) (n : Nat) : (w.drained n).vars = w.vars := by
  induction n generalizing w with
  | zero => rfl
  | succ n ih => exact ih w.drain.2

/-- Draining brings a workbench to rest, if a drain serves any requests. -/
theorem rests_of_inUse (h : w.scheduler.InUse) (hserves : 0 < w.scheduler.settings.maxServed) :
    ∃ n, ∀ m ≥ n, (w.drained m).scheduler.isIdle := by
  refine InUse.comes_to_rest (t := fun m => (w.drained m).scheduler) h hserves
    (reserved_applier w.vars) fun m => ⟨(w.drained m).bench, ?_⟩
  rw [drained_succ, ← w.vars_drained m]
  rfl

/-- Whatever was done with a workbench, it comes to rest when it is drained, if a drain serves any
requests. -/
theorem comes_to_rest (functions : Registry σ) (scene : Scene) (settings : Settings)
    (clock : Clock) (host : σ) (hserves : 0 < settings.propagation.maxServed)
    (ops : List Operation) :
    ∃ n, ∀ m ≥ n, (((new functions scene settings clock host).perform ops).drained
      m).scheduler.isIdle := by
  have hstart : Reaches (fun _ => True) { settings := settings.propagation }
      ((new functions scene settings clock host).perform ops).scheduler :=
    reaches_perform (new functions scene settings clock host) ops
  exact rests_of_inUse (hstart.inUse (.new _)) (hstart.settings ▸ hserves)

end Workbench

end Parametric
