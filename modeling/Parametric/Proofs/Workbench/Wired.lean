import Parametric.Proofs.Update.Turn
import Parametric.Proofs.Workbench.InPlace

/-!
# Requests beside the formulas

A request is beside the formulas when it moves no object and affects no property that a formula
drives, except that of its target, whose formula it evaluates (`Request.Beside`). After it a formula
that agreed or was evaluated agrees, unless it reads what the request affects (`Effect.agrees`). The
edges may be those of objects that lie elsewhere (`Workbench.EdgesAt`). Where they are right for the
object of a formula, they lead from what a request affects to the formula, so that it waits or
agrees afterwards (`Wired.waits_or_agrees`).
-/

namespace Parametric

namespace Request

/-- A request that moves no object, evaluates the formula of its target if one drives it, and
affects no other property that a formula drives. -/
structure Beside (driven : Entity → Prop) (r : Request) : Prop extends
    InPlace (fun _ _ => True) r where
  evaluates : driven r.target → r.Evaluates
  affects : ∀ e ∈ r.affected, driven e → e = r.target

/-- News of a property whose name has no dot. -/
theorem beside_property {driven : Entity → Prop} {r : Request} {value : Option Value}
    (hkind : r.kind = .property) (hpayload : r.payload = .property r.target.property value)
    (hundotted : Path.Undotted r.target.property) : r.Beside driven := by
  refine ⟨⟨by simp [hkind], fun _ _ => ⟨hundotted, value, hpayload⟩, fun _ _ _ => trivial⟩,
    fun _ => .inr hkind, fun e he _ => ?_⟩
  rw [Evaluates.affected (.inr hkind)] at he
  exact List.mem_singleton.1 he

/-- News of the size of an object none of whose extents is driven. -/
theorem beside_size {driven : Entity → Prop} {r : Request} {object : ObjectId}
    (hkind : r.kind = .size) (htarget : r.target = ⟨object, Names.size⟩)
    (hundriven : ∀ name ∈ [Names.size, Names.width, Names.height, Names.depth],
      ¬ driven ⟨object, name⟩) : r.Beside driven := by
  refine ⟨⟨by simp [hkind], fun h => by simp [hkind] at h, fun _ _ _ => trivial⟩, fun h => ?_,
    fun e he h => ?_⟩
  · rw [htarget] at h
    exact absurd h (hundriven Names.size List.mem_cons_self)
  · rw [affected, hkind, htarget] at he
    obtain ⟨name, hname, rfl⟩ := List.mem_map.1 he
    exact absurd h (hundriven name (List.mem_cons_of_mem _ hname))

/-- What a request affects depends on its payload only if it moves an object. -/
theorem affected_congr {kind : ChangeKind} (hkind : kind ≠ .hierarchy) (target : Entity)
    (payload payload' : Payload) :
    kind.affected target payload = kind.affected target payload' := by
  cases kind <;> first | rfl | exact absurd rfl hkind

theorem stable_beside (driven : Entity → Prop) : Stable (Beside driven) := by
  have hstable := stable_inPlace fun _ _ => True
  refine ⟨fun r hr => ⟨hstable.recompute r hr, fun _ => .inl hr, fun e he _ => ?_⟩,
    fun r priority payload hpayload hr =>
      ⟨hstable.absorb r priority payload hpayload hr.toInPlace, hr.evaluates, fun e he => ?_⟩⟩
  · rw [Evaluates.affected (.inl hr)] at he
    exact List.mem_singleton.1 he
  · have hsame : (r.absorb priority payload).affected = r.affected :=
      affected_congr hr.kind r.target _ r.payload
    exact hr.affects e (hsame ▸ he)

end Request

namespace Workbench

open Scheduler

variable {σ : Type} {w w' : Workbench σ} {r m : Request} {result : Except ApplyError Outcome}
  {driven stale early : Entity → Prop} {hurry : Prop} {e : Entity} {f f' : Formula}
  {x : ObjectId} {parent : Option ObjectId}

/-! ## Evaluations -/

/-- A request that evaluates a formula notes what it means, and writes it if it is a value. -/
theorem Effect.computes (heffect : Effect w r result w') (h : w.Grounded) (hr : r.Evaluates)
    (hf : w.formulas[r.target]? = some f) :
    ∃ f', w'.formulas[r.target]? = some f' ∧ f'.core = f.core ∧ f'.Noted (w.meaning f) ∧
      ∀ v, w.meaning f = .ok v → w'.scene.objects.field? r.target = some (.leaf v) := by
  obtain ⟨-, hsome, -⟩ := h.formulas hf
  cases heffect with
  | noted _ hnone =>
    rcases hnone with hvariable | hnone
    · exact absurd hvariable (h.owner hf)
    · rw [hnone hr] at hf
      cases hf
  | changed _ _ hnone =>
    rw [hnone hr] at hf
    cases hf
  | failed _ hg hc hmisses heval hwrite hunasked =>
    obtain rfl := Option.some.inj (hf.symm.trans hg)
    obtain ⟨hcore, hresult, hnoted, -⟩ := h.evaluateCached_spec hf hc hmisses hunasked heval
    refine ⟨_, Std.ExtTreeMap.getElem?_insert_self, hcore, hnoted, fun v hv => ?_⟩
    obtain ⟨bounds, scene, hok⟩ := w.scene.exists_write hsome v
    obtain ⟨reason, herror⟩ := hwrite v (hresult.trans hv)
    rw [herror] at hok
    cases hok
  | computed _ hg hc hmisses heval hwrite hunasked =>
    obtain rfl := Option.some.inj (hf.symm.trans hg)
    obtain ⟨hcore, hresult, hnoted, -⟩ := h.evaluateCached_spec hf hc hmisses hunasked heval
    refine ⟨_, Std.ExtTreeMap.getElem?_insert_self, hcore, hnoted, fun v hv => ?_⟩
    rw [← hresult] at hv
    cases hv
    exact (Scene.field?_write (h.plain hf) hwrite _).trans (if_pos rfl)

/-- A formula agrees as before when neither what it reads nor what it drives changed. -/
theorem Agrees.of_changes {changed : Entity → Prop} (hagrees : w.Agrees e f)
    (hc : Changes w w' changed) (h : w.Grounded) (hf : w.formulas[e]? = some f)
    (hreads : ∀ p ∈ w.reads f, ¬ changed p) (he : ¬ changed e) : w'.Agrees e f := by
  have hsame := hc.meaning h.functions (h.formulas hf).2.2 hreads
  refine ⟨hsame ▸ hagrees.1, fun v hv => ?_⟩
  rw [hc.fields e he]
  exact hagrees.2 v (hsame ▸ hv)

/-- After a request, a formula that agreed or was evaluated agrees, unless it reads what the request
affects. -/
theorem Effect.agrees (heffect : Effect w r result w') (h : w.Grounded) (hr : r.Beside driven)
    (hdriven : ∀ {e : Entity} {f : Formula}, w.formulas[e]? = some f → driven e)
    (hf' : w'.formulas[e]? = some f') :
    ∃ f, w.formulas[e]? = some f ∧ f'.core = f.core ∧
      (e ∉ w.reads f → (e = r.target ∨ w.Agrees e f) →
        (result.isOk ∧ ∃ p ∈ r.affected, p ∈ w.reads f) ∨ w'.Agrees e f') := by
  have hc := heffect.changes h hr.toInPlace
  by_cases he : e = r.target
  · subst he
    obtain ⟨f, hf⟩ : ∃ f, w.formulas[r.target]? = some f := by
      rcases heffect.formulas h hf' with hf | ⟨-, f, hf, -⟩ <;> exact ⟨_, hf⟩
    obtain ⟨g, hg, hcore, hnoted, hvalue⟩ := heffect.computes h (hr.evaluates (hdriven hf)) hf
    obtain rfl := Option.some.inj (hf'.symm.trans hg)
    refine ⟨f, hf, hcore, fun _ _ => or_iff_not_imp_left.2 fun hreads => ?_⟩
    have hsame : w'.meaning f' = w.meaning f := by
      rw [meaning_of_core w' hcore]
      exact hc.meaning h.functions (h.formulas hf).2.2
        fun p hp ⟨hok, haffected⟩ => hreads ⟨hok, p, haffected, hp⟩
    exact ⟨hsame ▸ hnoted, fun v hv => hvalue v (hsame ▸ hv)⟩
  · have hf : w.formulas[e]? = some f' :=
      (heffect.formulas h hf').resolve_right fun ⟨htarget, _⟩ => he htarget
    refine ⟨f', hf, rfl, fun _ hagrees => or_iff_not_imp_left.2 fun hreads => ?_⟩
    exact (hagrees.resolve_left he).of_changes hc h hf
      (fun p hp ⟨hok, haffected⟩ => hreads ⟨hok, p, haffected, hp⟩)
      fun ⟨_, haffected⟩ => he (hr.affects e haffected (hdriven hf))

/-! ## Edges -/

/-- The edges are what formulas read when their objects lie where `place` says. -/
def EdgesAt (w : Workbench σ) (place : ObjectId → Option ObjectId) : Prop :=
  ∀ p e : Entity, w.scheduler.graph.Feeds p e ↔
    ∃ f, w.formulas[e]? = some f ∧ p ∈ (w.producers f (place f.object)).map (·.1)

/-- Both the edges and what the formulas read are finitely many. -/
theorem edgesAt_iff : w.EdgesAt place ↔
    (∀ link ∈ w.scheduler.graph.edges.keys, (w.formulas[link.consumer]?).any fun f =>
      link.producer ∈ (w.producers f (place f.object)).map (·.1)) ∧
    ∀ ef ∈ w.formulas.toList, ∀ p ∈ (w.producers ef.2 (place ef.2.object)).map (·.1),
      w.scheduler.graph.Feeds p ef.1 := by
  have hread : ∀ p e : Entity, (w.formulas[e]?).any (fun f =>
      p ∈ (w.producers f (place f.object)).map (·.1)) ↔
      ∃ f, w.formulas[e]? = some f ∧ p ∈ (w.producers f (place f.object)).map (·.1) := by
    intro p e
    simp only [Option.any_eq_true, decide_eq_true_eq]
  constructor
  · intro h
    refine ⟨fun link hlink => ?_, fun ⟨e, f⟩ hef p hp => ?_⟩
    · exact (hread _ _).2 ((h _ _).1 (Std.ExtTreeMap.mem_keys.1 hlink))
    · exact (h p e).2 ⟨f, Std.ExtTreeMap.mem_toList_iff_getElem?_eq_some.1 hef, hp⟩
  · rintro ⟨hedges, hreads⟩ p e
    constructor
    · exact fun hfeeds => (hread p e).1 (hedges ⟨p, e⟩ (Std.ExtTreeMap.mem_keys.2 hfeeds))
    · rintro ⟨f, hf, hp⟩
      exact hreads (e, f) (Std.ExtTreeMap.mem_toList_iff_getElem?_eq_some.2 hf) p hp

instance (w : Workbench σ) (place : ObjectId → Option ObjectId) : Decidable (w.EdgesAt place) :=
  decidable_of_iff _ edgesAt_iff.symm

/-- What references stand for, and the formulas as they were compiled, are the same. -/
theorem EdgesAt.congr {place place' : ObjectId → Option ObjectId} (h : w.EdgesAt place)
    (hgraph : w'.scheduler.graph = w.scheduler.graph)
    (hformulas : ∀ e : Entity,
      (w'.formulas[e]?).map Formula.core = (w.formulas[e]?).map Formula.core)
    (hproducers : ∀ (f : Formula) (c : Option ObjectId), w'.producers f c = w.producers f c)
    (hplace : ∀ {e : Entity} {f : Formula}, w.formulas[e]? = some f →
      place' f.object = place f.object) : w'.EdgesAt place' := by
  intro p e
  rw [hgraph, h]
  have hcores := hformulas e
  have hread : ∀ {f f' : Formula}, w.formulas[e]? = some f → f'.core = f.core →
      w'.producers f' (place' f'.object) = w.producers f (place f.object) := by
    intro f f' hf hcore
    have hsame : w'.producers f' (place' f'.object) =
        w'.producers f'.core (place' f'.core.object) := rfl
    rw [hsame, hcore, hproducers, ← hplace hf]
    rfl
  constructor
  · rintro ⟨f, hf, hp⟩
    rw [hf, Option.map_some, Option.map_eq_some_iff] at hcores
    obtain ⟨f', hf', hcore⟩ := hcores
    exact ⟨f', hf', by rwa [hread hf hcore]⟩
  · rintro ⟨f', hf', hp⟩
    rw [hf', Option.map_some, eq_comm, Option.map_eq_some_iff] at hcores
    obtain ⟨f, hf, hcore⟩ := hcores
    exact ⟨f, hf, by rwa [← hread hf hcore.symm]⟩

/-- The consumers in the graph are driven. -/
theorem EdgesAt.exists_formula {place : ObjectId → Option ObjectId} (h : w.EdgesAt place)
    {p c : Entity} (hc : w.scheduler.graph.Feeds p c) : ∃ f, w.formulas[c]? = some f := by
  obtain ⟨f, hf, -⟩ := (h p c).1 hc
  exact ⟨f, hf⟩

theorem EdgesAt.exists_formula_of_downstream {place : ObjectId → Option ObjectId}
    (h : w.EdgesAt place) (hgraph : w.scheduler.graph.Sound) {roots : List Entity} {c : Entity}
    (hc : c ∈ w.scheduler.graph.downstream roots) : ∃ f, w.formulas[c]? = some f := by
  obtain ⟨p, hp⟩ := Graph.exists_feeds_of_mem_downstream hgraph hc
  exact h.exists_formula hp

/-- A formula whose object lies where it should does not read what it drives. -/
theorem EdgesAt.notMem_reads {place : ObjectId → Option ObjectId} (h : w.EdgesAt place)
    (hgraph : w.scheduler.graph.Sound) (hf : w.formulas[e]? = some f)
    (hplace : place f.object = w.containerOf? f.object) : e ∉ w.reads f := by
  intro hmem
  refine hgraph.acyclic e (.single ((h e e).2 ⟨f, hf, ?_⟩))
  rw [hplace]
  exact hmem

/-- The edges are what formulas read at their places, what is driven is known, and nothing is left
to be read. -/
structure Wired (driven : Entity → Prop) (place : ObjectId → Option ObjectId) (w : Workbench σ) :
    Prop extends Grounded w where
  graph : w.scheduler.graph.Sound
  unread : w.scheduler.inbox.unread = []
  drives : ∀ {e : Entity} {f : Formula}, w.formulas[e]? = some f → driven e
  edges : w.EdgesAt place

namespace Wired

variable {place : ObjectId → Option ObjectId} {s : Scheduler}

/-- Formulas with the same cores and right constants, in a scene of the same shape. -/
theorem congr (h : Wired driven place w) (hgrounded : w'.Grounded)
    (hgraph : w'.scheduler.graph = w.scheduler.graph)
    (hunread : w'.scheduler.inbox.unread = w.scheduler.inbox.unread)
    (hcores : ∀ e : Entity, (w'.formulas[e]?).map Formula.core = (w.formulas[e]?).map Formula.core)
    (hshape : w'.scene.objects.shape = w.scene.objects.shape) : Wired driven place w' where
  toGrounded := hgrounded
  graph := hgraph ▸ h.graph
  unread := hunread.trans h.unread
  drives := by
    intro e f hf
    have hcore := hcores e
    rw [hf, Option.map_some, eq_comm, Option.map_eq_some_iff] at hcore
    obtain ⟨g, hg, -⟩ := hcore
    exact h.drives hg
  edges := h.edges.congr hgraph hcores (fun f c => producers_congr hshape f c) fun _ => rfl

theorem same (h : Wired driven place w) (hsame : SameContent w w')
    (hgraph : w'.scheduler.graph = w.scheduler.graph)
    (hunread : w'.scheduler.inbox.unread = w.scheduler.inbox.unread) : Wired driven place w' :=
  h.congr (h.toGrounded.same hsame) hgraph hunread (fun _ => by rw [hsame.formulas])
    (congrArg ObjectTable.shape hsame.objects)

theorem effect (h : Wired driven place w) (hr : r.Beside driven) (heffect : Effect w r result w')
    (hs : Quiet w.scheduler s) : Wired driven place { w' with scheduler := s } :=
  h.congr ((heffect.grounded h.toGrounded hr.toInPlace).same (.rescheduled _ _)) hs.graph
    hs.unread heffect.cores (heffect.changes h.toGrounded hr.toInPlace).shape

/-- After a request, a formula that agreed or was evaluated waits or agrees, if its object lies in
its place. -/
theorem waits_or_agrees (h : Wired driven place w) (hr : r.Beside driven)
    (heffect : Effect w r result w')
    (hreaders : result.isOk → ∀ p ∈ r.affected, ∀ c, w.scheduler.graph.Feeds p c → s.Waits c)
    (hf' : w'.formulas[e]? = some f') :
    ∃ f, w.formulas[e]? = some f ∧ f'.core = f.core ∧
      (place f.object = w.containerOf? f.object → (e = r.target ∨ w.Agrees e f) →
        s.Waits e ∨ w'.Agrees e f') := by
  obtain ⟨f, hf, hcore, hsettles⟩ := heffect.agrees h.toGrounded hr h.drives hf'
  refine ⟨f, hf, hcore, fun hplace hagrees => ?_⟩
  refine (hsettles (h.edges.notMem_reads h.graph hf hplace) hagrees).imp_left ?_
  rintro ⟨hok, p, hp, hread⟩
  refine hreaders hok p hp e ((h.edges p e).2 ⟨f, hf, ?_⟩)
  rw [hplace]
  exact hread

end Wired

end Workbench

end Parametric
