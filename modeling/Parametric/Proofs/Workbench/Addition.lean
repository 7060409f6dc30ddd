import Parametric.Proofs.Workbench.Dragged
import Parametric.Proofs.Workbench.Objects

/-!
# What adding an object does

Once an object is in place, the formulas that it concerns are bound again one after the other and
announced (`Workbench.readdressed`); at the end its arrival is scheduled
(`run_addObject_readdressed`). `Workbench.Added` lists all that this does. When its turn comes a
formula is not refused if each of its producers fed it before, or is fed by nothing
(`admits_of_sources`), and then it is bound to what it reads (`Admits.feeds`).
-/

namespace Parametric.Workbench

open Scheduler

variable {σ : Type} {w w' : Workbench σ} {o : Object} {place : ObjectId → Option ObjectId}
  {es : List Entity}

/-! ## Formulas that are bound again -/

/-- The workbench after some formulas are bound where their objects lie, and announced. -/
def readdressed (w : Workbench σ) (place : ObjectId → Option ObjectId) (es : List Entity) :
    Workbench σ :=
  es.foldl (fun w e => (w.rebound e (place e.object)).announced e none .normal) w

theorem run_readdress (w : Workbench σ) (place : ObjectId → Option ObjectId) (es : List Entity) :
    (forIn es PUnit.unit fun e _ => do
      rebind e (place e.object)
      let _ ← announce e none
      return ForInStep.yield PUnit.unit : Edit σ PUnit).run w =
        (.ok ⟨⟩, w.readdressed place es) := by
  refine Run.run_forIn w (fun e w => ?_) es
  rw [Run.run_bind, run_rebind]
  dsimp only
  rw [Run.run_bind, run_announce]
  rfl

/-- What binding some formulas again and announcing them does. -/
structure Readdressed (es : List Entity) (w w' : Workbench σ) : Prop where
  content : SameContent w w'
  sound : w'.scheduler.Sound
  unread : w'.scheduler.inbox.unread = w.scheduler.inbox.unread
  waits : ∀ x, x ∈ es ∨ w.scheduler.Waits x → w'.scheduler.Waits x
  edges : ∀ p c, c ∉ es → (w'.scheduler.graph.Feeds p c ↔ w.scheduler.graph.Feeds p c)

namespace Readdressed

/-- One formula is bound again and announced. -/
theorem single (hs : w.scheduler.Sound) (e : Entity) (container : Option ObjectId) :
    Readdressed [e] w ((w.rebound e container).announced e none .normal) := by
  obtain ⟨graph, heq, hgraph, hedges⟩ := rebound_spec hs.graph e container
  have hrebound : Sound { w.scheduler with graph } := ⟨hgraph, hs.numbered⟩
  rw [heq]
  obtain ⟨hkeeps, htarget, -, hunread, -⟩ :=
    Scheduler.announced_spec hrebound e none .normal
  refine ⟨(SameContent.rescheduled w _).trans (.announced _ e none .normal), hkeeps.sound, hunread,
    fun x hx => ?_, fun p c hc => ?_⟩
  · rcases hx with hx | hx
    · rw [List.mem_singleton.1 hx]
      exact htarget
    · exact hkeeps.waits x hx
  · rw [List.mem_singleton] at hc
    exact (iff_of_eq (congrArg (·.Feeds p c) hkeeps.graph)).trans (hedges p c (Ne.symm hc))

theorem cons {e : Entity} {w'' : Workbench σ} (h : Readdressed [e] w w')
    (h' : Readdressed es w' w'') : Readdressed (e :: es) w w'' where
  content := h.content.trans h'.content
  sound := h'.sound
  unread := h'.unread.trans h.unread
  waits x hx := by
    rw [List.mem_cons] at hx
    rcases hx with (rfl | hx) | hx
    · exact h'.waits x (.inr (h.waits x (.inl (List.mem_singleton_self x))))
    · exact h'.waits x (.inl hx)
    · exact h'.waits x (.inr (h.waits x (.inr hx)))
  edges p c hc := by
    rw [List.mem_cons, not_or] at hc
    exact (h'.edges p c hc.2).trans (h.edges p c (by simpa using hc.1))

end Readdressed

theorem readdressed_spec (hs : w.scheduler.Sound) (place : ObjectId → Option ObjectId)
    (es : List Entity) : Readdressed es w (w.readdressed place es) := by
  induction es generalizing w with
  | nil => exact ⟨.refl w, hs, rfl, by simp [readdressed], fun _ _ _ => .rfl⟩
  | cons e es ih =>
    have hfirst := Readdressed.single hs e (place e.object)
    exact hfirst.cons (ih hfirst.sound)

/-! ## Edges of formulas that are bound again -/

/-- Binding the formula of a property again is not refused. -/
def Binds (w : Workbench σ) (e : Entity) (container : Option ObjectId) : Prop :=
  ∀ f, w.formulas[e]? = some f →
    (w.scheduler.replaceProducers e (w.producers f container)).1 = .ok ()

theorem binds_iff {e : Entity} {container : Option ObjectId} : w.Binds e container ↔
    ∀ f ∈ (w.formulas[e]?).toList,
      (w.scheduler.replaceProducers e (w.producers f container)).1 = .ok () := by
  simp only [Option.mem_toList]
  rfl

instance {e : Entity} {container : Option ObjectId} : Decidable (w.Binds e container) :=
  decidable_of_iff _ binds_iff.symm

/-- Binding a formula again closes no cycle, if each of its producers feeds it already or is fed by
nothing. -/
theorem binds_of_sources (hs : w.scheduler.Sound) {e : Entity} {container : Option ObjectId}
    (hsources : ∀ f, w.formulas[e]? = some f → ∀ p ∈ (w.producers f container).map (·.1),
      w.scheduler.graph.Feeds p e ∨ p ≠ e ∧ ∀ q, ¬ w.scheduler.graph.Feeds q p) :
    w.Binds e container := by
  intro f hf
  have hsources := hsources f hf
  show (w.scheduler.graph.replaceProducers e (w.producers f container)).1 = .ok ()
  cases hresult : (w.scheduler.graph.replaceProducers e (w.producers f container)).1 with
  | ok _ => rfl
  | error reason =>
    obtain ⟨x, hcycle⟩ := (Graph.replaceProducers_error_iff hs.graph e _).1 ⟨reason, hresult⟩
    -- An edge on a cycle does not come from where nothing comes from.
    have hstep : ∀ {a b : Entity}, (if e = b then a ∈ (w.producers f container).map (·.1)
        else w.scheduler.graph.Feeds a b) → w.scheduler.graph.Feeds a b ∨
          a ≠ e ∧ ∀ q, ¬ w.scheduler.graph.Feeds q a := by
      intro a b hab
      split at hab
      next heb => exact heb ▸ hsources a hab
      next => exact .inl hab
    have hinto : ∀ {a b : Entity}, Relation.TransGen (fun a b => if e = b then
        a ∈ (w.producers f container).map (·.1) else w.scheduler.graph.Feeds a b) a b →
        (∃ q, if e = a then q ∈ (w.producers f container).map (·.1)
          else w.scheduler.graph.Feeds q a) →
        Relation.TransGen w.scheduler.graph.Feeds a b := by
      intro a b hab
      induction hab using Relation.TransGen.head_induction_on with
      | single hab =>
        rintro ⟨q, hq⟩
        rcases hstep hab with hab | ⟨hne, hnone⟩
        · exact .single hab
        · rw [if_neg (Ne.symm hne)] at hq
          exact absurd hq (hnone q)
      | head hac _ ih =>
        rintro ⟨q, hq⟩
        rcases hstep hac with hac' | ⟨hne, hnone⟩
        · exact .head hac' (ih ⟨_, hac⟩)
        · rw [if_neg (Ne.symm hne)] at hq
          exact absurd hq (hnone q)
    obtain ⟨y, -, hyx⟩ := Relation.TransGen.tail'_iff.1 hcycle
    exact absurd (hinto hcycle ⟨y, hyx⟩) (hs.graph.acyclic x)

/-- A formula that is bound again is bound to what it reads, if that is not refused. -/
theorem Binds.feeds (hs : w.scheduler.Sound) {e : Entity} {container : Option ObjectId}
    (h : w.Binds e container) {f : Formula} (hf : w.formulas[e]? = some f) (p : Entity) :
    (w.rebound e container).scheduler.graph.Feeds p e ↔
      p ∈ (w.producers f container).map (·.1) := by
  have hrebound : (w.rebound e container).scheduler.graph =
      (w.scheduler.graph.replaceProducers e (w.producers f container)).2 := by
    unfold rebound rebind
    rw [Run.run_bind, Run.run_get]
    dsimp only
    rw [hf]
    rfl
  rw [hrebound]
  exact Graph.feeds_replaceProducers hs.graph (h f hf) p

theorem graph_announced (hs : w.scheduler.Sound) (e : Entity) (value : Option Value)
    (priority : Priority) : (w.announced e value priority).scheduler.graph = w.scheduler.graph :=
  (Scheduler.announced_spec hs e value priority).1.graph

namespace Readdressed

variable {before after : List Entity} {e : Entity} (hs : w.scheduler.Sound)
  (hes : (before ++ e :: after).Nodup)
include hs hes

/-- When its turn comes a formula is not refused, if each of its producers feeds it already or is fed
by nothing and is not bound again itself. -/
theorem binds (hsources : ∀ f, w.formulas[e]? = some f →
      ∀ p ∈ (w.producers f (place e.object)).map (·.1), w.scheduler.graph.Feeds p e ∨
        p ∉ before ++ e :: after ∧ ∀ q, ¬ w.scheduler.graph.Feeds q p) :
    (w.readdressed place before).Binds e (place e.object) := by
  have hspec := readdressed_spec hs place before
  obtain ⟨-, -, hdisjoint⟩ := List.nodup_append.1 hes
  have hbefore : e ∉ before := fun he => hdisjoint e he e List.mem_cons_self rfl
  refine binds_of_sources hspec.sound fun f hf p hp => ?_
  rw [hspec.content.formulas] at hf
  rw [producers_congr (congrArg ObjectTable.shape hspec.content.objects)] at hp
  rcases hsources f hf p hp with hfeeds | ⟨hout, hnone⟩
  · exact .inl ((hspec.edges p e hbefore).2 hfeeds)
  · rw [List.mem_append, List.mem_cons, not_or, not_or] at hout
    exact .inr ⟨hout.2.1, fun q hq => hnone q ((hspec.edges q p hout.1).1 hq)⟩

/-- A formula that is not refused when its turn comes is bound to what it reads. -/
theorem feeds (hbinds : (w.readdressed place before).Binds e (place e.object)) {f : Formula}
    (hf : w.formulas[e]? = some f) (p : Entity) :
    (w.readdressed place (before ++ e :: after)).scheduler.graph.Feeds p e ↔
      p ∈ (w.producers f (place e.object)).map (·.1) := by
  have hspec := readdressed_spec hs place before
  have hturn := Readdressed.single hspec.sound e (place e.object)
  have hlater := readdressed_spec hturn.sound place after
  obtain ⟨-, hrest, -⟩ := List.nodup_append.1 hes
  have hfold : w.readdressed place (before ++ e :: after) = readdressed
      (((w.readdressed place before).rebound e (place e.object)).announced e none .normal)
      place after := List.foldl_append
  obtain ⟨graph, hrebound, hgraph, -⟩ := rebound_spec hspec.sound.graph e (place e.object)
  have hsound : ((w.readdressed place before).rebound e (place e.object)).scheduler.Sound := by
    rw [hrebound]
    exact ⟨hgraph, hspec.sound.numbered⟩
  have hproducers : (w.readdressed place before).producers f (place e.object) =
      w.producers f (place e.object) :=
    producers_congr (congrArg ObjectTable.shape hspec.content.objects) f _
  rw [hfold, hlater.edges p e (List.nodup_cons.1 hrest).1, graph_announced hsound, ← hproducers]
  exact hbinds.feeds hspec.sound (hspec.content.formulas ▸ hf) p

end Readdressed

/-! ## Adding an object -/

/-- Adding an object binds the formulas that it concerns again and announces them, and then
schedules its arrival. -/
theorem run_addObject_readdressed (w : Workbench σ) (o : Object) :
    let inserted : Workbench σ := { w with scene := w.scene.insert o }
    ((addObject o).run w).2 = ((inserted.invalidate (inserted.concerned o)).readdressed
      inserted.containerOf? (inserted.concerned o)).propagated
        ⟨o.id, .hierarchy, .hierarchy none o.container, .normal⟩ := by
  intro inserted
  unfold addObject
  rw [Run.run_bind, Run.run_modify]
  dsimp only
  rw [Run.run_bind, Run.run_get]
  dsimp only
  rw [Run.run_bind, Run.run_set]
  dsimp only
  rw [Run.run_bind]
  have hloop := run_readdress (inserted.invalidate (inserted.concerned o)) inserted.containerOf?
    (inserted.concerned o)
  unfold concerned at hloop
  rw [hloop]
  rfl

theorem nodup_concerned (w : Workbench σ) (o : Object) : (w.concerned o).Nodup := by
  have hkeys : (w.formulas.toList.map (·.1)).Nodup := by
    rw [Std.ExtTreeMap.map_fst_toList_eq_keys]
    exact Table.nodup_keys w.formulas
  exact hkeys.sublist ((List.filter_sublist).map _)

/-- When its turn comes, the formula of a property is not refused, once an object is in place that
concerns it. -/
def Admits (w : Workbench σ) (o : Object) (e : Entity) : Prop :=
  let inserted : Workbench σ := { w with scene := w.scene.insert o }
  ∃ before after, inserted.concerned o = before ++ e :: after ∧
    ((inserted.invalidate (inserted.concerned o)).readdressed inserted.containerOf? before).Binds e
      (inserted.containerOf? e.object)

/-- A formula that is concerned is not refused, if each of its producers feeds it already or is fed
by nothing and is not concerned itself. -/
theorem admits_of_sources (hs : w.scheduler.Sound) {e : Entity} :
    let inserted : Workbench σ := { w with scene := w.scene.insert o }
    e ∈ inserted.concerned o →
    (∀ f, w.formulas[e]? = some f →
      ∀ p ∈ (inserted.producers f (inserted.containerOf? e.object)).map (·.1),
        w.scheduler.graph.Feeds p e ∨
          p ∉ inserted.concerned o ∧ ∀ q, ¬ w.scheduler.graph.Feeds q p) →
    w.Admits o e := by
  intro inserted he hsources
  obtain ⟨before, after, hsplit⟩ := List.append_of_mem he
  have hnodup := nodup_concerned inserted o
  rw [hsplit] at hnodup hsources
  exact ⟨before, after, hsplit, Readdressed.binds (w := inserted.invalidate (inserted.concerned o))
    hs hnodup hsources⟩

/-- What adding an object does. -/
structure Added (w : Workbench σ) (o : Object) (w' : Workbench σ) : Prop where
  content : SameContent { w with scene := w.scene.insert o } w'
  sound : w'.scheduler.Sound
  unread : w'.scheduler.inbox.unread = w.scheduler.inbox.unread
  waits : ∀ x, w.scheduler.Waits x → w'.scheduler.Waits x
  concerned : ∀ e ∈ concerned { w with scene := w.scene.insert o } o, w'.scheduler.Waits e
  arrival : w'.scheduler.WaitsAs ⟨o.id, Names.children⟩
    fun r => r.kind = .hierarchy ∧ r.payload = .hierarchy none o.container
  readers : ∀ p ∈ moveAffects o.id none o.container, ∀ c ∉ moveAffects o.id none o.container,
    w'.scheduler.graph.Feeds p c → w'.scheduler.Waits c
  edges : ∀ p c, c ∉ Workbench.concerned { w with scene := w.scene.insert o } o →
    (w'.scheduler.graph.Feeds p c ↔ w.scheduler.graph.Feeds p c)

theorem added_addObject (hs : w.scheduler.Sound) (o : Object) :
    Added w o ((Operation.addObject o).run w) := by
  let inserted : Workbench σ := { w with scene := w.scene.insert o }
  let change : Change := ⟨o.id, .hierarchy, .hierarchy none o.container, .normal⟩
  have hbound := readdressed_spec (w := inserted.invalidate (inserted.concerned o)) hs
    inserted.containerOf? (inserted.concerned o)
  show Added w o ((addObject o).run w).2
  rw [run_addObject_readdressed]
  generalize ((inserted.invalidate (inserted.concerned o)).readdressed inserted.containerOf?
    (inserted.concerned o)) = readdressed at hbound
  obtain ⟨hkeeps, hunread, -⟩ := afterChange_spec hbound.sound change
  have hwaits : ∀ x, (readdressed.scheduler.afterChange change).Waits x ↔
      (⟨o.id, Names.children⟩ : Entity) = x ∨
        x ∈ readdressed.scheduler.graph.downstream (moveAffects o.id none o.container) ∨
        readdressed.scheduler.Waits x :=
    waits_afterChange (c := change) hbound.sound nofun rfl
  refine ⟨(SameContent.invalidate inserted _).trans (hbound.content.trans (.rescheduled _ _)),
    hkeeps.sound, hunread.trans hbound.unread, fun x hx => ?_, fun e he => ?_, ?_,
    fun p hp c hc hfeeds => ?_, fun p c hc => ?_⟩
  · exact (hwaits x).2 (.inr (.inr (hbound.waits x (.inr hx))))
  · exact (hwaits e).2 (.inr (.inr (hbound.waits e (.inl he))))
  · refine waitsAs_afterChange (c := change) hbound.sound (fun r priority payload _ hr => ?_)
      nofun rfl fun id => ⟨rfl, rfl⟩
    exact ⟨hr.1, by simp [Request.absorb, hr.2, Payload.isRecompute]⟩
  · refine (hwaits c).2 (.inr (.inl ?_))
    have hfeeds : readdressed.scheduler.graph.Feeds p c := hkeeps.graph ▸ hfeeds
    exact (Graph.mem_downstream_iff hbound.sound.graph _ c).2 ⟨hc, p, hp, .single hfeeds⟩
  · have hgraph : (readdressed.propagated change).scheduler.graph = readdressed.scheduler.graph :=
      hkeeps.graph
    rw [hgraph]
    exact hbound.edges p c hc

namespace Admits

theorem concerned {e : Entity} (h : w.Admits o e) :
    e ∈ concerned { w with scene := w.scene.insert o } o := by
  obtain ⟨before, after, hsplit, -⟩ := h
  rw [hsplit]
  exact List.mem_append_right _ List.mem_cons_self

/-- A formula that is admitted is bound to what it reads once the object is there. -/
theorem feeds (hs : w.scheduler.Sound) {e : Entity} (h : w.Admits o e) {f : Formula}
    (hf : w.formulas[e]? = some f) (hobject : f.object = e.object) (p : Entity) :
    ((Operation.addObject o).run w).scheduler.graph.Feeds p e ↔
      p ∈ ((Operation.addObject o).run w).reads f := by
  obtain ⟨before, after, hsplit, hbinds⟩ := h
  let inserted : Workbench σ := { w with scene := w.scene.insert o }
  let change : Change := ⟨o.id, .hierarchy, .hierarchy none o.container, .normal⟩
  have hspec := readdressed_spec (w := inserted.invalidate (inserted.concerned o)) hs
    inserted.containerOf? (inserted.concerned o)
  have hgraph : ((Operation.addObject o).run w).scheduler.graph =
      ((inserted.invalidate (inserted.concerned o)).readdressed inserted.containerOf?
        (inserted.concerned o)).scheduler.graph := by
    show ((addObject o).run w).2.scheduler.graph = _
    rw [run_addObject_readdressed]
    exact (afterChange_spec hspec.sound change).1.graph
  have hnodup := nodup_concerned inserted o
  have hfeeds := Readdressed.feeds (w := inserted.invalidate (inserted.concerned o)) hs
    (hsplit ▸ hnodup) hbinds hf p
  rw [← hsplit] at hfeeds
  have hreads : ((Operation.addObject o).run w).reads f = inserted.reads f :=
    reads_congr (congrArg ObjectTable.shape (added_addObject hs o).content.objects) f
  rw [hgraph, hreads]
  unfold reads
  rw [hobject]
  exact hfeeds

end Admits

end Parametric.Workbench
