import Parametric.Proofs.Graph.Reach

/-!
# Edits of a graph

A graph is `Sound` when its tables list its links and no entity follows from itself. `Graph.add`
keeps this because an edge that closes a cycle is found by the search; the removals because they
only take edges away. For each operation there is one lemma on soundness and one on `edge?`, which
says all that becomes of the edges.

`replaceProducers` takes the old edges out first. When it fails it puts them back one by one, and
none of these insertions can fail, since the graph that they lead back to has no cycle: the graph is
as it was (`replaceProducers_error`).
-/

namespace Parametric.Graph
open Relation (ReflTransGen TransGen)

variable {g h : Graph}

/-- Both tables list the links, and no entity follows from itself. -/
structure Sound (g : Graph) : Prop extends Indexed g where
  acyclic : ∀ e, ¬ TransGen g.Feeds e e

theorem Sound.empty : Sound {} := by
  refine ⟨.empty, fun e hpath => ?_⟩
  obtain ⟨b, hstep, -⟩ := TransGen.head'_iff.1 hpath
  simp [Feeds] at hstep

/-- Fewer edges make no cycle. -/
theorem Sound.of_subset (hg : g.Sound) (hh : h.Indexed) (hsub : ∀ p c, h.Feeds p c → g.Feeds p c) :
    h.Sound :=
  ⟨hh, fun e hpath => hg.acyclic e (TransGen.mono hsub e e hpath)⟩

/-! ## Insertion -/

/-- A path with one more edge allowed runs over the old edges, or comes to the new one and goes on
from there. -/
theorem transGen_insert {α : Type} {R : α → α → Prop} {p c x y : α}
    (hpath : TransGen (fun a b => p = a ∧ c = b ∨ R a b) x y) :
    TransGen R x y ∨ ReflTransGen R x p ∧ ReflTransGen R c y := by
  induction hpath with
  | single hstep =>
    rcases hstep with ⟨rfl, rfl⟩ | hstep
    · exact .inr ⟨.refl, .refl⟩
    · exact .inl (.single hstep)
  | tail _ hstep ih =>
    rcases hstep with ⟨rfl, rfl⟩ | hstep
    · rcases ih with ih | ⟨ih, -⟩
      · exact .inr ⟨ih.to_reflTransGen, .refl⟩
      · exact .inr ⟨ih, .refl⟩
    · rcases ih with ih | ⟨ih, ih'⟩
      · exact .inl (ih.tail hstep)
      · exact .inr ⟨ih, ih'.tail hstep⟩

theorem edge?_add {p c : Entity} {edge : Edge} (hadd : g.add p c edge = .ok h) (a b : Entity) :
    h.edge? a b = if p = a ∧ c = b then some edge else g.edge? a b := by
  unfold add at hadd
  split at hadd
  · cases hadd
  · cases hadd
    simp only [edge?, Table.getElem?_insert, Link.mk.injEq]

theorem feeds_add {p c : Entity} {edge : Edge} (hadd : g.add p c edge = .ok h) (a b : Entity) :
    h.Feeds a b ↔ p = a ∧ c = b ∨ g.Feeds a b := by
  rw [feeds_iff_isSome, feeds_iff_isSome, edge?_add hadd]
  split <;> simp_all

/-- An edge is refused exactly when it would close a cycle. -/
theorem add_eq_error_iff (hg : g.Indexed) (p c : Entity) (edge : Edge) :
    g.add p c edge = .error ⟨p, c⟩ ↔ ReflTransGen g.Feeds c p := by
  rw [← reaches_iff hg]
  unfold add
  split
  next hc =>
    refine iff_of_true rfl ?_
    rcases hc with rfl | hc
    · exact (reaches_iff hg p p).2 .refl
    · exact hc
  next hc =>
    simp only [reduceCtorEq, false_iff]
    exact fun hr => hc (.inr hr)

theorem add_eq (g : Graph) (p c : Entity) (edge : Edge) :
    g.add p c edge = .error ⟨p, c⟩ ∨ ∃ h, g.add p c edge = .ok h := by
  unfold add
  split
  · exact .inl rfl
  · exact .inr ⟨_, rfl⟩

theorem not_reflTransGen_of_add (hg : g.Indexed) {p c : Entity} {edge : Edge}
    (hadd : g.add p c edge = .ok h) : ¬ ReflTransGen g.Feeds c p := fun hpath => by
  rw [(add_eq_error_iff hg p c edge).2 hpath] at hadd
  cases hadd

theorem Sound.add (hg : g.Sound) {p c : Entity} {edge : Edge} (hadd : g.add p c edge = .ok h) :
    h.Sound := by
  have hfeeds := feeds_add hadd
  have hno := not_reflTransGen_of_add hg.toIndexed hadd
  refine ⟨⟨?_, ?_⟩, fun e hpath => ?_⟩
  · refine ((hg.consumers.join p c).congr fun a b => (hfeeds a b).symm).cast ?_
    unfold Graph.add at hadd
    split at hadd <;> cases hadd
    rfl
  · refine ((hg.producers.join c p).congr fun b a => ?_).cast ?_
    · rw [flip, flip, hfeeds, and_comm]
    · unfold Graph.add at hadd
      split at hadd <;> cases hadd
      rfl
  · have heq : h.Feeds = fun a b => p = a ∧ c = b ∨ g.Feeds a b :=
      funext fun a => funext fun b => propext (hfeeds a b)
    rw [heq] at hpath
    rcases transGen_insert hpath with hpath | ⟨hep, hce⟩
    · exact hg.acyclic e hpath
    · exact hno (hce.trans hep)

/-! ## Removal -/

theorem edge?_remove (g : Graph) (p c a b : Entity) :
    (g.remove p c).2.edge? a b = if p = a ∧ c = b then none else g.edge? a b := by
  cases hedge : g.edge? p c with
  | none =>
    simp only [remove, hedge]
    by_cases heq : p = a ∧ c = b
    · rw [if_pos heq, ← heq.1, ← heq.2, hedge]
    · rw [if_neg heq]
  | some edge =>
    simp only [remove, hedge]
    simp only [edge?, Table.getElem?_erase, Link.mk.injEq]

theorem feeds_remove (g : Graph) (p c a b : Entity) :
    (g.remove p c).2.Feeds a b ↔ g.Feeds a b ∧ ¬ (p = a ∧ c = b) := by
  rw [feeds_iff_isSome, feeds_iff_isSome, edge?_remove]
  split <;> simp_all

theorem Indexed.remove (hg : g.Indexed) (p c : Entity) : (g.remove p c).2.Indexed := by
  have hfeeds := feeds_remove g p c
  cases hedge : g.edge? p c with
  | none =>
    have heq : (g.remove p c).2 = g := by
      simp [Graph.remove, hedge]
    rwa [heq]
  | some edge =>
    refine ⟨?_, ?_⟩
    · refine ((hg.consumers.part p c).congr fun a b => (hfeeds a b).symm).cast ?_
      simp [Graph.remove, hedge]
    · refine ((hg.producers.part c p).congr fun b a => ?_).cast ?_
      · rw [flip, flip, hfeeds, and_comm (a := c = b)]
      · simp [Graph.remove, hedge]

theorem Sound.remove (hg : g.Sound) (p c : Entity) : (g.remove p c).2.Sound := by
  refine hg.of_subset (hg.toIndexed.remove p c) fun a b hab => ?_
  exact ((feeds_remove g p c a b).1 hab).1

/-- Taking the links into `c` from some entities out of the table of consumers and out of the edges.
-/
theorem foldl_part (c : Entity) (ps : List Entity) (hg : Lists g.consumers g.Feeds) :
    let h := ps.foldl (fun g p =>
      { g with consumers := part g.consumers p c, edges := g.edges.erase ⟨p, c⟩ }) g
    Lists h.consumers h.Feeds ∧ h.producers = g.producers ∧
      ∀ a b, h.edge? a b = if a ∈ ps ∧ c = b then none else g.edge? a b := by
  induction ps generalizing g with
  | nil => exact ⟨hg, rfl, by simp⟩
  | cons p ps ih =>
    have hedge : ∀ a b,
        (Graph.mk (part g.consumers p c) g.producers (g.edges.erase ⟨p, c⟩)).edge? a b =
          if p = a ∧ c = b then none else g.edge? a b := by
      intro a b
      simp only [edge?, Table.getElem?_erase, Link.mk.injEq]
    obtain ⟨hlists, hproducers, hedges⟩ := ih
      (g := ⟨part g.consumers p c, g.producers, g.edges.erase ⟨p, c⟩⟩)
      ((hg.part p c).congr fun a b => by
        rw [feeds_iff_isSome, feeds_iff_isSome, hedge]
        split <;> simp_all)
    refine ⟨hlists, hproducers, fun a b => ?_⟩
    rw [List.foldl_cons, hedges, hedge]
    by_cases hp : p = a
    · subst hp
      by_cases hc : c = b <;> simp [hc]
    · simp [hp, Ne.symm hp]

theorem edge?_removeConsumer (hg : g.Indexed) (c a b : Entity) :
    (g.removeConsumer c).2.edge? a b = if c = b then none else g.edge? a b := by
  obtain ⟨-, -, hedges⟩ := foldl_part c (g.producersOf c) hg.consumers
  refine (hedges a b).trans ?_
  simp only [hg.mem_producersOf, feeds_iff_isSome]
  by_cases hc : c = b
  · subst hc
    cases g.edge? a c <;> simp
  · simp [hc]

theorem feeds_removeConsumer (hg : g.Indexed) (c a b : Entity) :
    (g.removeConsumer c).2.Feeds a b ↔ g.Feeds a b ∧ c ≠ b := by
  rw [feeds_iff_isSome, feeds_iff_isSome, edge?_removeConsumer hg]
  by_cases hc : c = b <;> simp [hc]

theorem Indexed.removeConsumer (hg : g.Indexed) (c : Entity) : (g.removeConsumer c).2.Indexed := by
  obtain ⟨hlists, hproducers, -⟩ := foldl_part c (g.producersOf c) hg.consumers
  refine ⟨hlists, ?_⟩
  refine ((hg.producers.erase c).congr fun b a => ?_).cast (congrArg (·.erase c) hproducers)
  exact (feeds_removeConsumer hg c a b).symm

theorem Sound.removeConsumer (hg : g.Sound) (c : Entity) : (g.removeConsumer c).2.Sound := by
  refine hg.of_subset (hg.toIndexed.removeConsumer c) fun a b hab => ?_
  exact ((feeds_removeConsumer hg.toIndexed c a b).1 hab).1

theorem mem_removeConsumer (hg : g.Indexed) {c p : Entity} {edge : Edge} :
    (p, edge) ∈ (g.removeConsumer c).1 ↔ g.edge? p c = some edge := by
  simp only [Graph.removeConsumer, List.mem_filterMap, Option.map_eq_some_iff, Prod.mk.injEq]
  constructor
  · rintro ⟨q, -, e, he, rfl, rfl⟩
    exact he
  · intro he
    exact ⟨p, hg.mem_producersOf.2 ((feeds_iff_isSome g p c).2 (by simp [he])), edge, he, rfl, rfl⟩

theorem Sound.removeObject (hg : g.Sound) (object : ObjectId) :
    (g.removeObject object).2.Sound := by
  unfold Graph.removeObject
  generalize g.edges.keys.filter _ = doomed
  induction doomed generalizing g with
  | nil => exact hg
  | cons l doomed ih => exact ih (hg.remove l.producer l.consumer)

/-- Removing an object takes away the edges at it, and no others. -/
theorem edge?_removeObject (g : Graph) (object : ObjectId) (p c : Entity) :
    (g.removeObject object).2.edge? p c =
      if p.object = object ∨ c.object = object then none else g.edge? p c := by
  have hfold : ∀ (doomed : List Link) (g : Graph),
      (doomed.foldl (fun g l => (g.remove l.producer l.consumer).2) g).edge? p c =
        if ⟨p, c⟩ ∈ doomed then none else g.edge? p c := by
    intro doomed
    induction doomed with
    | nil => exact fun g => (if_neg List.not_mem_nil).symm
    | cons l doomed ih =>
      intro g
      obtain ⟨q, d⟩ := l
      rw [List.foldl_cons, ih, edge?_remove]
      simp only [List.mem_cons, Link.mk.injEq, eq_comm (a := p), eq_comm (a := c)]
      split <;> simp_all
  unfold Graph.removeObject
  refine (hfold _ g).trans ?_
  by_cases hfeeds : g.Feeds p c
  · have hlink : ⟨p, c⟩ ∈ g.edges.keys := Std.ExtTreeMap.mem_keys.2 hfeeds
    simp [List.mem_filter, hlink]
  · have hnone : g.edge? p c = none := by
      rwa [feeds_iff_isSome, Option.not_isSome_iff_eq_none] at hfeeds
    rw [hnone, ite_self, ite_self]

theorem feeds_removeObject (g : Graph) (object : ObjectId) (p c : Entity) :
    (g.removeObject object).2.Feeds p c ↔ g.Feeds p c ∧ p.object ≠ object ∧ c.object ≠ object := by
  rw [feeds_iff_isSome, feeds_iff_isSome, edge?_removeObject, ← not_or]
  split
  next hat => simp [hat]
  next hat => simp [hat]

/-! ## Replacement -/

/-- An edge that closes a cycle is the last one that is tried. -/
theorem addAll_of_error {p c : Entity} {edge : Edge} {e : CycleError}
    (hadd : g.add p c edge = .error e) (edges : List (Entity × Edge)) :
    g.addAll c ((p, edge) :: edges) = (.error e, g) := by
  simp only [Graph.addAll, hadd]

theorem addAll_of_ok {p c : Entity} {edge : Edge} (hadd : g.add p c edge = .ok h)
    (edges : List (Entity × Edge)) : g.addAll c ((p, edge) :: edges) = h.addAll c edges := by
  simp only [Graph.addAll, hadd]

theorem Sound.addAll (hg : g.Sound) (c : Entity) (edges : List (Entity × Edge)) :
    (g.addAll c edges).2.Sound := by
  induction edges generalizing g with
  | nil => exact hg
  | cons pe edges ih =>
    obtain ⟨p, edge⟩ := pe
    rcases add_eq g p c edge with hadd | ⟨h, hadd⟩
    · rwa [addAll_of_error hadd]
    · rw [addAll_of_ok hadd]
      exact ih (hg.add hadd)

/-- Edges into other consumers stay. -/
theorem edge?_addAll (c : Entity) (edges : List (Entity × Edge)) {a b : Entity} (hb : c ≠ b) :
    (g.addAll c edges).2.edge? a b = g.edge? a b := by
  induction edges generalizing g with
  | nil => rfl
  | cons pe edges ih =>
    obtain ⟨p, edge⟩ := pe
    rcases add_eq g p c edge with hadd | ⟨h, hadd⟩
    · rw [addAll_of_error hadd]
    · simp [addAll_of_ok hadd, ih, edge?_add hadd, hb]

/-- When all edges are in, what is known of an edge into `c` is what was listed last. -/
theorem edge?_addAll_self (c : Entity) (edges : List (Entity × Edge))
    (hok : (g.addAll c edges).1 = .ok ()) (a : Entity) :
    (g.addAll c edges).2.edge? a c = (edges.reverse.lookup a).or (g.edge? a c) := by
  induction edges generalizing g with
  | nil => rfl
  | cons pe edges ih =>
    obtain ⟨p, edge⟩ := pe
    rcases add_eq g p c edge with hadd | ⟨h, hadd⟩
    · rw [addAll_of_error hadd] at hok
      cases hok
    · rw [addAll_of_ok hadd] at hok ⊢
      rw [ih hok, edge?_add hadd, List.reverse_cons, List.lookup_append, Option.or_assoc]
      congr 1
      by_cases ha : p = a
      · subst ha
        simp
      · have hne : (a == p) = false := beq_eq_false_iff_ne.2 (Ne.symm ha)
        simp [ha, List.lookup_cons, hne]

/-- When all edges are in, what feeds `c` is what fed it before and the listed producers. -/
theorem feeds_addAll (c : Entity) (edges : List (Entity × Edge))
    (hok : (g.addAll c edges).1 = .ok ()) (a : Entity) :
    (g.addAll c edges).2.Feeds a c ↔ g.Feeds a c ∨ a ∈ edges.map (·.1) := by
  rw [feeds_iff_isSome, edge?_addAll_self c edges hok, Option.isSome_or, Bool.or_eq_true, or_comm,
    feeds_iff_isSome, ← Option.ne_none_iff_isSome (o := edges.reverse.lookup a), ne_eq,
    List.lookup_eq_none_iff]
  simp

/-- Edges of a graph without cycles can be put back into a part of it, and make it no larger. -/
theorem restore_spec (hg : g.Sound) (c : Entity) (removed : List (Entity × Edge))
    (hremoved : ∀ pe ∈ removed, g.edge? pe.1 c = some pe.2) (hh : h.Sound)
    (hpart : ∀ a b, h.edge? a b = none ∨ h.edge? a b = g.edge? a b) :
    (h.restore c removed).Sound ∧ ∀ a b, (h.restore c removed).edge? a b =
      if a ∈ removed.map (·.1) ∧ c = b then g.edge? a b else h.edge? a b := by
  induction removed generalizing h with
  | nil => exact ⟨hh, fun a b => by simp [restore]⟩
  | cons pe removed ih =>
    obtain ⟨p, edge⟩ := pe
    have hedge : g.edge? p c = some edge := hremoved (p, edge) List.mem_cons_self
    have hsub : ∀ a b, h.Feeds a b → g.Feeds a b := fun a b hab => by
      rw [feeds_iff_isSome] at hab ⊢
      rcases hpart a b with hn | heq
      · simp [hn] at hab
      · rwa [← heq]
    rcases add_eq h p c edge with hadd | ⟨h', hadd⟩
    · -- A refused edge would be on a cycle of the whole graph.
      have hpath : ReflTransGen g.Feeds c p :=
        ReflTransGen.mono hsub c p ((add_eq_error_iff hh.toIndexed p c edge).1 hadd)
      refine absurd (TransGen.tail' hpath ?_) (hg.acyclic c)
      rw [feeds_iff_isSome, hedge]
      rfl
    · have hedge' := edge?_add hadd
      obtain ⟨hsound, hedges⟩ := ih (fun pe hpe => hremoved pe (List.mem_cons_of_mem _ hpe))
        (hh.add hadd) fun a b => by
          rw [hedge']
          split
          next heq => exact .inr (by rw [← heq.1, ← heq.2, hedge])
          next => exact hpart a b
      have heq : h.restore c ((p, edge) :: removed) = h'.restore c removed := by
        simp [restore, hadd]
      rw [heq]
      refine ⟨hsound, fun a b => ?_⟩
      rw [hedges, hedge']
      by_cases hc : c = b
      · subst hc
        by_cases hp : p = a
        · subst hp
          simp [hedge]
        · have hne : a ≠ p := fun heq => hp heq.symm
          simp only [List.map_cons, List.mem_cons, hne, hp, false_or, false_and, if_false]
      · simp [hc]

/-- A replacement that fails leaves the graph as it was. -/
theorem replaceProducers_error (hg : g.Sound) {c : Entity} {edges : List (Entity × Edge)}
    {e : CycleError} (herror : (g.replaceProducers c edges).1 = .error e) :
    (g.replaceProducers c edges).2 = g := by
  have hbare := hg.removeConsumer c
  have hclear := (hbare.addAll c edges).removeConsumer c
  have hedges : ∀ a b, (((g.removeConsumer c).2.addAll c edges).2.removeConsumer c).2.edge? a b =
      if c = b then none else g.edge? a b := fun a b => by
    rw [edge?_removeConsumer (hbare.addAll c edges).toIndexed]
    by_cases hc : c = b
    · rw [if_pos hc, if_pos hc]
    · rw [if_neg hc, if_neg hc, edge?_addAll c edges hc, edge?_removeConsumer hg.toIndexed,
        if_neg hc]
  obtain ⟨hsound, hrestored⟩ := restore_spec hg c (g.removeConsumer c).1
    (fun pe hpe => (mem_removeConsumer hg.toIndexed).1 hpe) hclear fun a b => by
      rw [hedges]
      split
      · exact .inl rfl
      · exact .inr rfl
  have heq : (g.replaceProducers c edges).2 =
      (((g.removeConsumer c).2.addAll c edges).2.removeConsumer c).2.restore c
        (g.removeConsumer c).1 := by
    unfold replaceProducers at herror ⊢
    cases hadd : (g.removeConsumer c).2.addAll c edges with
    | mk result k => cases result <;> simp_all
  rw [heq]
  refine hsound.toIndexed.ext hg.toIndexed fun a b => ?_
  rw [hrestored, hedges]
  by_cases hc : c = b
  · subst hc
    split
    · rfl
    next hnot =>
      cases hedge : g.edge? a c with
      | none => simp
      | some edge =>
        refine absurd ⟨List.mem_map.2 ⟨(a, edge), ?_, rfl⟩, rfl⟩ hnot
        exact (mem_removeConsumer hg.toIndexed).2 hedge
  · simp [hc]

theorem replaceProducers_ok {c : Entity} {edges : List (Entity × Edge)}
    (hok : (g.replaceProducers c edges).1 = .ok ()) :
    ((g.removeConsumer c).2.addAll c edges).1 = .ok () ∧
      (g.replaceProducers c edges).2 = ((g.removeConsumer c).2.addAll c edges).2 := by
  unfold replaceProducers at hok ⊢
  cases hadd : (g.removeConsumer c).2.addAll c edges with
  | mk result k => cases result <;> simp_all

theorem Sound.replaceProducers (hg : g.Sound) (c : Entity) (edges : List (Entity × Edge)) :
    (g.replaceProducers c edges).2.Sound := by
  cases hresult : (g.replaceProducers c edges).1 with
  | error e => rwa [replaceProducers_error hg hresult]
  | ok _ =>
    rw [(replaceProducers_ok hresult).2]
    exact (hg.removeConsumer c).addAll c edges

/-- After a replacement the producers of `c` are the listed ones. -/
theorem feeds_replaceProducers (hg : g.Sound) {c : Entity} {edges : List (Entity × Edge)}
    (hok : (g.replaceProducers c edges).1 = .ok ()) (a : Entity) :
    (g.replaceProducers c edges).2.Feeds a c ↔ a ∈ edges.map (·.1) := by
  obtain ⟨hadd, heq⟩ := replaceProducers_ok hok
  rw [heq, feeds_addAll c edges hadd, feeds_removeConsumer hg.toIndexed]
  simp only [ne_eq, not_true_eq_false, and_false, false_or]

/-- A replacement leaves the edges into other consumers as they are. -/
theorem edge?_replaceProducers (hg : g.Sound) {c : Entity} (edges : List (Entity × Edge))
    {a b : Entity} (hb : c ≠ b) : (g.replaceProducers c edges).2.edge? a b = g.edge? a b := by
  cases hresult : (g.replaceProducers c edges).1 with
  | error e => rw [replaceProducers_error hg hresult]
  | ok _ =>
    rw [(replaceProducers_ok hresult).2, edge?_addAll c edges hb, edge?_removeConsumer hg.toIndexed,
      if_neg hb]

/-- What is known of the new edges is what was listed last. -/
theorem edge?_replaceProducers_self (hg : g.Sound) {c : Entity} {edges : List (Entity × Edge)}
    (hok : (g.replaceProducers c edges).1 = .ok ()) (a : Entity) :
    (g.replaceProducers c edges).2.edge? a c = edges.reverse.lookup a := by
  obtain ⟨hadd, heq⟩ := replaceProducers_ok hok
  rw [heq, edge?_addAll_self c edges hadd, edge?_removeConsumer hg.toIndexed, if_pos rfl,
    Option.or_none]

theorem feeds_replaceProducers_of_ne (hg : g.Sound) {c : Entity} (edges : List (Entity × Edge))
    {a b : Entity} (hb : c ≠ b) : (g.replaceProducers c edges).2.Feeds a b ↔ g.Feeds a b := by
  rw [feeds_iff_isSome, edge?_replaceProducers hg edges hb, ← feeds_iff_isSome]

/-- A replacement ends as the insertion of its edges does. -/
theorem replaceProducers_fst (g : Graph) (c : Entity) (edges : List (Entity × Edge)) :
    (g.replaceProducers c edges).1 = ((g.removeConsumer c).2.addAll c edges).1 := by
  unfold replaceProducers
  cases hadd : (g.removeConsumer c).2.addAll c edges with
  | mk result k => cases result <;> simp [hadd]

/-- When an edge is refused, all edges together make a cycle. -/
theorem transGen_of_addAll_error {R : Entity → Entity → Prop} {c : Entity} (hg : g.Sound)
    (edges : List (Entity × Edge)) {e : CycleError} (herror : (g.addAll c edges).1 = .error e)
    (hR : ∀ a b, g.Feeds a b → R a b) (hedges : ∀ p ∈ edges.map (·.1), R p c) : TransGen R c c := by
  induction edges generalizing g with
  | nil => cases herror
  | cons pe edges ih =>
    obtain ⟨p, edge⟩ := pe
    obtain ⟨hp, hrest⟩ := List.forall_mem_cons.1 hedges
    rcases add_eq g p c edge with hadd | ⟨h, hadd⟩
    · have hpath := (add_eq_error_iff hg.toIndexed p c edge).1 hadd
      exact .tail' (ReflTransGen.mono hR c p hpath) hp
    · rw [addAll_of_ok hadd] at herror
      refine ih (hg.add hadd) herror (fun a b hab => ?_) hrest
      rcases (feeds_add hadd a b).1 hab with ⟨rfl, rfl⟩ | hab
      · exact hp
      · exact hR a b hab

/-- A replacement fails exactly when the graph would have a cycle after it. -/
theorem replaceProducers_error_iff (hg : g.Sound) (c : Entity) (edges : List (Entity × Edge)) :
    (∃ e, (g.replaceProducers c edges).1 = .error e) ↔
      ∃ x, TransGen (fun a b => if c = b then a ∈ edges.map (·.1) else g.Feeds a b) x x := by
  constructor
  · rintro ⟨e, herror⟩
    have hadd := (replaceProducers_fst g c edges).symm.trans herror
    refine ⟨c, transGen_of_addAll_error (hg.removeConsumer c) edges hadd (fun a b hab => ?_)
      fun p hp => by rwa [if_pos rfl]⟩
    obtain ⟨hab, hb⟩ := (feeds_removeConsumer hg.toIndexed c a b).1 hab
    rwa [if_neg hb]
  · rintro ⟨x, hcycle⟩
    cases hresult : (g.replaceProducers c edges).1 with
    | error e => exact ⟨e, rfl⟩
    | ok _ =>
      refine absurd (TransGen.mono (fun a b hab => ?_) x x hcycle)
        ((hg.replaceProducers c edges).acyclic x)
      split at hab
      next hb =>
        subst hb
        exact (feeds_replaceProducers hg hresult a).2 hab
      next hb => exact (feeds_replaceProducers_of_ne hg edges hb).2 hab

end Parametric.Graph
