import Mathlib.Logic.Relation
import Parametric.Proofs.Table
import Parametric.Update.Graph

/-!
# The indices of a graph

The edges of a graph are kept three times: as links, by producer and by consumer. `Lists ends R`
says that a table of groups lists the pairs of a relation and has no empty group; `Graph.Indexed`
that the two tables of a graph list its links. A table is determined by what it lists
(`Lists.unique`), so an indexed graph is determined by its links (`Indexed.ext`).
-/

namespace Parametric

/-- The groups of a table are what a relation leads to, and no group is empty. -/
structure Lists (ends : Table Entity (Group Entity)) (R : Entity → Entity → Prop) : Prop where
  mem_iff : ∀ a b : Entity, b ∈ ends[a]?.getD ∅ ↔ R a b
  ne_empty : ∀ a : Entity, ends[a]? ≠ some ∅

namespace Lists

variable {ends ends' : Table Entity (Group Entity)} {R S : Entity → Entity → Prop}

theorem empty : Lists ∅ fun _ _ => False :=
  ⟨fun a b => by simp, fun a => by simp⟩

theorem congr (h : Lists ends R) (hRS : ∀ a b, R a b ↔ S a b) : Lists ends S :=
  ⟨fun a b => (h.mem_iff a b).trans (hRS a b), h.ne_empty⟩

theorem cast (h : Lists ends R) (heq : ends' = ends) : Lists ends' R := heq ▸ h

theorem join (h : Lists ends R) (key e : Entity) :
    Lists (Graph.join ends key e) fun a b => key = a ∧ e = b ∨ R a b := by
  refine ⟨fun a b => ?_, fun a => ?_⟩
  · rw [← h.mem_iff, Graph.join, Table.getElem?_insert]
    by_cases ha : key = a
    · subst ha
      simp
    · simp [ha]
  · rw [Graph.join, Table.getElem?_insert]
    split
    · simp
    · exact h.ne_empty a

theorem part (h : Lists ends R) (key e : Entity) :
    Lists (Graph.part ends key e) fun a b => R a b ∧ ¬ (key = a ∧ e = b) := by
  unfold Graph.part
  cases hk : ends[key]? with
  | none =>
    refine h.congr fun a b => ⟨fun hR => ⟨hR, ?_⟩, And.left⟩
    rintro ⟨rfl, rfl⟩
    have := (h.mem_iff key e).2 hR
    simp [hk] at this
  | some group =>
    have hmem : ∀ b, b ∈ group ↔ R key b := fun b => by simp [← h.mem_iff, hk]
    have hrest : ∀ b, b ∈ group.erase e ↔ R key b ∧ e ≠ b := fun b => by
      rw [Std.ExtTreeSet.mem_erase, hmem]
      simp [and_comm]
    dsimp only
    split
    next hempty =>
      have hnone : ∀ b, ¬ (R key b ∧ e ≠ b) := fun b => by
        rw [← hrest, Std.ExtTreeSet.isEmpty_iff.1 hempty]
        simp
      refine ⟨fun a b => ?_, fun a => ?_⟩
      · rw [Table.getElem?_erase]
        by_cases ha : key = a
        · subst ha
          simpa using fun hR hb => hnone b ⟨hR, hb⟩
        · simp [ha, h.mem_iff]
      · rw [Table.getElem?_erase]
        split
        · simp
        · exact h.ne_empty a
    next hne =>
      refine ⟨fun a b => ?_, fun a => ?_⟩
      · rw [Table.getElem?_insert]
        by_cases ha : key = a
        · subst ha
          simp [hrest]
        · simp [ha, h.mem_iff]
      · rw [Table.getElem?_insert]
        split
        · intro heq
          exact hne (Std.ExtTreeSet.isEmpty_iff.2 (Option.some.inj heq))
        · exact h.ne_empty a

theorem erase (h : Lists ends R) (key : Entity) :
    Lists (ends.erase key) fun a b => R a b ∧ key ≠ a := by
  refine ⟨fun a b => ?_, fun a => ?_⟩
  · rw [Table.getElem?_erase]
    by_cases ha : key = a
    · subst ha
      simp
    · simp [ha, h.mem_iff]
  · rw [Table.getElem?_erase]
    split
    · simp
    · exact h.ne_empty a

/-- A key is in the table when something is listed for it. -/
theorem getElem?_eq_none_iff (h : Lists ends R) (a : Entity) :
    ends[a]? = none ↔ ∀ b, ¬ R a b := by
  constructor
  · intro ha b hR
    have := (h.mem_iff a b).2 hR
    simp [ha] at this
  · intro hR
    cases ha : ends[a]? with
    | none => rfl
    | some group =>
      refine absurd ?_ (h.ne_empty a)
      rw [ha, Option.some.injEq]
      ext b
      simpa [ha, hR b] using h.mem_iff a b

/-- A table is determined by what it lists. -/
theorem unique (h : Lists ends R) (h' : Lists ends' R) : ends = ends' := by
  ext1 a
  cases ha : ends[a]? with
  | none =>
    exact ((h'.getElem?_eq_none_iff a).2 ((h.getElem?_eq_none_iff a).1 ha)).symm
  | some group =>
    cases ha' : ends'[a]? with
    | none =>
      rw [(h.getElem?_eq_none_iff a).2 ((h'.getElem?_eq_none_iff a).1 ha')] at ha
      cases ha
    | some group' =>
      congr 1
      ext b
      have hb := (h.mem_iff a b).trans (h'.mem_iff a b).symm
      simpa [ha, ha'] using hb

end Lists

namespace Graph

/-- There is an edge from `p` to `c`. -/
def Feeds (g : Graph) (p c : Entity) : Prop := Link.mk p c ∈ g.edges

instance (g : Graph) (p c : Entity) : Decidable (g.Feeds p c) :=
  inferInstanceAs (Decidable (Link.mk p c ∈ g.edges))

theorem feeds_iff_isSome (g : Graph) (p c : Entity) : g.Feeds p c ↔ (g.edge? p c).isSome :=
  Std.ExtTreeMap.mem_iff_isSome_getElem?

/-- Both tables list the links. -/
structure Indexed (g : Graph) : Prop where
  consumers : Lists g.consumers g.Feeds
  producers : Lists g.producers (flip g.Feeds)

namespace Indexed

variable {g h : Graph}

theorem empty : Indexed {} := by
  have hnone : ∀ p c, ¬ (({} : Graph).Feeds p c) := fun p c => by simp [Feeds]
  exact ⟨Lists.empty.congr fun p c => by simp [hnone],
    Lists.empty.congr fun c p => by simp [flip, hnone]⟩

theorem mem_consumersOf (hg : g.Indexed) {p c : Entity} : c ∈ g.consumersOf p ↔ g.Feeds p c := by
  rw [consumersOf, Std.ExtTreeSet.mem_toList, hg.consumers.mem_iff]

theorem mem_producersOf (hg : g.Indexed) {p c : Entity} : p ∈ g.producersOf c ↔ g.Feeds p c := by
  rw [producersOf, Std.ExtTreeSet.mem_toList, hg.producers.mem_iff]
  rfl

/-- Indexed graphs with the same edges are the same. -/
theorem ext (hg : g.Indexed) (hh : h.Indexed) (he : ∀ p c, g.edge? p c = h.edge? p c) : g = h := by
  have hedges : g.edges = h.edges := by
    ext1 l
    exact he l.producer l.consumer
  have hfeeds : g.Feeds = h.Feeds := by
    unfold Feeds
    rw [hedges]
  have hconsumers : g.consumers = h.consumers := hg.consumers.unique (hfeeds ▸ hh.consumers)
  have hproducers : g.producers = h.producers := hg.producers.unique (hfeeds ▸ hh.producers)
  cases g
  cases h
  simp_all

end Indexed

end Graph

end Parametric
