import Parametric.Proofs.Graph.Sound

/-!
# Graphs that edits make

Every graph that comes from the empty one by edits is sound, whether the edits succeed or fail
(`sound_ofEdits`): it has no cycle, its three indices say the same, and no group in them is empty
(`acyclic_and_indexed_ofEdits`).
-/

namespace Parametric.Graph
open Relation (TransGen)

/-- An edit of a graph. -/
inductive Edit
  | add (producer consumer : Entity) (edge : Edge)
  | remove (producer consumer : Entity)
  | removeConsumer (consumer : Entity)
  | removeObject (object : ObjectId)
  | replaceProducers (consumer : Entity) (edges : List (Entity × Edge))

/-- The graph after an edit. An edge that is refused leaves it as it is. -/
def Edit.apply (g : Graph) : Edit → Graph
  | add p c edge =>
    match g.add p c edge with
    | .ok h => h
    | .error _ => g
  | remove p c => (g.remove p c).2
  | removeConsumer c => (g.removeConsumer c).2
  | removeObject object => (g.removeObject object).2
  | replaceProducers c edges => (g.replaceProducers c edges).2

/-- The graph that edits make of the empty one. -/
def ofEdits (edits : List Edit) : Graph := edits.foldl Edit.apply {}

theorem Sound.apply {g : Graph} (hg : g.Sound) (edit : Edit) : (edit.apply g).Sound := by
  cases edit with
  | add p c edge =>
    rcases add_eq g p c edge with hadd | ⟨h, hadd⟩
    · simpa [Edit.apply, hadd] using hg
    · simpa [Edit.apply, hadd] using hg.add hadd
  | remove p c => exact hg.remove p c
  | removeConsumer c => exact hg.removeConsumer c
  | removeObject object => exact hg.removeObject object
  | replaceProducers c edges => exact hg.replaceProducers c edges

theorem sound_ofEdits (edits : List Edit) : (ofEdits edits).Sound := by
  unfold ofEdits
  have hall : ∀ g : Graph, g.Sound → (edits.foldl Edit.apply g).Sound := by
    induction edits with
    | nil => exact fun _ hg => hg
    | cons edit edits ih => exact fun g hg => ih (edit.apply g) (hg.apply edit)
  exact hall {} .empty

/-- No edges of a graph that edits made form a cycle. A link is there exactly when the consumer is
in the group of the producer, and exactly when the producer is in the group of the consumer, and
every group that is there has members. -/
theorem acyclic_and_indexed_ofEdits (edits : List Edit) :
    (∀ e, ¬ TransGen (fun p c => Link.mk p c ∈ (ofEdits edits).edges) e e) ∧
    (∀ p c, (Link.mk p c ∈ (ofEdits edits).edges ↔
        ∃ group, (ofEdits edits).consumers[p]? = some group ∧ c ∈ group) ∧
      (Link.mk p c ∈ (ofEdits edits).edges ↔
        ∃ group, (ofEdits edits).producers[c]? = some group ∧ p ∈ group)) ∧
    ∀ e : Entity,
      (ofEdits edits).consumers[e]? ≠ some ∅ ∧ (ofEdits edits).producers[e]? ≠ some ∅ := by
  have hsound := sound_ofEdits edits
  have hgroup : ∀ {ends : Table Entity (Group Entity)} {R : Entity → Entity → Prop},
      Lists ends R → ∀ a b, R a b ↔ ∃ group, ends[a]? = some group ∧ b ∈ group := by
    intro ends R h a b
    rw [← h.mem_iff]
    cases ends[a]? <;> simp
  exact ⟨hsound.acyclic, fun p c => ⟨hgroup hsound.consumers p c, hgroup hsound.producers c p⟩,
    fun e => ⟨hsound.consumers.ne_empty e, hsound.producers.ne_empty e⟩⟩

end Parametric.Graph
