import Parametric.Proofs.Graph.History
import Parametric.Proofs.Graph.Search
import Parametric.Update.Scheduler

/-!
# Refused edges

What an insertion and a replacement refuse is said by the paths of the graph before them. An edge
into `c` is refused when its producer follows from `c`. Putting in another one does not change what
follows from `c` (`reflTransGen_add`), nor does taking the edges into `c` out
(`reflTransGen_removeConsumer`), so a list of edges fails at the first one that would be refused by
itself (`addAll_cases`).

* `add_refused_or_inserted`: an insertion is refused exactly when it would close a cycle, and else
  makes no difference but the edge;
* `Scheduler.replaceProducers_undone_or_done`: a replacement fails exactly when one of its edges
  would close a cycle, and then makes no difference.
-/

namespace Parametric
open Relation (ReflTransGen TransGen)

namespace Graph

variable {g h : Graph}

/-! ## What follows from the consumer -/

/-- An edge into `c` changes nothing of what follows from `c`. -/
theorem reflTransGen_add {p c : Entity} {edge : Edge} (hadd : g.add p c edge = .ok h) (x : Entity) :
    ReflTransGen h.Feeds c x ↔ ReflTransGen g.Feeds c x := by
  have hfeeds : h.Feeds = fun a b => p = a ∧ c = b ∨ g.Feeds a b :=
    funext fun a => funext fun b => propext (feeds_add hadd a b)
  rw [hfeeds]
  refine ⟨fun hpath => ?_, ReflTransGen.mono (fun _ _ => .inr) c x⟩
  rcases Relation.reflTransGen_iff_eq_or_transGen.1 hpath with rfl | hpath
  · exact .refl
  · rcases transGen_insert hpath with hpath | ⟨-, hpath⟩
    · exact hpath.to_reflTransGen
    · exact hpath

/-- The edges into `c` do not matter for what follows from `c`, since no path leads back to it. -/
theorem reflTransGen_removeConsumer (hg : g.Sound) (c x : Entity) :
    ReflTransGen (g.removeConsumer c).2.Feeds c x ↔ ReflTransGen g.Feeds c x := by
  have hfeeds := feeds_removeConsumer hg.toIndexed c
  refine ⟨ReflTransGen.mono (fun a b hab => ((hfeeds a b).1 hab).1) c x, fun hpath => ?_⟩
  induction hpath with
  | refl => exact .refl
  | @tail y z hcy hyz ih =>
    refine ih.tail ((hfeeds y z).2 ⟨hyz, ?_⟩)
    rintro rfl
    exact hg.acyclic c (.tail' hcy hyz)

/-! ## The edge that is refused -/

/-- All edges are put in when none of their producers follows from `c`. Else it ends at the first
one whose producer does. -/
theorem addAll_cases (hg : g.Sound) (c : Entity) (edges : List (Entity × Edge)) :
    ((g.addAll c edges).1 = .ok () ∧ ∀ p ∈ edges.map (·.1), ¬ ReflTransGen g.Feeds c p) ∨
      ∃ before p edge after, edges = before ++ (p, edge) :: after ∧
        (g.addAll c edges).1 = .error ⟨p, c⟩ ∧ ReflTransGen g.Feeds c p ∧
        ∀ q ∈ before.map (·.1), ¬ ReflTransGen g.Feeds c q := by
  induction edges generalizing g with
  | nil => exact .inl ⟨rfl, by simp⟩
  | cons pe edges ih =>
    obtain ⟨p, edge⟩ := pe
    rcases add_eq g p c edge with hadd | ⟨h, hadd⟩
    · have hpath := (add_eq_error_iff hg.toIndexed p c edge).1 hadd
      exact .inr ⟨[], p, edge, edges, rfl, by rw [addAll_of_error hadd], hpath, by simp⟩
    · have hp := not_reflTransGen_of_add hg.toIndexed hadd
      have hrest : (g.addAll c ((p, edge) :: edges)).1 = (h.addAll c edges).1 := by
        rw [addAll_of_ok hadd]
      have ih := ih (hg.add hadd)
      simp only [reflTransGen_add hadd] at ih
      rw [hrest]
      rcases ih with ⟨hok, hnone⟩ | ⟨before, q, edge', after, rfl, herror, hq, hbefore⟩
      · exact .inl ⟨hok, List.forall_mem_cons.2 ⟨hp, hnone⟩⟩
      · exact .inr ⟨(p, edge) :: before, q, edge', after, rfl, herror, hq,
          List.forall_mem_cons.2 ⟨hp, hbefore⟩⟩

/-! ## Insertion -/

/-- An edge is refused exactly when it is from an entity to itself or a path leads from its consumer
to its producer, and then the graph is as it was. An edge that is not refused is in the graph with
what is known of it, its ends are in the groups of each other, and nothing else is different. The
search for the path comes to an end on every graph, and on this one it answers as `reaches`. -/
theorem add_refused_or_inserted (edits : List Edit) (p c : Entity) (edge : Edge) :
    let g := ofEdits edits
    let h := (Edit.add p c edge).apply g
    let closes := p = c ∨ TransGen (fun a b => Link.mk a b ∈ g.edges) c p
    (match g.add p c edge with
      | .error e => e = ⟨p, c⟩ ∧ closes ∧ h = g
      | .ok g' => ¬ closes ∧ h = g' ∧
        (∀ l : Link, h.edges[l]? = if ⟨p, c⟩ = l then some edge else g.edges[l]?) ∧
        (∀ a : Entity, h.consumers[a]? =
          if p = a then some ((g.consumers[p]?.getD ∅).insert c) else g.consumers[a]?) ∧
        ∀ a : Entity, h.producers[a]? =
          if c = a then some ((g.producers[c]?.getD ∅).insert p) else g.producers[a]?) ∧
    (∀ (k : Graph) (goal : Entity), WellFounded fun t s => Search.Round k goal s t) ∧
    ∀ source goal, ∃ t, ReflTransGen (Search.Round g goal) ⟨[source], ∅⟩ t ∧
      (t.todo.head? = some goal ∧ g.reaches source goal = true ∨
        t.todo = [] ∧ g.reaches source goal = false) := by
  intro g h closes
  have hg : g.Sound := sound_ofEdits edits
  have hcloses : ReflTransGen g.Feeds c p ↔ closes := Relation.reflTransGen_iff_eq_or_transGen
  refine ⟨?_, Search.wellFounded_round, exists_rounds_reaches hg.toIndexed⟩
  rcases add_eq g p c edge with hadd | ⟨g', hadd⟩
  · rw [hadd]
    exact ⟨rfl, hcloses.1 ((add_eq_error_iff hg.toIndexed p c edge).1 hadd),
      by simp [h, Edit.apply, hadd]⟩
  · have hh : h = g' := by simp [h, Edit.apply, hadd]
    have hno := not_reflTransGen_of_add hg.toIndexed hadd
    rw [hadd, hh]
    refine ⟨fun hc => hno (hcloses.2 hc), rfl, ?_⟩
    unfold add at hadd
    split at hadd <;> cases hadd
    exact ⟨fun _ => Table.getElem?_insert .., fun _ => Table.getElem?_insert ..,
      fun _ => Table.getElem?_insert ..⟩

end Graph

/-! ## Replacement -/

/-- A replacement fails exactly when one of its producers is the consumer or follows from it. It
names the first one, and then the scheduler is as it was. When it succeeds the edges into the
consumer are the listed ones, with what was listed last for each producer, the edges into other
consumers are as they were, and both tables list the edges. -/
theorem Scheduler.replaceProducers_undone_or_done (s : Scheduler) (edits : List Graph.Edit)
    (c : Entity) (edges : List (Entity × Edge)) :
    let s : Scheduler := { s with graph := .ofEdits edits }
    let t := (s.replaceProducers c edges).2
    let follows (p : Entity) := ReflTransGen (fun a b => Link.mk a b ∈ s.graph.edges) c p
    match (s.replaceProducers c edges).1 with
    | .error e => t = s ∧ e.consumer = c ∧ ∃ before edge after,
        edges = before ++ (e.producer, edge) :: after ∧ follows e.producer ∧
          ∀ q ∈ before.map (·.1), ¬ follows q
    | .ok () => (∀ p ∈ edges.map (·.1), ¬ follows p) ∧ t = { s with graph := t.graph } ∧
        (∀ p, t.graph.edges[Link.mk p c]? = edges.reverse.lookup p) ∧
        (∀ p b, c ≠ b → t.graph.edges[Link.mk p b]? = s.graph.edges[Link.mk p b]?) ∧
        ∀ p b, (b ∈ t.graph.consumers[p]?.getD ∅ ↔ Link.mk p b ∈ t.graph.edges) ∧
          (p ∈ t.graph.producers[b]?.getD ∅ ↔ Link.mk p b ∈ t.graph.edges) := by
  intro s t follows
  have hg : s.graph.Sound := Graph.sound_ofEdits edits
  have hfst : (s.replaceProducers c edges).1 = ((s.graph.removeConsumer c).2.addAll c edges).1 :=
    s.graph.replaceProducers_fst c edges
  have hcases := Graph.addAll_cases (hg.removeConsumer c) c edges
  simp only [Graph.reflTransGen_removeConsumer hg, ← hfst] at hcases
  rcases hcases with ⟨hok, hnone⟩ | ⟨before, p, edge, after, hedges, herror, hp, hbefore⟩
  · have ht : t.graph.Sound := hg.replaceProducers c edges
    rw [hok]
    exact ⟨hnone, rfl, Graph.edge?_replaceProducers_self hg hok,
      fun p b hb => Graph.edge?_replaceProducers hg edges hb,
      fun p b => ⟨ht.consumers.mem_iff p b, ht.producers.mem_iff b p⟩⟩
  · have ht : t.graph = s.graph := Graph.replaceProducers_error hg herror
    rw [herror]
    exact ⟨congrArg (fun graph => { s with graph }) ht, rfl, before, edge, after, hedges, hp,
      hbefore⟩

end Parametric
