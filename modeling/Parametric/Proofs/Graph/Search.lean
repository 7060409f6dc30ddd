import Parametric.Proofs.Graph.Reach

/-!
# Searching round by round

`Graph.reaches` follows edges with a count of steps that is computed before. Here the same search is
carried out round by round (`Search.Round`): the next entity is looked at, and the search is over
when it is the goal or when none is left. On every graph there are finitely many rounds
(`Search.wellFounded_round`), because each one visits an entity that has consumers, or leaves one
entity less to look at; and where the tables list the links the search ends with the answer of
`Graph.reaches` (`exists_rounds_reaches`).
-/

namespace Parametric.Graph
open Relation (ReflTransGen)

variable {g : Graph} {goal : Entity}

/-- A search in progress: the entities to look at, the next one first, and those that were seen. -/
structure Search where
  todo : List Entity
  seen : Group Entity

namespace Search

/-- One round of a search for `goal`. The next entity is another one; if it was not seen before, its
consumers come next, the last one first. -/
inductive Round (g : Graph) (goal : Entity) : Search → Search → Prop
  | skip {e : Entity} {todo : List Entity} {seen : Group Entity} (hne : e ≠ goal) (he : e ∈ seen) :
      Round g goal ⟨e :: todo, seen⟩ ⟨todo, seen⟩
  | visit {e : Entity} {todo : List Entity} {seen : Group Entity} (hne : e ≠ goal) (he : e ∉ seen) :
      Round g goal ⟨e :: todo, seen⟩ ⟨(g.consumersOf e).reverse ++ todo, seen.insert e⟩

/-! ## The rounds come to an end -/

/-- The count of entities in the table of consumers that have not been seen. -/
def unvisited (g : Graph) (seen : Group Entity) : Nat :=
  g.consumers.keys.countP fun e => !seen.contains e

theorem mem_keys_of_mem_consumersOf {e c : Entity} (hc : c ∈ g.consumersOf e) :
    e ∈ g.consumers.keys := by
  rw [Table.mem_keys_iff]
  cases he : g.consumers[e]? with
  | none => simp [consumersOf, he] at hc
  | some group => rfl

/-- Seeing one more entity leaves no more to visit, and less if it is one that has consumers. -/
theorem unvisited_insert (g : Graph) {e : Entity} {seen : Group Entity} (he : e ∉ seen) :
    unvisited g (seen.insert e) < unvisited g seen ∨
      unvisited g (seen.insert e) ≤ unvisited g seen ∧ g.consumersOf e = [] := by
  have hcount := countP_add_countP_le (fun x => !(seen.insert e).contains x) (fun x => x = e)
    (fun x => !seen.contains x)
    (fun x hx => by
      simp only [Std.ExtTreeSet.contains_insert, Bool.not_or, Bool.and_eq_true] at hx
      refine ⟨hx.2, fun heq => ?_⟩
      simp_all)
    (fun x hx => by
      have hx : x = e := by simpa using hx
      have hnot : seen.contains e = false := by simpa [← Std.ExtTreeSet.contains_iff_mem] using he
      simp [hx, hnot])
    g.consumers.keys
  unfold unvisited
  cases hconsumers : g.consumersOf e with
  | nil => exact .inr ⟨by omega, rfl⟩
  | cons c cs =>
    have hkey : e ∈ g.consumers.keys :=
      mem_keys_of_mem_consumersOf (hconsumers ▸ List.mem_cons_self)
    have hpos : 0 < g.consumers.keys.countP fun x => x = e :=
      List.countP_pos_iff.2 ⟨e, hkey, decide_eq_true rfl⟩
    exact .inl (by omega)

/-- On every graph a search comes to an end. -/
theorem wellFounded_round (g : Graph) (goal : Entity) :
    WellFounded fun t s => Round g goal s t := by
  -- A round that visits nothing with consumers leaves one entity less to look at.
  refine Subrelation.wf (fun {t s} hround => ?_) (InvImage.wf
    (fun s : Search => (unvisited g s.seen, s.todo.length)) (Prod.lex Nat.lt_wfRel Nat.lt_wfRel).wf)
  cases hround with
  | skip => exact .right _ (Nat.lt_succ_self _)
  | @visit e todo seen hne he =>
    rcases unvisited_insert g he with hlt | ⟨hle, hnil⟩
    · exact .left _ _ hlt
    · exact Prod.Lex.right' _ hle (by simp [hnil, WellFoundedRelation.rel])

/-! ## The answer -/

/-- What is to be looked at follows from `source`, the consumers of what was seen were seen or are
to be looked at, and the goal was not seen. -/
structure Follows (g : Graph) (source goal : Entity) (s : Search) : Prop where
  started : source ∈ s.seen ∨ source ∈ s.todo
  sound : ∀ e ∈ s.todo, ReflTransGen g.Feeds source e
  closed : ∀ e ∈ s.seen, ∀ c, g.Feeds e c → c ∈ s.seen ∨ c ∈ s.todo
  notFound : goal ∉ s.seen

variable {source : Entity} {s t : Search}

theorem Follows.start (g : Graph) (source goal : Entity) : Follows g source goal ⟨[source], ∅⟩ where
  started := .inr (List.mem_singleton_self _)
  sound e he := by rw [List.mem_singleton.1 he]
  closed e he := by simp at he
  notFound := by simp

theorem Follows.round (hg : g.Indexed) (h : Follows g source goal s) (hround : Round g goal s t) :
    Follows g source goal t := by
  cases hround with
  | @skip e todo seen hne he =>
    have hrest : ∀ x, x ∈ seen ∨ x ∈ e :: todo → x ∈ seen ∨ x ∈ todo := by
      rintro x (hx | hx)
      · exact .inl hx
      · rcases List.mem_cons.1 hx with rfl | hx
        · exact .inl he
        · exact .inr hx
    exact ⟨hrest _ h.started, fun x hx => h.sound x (List.mem_cons_of_mem _ hx),
      fun x hx c hc => hrest c (h.closed x hx c hc), h.notFound⟩
  | @visit e todo seen hne he =>
    have hmem : ∀ {x}, x ∈ seen.insert e ↔ e = x ∨ x ∈ seen := by
      intro x
      rw [Std.ExtTreeSet.mem_insert, Std.LawfulEqCmp.compare_eq_iff_eq]
    have hrest : ∀ x, x ∈ seen ∨ x ∈ e :: todo →
        x ∈ seen.insert e ∨ x ∈ (g.consumersOf e).reverse ++ todo := by
      rintro x (hx | hx)
      · exact .inl (hmem.2 (.inr hx))
      · rcases List.mem_cons.1 hx with rfl | hx
        · exact .inl (hmem.2 (.inl rfl))
        · exact .inr (List.mem_append_right _ hx)
    refine ⟨hrest _ h.started, fun x hx => ?_, fun x hx c hc => ?_, fun hgoal => ?_⟩
    · rcases List.mem_append.1 hx with hx | hx
      · exact (h.sound e List.mem_cons_self).tail (hg.mem_consumersOf.1 (List.mem_reverse.1 hx))
      · exact h.sound x (List.mem_cons_of_mem _ hx)
    · rcases hmem.1 hx with rfl | hx
      · exact .inr (List.mem_append_left _ (List.mem_reverse.2 (hg.mem_consumersOf.2 hc)))
      · exact hrest c (h.closed x hx c hc)
    · rcases hmem.1 hgoal with heq | hgoal
      · exact hne heq
      · exact h.notFound hgoal

/-- Everything that follows from an entity was seen when nothing is left to look at. -/
theorem Follows.mem_seen (h : Follows g source goal ⟨[], t.seen⟩) {e : Entity}
    (hpath : ReflTransGen g.Feeds source e) : e ∈ t.seen := by
  induction hpath with
  | refl => exact h.started.resolve_right List.not_mem_nil
  | tail _ hstep ih => exact (h.closed _ ih _ hstep).resolve_right List.not_mem_nil

end Search

/-- A search ends at the goal, or with nothing left to look at, as `reaches` answers. -/
theorem exists_rounds_reaches (hg : g.Indexed) (source goal : Entity) :
    ∃ t, ReflTransGen (Search.Round g goal) ⟨[source], ∅⟩ t ∧
      (t.todo.head? = some goal ∧ g.reaches source goal = true ∨
        t.todo = [] ∧ g.reaches source goal = false) := by
  suffices hall : ∀ s, Search.Follows g source goal s →
      ∃ t, ReflTransGen (Search.Round g goal) s t ∧
        (t.todo.head? = some goal ∧ g.reaches source goal = true ∨
          t.todo = [] ∧ g.reaches source goal = false) from hall _ (.start g source goal)
  intro s
  induction s using (Search.wellFounded_round g goal).induction with
  | _ s ih =>
    intro h
    obtain ⟨todo, seen⟩ := s
    cases todo with
    | nil =>
      refine ⟨_, .refl, .inr ⟨rfl, Bool.eq_false_iff.2 fun hreaches => h.notFound ?_⟩⟩
      exact h.mem_seen (t := ⟨[], seen⟩) ((reaches_iff hg source goal).1 hreaches)
    | cons e todo =>
      by_cases heq : e = goal
      · subst heq
        exact ⟨_, .refl, .inl ⟨rfl, (reaches_iff hg source e).2 (h.sound e List.mem_cons_self)⟩⟩
      · have hnext : ∃ s', Search.Round g goal ⟨e :: todo, seen⟩ s' := by
          by_cases he : e ∈ seen
          · exact ⟨_, .skip heq he⟩
          · exact ⟨_, .visit heq he⟩
        obtain ⟨s', hround⟩ := hnext
        obtain ⟨t, hrounds, hend⟩ := ih s' hround (h.round hg hround)
        exact ⟨t, .head hround hrounds, hend⟩

end Parametric.Graph
