import Mathlib.Data.List.Nodup
import Mathlib.Data.List.Perm.Subperm
import Parametric.Proofs.Graph.Index

/-!
# Following edges

`Graph.explore` finds all that its entities lead to: what it returns is closed under edges
(`explore_closed`) and holds nothing else (`explore_sound`). The fuel suffices because every step
takes an entity off the list, and expanding an entity adds as many as there are edges at it, which
count as seen from then on. So `Graph.reached` is what some root leads to (`mem_reached`), and
`Graph.reaches` decides whether there is a path (`reaches_iff`).
-/

namespace Parametric.Graph
open Relation (ReflTransGen TransGen)

variable {g : Graph}

/-! ## The fuel -/

/-- The number of edges whose producer has not been seen. -/
def unseen (g : Graph) (seen : Group Entity) : Nat :=
  g.edges.keys.countP fun l => !seen.contains l.producer

theorem unseen_empty (g : Graph) : g.unseen ∅ = g.edges.size := by
  simp [unseen, ← Std.ExtTreeMap.length_keys]

theorem length_consumersOf_le (hg : g.Indexed) (e : Entity) :
    (g.consumersOf e).length ≤ g.edges.keys.countP fun l => l.producer = e := by
  have hinj : Function.Injective (Link.mk e) := fun c d h => by
    injection h
  have hnodup : ((g.consumersOf e).map (Link.mk e)).Nodup := by
    refine List.Nodup.map hinj ?_
    exact (Std.ExtTreeSet.distinct_toList).imp fun h heq => h (by simp [heq])
  have hsub : (g.consumersOf e).map (Link.mk e) ⊆ g.edges.keys.filter fun l => l.producer = e := by
    intro l hl
    obtain ⟨c, hc, rfl⟩ := List.mem_map.1 hl
    rw [List.mem_filter, Std.ExtTreeMap.mem_keys]
    exact ⟨hg.mem_consumersOf.1 hc, by simp⟩
  rw [List.countP_eq_length_filter]
  simpa using (hnodup.subperm hsub).length_le

theorem countP_add_countP_le {α : Type} (p q r : α → Bool) (hp : ∀ a, p a → r a ∧ ¬ q a)
    (hq : ∀ a, q a → r a) (as : List α) : as.countP p + as.countP q ≤ as.countP r := by
  induction as with
  | nil => simp
  | cons a as ih =>
    have := hp a
    have := hq a
    simp only [List.countP_cons]
    split_ifs <;> simp_all <;> omega

theorem unseen_insert (hg : g.Indexed) {e : Entity} {seen : Group Entity} (he : e ∉ seen) :
    g.unseen (seen.insert e) + (g.consumersOf e).length ≤ g.unseen seen := by
  have hsplit := countP_add_countP_le
    (fun l : Link => !(seen.insert e).contains l.producer) (fun l => l.producer = e)
    (fun l => !seen.contains l.producer)
    (fun l hl => by
      simp only [Std.ExtTreeSet.contains_insert, Bool.not_or, Bool.and_eq_true] at hl
      refine ⟨hl.2, fun heq => ?_⟩
      simp_all)
    (fun l hl => by
      have hl : l.producer = e := by simpa using hl
      have hnot : seen.contains e = false := by simpa [← Std.ExtTreeSet.contains_iff_mem] using he
      simp [hl, hnot])
    g.edges.keys
  have hlength := length_consumersOf_le hg e
  unfold unseen
  omega

/-! ## What is found -/

theorem explore_closed (hg : g.Indexed) (fuel : Nat) (todo : List Entity) (seen : Group Entity)
    (hfuel : todo.length + g.unseen seen ≤ fuel)
    (hseen : ∀ x ∈ seen, ∀ y, g.Feeds x y → y ∈ seen ∨ y ∈ todo) :
    (∀ x ∈ seen, x ∈ g.explore fuel todo seen) ∧ (∀ x ∈ todo, x ∈ g.explore fuel todo seen) ∧
      ∀ x ∈ g.explore fuel todo seen, ∀ y, g.Feeds x y → y ∈ g.explore fuel todo seen := by
  fun_induction explore g fuel todo seen with
  | case1 fuel seen =>
    refine ⟨fun x hx => hx, by simp, fun x hx y hy => ?_⟩
    simpa using hseen x hx y hy
  | case2 todo seen hne =>
    cases todo with
    | nil => exact absurd rfl hne
    | cons e todo => simp at hfuel
  | case3 fuel e todo seen he ih =>
    have he : e ∈ seen := he
    obtain ⟨h1, h2, h3⟩ := ih (by simp at hfuel; omega) fun x hx y hy => by
      rcases hseen x hx y hy with h | h
      · exact .inl h
      · rcases List.mem_cons.1 h with rfl | h
        · exact .inl he
        · exact .inr h
    refine ⟨h1, fun x hx => ?_, h3⟩
    rcases List.mem_cons.1 hx with rfl | hx
    · exact h1 x he
    · exact h2 x hx
  | case4 fuel e todo seen he ih =>
    have he : e ∉ seen := he
    have hweight := unseen_insert hg he
    obtain ⟨h1, h2, h3⟩ := ih (by simp at hfuel ⊢; omega) fun x hx y hy => by
      rcases (Std.ExtTreeSet.mem_insert.1 hx) with hx | hx
      · have hx : e = x := by simpa using hx
        subst hx
        exact .inr (List.mem_append_left _ (hg.mem_consumersOf.2 hy))
      · rcases hseen x hx y hy with h | h
        · exact .inl (Std.ExtTreeSet.mem_insert.2 (.inr h))
        · rcases List.mem_cons.1 h with rfl | h
          · exact .inl Std.ExtTreeSet.mem_insert_self
          · exact .inr (List.mem_append_right _ h)
    refine ⟨fun x hx => h1 x (Std.ExtTreeSet.mem_insert.2 (.inr hx)), fun x hx => ?_, h3⟩
    rcases List.mem_cons.1 hx with rfl | hx
    · exact h1 x Std.ExtTreeSet.mem_insert_self
    · exact h2 x (List.mem_append_right _ hx)

theorem explore_sound (hg : g.Indexed) (fuel : Nat) (todo : List Entity) (seen : Group Entity)
    {x : Entity} (hx : x ∈ g.explore fuel todo seen) :
    x ∈ seen ∨ ∃ t ∈ todo, ReflTransGen g.Feeds t x := by
  fun_induction explore g fuel todo seen with
  | case1 fuel seen => exact .inl hx
  | case2 todo seen hne => exact .inl hx
  | case3 fuel e todo seen he ih =>
    rcases ih hx with h | ⟨t, ht, hpath⟩
    · exact .inl h
    · exact .inr ⟨t, List.mem_cons_of_mem _ ht, hpath⟩
  | case4 fuel e todo seen he ih =>
    rcases ih hx with h | ⟨t, ht, hpath⟩
    · rcases Std.ExtTreeSet.mem_insert.1 h with h | h
      · have h : e = x := by simpa using h
        exact .inr ⟨e, List.mem_cons_self, h ▸ .refl⟩
      · exact .inl h
    · rcases List.mem_append.1 ht with ht | ht
      · exact .inr ⟨e, List.mem_cons_self, .head (hg.mem_consumersOf.1 ht) hpath⟩
      · exact .inr ⟨t, List.mem_cons_of_mem _ ht, hpath⟩

/-- What is reached is what some root leads to. -/
theorem mem_reached (hg : g.Indexed) (roots : List Entity) (x : Entity) :
    x ∈ g.reached roots ↔ ∃ r ∈ roots, ReflTransGen g.Feeds r x := by
  constructor
  · intro hx
    rcases explore_sound hg _ _ _ hx with h | h
    · simp at h
    · exact h
  · rintro ⟨r, hr, hpath⟩
    obtain ⟨-, hroots, hclosed⟩ := explore_closed hg (roots.length + g.edges.size) roots ∅
      (by simp [unseen_empty]) (by simp)
    induction hpath with
    | refl => exact hroots r hr
    | tail _ hstep ih => exact hclosed _ ih _ hstep

theorem reaches_iff (hg : g.Indexed) (a b : Entity) : g.reaches a b ↔ ReflTransGen g.Feeds a b := by
  rw [reaches, Std.ExtTreeSet.contains_iff_mem, mem_reached hg]
  simp

end Parametric.Graph
