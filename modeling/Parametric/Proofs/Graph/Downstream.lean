import Mathlib.Data.Fintype.Card
import Mathlib.Data.Fintype.EquivFin
import Mathlib.Order.WellFounded
import Parametric.Proofs.Graph.Sound

/-!
# What follows from entities

`Graph.order` takes the least entity that waits for no producer, again and again. While it runs, the
counts are those of the producers that are not done, and the entities without such producers are
ready (`Waiting.Tracks`); one step keeps this (`Waiting.Tracks.step`). Since a graph without cycles
always has an entity that waits for nothing, all entities come out, so `Graph.downstream` holds
exactly what follows from the roots (`mem_downstream_iff`).
-/

namespace Parametric.Graph
open Relation (ReflTransGen TransGen)

variable {g : Graph}

/-- The number of producers of `e` among some entities that are not done. -/
def waitsFor (g : Graph) (among : Group Entity) (done : List Entity) (e : Entity) : Nat :=
  (g.producersOf e).countP fun p => p ∈ among ∧ p ∉ done

theorem nodup_producersOf (g : Graph) (e : Entity) : (g.producersOf e).Nodup :=
  Std.ExtTreeSet.distinct_toList.imp fun h heq => h (by simp [heq])

theorem nodup_consumersOf (g : Graph) (e : Entity) : (g.consumersOf e).Nodup :=
  Std.ExtTreeSet.distinct_toList.imp fun h heq => h (by simp [heq])

/-- One producer is done: those that it feeds wait for one less, the others as before. -/
theorem waitsFor_cons (hg : g.Indexed) {among : Group Entity} {done : List Entity} {e : Entity}
    (he : e ∈ among) (hdone : e ∉ done) (x : Entity) :
    g.waitsFor among done x =
      g.waitsFor among (e :: done) x + if g.Feeds e x then 1 else 0 := by
  have hcount : ∀ ps : List Entity, ps.Nodup → ps.countP (fun p => p ∈ among ∧ p ∉ done) =
      ps.countP (fun p => p ∈ among ∧ p ∉ e :: done) + if e ∈ ps then 1 else 0 := by
    intro ps hps
    induction ps with
    | nil => simp
    | cons p ps ih =>
      obtain ⟨hp, hps⟩ := List.nodup_cons.1 hps
      rw [List.countP_cons, List.countP_cons, ih hps]
      by_cases heq : p = e
      · subst heq
        simp [he, hdone, hp]
      · have hne : e ≠ p := fun h => heq h.symm
        simp only [List.mem_cons, heq, hne, false_or]
        omega
  unfold waitsFor
  rw [hcount _ (nodup_producersOf g x)]
  simp only [hg.mem_producersOf]

/-- Some entity that is not done waits for no other. -/
theorem exists_waitsFor_eq_zero (hg : g.Sound) (among : Group Entity) (done : List Entity)
    {x : Entity} (hx : x ∈ among) (hdone : x ∉ done) :
    ∃ e ∈ among, e ∉ done ∧ g.waitsFor among done e = 0 := by
  -- Following edges is a strict order on the entities that are left, and these are finitely many.
  let Open := {e : Entity // e ∈ among.toList ∧ e ∉ done}
  have hfinite : Finite Open :=
    Finite.of_injective
      (fun e : Open => (⟨e.1, e.2.1⟩ : {e // e ∈ among.toList}))
      fun a b h => Subtype.ext (by simpa using h)
  let follows : Open → Open → Prop := fun a b => TransGen g.Feeds a.1 b.1
  have htrans : IsTrans Open follows := ⟨fun a b c hab hbc => TransGen.trans hab hbc⟩
  have hirrefl : Std.Irrefl follows := ⟨fun a => hg.acyclic a.1⟩
  obtain ⟨e, -, hmin⟩ := (Finite.wellFounded_of_trans_of_irrefl follows).has_min Set.univ
    ⟨⟨x, Std.ExtTreeSet.mem_toList.2 hx, hdone⟩, trivial⟩
  refine ⟨e.1, Std.ExtTreeSet.mem_toList.1 e.2.1, e.2.2, ?_⟩
  rw [waitsFor, List.countP_eq_zero]
  intro p hp hopen
  simp only [decide_eq_true_eq] at hopen
  exact hmin ⟨p, Std.ExtTreeSet.mem_toList.2 hopen.1, hopen.2⟩ trivial
    (.single (hg.mem_producersOf.1 hp))

/-! ## One step -/

/-- The counts and the ready entities of a computation in which some entities are done. -/
structure Waiting.Tracks (g : Graph) (among : Group Entity) (done : List Entity) (w : Waiting) :
    Prop where
  counts : ∀ e, w.counts[e]? = if e ∈ among then some (g.waitsFor among done e) else none
  ready : ∀ e, e ∈ w.ready ↔ e ∈ among ∧ e ∉ done ∧ g.waitsFor among done e = 0
  closed : ∀ e ∈ done, e ∈ among ∧ g.waitsFor among done e = 0
  nodup : done.Nodup

theorem Waiting.counts_release (w : Waiting) (c x : Entity) :
    (w.release c).counts[x]? = if c = x then w.counts[x]?.map (· - 1) else w.counts[x]? := by
  cases hn : w.counts[c]? with
  | none =>
    have hsame : w.release c = w := by simp [release, hn]
    rw [hsame]
    by_cases heq : c = x
    · rw [if_pos heq, ← heq, hn]
      rfl
    · rw [if_neg heq]
  | some n =>
    simp only [release, hn, Table.getElem?_insert]
    by_cases heq : c = x
    · rw [if_pos heq, if_pos heq, ← heq, hn]
      rfl
    · rw [if_neg heq, if_neg heq]

theorem Waiting.mem_ready_release (w : Waiting) (c x : Entity) :
    x ∈ (w.release c).ready ↔ x ∈ w.ready ∨ c = x ∧ ∃ n, w.counts[x]? = some n ∧ n - 1 = 0 := by
  cases hn : w.counts[c]? with
  | none =>
    have hsame : w.release c = w := by simp [release, hn]
    rw [hsame]
    refine ⟨.inl, ?_⟩
    rintro (h | ⟨rfl, n, hn', -⟩)
    · exact h
    · rw [hn] at hn'
      cases hn'
  | some n =>
    simp only [release, hn]
    by_cases hzero : n - 1 = 0
    · rw [if_pos hzero, Std.ExtTreeSet.mem_insert, Std.LawfulEqCmp.compare_eq_iff_eq, or_comm]
      refine or_congr_right ⟨?_, And.left⟩
      rintro rfl
      exact ⟨rfl, n, hn, hzero⟩
    · rw [if_neg hzero]
      refine ⟨.inl, ?_⟩
      rintro (h | ⟨rfl, m, hm, hm0⟩)
      · exact h
      · rw [hn, Option.some.injEq] at hm
        exact absurd (hm ▸ hm0) hzero

/-- Releasing entities takes one off their counts, and those that come to zero get ready. -/
theorem Waiting.foldl_release (cs : List Entity) (hcs : cs.Nodup) (w : Waiting) :
    (∀ x, (cs.foldl Waiting.release w).counts[x]? =
      if x ∈ cs then w.counts[x]?.map (· - 1) else w.counts[x]?) ∧
    ∀ x, x ∈ (cs.foldl Waiting.release w).ready ↔
      x ∈ w.ready ∨ x ∈ cs ∧ ∃ n, w.counts[x]? = some n ∧ n - 1 = 0 := by
  induction cs generalizing w with
  | nil => simp
  | cons c cs ih =>
    obtain ⟨hc, hcs⟩ := List.nodup_cons.1 hcs
    obtain ⟨hcounts, hready⟩ := ih hcs (w.release c)
    refine ⟨fun x => ?_, fun x => ?_⟩
    · rw [List.foldl_cons, hcounts, counts_release]
      by_cases heq : c = x
      · subst heq
        simp [hc]
      · have hne : x ≠ c := fun h => heq h.symm
        simp only [List.mem_cons, heq, hne, false_or, if_false]
    · rw [List.foldl_cons, hready, mem_ready_release, counts_release]
      by_cases heq : c = x
      · subst heq
        simp [hc]
      · have hne : x ≠ c := fun h => heq h.symm
        simp [heq, hne]

/-- Taking a ready entity out of the order makes it done. -/
theorem Waiting.Tracks.step (hg : g.Indexed) {among : Group Entity} {done : List Entity}
    {w : Waiting} (h : w.Tracks g among done) {e : Entity} (he : e ∈ w.ready) :
    ((g.consumersOf e).foldl Waiting.release { w with ready := w.ready.erase e }).Tracks
      g among (e :: done) := by
  obtain ⟨hamong, hdone, hzero⟩ := (h.ready e).1 he
  obtain ⟨hcounts, hready⟩ := Waiting.foldl_release (g.consumersOf e) (nodup_consumersOf g e)
    { w with ready := w.ready.erase e }
  have hwaits := waitsFor_cons hg hamong hdone
  have hself : ¬ g.Feeds e e := fun hee => by
    have := hwaits e
    rw [if_pos hee] at this
    omega
  refine ⟨fun x => ?_, fun x => ?_, fun x hx => ?_, List.nodup_cons.2 ⟨hdone, h.nodup⟩⟩
  · rw [hcounts, h.counts]
    simp only [hg.mem_consumersOf]
    have := hwaits x
    split_ifs at this ⊢ <;> simp_all
  · rw [hready, Std.ExtTreeSet.mem_erase, h.ready, hg.mem_consumersOf, h.counts, List.mem_cons]
    have := hwaits x
    by_cases hex : e = x
    · subst hex
      simp [hself]
    · have hne : x ≠ e := fun heq => hex heq.symm
      by_cases hx : x ∈ among
      · by_cases hxd : x ∈ done
        · have := (h.closed x hxd).2
          by_cases hfeeds : g.Feeds e x
          · simp only [if_pos hfeeds] at *
            omega
          · simp [hxd, hfeeds]
        · by_cases hfeeds : g.Feeds e x
          · simp only [hfeeds, if_true] at this
            simp only [hne, hx, hxd, hfeeds, if_true, not_false_eq_true, true_and, false_or,
              Option.some.injEq, exists_eq_left']
            omega
          · simp only [hfeeds, if_false] at this
            simp [hex, hne, hx, hxd, hfeeds, this]
      · simp [hx]
  · rcases List.mem_cons.1 hx with rfl | hx
    · have := hwaits x
      exact ⟨hamong, by omega⟩
    · obtain ⟨hxa, hx0⟩ := h.closed x hx
      have := hwaits x
      exact ⟨hxa, by omega⟩

/-! ## The whole order -/

theorem mem_of_mem_order (hg : g.Indexed) {among : Group Entity} {x : Entity} (fuel : Nat)
    {done : List Entity} {w : Waiting} (h : w.Tracks g among done) (hx : x ∈ g.order fuel w) :
    x ∈ among := by
  induction fuel generalizing w done with
  | zero => simp [order] at hx
  | succ fuel ih =>
    unfold order at hx
    cases hmin : w.ready.toList.head? with
    | none => simp [hmin] at hx
    | some e =>
      simp only [hmin, List.mem_cons] at hx
      have he := Std.ExtTreeSet.mem_toList.1 (List.mem_of_head? hmin)
      rcases hx with rfl | hx
      · exact ((h.ready x).1 he).1
      · exact ih (h.step hg he) hx

/-- Every entity comes out, because as long as some are left one of them is ready. -/
theorem mem_order (hg : g.Sound) {among : Group Entity} {x : Entity} (hx : x ∈ among) (fuel : Nat)
    {done : List Entity} {w : Waiting} (h : w.Tracks g among done)
    (hfuel : among.size ≤ fuel + done.length) (hdone : x ∉ done) : x ∈ g.order fuel w := by
  induction fuel generalizing w done with
  | zero =>
    have hsub : (x :: done) ⊆ among.toList := by
      intro y hy
      rw [Std.ExtTreeSet.mem_toList]
      rcases List.mem_cons.1 hy with rfl | hy
      · exact hx
      · exact (h.closed y hy).1
    have hlength := ((List.nodup_cons.2 ⟨hdone, h.nodup⟩).subperm hsub).length_le
    rw [Std.ExtTreeSet.length_toList, List.length_cons] at hlength
    omega
  | succ fuel ih =>
    unfold order
    cases hmin : w.ready.toList.head? with
    | none =>
      obtain ⟨e, hea, hed, he0⟩ := exists_waitsFor_eq_zero hg among done hx hdone
      have he := Std.ExtTreeSet.mem_toList.2 ((h.ready e).2 ⟨hea, hed, he0⟩)
      rw [List.head?_eq_none_iff.1 hmin] at he
      cases he
    | some e =>
      have he := Std.ExtTreeSet.mem_toList.1 (List.mem_of_head? hmin)
      by_cases hxe : x = e
      · exact hxe ▸ List.mem_cons_self
      · refine List.mem_cons_of_mem _ (ih (h.step hg.toIndexed he) ?_ ?_)
        · rw [List.length_cons]
          omega
        · simp [hxe, hdone]

/-- At the start nothing is done. -/
theorem tracks_start (g : Graph) (among : Group Entity) (count : Entity → Nat)
    (hcount : ∀ e, count e = g.waitsFor among [] e) :
    Waiting.Tracks g among [] ⟨.ofList (among.toList.map fun e => (e, count e)),
      among.filter fun e => count e = 0⟩ := by
  refine ⟨fun e => ?_, fun e => ?_, by simp, .nil⟩
  · have hkeys : (among.toList.map fun e => (e, count e)).map Prod.fst = among.toList := by
      simp [Function.comp_def]
    by_cases he : e ∈ among
    · rw [if_pos he, ← hcount]
      refine Std.ExtTreeMap.getElem?_ofList_of_mem (k := e) (by simp) ?_ ?_
      · rw [List.pairwise_map]
        exact (Std.ExtTreeSet.distinct_toList (t := among)).imp id
      · exact List.mem_map.2 ⟨e, Std.ExtTreeSet.mem_toList.2 he, rfl⟩
    · rw [if_neg he]
      refine Std.ExtTreeMap.getElem?_ofList_of_contains_eq_false ?_
      rw [hkeys]
      simpa using he
  · simp [Std.ExtTreeSet.mem_filter, hcount]

/-- How many entities follow from some roots, and the computation before any of them is listed. -/
def opening (g : Graph) (roots : List Entity) : Nat × Waiting :=
  let followers := (g.reached roots).filter fun e => !roots.contains e
  let count (e : Entity) := ((g.producersOf e).filter followers.contains).length
  (followers.size, ⟨.ofList (followers.toList.map fun e => (e, count e)),
    followers.filter fun e => count e = 0⟩)

theorem downstream_eq_opening (g : Graph) (roots : List Entity) :
    g.downstream roots = g.order (g.opening roots).1 (g.opening roots).2 := rfl

/-- The computation lists the entities that the roots lead to. -/
theorem tracks_opening (hg : g.Sound) (roots : List Entity) :
    ∃ among, (g.opening roots).1 = among.size ∧ Waiting.Tracks g among [] (g.opening roots).2 ∧
      ∀ x, x ∈ among ↔ x ∉ roots ∧ ∃ r ∈ roots, ReflTransGen g.Feeds r x := by
  let followers := (g.reached roots).filter fun e => !roots.contains e
  refine ⟨followers, rfl, ?_, fun x => ?_⟩
  · refine tracks_start g followers
      (fun e => ((g.producersOf e).filter followers.contains).length) fun e => ?_
    rw [waitsFor, ← List.countP_eq_length_filter]
    congr 1
    funext p
    rw [Bool.eq_iff_iff, Std.ExtTreeSet.contains_iff_mem]
    simp
  · simp [followers, Std.ExtTreeSet.mem_filter, mem_reached hg.toIndexed, and_comm]

/-- What follows from some roots is the order of the entities that they lead to. -/
theorem downstream_eq_order (hg : g.Sound) (roots : List Entity) :
    ∃ among w, g.downstream roots = g.order among.size w ∧ Waiting.Tracks g among [] w ∧
      ∀ x, x ∈ among ↔ x ∉ roots ∧ ∃ r ∈ roots, ReflTransGen g.Feeds r x := by
  obtain ⟨among, hsize, htracks, hamong⟩ := tracks_opening hg roots
  exact ⟨among, _, hsize ▸ g.downstream_eq_opening roots, htracks, hamong⟩

/-- What follows from some roots is what they lead to, without the roots themselves. -/
theorem mem_downstream_iff (hg : g.Sound) (roots : List Entity) (x : Entity) :
    x ∈ g.downstream roots ↔ x ∉ roots ∧ ∃ r ∈ roots, ReflTransGen g.Feeds r x := by
  obtain ⟨among, w, heq, htracks, hamong⟩ := downstream_eq_order hg roots
  rw [heq, ← hamong]
  constructor
  · exact fun hx => mem_of_mem_order hg.toIndexed _ htracks hx
  · exact fun hx => mem_order hg hx _ htracks (by simp) (by simp)

/-- What follows from anything consumes something. -/
theorem exists_feeds_of_mem_downstream (hg : g.Sound) {roots : List Entity} {x : Entity}
    (hx : x ∈ g.downstream roots) : ∃ p, g.Feeds p x := by
  obtain ⟨hne, root, hroot, hpath⟩ := (mem_downstream_iff hg roots x).1 hx
  rcases ReflTransGen.cases_tail hpath with rfl | ⟨p, -, hp⟩
  · exact absurd hroot hne
  · exact ⟨p, hp⟩

/-- What comes out of the order is not done yet, and feeds nothing that came before it. -/
theorem pairwise_order (hg : g.Indexed) {among : Group Entity} (fuel : Nat) {done : List Entity}
    {w : Waiting} (h : w.Tracks g among done) :
    (∀ x ∈ g.order fuel w, x ∉ done) ∧
      (g.order fuel w).Pairwise fun x y => x ≠ y ∧ ¬ g.Feeds y x := by
  induction fuel generalizing w done with
  | zero => simp [order]
  | succ fuel ih =>
    unfold order
    cases hmin : w.ready.toList.head? with
    | none => simp
    | some e =>
      have he := Std.ExtTreeSet.mem_toList.1 (List.mem_of_head? hmin)
      obtain ⟨-, hdone, hzero⟩ := (h.ready e).1 he
      obtain ⟨hnotDone, hpairwise⟩ := ih (h.step hg he)
      refine ⟨List.forall_mem_cons.2 ⟨hdone, fun x hx hxd => ?_⟩,
        List.pairwise_cons.2 ⟨fun y hy => ⟨?_, fun hfeeds => ?_⟩, hpairwise⟩⟩
      · exact hnotDone x hx (List.mem_cons_of_mem _ hxd)
      · rintro rfl
        exact hnotDone e hy List.mem_cons_self
      · -- A producer that comes later would not be done, but the entity waits for none.
        have hcount := List.countP_eq_zero.1 hzero y (hg.mem_producersOf.2 hfeeds)
        have hamong := mem_of_mem_order hg fuel (h.step hg he) hy
        have hy' : y ∉ done := fun hyd => hnotDone y hy (List.mem_cons_of_mem _ hyd)
        simp [hamong, hy'] at hcount

/-- Nothing is listed twice, and producers come before consumers. -/
theorem pairwise_downstream (hg : g.Sound) (roots : List Entity) :
    (g.downstream roots).Pairwise fun x y => x ≠ y ∧ ¬ g.Feeds y x := by
  obtain ⟨among, w, heq, htracks, -⟩ := downstream_eq_order hg roots
  rw [heq]
  exact (pairwise_order hg.toIndexed _ htracks).2

/-- Entities that edges lead to from some roots. -/
def Follows (g : Graph) (roots : List Entity) (x : Entity) : Prop :=
  ∃ e ∈ roots, TransGen g.Feeds e x

/-- When no root follows from the roots, all that follows is listed. -/
theorem mem_downstream_iff_follows (hg : g.Sound) {roots : List Entity}
    (hroots : ∀ x, g.Follows roots x → x ∉ roots) (x : Entity) :
    x ∈ g.downstream roots ↔ g.Follows roots x := by
  rw [mem_downstream_iff hg]
  constructor
  · rintro ⟨hx, e, he, hpath⟩
    rcases Relation.reflTransGen_iff_eq_or_transGen.1 hpath with rfl | hpath
    · exact absurd he hx
    · exact ⟨e, he, hpath⟩
  · intro h
    obtain ⟨e, he, hpath⟩ := h
    exact ⟨hroots x ⟨e, he, hpath⟩, e, he, hpath.to_reflTransGen⟩

end Parametric.Graph
