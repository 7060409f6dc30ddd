import Parametric.Proofs.Graph.Downstream
import Parametric.Proofs.Graph.History

/-!
# The order of what follows

`Graph.downstream?` lists what follows from some roots with every step looked at: it has no result
when an entity is released that waits for no producer, or when entities are ready at the end. On a
graph that edits make it always has one, which is `Graph.downstream`: the counts are those of the
producers that are not listed yet (`Waiting.Tracks`), so an entity that is released waits for the
one that has just been listed (`foldlM_release?`).

When an entity is listed it is the least one that is ready (`exists_tracks_of_order_eq`). Hence the
list is determined by the edges: `downstream_least_first`.
-/

namespace Parametric.Graph
open Relation (ReflTransGen TransGen)

variable {g : Graph}

/-! ## Steps that are looked at -/

/-- A producer of `e` is done, unless `e` waits for none. -/
def Waiting.release? (w : Waiting) (e : Entity) : Option Waiting :=
  if w.counts[e]? = some 0 then none else some (w.release e)

/-- `Graph.order` without a result when a count would fall below zero or the fuel does not suffice.
-/
def order? (g : Graph) : Nat → Waiting → Option (List Entity)
  | 0, w => if w.ready.isEmpty then some [] else none
  | fuel + 1, w =>
    match w.ready.toList.head? with
    | none => some []
    | some e => do
      let w ← (g.consumersOf e).foldlM Waiting.release? { w with ready := w.ready.erase e }
      return e :: (← g.order? fuel w)

/-- `Graph.downstream` without a result when a count would fall below zero or the fuel does not
suffice. -/
def downstream? (g : Graph) (roots : List Entity) : Option (List Entity) :=
  g.order? (g.opening roots).1 (g.opening roots).2

theorem Waiting.release?_eq {w : Waiting} {e : Entity} (h : w.counts[e]? ≠ some 0) :
    w.release? e = some (w.release e) := if_neg h

theorem Waiting.foldlM_release? (cs : List Entity) (hcs : cs.Nodup) (w : Waiting)
    (h : ∀ c ∈ cs, w.counts[c]? ≠ some 0) :
    cs.foldlM Waiting.release? w = some (cs.foldl Waiting.release w) := by
  induction cs generalizing w with
  | nil => rfl
  | cons c cs ih =>
    obtain ⟨hc, hcs⟩ := List.nodup_cons.1 hcs
    obtain ⟨hfirst, hrest⟩ := List.forall_mem_cons.1 h
    rw [List.foldlM_cons, release?_eq hfirst]
    refine ih hcs _ fun x hx => ?_
    have hne : c ≠ x := fun heq => hc (heq ▸ hx)
    rw [counts_release, if_neg hne]
    exact hrest x hx

/-- The consumers of a ready entity wait for it. -/
theorem Waiting.Tracks.counts_ne_zero (hg : g.Indexed) {among : Group Entity} {done : List Entity}
    {w : Waiting} (h : w.Tracks g among done) {e c : Entity} (he : e ∈ w.ready)
    (hc : c ∈ g.consumersOf e) : w.counts[c]? ≠ some 0 := by
  obtain ⟨hamong, hdone, -⟩ := (h.ready e).1 he
  have hwaits := waitsFor_cons hg hamong hdone c
  rw [if_pos (hg.mem_consumersOf.1 hc)] at hwaits
  rw [h.counts]
  split
  · rw [hwaits]
    simp
  · simp

/-- Looking at the steps makes no difference as long as the fuel suffices. -/
theorem order?_eq (hg : g.Sound) {among : Group Entity} (fuel : Nat) {done : List Entity}
    {w : Waiting} (h : w.Tracks g among done) (hfuel : among.size ≤ fuel + done.length) :
    g.order? fuel w = some (g.order fuel w) := by
  induction fuel generalizing w done with
  | zero =>
    have hempty : w.ready.isEmpty := by
      by_contra hready
      obtain ⟨x, hx⟩ : ∃ x, x ∈ w.ready := by
        simpa [Std.ExtTreeSet.isEmpty_iff, Std.ExtTreeSet.ext_mem_iff] using hready
      obtain ⟨hamong, hdone, -⟩ := (h.ready x).1 hx
      have hout := mem_order hg hamong 0 h hfuel hdone
      simp [order] at hout
    simp [order?, order, hempty]
  | succ fuel ih =>
    unfold order? order
    cases hmin : w.ready.toList.head? with
    | none => rfl
    | some e =>
      have he := Std.ExtTreeSet.mem_toList.1 (List.mem_of_head? hmin)
      have hstep := Waiting.foldlM_release? (g.consumersOf e) (nodup_consumersOf g e)
        { w with ready := w.ready.erase e } fun c hc => h.counts_ne_zero hg.toIndexed he hc
      have hrest := ih (h.step hg.toIndexed he) (by rw [List.length_cons]; omega)
      simp [hstep, hrest]

/-! ## The least one first -/

/-- When an entity is listed it is the first one that is ready. -/
theorem exists_tracks_of_order_eq (hg : g.Indexed) {among : Group Entity} (fuel : Nat)
    {done before after : List Entity} {e : Entity} {w : Waiting} (h : w.Tracks g among done)
    (heq : g.order fuel w = before ++ e :: after) :
    ∃ w' : Waiting, w'.Tracks g among (before.reverse ++ done) ∧
      w'.ready.toList.head? = some e := by
  induction before generalizing fuel w done with
  | nil =>
    refine ⟨w, h, ?_⟩
    cases fuel with
    | zero => simp [order] at heq
    | succ fuel =>
      unfold order at heq
      cases hmin : w.ready.toList.head? with
      | none => simp [hmin] at heq
      | some x =>
        simp only [hmin, List.nil_append, List.cons.injEq] at heq
        rw [heq.1]
  | cons b before ih =>
    cases fuel with
    | zero => simp [order] at heq
    | succ fuel =>
      unfold order at heq
      cases hmin : w.ready.toList.head? with
      | none => simp [hmin] at heq
      | some x =>
        simp only [hmin, List.cons_append, List.cons.injEq] at heq
        obtain ⟨rfl, heq⟩ := heq
        have hx := Std.ExtTreeSet.mem_toList.1 (List.mem_of_head? hmin)
        simpa using ih fuel (h.step hg hx) heq

/-- The first entity of a group is the least one. -/
theorem compare_of_head? {es : Group Entity} {e x : Entity} (he : es.toList.head? = some e)
    (hx : x ∈ es) (hne : e ≠ x) : compare e x = .lt := by
  have hsorted := Std.ExtTreeSet.ordered_toList (t := es)
  obtain ⟨rest, hrest⟩ := List.head?_eq_some_iff.1 he
  rw [hrest, List.pairwise_cons] at hsorted
  have hx := Std.ExtTreeSet.mem_toList.2 hx
  rw [hrest] at hx
  exact hsorted.1 x ((List.mem_cons.1 hx).resolve_left hne.symm)

/-- What an entity waits for at a point of the order are its producers that are not listed yet. -/
theorem waitsFor_eq_zero_iff (hg : g.Indexed) {among : Group Entity} {done : List Entity}
    {e : Entity} : g.waitsFor among done e = 0 ↔ ∀ p ∈ among, g.Feeds p e → p ∈ done := by
  rw [waitsFor, List.countP_eq_zero]
  simp only [hg.mem_producersOf, decide_eq_true_eq, not_and, not_not]
  exact ⟨fun h p hp hfeeds => h p hfeeds hp, fun h p hfeeds hp => h p hp hfeeds⟩

/-- For every graph that edits make and all roots, whether they are in the graph or not, the list of
what follows is completed without a count falling below zero. It holds the entities that are no
roots and that one edge or more lead to from some root, each once. Every entity comes after all of
its producers that are listed, and before every other entity that could have come in its place. -/
theorem downstream_least_first (edits : List Edit) (roots : List Entity) :
    let g := ofEdits edits
    let feeds (p c : Entity) := Link.mk p c ∈ g.edges
    let listed := g.downstream roots
    g.downstream? roots = some listed ∧
    listed.Nodup ∧
    (∀ x, x ∈ listed ↔ x ∉ roots ∧ ∃ root ∈ roots, TransGen feeds root x) ∧
    ∀ before e after, listed = before ++ e :: after →
      (∀ p ∈ listed, feeds p e → p ∈ before) ∧
      ∀ x ∈ after, (∀ p ∈ listed, feeds p x → p ∈ before) → compare e x = .lt := by
  intro g feeds listed
  have hg : g.Sound := sound_ofEdits edits
  obtain ⟨among, hsize, htracks, hamong⟩ := tracks_opening hg roots
  have hnodup : listed.Nodup := (pairwise_downstream hg roots).imp And.left
  have hmem : ∀ x, x ∈ listed ↔ x ∈ among := fun x => by
    rw [hamong, ← mem_downstream_iff hg]
  refine ⟨order?_eq hg _ htracks (by simp [hsize]), hnodup, fun x => ?_, ?_⟩
  · rw [mem_downstream_iff hg]
    refine and_congr_right fun hx => exists_congr fun root => and_congr_right fun hroot => ?_
    rw [Relation.reflTransGen_iff_eq_or_transGen]
    exact or_iff_right fun heq => hx (heq ▸ hroot)
  · intro before e after heq
    obtain ⟨w, hw, hmin⟩ := exists_tracks_of_order_eq hg.toIndexed _ htracks
      ((g.downstream_eq_opening roots).symm.trans heq)
    have hready := (hw.ready e).1 (Std.ExtTreeSet.mem_toList.1 (List.mem_of_head? hmin))
    have hdone : ∀ p, p ∈ before.reverse ++ [] ↔ p ∈ before := by simp
    refine ⟨fun p hp hfeeds => ?_, fun x hx hproducers => ?_⟩
    · exact (hdone p).1
        ((waitsFor_eq_zero_iff hg.toIndexed).1 hready.2.2 p ((hmem p).1 hp) hfeeds)
    · rw [heq, List.nodup_append'] at hnodup
      obtain ⟨-, hafter, hdisjoint⟩ := hnodup
      have hx' : x ∉ before := fun hbefore => hdisjoint hbefore (List.mem_cons_of_mem _ hx)
      have hne : e ≠ x := fun hex => (List.nodup_cons.1 hafter).1 (hex ▸ hx)
      have hlisted : x ∈ listed := by simp [heq, hx]
      refine compare_of_head? hmin ((hw.ready x).2 ⟨(hmem x).1 hlisted, ?_, ?_⟩) hne
      · rwa [hdone]
      · refine (waitsFor_eq_zero_iff hg.toIndexed).2 fun p hp hfeeds => ?_
        exact (hdone p).2 (hproducers p ((hmem p).2 hp) hfeeds)

end Parametric.Graph
