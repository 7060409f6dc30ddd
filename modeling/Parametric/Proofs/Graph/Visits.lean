import Parametric.Proofs.Graph.Downstream

/-!
# Lines of consumers

Entities stand in a line, and the first one is served again and again. Its consumers then join the
line, each at the end unless it is in the line (`Graph.Serves`). When a part of the line is in order
it is served as it is, and what its consumers add to the line comes after it (`Serves.append`).

The line of a change starts with what follows from the entities that the change affects, and their
consumers join it. The affected entities may be among these, so some may come up once more, behind
what follows from them. `Graph.visits` lists each follower where it comes up first. All is served in
order exactly when that list is in order, and then the list is what is served (`Serves.visits`).
-/

namespace Parametric.Graph
open Relation (ReflTransGen TransGen)

variable {g : Graph}

/-! ## Joining a line -/

/-- Put entities at the end of a line, each unless it is in the line. -/
def joinLine (line es : List Entity) : List Entity :=
  es.foldl (fun line e => if e ∈ line then line else line ++ [e]) line

theorem joinLine_append (line es es' : List Entity) :
    joinLine line (es ++ es') = joinLine (joinLine line es) es' := List.foldl_append

/-- Of those who join a line some are in its first part, and the others join the rest. -/
theorem append_joinLine (xs ys es : List Entity) :
    joinLine (xs ++ ys) es = xs ++ joinLine ys (es.filter (· ∉ xs)) := by
  induction es generalizing ys with
  | nil => rfl
  | cons e es ih =>
    unfold joinLine at ih ⊢
    by_cases hxs : e ∈ xs
    · simpa [hxs] using ih ys
    · by_cases hys : e ∈ ys
      · simpa [hxs, hys] using ih ys
      · simpa [hxs, hys] using ih (ys ++ [e])

theorem mem_joinLine {line es : List Entity} {x : Entity} :
    x ∈ joinLine line es ↔ x ∈ line ∨ x ∈ es := by
  induction es generalizing line with
  | nil => simp [joinLine]
  | cons e es ih =>
    unfold joinLine at ih ⊢
    rw [List.foldl_cons, ih, List.mem_cons]
    split
    next he =>
      constructor
      · exact Or.imp_right .inr
      · rintro (h | rfl | h)
        · exact .inl h
        · exact .inl he
        · exact .inr h
    next => simp [or_assoc]

theorem joinLine_eq (line es : List Entity) :
    joinLine line es = line ++ joinLine [] (es.filter (· ∉ line)) := by
  rw [← append_joinLine, List.append_nil]

theorem prefix_joinLine (line es : List Entity) : line <+: joinLine line es :=
  joinLine_eq line es ▸ List.prefix_append _ _

theorem nodup_joinLine {line : List Entity} (h : line.Nodup) (es : List Entity) :
    (joinLine line es).Nodup := by
  induction es generalizing line with
  | nil => exact h
  | cons e es ih =>
    refine ih ?_
    dsimp only
    split
    · exact h
    next he => exact List.nodup_append'.2 ⟨h, List.nodup_singleton e, by simpa using he⟩

theorem joinLine_of_nodup {line es : List Entity} (h : (line ++ es).Nodup) :
    joinLine line es = line ++ es := by
  induction es generalizing line with
  | nil => exact (List.append_nil line).symm
  | cons e es ih =>
    have he : e ∉ line := fun he =>
      (List.nodup_append'.1 h).2.2 he List.mem_cons_self
    rw [List.append_cons] at h ⊢
    rw [← ih h, joinLine, List.foldl_cons, if_neg he]
    rfl

/-! ## Serving a line -/

/-- The first of a line is served, then its consumers join the line, and so on. -/
inductive Serves (g : Graph) : List Entity → List Entity → Prop
  | nil : Serves g [] []
  | cons {e : Entity} {rest es : List Entity}
      (h : Serves g (joinLine rest (g.consumersOf e)) es) : Serves g (e :: rest) (e :: es)

/-- No consumer comes before one of its producers. -/
def InOrder (g : Graph) (es : List Entity) : Prop := es.Pairwise fun x y => ¬ g.Feeds y x

namespace Serves

variable {line es : List Entity}

theorem isPrefix (h : Serves g line es) : line <+: es := by
  induction h with
  | nil => exact List.prefix_refl _
  | cons h ih => exact List.cons_prefix_cons.2 ⟨rfl, (prefix_joinLine _ _).trans ih⟩

/-- Consumers are served after what they consume. -/
theorem mem_after (h : Serves g line es) {before after : List Entity} {e c : Entity}
    (heq : es = before ++ e :: after) (hc : c ∈ g.consumersOf e) : c ∈ after := by
  induction h generalizing before with
  | nil => simp at heq
  | cons h ih =>
    cases before with
    | nil =>
      cases heq
      exact h.isPrefix.subset (mem_joinLine.2 (.inr hc))
    | cons x before =>
      cases heq
      exact ih rfl

/-- What is served stood in the line or follows from it. -/
theorem reaches (hg : g.Indexed) (h : Serves g line es) {x : Entity} (hx : x ∈ es) :
    ∃ e ∈ line, ReflTransGen g.Feeds e x := by
  induction h with
  | nil => cases hx
  | @cons e rest es h ih =>
    rcases List.mem_cons.1 hx with rfl | hx
    · exact ⟨x, List.mem_cons_self, .refl⟩
    · obtain ⟨y, hy, hpath⟩ := ih hx
      rcases mem_joinLine.1 hy with hy | hy
      · exact ⟨y, List.mem_cons_of_mem _ hy, hpath⟩
      · exact ⟨e, List.mem_cons_self, .head (hg.mem_consumersOf.1 hy) hpath⟩

/-- A part of the line that is in order is served as it is. The consumers that are not in it join
the rest of the line. -/
theorem append (hg : g.Sound) {xs ys : List Entity} (h : Serves g (xs ++ ys) es) (hnodup : xs.Nodup)
    (hordered : g.InOrder xs) : ∃ es', es = xs ++ es' ∧
      Serves g (joinLine ys ((xs.flatMap g.consumersOf).filter (· ∉ xs))) es' := by
  induction xs generalizing ys es with
  | nil => exact ⟨es, rfl, h⟩
  | cons x xs ih =>
    obtain ⟨hx, hnodup⟩ := List.nodup_cons.1 hnodup
    obtain ⟨hfirst, hordered⟩ := List.pairwise_cons.1 hordered
    rw [List.cons_append] at h
    cases h with | @cons _ _ es h =>
    rw [append_joinLine] at h
    obtain ⟨es', rfl, hrest⟩ := ih h hnodup hordered
    refine ⟨es', rfl, ?_⟩
    rw [← joinLine_append] at hrest
    -- The first one is no consumer of itself or of a later one.
    have hself : ∀ c ∈ g.consumersOf x, c ≠ x := fun c hc heq =>
      hg.acyclic x (.single (hg.toIndexed.mem_consumersOf.1 (heq ▸ hc)))
    have hlater : ∀ c ∈ xs.flatMap g.consumersOf, c ≠ x := fun c hc heq => by
      obtain ⟨y, hy, hc⟩ := List.mem_flatMap.1 hc
      exact hfirst y hy (hg.toIndexed.mem_consumersOf.1 (heq ▸ hc))
    have hfilter : ∀ cs : List Entity, (∀ c ∈ cs, c ≠ x) →
        cs.filter (· ∉ x :: xs) = cs.filter (· ∉ xs) := fun cs hcs =>
      List.filter_congr fun c hc => by simp [hcs c hc]
    rwa [List.flatMap_cons, List.filter_append, hfilter _ hself, hfilter _ hlater]

end Serves

/-! ## The line of a change -/

/-- What follows from a change beyond the affected entities and the target. -/
def beyond (g : Graph) (affected : List Entity) (target : Entity) : List Entity :=
  (g.downstream affected).filter (· ≠ target)

/-- The consumers of some entities that are not in a line, each where it comes up first. -/
def newcomers (g : Graph) (line es : List Entity) : List Entity :=
  joinLine [] ((es.flatMap g.consumersOf).filter (· ∉ line))

/-- The consumers of the affected entities and of the line that are not in the line. -/
def returning (g : Graph) (affected : List Entity) (target : Entity) : List Entity :=
  g.newcomers (g.beyond affected target) (affected ++ g.beyond affected target)

/-- What follows from a change, each entity where it comes up first: in the line of the change,
among the consumers of the affected entities and of that line, or among the consumers of these. -/
def visits (g : Graph) (affected : List Entity) (target : Entity) : List Entity :=
  let up := g.beyond affected target ++ g.returning affected target
  up ++ g.newcomers up up

theorem mem_newcomers {line es : List Entity} {x : Entity} :
    x ∈ g.newcomers line es ↔ (∃ y ∈ es, x ∈ g.consumersOf y) ∧ x ∉ line := by
  rw [newcomers, mem_joinLine, List.mem_filter, List.mem_flatMap, decide_eq_true_iff]
  exact or_iff_right List.not_mem_nil

theorem nodup_newcomers (g : Graph) (line es : List Entity) : (g.newcomers line es).Nodup :=
  nodup_joinLine .nil _

/-- When a line is in order, the newcomers of its last part are not in the first part. -/
theorem newcomers_append (hg : g.Indexed) {line up : List Entity}
    (hclosed : ∀ x ∈ line, ∀ c ∈ g.consumersOf x, c ∈ line ++ up)
    (hordered : g.InOrder (line ++ up)) :
    g.newcomers up up = g.newcomers (line ++ up) (line ++ up) := by
  have hback : ∀ c ∈ up.flatMap g.consumersOf, c ∉ line := fun c hc hline => by
    obtain ⟨x, hx, hc⟩ := List.mem_flatMap.1 hc
    exact (List.pairwise_append.1 hordered).2.2 c hline x hx (hg.mem_consumersOf.1 hc)
  have hfirst : (line.flatMap g.consumersOf).filter (· ∉ line ++ up) = [] :=
    List.filter_eq_nil_iff.2 fun c hc => by
      obtain ⟨x, hx, hc⟩ := List.mem_flatMap.1 hc
      simpa [or_iff_not_imp_left] using hclosed x hx c hc
  have hlast : (up.flatMap g.consumersOf).filter (· ∉ line ++ up) =
      (up.flatMap g.consumersOf).filter (· ∉ up) :=
    List.filter_congr fun c hc => by simp [hback c hc]
  rw [newcomers, newcomers, List.flatMap_append, List.filter_append, hfirst, hlast, List.nil_append]

variable {affected : List Entity} {target : Entity}

theorem mem_beyond (hg : g.Sound) {x : Entity} :
    x ∈ g.beyond affected target ↔ g.Follows affected x ∧ x ∉ target :: affected := by
  rw [beyond, List.mem_filter, mem_downstream_iff hg, decide_eq_true_iff, List.mem_cons, not_or]
  constructor
  · rintro ⟨⟨hx, e, he, hpath⟩, htarget⟩
    rcases Relation.reflTransGen_iff_eq_or_transGen.1 hpath with rfl | hpath
    · exact absurd he hx
    · exact ⟨⟨e, he, hpath⟩, htarget, hx⟩
  · rintro ⟨⟨e, he, hpath⟩, htarget, hx⟩
    exact ⟨⟨hx, e, he, hpath.to_reflTransGen⟩, htarget⟩

theorem pairwise_beyond (hg : g.Sound) (affected : List Entity) (target : Entity) :
    (g.beyond affected target).Nodup ∧ g.InOrder (g.beyond affected target) :=
  List.pairwise_and_iff.1 ((pairwise_downstream hg affected).filter _)

theorem follows_of_mem_consumersOf (hg : g.Indexed) {x c : Entity}
    (hx : x ∈ affected ∨ g.Follows affected x) (hc : c ∈ g.consumersOf x) :
    g.Follows affected c := by
  have hfeeds := hg.mem_consumersOf.1 hc
  rcases hx with hx | ⟨e, he, hpath⟩
  · exact ⟨x, hx, .single hfeeds⟩
  · exact ⟨e, he, hpath.tail hfeeds⟩

theorem mem_up_of_mem_consumersOf {x c : Entity}
    (hx : x ∈ affected ∨ x ∈ g.beyond affected target) (hc : c ∈ g.consumersOf x) :
    c ∈ g.beyond affected target ++ g.returning affected target := by
  by_cases hline : c ∈ g.beyond affected target
  · exact List.mem_append_left _ hline
  · exact List.mem_append_right _ (mem_newcomers.2 ⟨⟨x, List.mem_append.2 hx, hc⟩, hline⟩)

/-- What comes up is affected, or the target. -/
theorem follows_of_mem_returning (hg : g.Sound) {x : Entity}
    (hx : x ∈ g.returning affected target) :
    g.Follows affected x ∧ x ∈ target :: affected := by
  obtain ⟨⟨y, hy, hxy⟩, hline⟩ := mem_newcomers.1 hx
  rw [List.mem_append, mem_beyond hg] at hy
  have hfollows := follows_of_mem_consumersOf hg.toIndexed (hy.imp_right And.left) hxy
  rw [mem_beyond hg] at hline
  exact ⟨hfollows, not_not.1 fun hne => hline ⟨hfollows, hne⟩⟩

/-- The target comes up with the first, so that only affected entities come up last. -/
theorem mem_affected_of_mem_newcomers (hg : g.Sound) {up : List Entity}
    (heq : up = g.beyond affected target ++ g.returning affected target) {x : Entity}
    (hx : x ∈ g.newcomers up up) : x ∈ affected := by
  subst heq
  obtain ⟨⟨y, hy, hxy⟩, hup⟩ := mem_newcomers.1 hx
  have hfeeds := hg.toIndexed.mem_consumersOf.1 hxy
  rcases List.mem_append.1 hy with hy | hy
  · exact absurd (mem_up_of_mem_consumersOf (.inr hy) hxy) hup
  · obtain ⟨hfollows, hy⟩ := follows_of_mem_returning hg hy
    have hline : x ∉ g.beyond affected target := fun h => hup (List.mem_append_left _ h)
    rw [mem_beyond hg, not_and, not_not] at hline
    have hx := hline (follows_of_mem_consumersOf hg.toIndexed (.inr hfollows) hxy)
    rcases List.mem_cons.1 hx with rfl | hx
    · rcases List.mem_cons.1 hy with rfl | hy
      · exact absurd (.single hfeeds) (hg.acyclic y)
      · exact absurd (mem_up_of_mem_consumersOf (.inl hy) hxy) hup
    · exact hx

theorem nodup_append_newcomers {line : List Entity} (h : line.Nodup) (es : List Entity) :
    (line ++ g.newcomers line es).Nodup :=
  List.nodup_append'.2 ⟨h, nodup_newcomers .., fun _ hx hx' => (mem_newcomers.1 hx').2 hx⟩

theorem nodup_visits (hg : g.Sound) (affected : List Entity) (target : Entity) :
    (g.visits affected target).Nodup :=
  nodup_append_newcomers (nodup_append_newcomers (pairwise_beyond hg affected target).1 _) _

namespace Serves

variable {es : List Entity}
  (h : Serves g (joinLine (g.beyond affected target) (affected.flatMap g.consumersOf)) es)
include h

/-- All that follows from a change is served, and nothing else. -/
theorem mem_iff_follows (hg : g.Sound) (x : Entity) : x ∈ es ↔ g.Follows affected x := by
  constructor
  · intro hx
    obtain ⟨y, hy, hpath⟩ := h.reaches hg.toIndexed hx
    have hfollows : g.Follows affected y := by
      rcases mem_joinLine.1 hy with hy | hy
      · exact ((mem_beyond hg).1 hy).1
      · obtain ⟨e, he, hy⟩ := List.mem_flatMap.1 hy
        exact follows_of_mem_consumersOf hg.toIndexed (.inl he) hy
    obtain ⟨e, he, hey⟩ := hfollows
    exact ⟨e, he, hey.trans_left hpath⟩
  · rintro ⟨e, he, hpath⟩
    induction hpath with
    | single hfeeds =>
      refine h.isPrefix.subset (mem_joinLine.2 (.inr ?_))
      exact List.mem_flatMap.2 ⟨e, he, hg.toIndexed.mem_consumersOf.2 hfeeds⟩
    | tail _ hfeeds ih =>
      obtain ⟨before, after, heq⟩ := List.append_of_mem ih
      rw [heq]
      refine List.mem_append_right _ (List.mem_cons_of_mem _ ?_)
      exact h.mem_after heq (hg.toIndexed.mem_consumersOf.2 hfeeds)

/-- When an affected entity comes up that feeds one beyond, the latter is served before it and once
more after it. -/
theorem sublist_again (hg : g.Sound) {e c : Entity} (he : e ∈ target :: affected)
    (hfollows : g.Follows affected e) (hc : c ∉ target :: affected) (hfeeds : g.Feeds e c) :
    [c, e, c].Sublist es := by
  have hmem : c ∈ g.beyond affected target := by
    obtain ⟨a, ha, hpath⟩ := hfollows
    exact (mem_beyond hg).2 ⟨⟨a, ha, hpath.tail hfeeds⟩, hc⟩
  obtain ⟨after, heq⟩ := (prefix_joinLine _ _).trans h.isPrefix
  have hlater : e ∈ after := by
    have he' := (h.mem_iff_follows hg e).2 hfollows
    rw [← heq, List.mem_append] at he'
    exact he'.resolve_left fun hbefore => ((mem_beyond hg).1 hbefore).2 he
  obtain ⟨before, rest, rfl⟩ := List.append_of_mem hlater
  have hsplit : es = (g.beyond affected target ++ before) ++ e :: rest := by
    rw [← heq, List.append_assoc]
  have hagain : c ∈ rest := h.mem_after hsplit (hg.toIndexed.mem_consumersOf.2 hfeeds)
  have htail : [e, c].Sublist (before ++ e :: rest) :=
    ((List.singleton_sublist.2 hagain).cons_cons e).trans (List.sublist_append_right _ _)
  exact heq ▸ (List.singleton_sublist.2 hmem).append htail

omit h in
/-- Of a line that is in order, the newcomers are served after it. -/
theorem newcomers (hg : g.Sound) {xs : List Entity} (h : Serves g xs es) (hnodup : xs.Nodup)
    (hordered : g.InOrder xs) : ∃ es', es = xs ++ es' ∧ Serves g (g.newcomers xs xs) es' := by
  rw [← List.append_nil xs] at h
  exact h.append hg hnodup hordered

omit h in
/-- A line whose consumers all came before it ends there, if it is in order. -/
theorem eq_of_consumers (hg : g.Sound) {line xs : List Entity} (h : Serves g xs es)
    (hnodup : xs.Nodup) (hordered : g.InOrder (line ++ xs))
    (hconsumers : ∀ x ∈ xs, ∀ c ∈ g.consumersOf x, c ∈ line) : es = xs := by
  obtain ⟨-, hordered, hacross⟩ := List.pairwise_append.1 hordered
  obtain ⟨es', rfl, hrest⟩ := h.newcomers hg hnodup hordered
  have hnone : g.newcomers xs xs = [] := List.eq_nil_iff_forall_not_mem.2 fun c hc => by
    obtain ⟨⟨x, hx, hc⟩, -⟩ := mem_newcomers.1 hc
    exact hacross c (hconsumers x hx c hc) x hx (hg.toIndexed.mem_consumersOf.1 hc)
  rw [hnone] at hrest
  cases hrest
  exact List.append_nil xs

/-- What is served is in order exactly when the visits are, and then it is the visits. -/
theorem visits (hg : g.Sound) :
    (g.InOrder es ↔ g.InOrder (g.visits affected target)) ∧
      (g.InOrder es → es = g.visits affected target) := by
  obtain ⟨hnodup, hordered⟩ := pairwise_beyond hg affected target
  rw [joinLine_eq] at h
  obtain ⟨es', rfl, hrest⟩ := h.append hg hnodup hordered
  rw [← joinLine_append, ← List.filter_append, ← List.flatMap_append] at hrest
  change Serves g (g.returning affected target) es' at hrest
  have hclosed : ∀ x, x ∈ affected ∨ x ∈ g.beyond affected target → ∀ c ∈ g.consumersOf x,
      c ∈ g.beyond affected target ++ g.returning affected target :=
    fun x hx c hc => mem_up_of_mem_consumersOf hx hc
  have hlast := fun x => mem_affected_of_mem_newcomers hg (x := x)
    (Eq.refl (g.beyond affected target ++ g.returning affected target))
  have hnodup' : (g.returning affected target).Nodup := nodup_newcomers ..
  unfold Graph.visits
  generalize g.beyond affected target = line at *
  generalize g.returning affected target = up at *
  have hstart := hrest.isPrefix
  by_cases hfirst : g.InOrder (line ++ up)
  · obtain ⟨es'', rfl, hrest'⟩ := hrest.newcomers hg hnodup' (List.pairwise_append.1 hfirst).2.1
    rw [newcomers_append hg.toIndexed (fun x hx => hclosed x (.inr hx)) hfirst] at hrest'
    have hforward : g.InOrder (line ++ (up ++ es'')) →
        g.InOrder (line ++ up ++ g.newcomers (line ++ up) (line ++ up)) := by
      rw [← List.append_assoc]
      exact List.Pairwise.sublist ((List.Sublist.refl _).append hrest'.isPrefix.sublist)
    have hstop : g.InOrder (line ++ up ++ g.newcomers (line ++ up) (line ++ up)) →
        es'' = g.newcomers (line ++ up) (line ++ up) := fun hvisits =>
      hrest'.eq_of_consumers hg (nodup_newcomers ..) hvisits
        fun x hx c hc => hclosed x (.inl (hlast x hx)) c hc
    refine ⟨⟨hforward, fun hvisits => ?_⟩, fun hes => ?_⟩
    · rwa [hstop hvisits, ← List.append_assoc]
    · rw [hstop (hforward hes), ← List.append_assoc]
  · have hes : ¬ g.InOrder (line ++ es') := fun hes =>
      hfirst (hes.sublist ((List.Sublist.refl _).append hstart.sublist))
    exact ⟨iff_of_false hes fun hvisits => hfirst (hvisits.sublist (List.sublist_append_left _ _)),
      fun hes' => absurd hes' hes⟩

end Serves

end Parametric.Graph
