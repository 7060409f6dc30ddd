import Parametric.Formula.Builtin
import Parametric.Proofs.Decimal.Whole
import Parametric.Proofs.Formula.Meaning
import Parametric.Proofs.Scene.Listed

/-!
# Children in the order of arrival

Whatever is inserted, removed, moved and written, the list of a container holds the objects that lie
in it, each once and in the order in which they last came to it (`children_by_arrival`): an edit
takes objects off the list, and what it adds comes to the end of it (`childrenOf_edit`). So the
questions about siblings count the children of a container and number them from zero.
-/

namespace Parametric

/-- An edit of a table of objects. -/
inductive ObjectTable.Edit
  /-- Insert an object, or replace the one with its identifier. -/
  | insert (o : Object)
  | remove (id : ObjectId)
  | reparent (id : ObjectId) (container : Option ObjectId)
  | set (id : ObjectId) (path : Path) (v : Value)

namespace ObjectTable

/-- The table after an edit. One of an object that is not there changes nothing. -/
def edit (t : ObjectTable) : Edit → ObjectTable
  | .insert o => t.insert o
  | .remove id => (t.remove id).2
  | .reparent id container => (t.reparent? id container).getD t
  | .set id path v => (t.set? id path v).getD t

/-- The table that edits make from nothing. -/
def ofEdits (edits : List Edit) : ObjectTable := edits.foldl edit {}

/-- An object comes to a container with an edit: it does not lie there before, and it does after. -/
def Arrives (edits : List Edit) (c x : ObjectId) (i : Nat) : Prop :=
  i < edits.length ∧ (ofEdits (edits.take i)).containerOf? x ≠ some c ∧
    (ofEdits (edits.take (i + 1))).containerOf? x = some c

/-- An object comes to a container for the last time. -/
def LastArrives (edits : List Edit) (c x : ObjectId) (i : Nat) : Prop :=
  Arrives edits c x i ∧ ∀ j, Arrives edits c x j → j ≤ i

variable {t : ObjectTable} {edits : List Edit} {c x : ObjectId} {i : Nat}

/-! ## One edit -/

theorem shape_edit_set (t : ObjectTable) (id : ObjectId) (path : Path) (v : Value) :
    (t.edit (.set id path v)).shape = t.shape := by
  rw [edit]
  cases hset : t.set? id path v with
  | none => rfl
  | some t' => exact shape_set? hset

/-- An edit inserts an object, removes one, or leaves what lies where. -/
theorem edit_cases (t : ObjectTable) (e : Edit) :
    (∃ o, t.edit e = t.insert o) ∨ (∃ id o, t.remove id = (some o, t.edit e)) ∨
      (t.edit e).shape = t.shape := by
  cases e with
  | insert o => exact .inl ⟨o, rfl⟩
  | remove id =>
    have hremoved : (t.remove id).1 = t.get? id := by
      unfold remove
      split
      · exact Eq.symm ‹_›
      · dsimp only
        split <;> exact Eq.symm ‹_›
    cases hget : t.get? id with
    | none =>
      refine .inr (.inr ?_)
      rw [edit, remove, hget]
    | some o => exact .inr (.inl ⟨id, o, Prod.ext (hremoved.trans hget) rfl⟩)
  | reparent id container =>
    cases hmove : t.reparent? id container with
    | none =>
      refine .inr (.inr ?_)
      rw [edit, hmove, Option.getD_none]
    | some t' =>
      obtain ⟨o, -, rfl⟩ := Option.map_eq_some_iff.1 hmove
      refine .inl ⟨{ o with container }, ?_⟩
      rw [edit, hmove, Option.getD_some]
  | set id path v => exact .inr (.inr (shape_edit_set t id path v))

theorem InOrder.edit (h : t.InOrder) (e : Edit) : (t.edit e).InOrder := by
  rcases edit_cases t e with ⟨o, ho⟩ | ⟨id, o, ho⟩ | hshape
  · exact ho ▸ h.insert o
  · exact h.remove ho
  · exact h.of_shape hshape

/-- An edit takes objects off the list of a container and adds one at its end, or neither; what it
adds did not lie in the container before. -/
theorem childrenOf_edit (t : ObjectTable) (e : Edit) (c : ObjectId) :
    ∃ kept added, (t.edit e).childrenOf c = kept ++ added ∧ kept.Sublist (t.childrenOf c) ∧
      added.length ≤ 1 ∧ ∀ x ∈ added, t.containerOf? x ≠ some c := by
  have hkept : ∀ kept : List ObjectId, kept.Sublist (t.childrenOf c) →
      (t.edit e).childrenOf c = kept → ∃ kept added, (t.edit e).childrenOf c = kept ++ added ∧
        kept.Sublist (t.childrenOf c) ∧ added.length ≤ 1 ∧
          ∀ x ∈ added, t.containerOf? x ≠ some c := fun kept hsub heq =>
    ⟨kept, [], by rw [heq, List.append_nil], hsub, Nat.zero_le _, fun x hx => absurd hx (by simp)⟩
  rcases edit_cases t e with ⟨o, ho⟩ | ⟨id, o, ho⟩ | hshape
  · have hlist := childrenOf_insert t o c
    rw [← ho] at hlist
    split at hlist
    · exact hkept _ (List.Sublist.refl _) hlist
    · split at hlist
      · exact hkept _ List.filter_sublist hlist
      next hout =>
        split at hlist
        · refine ⟨_, [o.id], hlist, List.Sublist.refl _, le_rfl, fun x hx => ?_⟩
          rw [List.mem_singleton.1 hx]
          exact hout
        · exact hkept _ (List.Sublist.refl _) hlist
  · have hlist := childrenOf_remove ho c
    split at hlist
    · exact hkept _ List.filter_sublist hlist
    · exact hkept _ (List.Sublist.refl _) hlist
  · exact hkept _ (List.Sublist.refl _) (childrenOf_congr hshape c)

/-! ## All edits -/

theorem ofEdits_concat (edits : List Edit) (e : Edit) :
    ofEdits (edits ++ [e]) = (ofEdits edits).edit e := by
  rw [ofEdits, List.foldl_append]
  rfl

theorem inOrder_ofEdits (edits : List Edit) : (ofEdits edits).InOrder := by
  induction edits using List.reverseRecOn with
  | nil => exact .empty
  | append_singleton edits e ih =>
    rw [ofEdits_concat]
    exact ih.edit e

/-- With one more edit the arrivals are those before, and one with that edit. -/
theorem arrives_concat (edits : List Edit) (e : Edit) (c x : ObjectId) (i : Nat) :
    Arrives (edits ++ [e]) c x i ↔ Arrives edits c x i ∨ i = edits.length ∧
      (ofEdits edits).containerOf? x ≠ some c ∧
        (ofEdits (edits ++ [e])).containerOf? x = some c := by
  unfold Arrives
  rw [List.length_append, List.length_singleton]
  rcases Nat.lt_trichotomy i edits.length with hlt | rfl | hgt
  · have hne : i ≠ edits.length := by omega
    have hle : i < edits.length + 1 := by omega
    rw [List.take_append_of_le_length hlt.le, List.take_append_of_le_length hlt]
    simp only [hlt, hle, hne, true_and, false_and, or_false]
  · have hall : (edits ++ [e]).take (edits.length + 1) = edits ++ [e] :=
      List.take_of_length_le (by simp)
    rw [List.take_left, hall]
    simp only [Nat.lt_succ_self, lt_irrefl, true_and, false_and, false_or]
  · have hne : i ≠ edits.length := by omega
    have hle : ¬ i < edits.length + 1 := by omega
    have hnot : ¬ i < edits.length := by omega
    simp only [hnot, hle, hne, false_and, or_false]

/-- What lies in a container arrived there before the next edit. -/
theorem lastArrives_concat_of_child (hchild : (ofEdits edits).containerOf? x = some c) (e : Edit) :
    LastArrives (edits ++ [e]) c x i ↔ LastArrives edits c x i := by
  have hsame : ∀ j, Arrives (edits ++ [e]) c x j ↔ Arrives edits c x j := by
    intro j
    rw [arrives_concat]
    exact or_iff_left fun hnew => hnew.2.1 hchild
  simp only [LastArrives, hsame]

/-- What comes to a container with an edit has not arrived there later. -/
theorem lastArrives_concat_of_new {e : Edit} (hbefore : (ofEdits edits).containerOf? x ≠ some c)
    (hafter : (ofEdits (edits ++ [e])).containerOf? x = some c) :
    LastArrives (edits ++ [e]) c x i ↔ i = edits.length := by
  have harrives : Arrives (edits ++ [e]) c x edits.length :=
    (arrives_concat ..).2 (.inr ⟨rfl, hbefore, hafter⟩)
  have hlast : ∀ j, Arrives (edits ++ [e]) c x j → j ≤ edits.length := by
    intro j hj
    have hlt := hj.1
    rw [List.length_append, List.length_singleton] at hlt
    omega
  refine ⟨fun h => Nat.le_antisymm (hlast i h.1) (h.2 _ harrives), ?_⟩
  rintro rfl
  exact ⟨harrives, hlast⟩

theorem exists_lastArrives (edits : List Edit) (c : ObjectId) :
    ∀ x, (ofEdits edits).containerOf? x = some c → ∃ i, LastArrives edits c x i := by
  induction edits using List.reverseRecOn with
  | nil =>
    intro x hx
    simp [ofEdits, containerOf?, get?] at hx
  | append_singleton edits e ih =>
    intro x hx
    by_cases hbefore : (ofEdits edits).containerOf? x = some c
    · obtain ⟨i, hi⟩ := ih x hbefore
      exact ⟨i, (lastArrives_concat_of_child hbefore e).2 hi⟩
    · exact ⟨edits.length, (lastArrives_concat_of_new hbefore hx).2 rfl⟩

/-- The children of a container stand in the order in which they last came to it. -/
theorem pairwise_lastArrives (edits : List Edit) (c : ObjectId) :
    ((ofEdits edits).childrenOf c).Pairwise fun x y =>
      ∀ i j, LastArrives edits c x i → LastArrives edits c y j → i < j := by
  induction edits using List.reverseRecOn with
  | nil =>
    have hnone : (ofEdits []).childrenOf c = [] := by simp [ofEdits, childrenOf]
    rw [hnone]
    exact .nil
  | append_singleton edits e ih =>
    have hlisted := (inOrder_ofEdits edits).listed c
    have hlisted' := (inOrder_ofEdits (edits ++ [e])).listed c
    rw [ofEdits_concat] at hlisted' ⊢
    obtain ⟨kept, added, hlist, hsub, hone, hnew⟩ := childrenOf_edit (ofEdits edits) e c
    rw [hlist] at hlisted' ⊢
    have hold : ∀ x ∈ kept, ∀ i, LastArrives (edits ++ [e]) c x i ↔ LastArrives edits c x i :=
      fun x hx i => lastArrives_concat_of_child ((hlisted x).1 (hsub.subset hx)) e
    refine List.pairwise_append.2 ⟨?_, ?_, fun x hx y hy i j hi hj => ?_⟩
    · refine (ih.sublist hsub).imp_of_mem fun {x y} hx hy hxy i j hi hj => ?_
      exact hxy i j ((hold x hx i).1 hi) ((hold y hy j).1 hj)
    · cases added with
      | nil => exact .nil
      | cons x rest =>
        rw [List.length_eq_zero_iff.1 (Nat.le_zero.1 (Nat.le_of_succ_le_succ hone))]
        exact List.pairwise_singleton _ _
    · have hafter : (ofEdits (edits ++ [e])).containerOf? y = some c := by
        rw [ofEdits_concat]
        exact (hlisted' y).1 (List.mem_append_right _ hy)
      rw [(lastArrives_concat_of_new (hnew y hy) hafter).1 hj]
      exact ((hold x hx i).1 hi).1.1

end ObjectTable

/-! ## Questions about siblings -/

namespace Evaluator

variable {σ : Type} (ev : Evaluator σ)

/-- A pass can ask about the siblings of the objects of a table. Its limit is a word of 64 bits, and
the cache of answers is right. -/
structure Asks (t : ObjectTable) (answers : Option (Cache QueryKey Value)) : Prop where
  objects : ev.stores.objects = t
  count : ev.functions["siblingCount"]? = some (Builtin.ofSiblings "siblingCount" .siblingCount)
  index : ev.functions["siblingIndex"]? = some (Builtin.ofSiblings "siblingIndex" .siblingIndex)
  depth : 1 ≤ ev.maxDepth
  time : 0 < ev.budget
  limit : ev.maxVisited < 2 ^ 64
  answers : ∀ cache, answers = some cache → cache.Holds ev.Answers

/-- The same pass for an object of a table. -/
def viewing (t : ObjectTable) (x : ObjectId) : Evaluator σ := { ev with view := .ofObject t x }

/-- The result of a function without arguments that is called for an object. -/
def ask (t : ObjectTable) (answers : Option (Cache QueryKey Value)) (host : σ) (name : String)
    (x : ObjectId) : Except EvalError Value :=
  ((ev.viewing t x).evaluate (.call name []) answers host).1

variable {ev} {t : ObjectTable} {answers : Option (Cache QueryKey Value)}

/-- A function that asks a question returns the answer. -/
theorem evaluate_question (ev : Evaluator σ) (hdepth : 1 ≤ ev.maxDepth) (htime : 0 < ev.budget)
    (hanswers : ∀ cache, answers = some cache → cache.Holds ev.Answers) {name : String}
    {query : Query}
    (hf : ev.functions[name]? = some (Builtin.ofSiblings name query)) (host : σ) :
    (ev.evaluate (.call name []) answers host).1 =
      returned name ((query.key (ev.call 0)).bind (Query.answer (ev.call 0))) := by
  have happly : Means ev (fun _ => True) (ev.apply name [])
      (returned name ((query.key (ev.call 0)).bind (Query.answer (ev.call 0)))) := by
    unfold apply
    rw [hf]
    exact (answer_means ev query fun _ _ => trivial).bind
      (f := fun r => Except.ok () >>= fun _ => returned name r) fun r _ =>
        (checkTime_means htime).bind fun _ _ => .lift _
  have hargs : Means ev (fun _ => True) (ev.evalAll [] 2) (.ok []) := by
    unfold evalAll
    exact .pure _
  have hmeans := entered_means htime 1 (hargs.bind (k := ev.apply name)
    (f := fun _ => returned name ((query.key (ev.call 0)).bind (Query.answer (ev.call 0))))
    fun args hnil => by cases hnil; exact happly)
  rw [if_neg (Nat.not_lt.2 hdepth)] at hmeans
  obtain ⟨p, hrun, -⟩ := hmeans ⟨[], 0, answers, host⟩
    ⟨fun _ _ h => by simp at h, rfl, fun cache hc key v hv _ => hanswers cache hc key v hv⟩
  unfold evaluate
  rw [eval, hf]
  exact congrArg Prod.fst hrun

theorem returned_ofNat (name : String) {n : Nat} (h : n < 2 ^ 64) :
    returned name (.ok (.ofNat n)) = .ok (.ofNat n) :=
  if_pos (Decimal.isFinite_ofNat h)

variable {c x : ObjectId} {o : Object}

theorem Asks.ask_eq (h : ev.Asks t answers) {name : String} {query : Query}
    (hf : ev.functions[name]? = some (Builtin.ofSiblings name query)) (host : σ) (x : ObjectId) :
    ev.ask t answers host name x = returned name
      ((query.key ((ev.viewing t x).call 0)).bind (Query.answer ((ev.viewing t x).call 0))) := by
  have hanswers : ∀ cache, answers = some cache → cache.Holds (ev.viewing t x).Answers := by
    intro cache hcache key e he object
    rw [← h.answers cache hcache key e he object]
    exact Query.answer_congr rfl rfl rfl
  exact evaluate_question (ev.viewing t x) h.depth h.time hanswers hf host

/-- What is asked for an object that lies in a container is asked about that container. -/
theorem Asks.containerObject (h : ev.Asks t answers) (hc : t.get? c = some o)
    (hx : t.containerOf? x = some c) : ((ev.viewing t x).call 0).containerObject = .ok o := by
  unfold Call.containerObject call viewing
  simp only [Viewpoint.container_ofObject, hx, h.objects, hc]

theorem Asks.children (h : ev.Asks t answers) (hlimit : (t.childrenOf c).length ≤ ev.maxVisited)
    (x : ObjectId) : ((ev.viewing t x).call 0).children c = .ok (t.childrenOf c) := by
  unfold Call.children call viewing
  simp only [h.objects]
  exact if_neg (Nat.not_lt.2 hlimit)

section

variable (h : ev.Asks t answers) (hkeyed : t.Keyed) (hc : t.get? c = some o)
  (hx : t.containerOf? x = some c) (hlimit : (t.childrenOf c).length ≤ ev.maxVisited) (host : σ)
include h hkeyed hc hx hlimit

theorem ask_siblingCount :
    ev.ask t answers host "siblingCount" x = .ok (.ofNat (t.childrenOf c).length) := by
  have hkey : Query.siblingCount.key ((ev.viewing t x).call 0) = .ok ⟨c, .childCount, none⟩ := by
    rw [Query.key, Run.bind_of_ok (h.containerObject hc hx), hkeyed c o hc]
    rfl
  have hanswer : Query.answer ((ev.viewing t x).call 0) ⟨c, .childCount, none⟩ =
      .ok (.ofNat (t.childrenOf c).length) := Run.bind_of_ok (h.children hlimit x)
  rw [h.ask_eq h.count, hkey]
  exact (congrArg (returned _) hanswer).trans (returned_ofNat _ (hlimit.trans_lt h.limit))

theorem ask_siblingIndex {i : Nat} (hi : (t.childrenOf c).idxOf? x = some i) :
    ev.ask t answers host "siblingIndex" x = .ok (.ofNat i) := by
  have hobject : ((ev.viewing t x).call 0).object = x := Viewpoint.object_ofObject t x
  have hkey : Query.siblingIndex.key ((ev.viewing t x).call 0) =
      .ok ⟨c, .siblingIndex, some x⟩ := by
    rw [Query.key, Run.bind_of_ok (h.containerObject hc hx), hkeyed c o hc, hobject]
    rfl
  have hanswer : Query.answer ((ev.viewing t x).call 0) ⟨c, .siblingIndex, some x⟩ =
      .ok (.ofNat i) := by
    rw [Query.answer, Run.bind_of_ok (h.children hlimit x)]
    simp only [Option.getD_some, hi]
    rfl
  obtain ⟨hlt, -⟩ := List.idxOf?_eq_some_iff.1 hi
  rw [h.ask_eq h.index, hkey]
  exact (congrArg (returned _) hanswer).trans
    (returned_ofNat _ ((hlt.le.trans hlimit).trans_lt h.limit))

end

end Evaluator

namespace ObjectTable

/-- After any edits the list of a container holds the objects that lie in it, whether or not it is
there itself: each once, in the order in which they last came to it, and a write changes nothing
about that. Asked for each of them in turn, `siblingCount` gives the length of the list and
`siblingIndex` the naturals below that length, which are different numbers as far as doubles tell
naturals apart. -/
theorem children_by_arrival (edits : List Edit) (c : ObjectId) :
    let t := ofEdits edits
    let children := t.childrenOf c
    (∀ x, x ∈ children ↔ ∃ o, t.get? x = some o ∧ o.container = some c) ∧ children.Nodup ∧
      (∀ x ∈ children, ∃ i, LastArrives edits c x i) ∧
      (children.Pairwise fun x y =>
        ∀ i j, LastArrives edits c x i → LastArrives edits c y j → i < j) ∧
      (∀ id path v, (t.edit (.set id path v)).childrenOf c = children) ∧
      ∀ {σ : Type} (ev : Evaluator σ) (answers : Option (Cache QueryKey Value)) (host : σ),
        ev.Asks t answers → (t.get? c).isSome → children.length ≤ ev.maxVisited →
          (∀ x ∈ children, ev.ask t answers host "siblingCount" x = .ok (.ofNat children.length)) ∧
          children.map (ev.ask t answers host "siblingIndex") =
            (List.range children.length).map (fun i => .ok (.ofNat i)) ∧
          (children.length ≤ 2 ^ 53 →
            (children.map (ev.ask t answers host "siblingIndex")).Nodup) := by
  intro t children
  obtain ⟨hkeyed, hlisted⟩ := inOrder_ofEdits edits
  have hlast : ∀ x ∈ children, ∃ i, LastArrives edits c x i := fun x hx =>
    exists_lastArrives edits c x ((hlisted c x).1 hx)
  have hordered := pairwise_lastArrives edits c
  have hnodup : children.Nodup := by
    refine hordered.imp_of_mem fun {x y} hx _ hxy => ?_
    rintro rfl
    obtain ⟨i, hi⟩ := hlast x hx
    exact Nat.lt_irrefl i (hxy i i hi hi)
  refine ⟨fun x => (hlisted c x).trans Option.bind_eq_some_iff, hnodup, hlast, hordered,
    fun id path v => childrenOf_congr (shape_edit_set t id path v) c,
    fun ev answers host h hc hlimit => ?_⟩
  · obtain ⟨o, ho⟩ := Option.isSome_iff_exists.1 hc
    have hindex : children.map (ev.ask t answers host "siblingIndex") =
        (List.range children.length).map (fun i => .ok (.ofNat i)) := by
      refine List.ext_getElem (by simp) fun i hi _ => ?_
      rw [List.length_map] at hi
      have hplace : children.idxOf? children[i] = some i :=
        List.idxOf?_eq_some_iff.2 ⟨hi, rfl, fun j hj heq =>
          hj.ne (hnodup.getElem_inj_iff.1 heq)⟩
      rw [List.getElem_map, List.getElem_map, List.getElem_range]
      exact Evaluator.ask_siblingIndex h hkeyed ho ((hlisted c _).1 (List.getElem_mem hi)) hlimit
        host hplace
    refine ⟨fun x hx => Evaluator.ask_siblingCount h hkeyed ho ((hlisted c x).1 hx) hlimit host,
      hindex, fun hexact => ?_⟩
    rw [hindex]
    refine List.nodup_range.map_on fun i hi j hj heq => ?_
    injection heq with heq
    injection heq with heq
    injection heq with heq
    rw [List.mem_range] at hi hj
    exact Decimal.ofNat_injOn (hi.trans_le hexact) (hj.trans_le hexact) heq

/-- One child leaves and comes back, another one is replaced in place, and a third one goes. -/
theorem siblings_after_return :
    let object (id : ObjectId) (container : Option ObjectId) : Object :=
      ⟨id, id, container, none, []⟩
    let edits : List Edit := [.insert (object "a" (some "c")), .insert (object "c" none),
      .insert (object "b" (some "c")), .insert (object "d" (some "c")), .reparent "a" none,
      .reparent "a" (some "c"), .remove "d", .insert (object "b" (some "c")),
      .set "a" ["width"] (.ofNat 3)]
    let t := ofEdits edits
    let ev : Evaluator Unit := ⟨.builtin, 8, 1000, 100, ⟨t, ∅⟩, ⟨"c", none, none⟩, 0⟩
    ev.Asks t none ∧ (t.get? "c").isSome ∧ (t.childrenOf "c").length ≤ ev.maxVisited ∧
      t.childrenOf "c" = ["b", "a"] ∧ ev.ask t none () "siblingCount" "a" = .ok (.ofNat 2) ∧
      ev.ask t none () "siblingIndex" "b" = .ok (.ofNat 0) ∧
      ev.ask t none () "siblingIndex" "a" = .ok (.ofNat 1) := by
  intro object edits t ev
  have hchildren : t.childrenOf "c" = ["b", "a"] := by decide
  have hasks : ev.Asks t none :=
    ⟨rfl, rfl, rfl, by decide, by decide, by decide, fun _ h => nomatch h⟩
  have hthere : (t.get? "c").isSome := by decide
  have hlimit : (t.childrenOf "c").length ≤ ev.maxVisited := by
    rw [hchildren]
    decide
  obtain ⟨-, -, -, -, -, hsiblings⟩ := children_by_arrival edits "c"
  obtain ⟨hcount, hindex, -⟩ := hsiblings ev none () hasks hthere hlimit
  rw [show (ofEdits edits).childrenOf "c" = ["b", "a"] from hchildren] at hcount hindex
  obtain ⟨hb, ha⟩ : _ ∧ _ := by simpa [List.range_succ] using hindex
  exact ⟨hasks, hthere, hlimit, hchildren, hcount "a" (by simp), hb, ha⟩

end ObjectTable

end Parametric
