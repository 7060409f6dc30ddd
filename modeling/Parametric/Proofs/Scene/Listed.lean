import Parametric.Proofs.Scene.Relocation

/-!
# Lists of children

A table of objects keeps a list of children for every container. An insertion takes the object off
the list of the container that it leaves and puts it at the end of that of the container it comes to
(`ObjectTable.childrenOf_insert`). In a `Listed` table the lists say the same as the containers of
the objects: whatever inserts, removes or writes keeps it so.
-/

namespace Parametric.ObjectTable

variable {t t' : ObjectTable} {id x c : ObjectId} {o : Object}

/-! ## Exact lists -/

theorem childrenOf_attach_eq (t : ObjectTable) (container : Option ObjectId) (child c : ObjectId) :
    (t.attach container child).childrenOf c =
      if container = some c then t.childrenOf c ++ [child] else t.childrenOf c := by
  split
  next h =>
    rw [h, attach, childrenOf]
    dsimp only
    rw [Table.getElem?_insert, if_pos rfl]
    rfl
  next h => exact childrenOf_attach t h child

theorem childrenOf_detach_eq (t : ObjectTable) (container child c : ObjectId) :
    (t.detach container child).childrenOf c =
      if container = c then (t.childrenOf c).filter (· ≠ child) else t.childrenOf c := by
  split
  next h =>
    subst h
    unfold detach childrenOf
    cases hchildren : t.children[container]? with
    | none => simp [hchildren]
    | some ids =>
      dsimp only
      split
      next hempty =>
        rw [Table.getElem?_erase, if_pos rfl]
        exact (List.isEmpty_iff.1 hempty).symm
      next => rw [Table.getElem?_insert, if_pos rfl]; rfl
  next h => exact childrenOf_detach t h child

theorem containerOf?_insert (t : ObjectTable) (o : Object) (x : ObjectId) :
    (t.insert o).containerOf? x = if o.id = x then o.container else t.containerOf? x := by
  unfold containerOf?
  rw [get?_insert]
  split <;> rfl

/-- An inserted object leaves one list and comes to the end of another one, unless it stays in its
container. -/
theorem childrenOf_insert (t : ObjectTable) (o : Object) (c : ObjectId) :
    (t.insert o).childrenOf c =
      if t.containerOf? o.id = o.container then t.childrenOf c
      else if t.containerOf? o.id = some c then (t.childrenOf c).filter (· ≠ o.id)
      else if o.container = some c then t.childrenOf c ++ [o.id] else t.childrenOf c := by
  have hobjects : ∀ objects : Table ObjectId Object,
      ({ t with objects } : ObjectTable).childrenOf c = t.childrenOf c := fun _ => rfl
  unfold insert containerOf?
  cases hheld : t.get? o.id with
  | none =>
    rw [Option.bind_none, childrenOf_attach_eq, hobjects]
    cases o.container <;> simp
  | some old =>
    rw [Option.bind_some]
    dsimp only
    split
    · rfl
    next hne =>
      cases hold : old.container with
      | none =>
        rw [childrenOf_attach_eq, hobjects]
        simp
      | some leaving =>
        rw [hold] at hne
        dsimp only
        rw [childrenOf_attach_eq, childrenOf_detach_eq, hobjects]
        by_cases hc : leaving = c
        · subst hc
          rw [if_neg (Ne.symm hne), if_pos rfl, if_pos rfl]
        · simp [hc]

theorem childrenOf_remove {removed : Object} (h : t.remove id = (some removed, t')) (c : ObjectId) :
    t'.childrenOf c = if removed.container = some c then (t.childrenOf c).filter (· ≠ id)
      else t.childrenOf c := by
  unfold remove at h
  split at h
  · cases h
  · dsimp only at h
    split at h
    next hnone =>
      cases h
      rw [hnone]
      rfl
    next parent hparent =>
      cases h
      simp only [childrenOf_detach_eq, hparent, Option.some.injEq]
      rfl

theorem containerOf?_remove {removed : Object} (h : t.remove id = (some removed, t'))
    (x : ObjectId) : t'.containerOf? x = if id = x then none else t.containerOf? x := by
  unfold containerOf?
  rw [(get?_remove h x).2]
  split <;> rfl

/-- The children of a container stay when an object is removed that is none of them. -/
theorem childrenOf_remove_of_ne {removed : Object} (h : t.remove id = (some removed, t'))
    {c : ObjectId} (hc : t.containerOf? id ≠ some c) : t'.childrenOf c = t.childrenOf c := by
  have hplace : t.containerOf? id = removed.container := by
    rw [containerOf?, (get?_remove h id).1]
    rfl
  rw [childrenOf_remove h, if_neg (hplace ▸ hc)]

/-- The children of a container stay when a new object comes to another one. -/
theorem childrenOf_insert_of_ne {o : Object} (hnew : t.get? o.id = none) {c : ObjectId}
    (hc : o.container ≠ some c) : (t.insert o).childrenOf c = t.childrenOf c := by
  have hnowhere : t.containerOf? o.id = none := by
    rw [containerOf?, hnew]
    rfl
  rw [childrenOf_insert, hnowhere, if_neg (Option.some_ne_none c).symm, if_neg hc, ite_self]

/-! ## Lists and containers -/

/-- The children of a container are the objects that lie in it. -/
def Listed (t : ObjectTable) : Prop :=
  ∀ c x, x ∈ t.childrenOf c ↔ t.containerOf? x = some c

namespace Listed

theorem empty : Listed {} := by
  intro c x
  simp [childrenOf, containerOf?, get?]

theorem insert (h : t.Listed) (o : Object) : (t.insert o).Listed := by
  intro c x
  have hmem := h c x
  rw [childrenOf_insert, containerOf?_insert]
  by_cases hx : o.id = x
  · subst hx
    rw [if_pos rfl]
    split
    next hstays => rw [hmem, hstays]
    next hmoves =>
      split
      next hleaves => simpa using fun hcomes => hmoves (hleaves.trans hcomes.symm)
      next hout =>
        have hnot : o.id ∉ t.childrenOf c := fun hin => hout (hmem.1 hin)
        split <;> simp_all
  · rw [if_neg hx]
    have hne : x ≠ o.id := Ne.symm hx
    split
    · exact hmem
    · split
      · simp [hne, hmem]
      · split
        · simp [hne, hmem]
        · exact hmem

theorem remove (h : t.Listed) {removed : Object} (hremove : t.remove id = (some removed, t')) :
    t'.Listed := by
  intro c x
  have hmem := h c x
  have hthere := (get?_remove hremove x).1
  rw [childrenOf_remove hremove, containerOf?_remove hremove]
  by_cases hx : id = x
  · subst hx
    have hplace : t.containerOf? id = removed.container := by rw [containerOf?, hthere]; rfl
    rw [if_pos rfl]
    split
    · simp
    next hout => simpa [hmem, hplace] using hout
  · rw [if_neg hx]
    split
    · simp [hmem, Ne.symm hx]
    · exact hmem

theorem of_shape (h : t.Listed) (hshape : t'.shape = t.shape) : t'.Listed := by
  intro c x
  rw [childrenOf_congr hshape, containerOf?_congr hshape]
  exact h c x

theorem reparent? (h : t.Listed) {container : Option ObjectId}
    (hmove : t.reparent? id container = some t') : t'.Listed := by
  obtain ⟨o, -, rfl⟩ := Option.map_eq_some_iff.1 hmove
  exact h.insert _

end Listed

/-- Objects lie under their identifiers, and the lists of children say where they lie. -/
structure InOrder (t : ObjectTable) : Prop where
  keyed : t.Keyed
  listed : t.Listed

namespace InOrder

theorem empty : InOrder {} := ⟨.empty, .empty⟩

theorem insert (h : t.InOrder) (o : Object) : (t.insert o).InOrder :=
  ⟨h.keyed.insert o, h.listed.insert o⟩

theorem remove (h : t.InOrder) {removed : Object} (hremove : t.remove id = (some removed, t')) :
    t'.InOrder :=
  ⟨h.keyed.remove hremove, h.listed.remove hremove⟩

theorem of_shape (h : t.InOrder) (hshape : t'.shape = t.shape) : t'.InOrder :=
  ⟨h.keyed.of_shape hshape, h.listed.of_shape hshape⟩

end InOrder

end Parametric.ObjectTable
