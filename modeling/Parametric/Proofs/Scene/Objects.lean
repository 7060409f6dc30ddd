import Parametric.Proofs.Scene.Shape

/-!
# Objects that come and go

Inserting an object or removing one leaves all other objects as they are, and the children of all
containers but those that the object lies or lay in (`ObjectTable.SameBut`). What a reference stands
for stays the same unless it stood for the object or is the identifier or the name that the object
has now (`Stores.identify?_insert`, `Stores.identify?_remove`).
-/

namespace Parametric

namespace Table

variable {κ ν : Type} [Ord κ] [Std.TransOrd κ]

/-- The first entry that satisfies a predicate, among those that satisfy it. -/
theorem find?_toList (t : Table κ ν) (p : κ → ν → Bool) :
    t.toList.find? (fun e => p e.1 e.2) = (t.filter p).toList.head? := by
  rw [Std.ExtTreeMap.toList_filter, List.head?_filter]

end Table

namespace ObjectTable

variable {t t' : ObjectTable} {id : ObjectId} {changed : ObjectId → Prop} {o : Object}

/-- Every object is found under its own identifier. -/
def Keyed (t : ObjectTable) : Prop := ∀ id o, t.get? id = some o → o.id = id

/-- Two tables differ at most in one object and in the children of the containers that changed. -/
structure SameBut (id : ObjectId) (changed : ObjectId → Prop) (t t' : ObjectTable) : Prop where
  get? : ∀ x, x ≠ id → t'.get? x = t.get? x
  childrenOf : ∀ c, ¬ changed c → t'.childrenOf c = t.childrenOf c

/-! ## Children -/

theorem objects_attach (t : ObjectTable) (c : Option ObjectId) (child : ObjectId) :
    (t.attach c child).objects = t.objects := by
  cases c <;> rfl

theorem objects_detach (t : ObjectTable) (c child : ObjectId) :
    (t.detach c child).objects = t.objects := by
  unfold detach
  split <;> rfl

theorem childrenOf_attach (t : ObjectTable) {c : Option ObjectId} {x : ObjectId} (h : c ≠ some x)
    (child : ObjectId) : (t.attach c child).childrenOf x = t.childrenOf x := by
  cases c with
  | none => rfl
  | some c =>
    have hne : c ≠ x := fun heq => h (congrArg some heq)
    unfold attach ObjectTable.childrenOf
    dsimp only
    rw [Table.getElem?_insert, if_neg hne]

theorem childrenOf_detach (t : ObjectTable) {c x : ObjectId} (h : c ≠ x) (child : ObjectId) :
    (t.detach c child).childrenOf x = t.childrenOf x := by
  unfold detach
  split
  · rfl
  · unfold ObjectTable.childrenOf
    dsimp only
    split
    · rw [Table.getElem?_erase, if_neg h]
    · rw [Table.getElem?_insert, if_neg h]

/-! ## Insertion -/

theorem objects_insert (t : ObjectTable) (o : Object) :
    (t.insert o).objects = t.objects.insert o.id o := by
  unfold insert
  dsimp only
  split
  · exact objects_attach _ _ _
  · split
    · rfl
    · split
      · exact objects_attach _ _ _
      · rw [objects_attach, objects_detach]

theorem get?_insert (t : ObjectTable) (o : Object) (x : ObjectId) :
    (t.insert o).get? x = if o.id = x then some o else t.get? x := by
  rw [ObjectTable.get?, objects_insert, Table.getElem?_insert]
  rfl

theorem Keyed.empty : ObjectTable.Keyed {} := fun id o h => by
  simp [ObjectTable.get?] at h

theorem Keyed.insert (h : t.Keyed) (o : Object) : (t.insert o).Keyed := by
  intro x p hp
  rw [get?_insert] at hp
  split at hp
  next heq => exact Option.some.inj hp ▸ heq
  next => exact h x p hp

theorem Keyed.of_shape (h : t.Keyed) (hshape : t'.shape = t.shape) : t'.Keyed := by
  intro x p hp
  rcases get?_congr hshape x with ⟨hnone, -⟩ | ⟨o, o', ho, ho', hbare⟩
  · rw [hp] at hnone
    cases hnone
  · obtain rfl := Option.some.inj (hp.symm.trans ho)
    injection hbare with hid
    exact hid.trans (h x o' ho')

/-- An object that is inserted leaves the others as they are, and the children of all containers but
the one that it lay in and the one that it lies in now. -/
theorem sameBut_insert (t : ObjectTable) (o : Object) :
    SameBut o.id (fun c => t.containerOf? o.id = some c ∨ o.container = some c) t (t.insert o) where
  get? x hx := by rw [get?_insert, if_neg (Ne.symm hx)]
  childrenOf c hc := by
    obtain ⟨hleft, hentered⟩ := not_or.1 hc
    unfold containerOf? at hleft
    unfold insert
    cases hold : t.get? o.id with
    | none => exact childrenOf_attach _ hentered _
    | some old =>
      rw [hold] at hleft
      dsimp only
      split
      · rfl
      · cases hplace : old.container with
        | none => exact childrenOf_attach _ hentered _
        | some place =>
          have hne : place ≠ c := fun heq => hleft (heq ▸ hplace)
          exact (childrenOf_attach _ hentered _).trans (childrenOf_detach _ hne _)

theorem SameBut.mono {changed' : ObjectId → Prop} (h : SameBut id changed t t')
    (hchanged : ∀ c, changed c → changed' c) : SameBut id changed' t t' :=
  ⟨h.get?, fun c hc => h.childrenOf c fun hc' => hc (hchanged c hc')⟩

/-- A new object leaves the children of all containers but its own. -/
theorem sameBut_insert_new (hnew : t.get? o.id = none) :
    SameBut o.id (o.container = some ·) t (t.insert o) := by
  refine (sameBut_insert t o).mono fun c hc => hc.resolve_left ?_
  rw [containerOf?, hnew]
  exact (Option.some_ne_none c).symm

/-! ## Names -/

theorem findByName?_eq (t : ObjectTable) (name : String) :
    t.findByName? name = (t.objects.filter fun _ o => o.name = name).toList.head?.map (·.1) := by
  rw [← Table.find?_toList]
  rfl

/-- What is found by name is there, with the name. -/
theorem get?_of_findByName? {name : String} (h : t.findByName? name = some id) :
    ∃ o, t.get? id = some o ∧ o.name = name := by
  unfold findByName? at h
  obtain ⟨⟨k, o⟩, hfind, rfl⟩ := Option.map_eq_some_iff.1 h
  refine ⟨o, ?_, by simpa using List.find?_some hfind⟩
  exact Std.ExtTreeMap.mem_toList_iff_getElem?_eq_some.1 (List.mem_of_find?_eq_some hfind)

/-- An object that was not found by a name, and has another name now or is gone, changes nothing of
what is found by it. -/
theorem findByName?_of_ne (hget : ∀ x, x ≠ id → t'.get? x = t.get? x) {name : String}
    (hother : ∀ o, t'.get? id = some o → o.name ≠ name) (hname : t.findByName? name ≠ some id) :
    t'.findByName? name = t.findByName? name := by
  have hfilter : (t'.objects.filter fun _ o => o.name = name) =
      (t.objects.filter fun _ o => o.name = name).filter fun x _ => decide (id ≠ x) := by
    ext1 x
    simp only [Std.ExtTreeMap.getElem?_filter']
    by_cases hx : id = x
    · subst hx
      have hnone : (t'.objects[id]?).filter (fun o => decide (o.name = name)) = none := by
        rw [Option.filter_eq_none_iff]
        exact fun o ho => by simpa using hother o ho
      rw [hnone]
      simp
    · have hsame : t'.objects[x]? = t.objects[x]? := hget x (Ne.symm hx)
      rw [hsame]
      cases t.objects[x]? <;> simp [hx]
  rw [findByName?_eq] at hname
  rw [findByName?_eq, findByName?_eq, hfilter, Std.ExtTreeMap.toList_filter]
  generalize (t.objects.filter fun _ o => o.name = name).toList = found at hname
  cases found with
  | nil => rfl
  | cons e found =>
    have hne : id ≠ e.1 := fun heq => hname (by rw [heq]; rfl)
    simp [hne]

/-- An object of another name that was not found by it is not found now. -/
theorem findByName?_insert {name : String} (hname : o.name ≠ name)
    (hother : t.findByName? name ≠ some o.id) :
    (t.insert o).findByName? name = t.findByName? name := by
  refine findByName?_of_ne (sameBut_insert t o).get? (fun p hp => ?_) hother
  rw [get?_insert, if_pos rfl] at hp
  exact Option.some.inj hp ▸ hname

/-- By each name a new object is found, or what was found before. -/
theorem findByName?_insert_new (hnew : t.get? o.id = none) (name : String) :
    (t.insert o).findByName? name = some o.id ∨
      (t.insert o).findByName? name = t.findByName? name := by
  refine or_iff_not_imp_left.2 fun hname => (findByName?_of_ne (fun x hx => ?_) (fun p hp => ?_)
    hname).symm
  · rw [(sameBut_insert t o).get? x hx]
  · rw [hnew] at hp
    cases hp

/-! ## Removal -/

theorem get?_remove {removed : Object} (h : t.remove id = (some removed, t')) (x : ObjectId) :
    t.get? id = some removed ∧ t'.get? x = if id = x then none else t.get? x := by
  unfold remove at h
  split at h
  · cases h
  next o ho =>
    dsimp only at h
    split at h <;> cases h <;> refine ⟨ho, ?_⟩
    · rw [ObjectTable.get?, Table.getElem?_erase]
      rfl
    · rw [ObjectTable.get?, objects_detach, Table.getElem?_erase]
      rfl

/-- Removing an object leaves the others as they are, and the children of all containers but its
own. -/
theorem sameBut_remove {removed : Object} (h : t.remove id = (some removed, t')) :
    SameBut id (removed.container = some ·) t t' where
  get? x hx := by rw [(get?_remove h x).2, if_neg (Ne.symm hx)]
  childrenOf c hc := by
    unfold remove at h
    split at h
    · cases h
    · dsimp only at h
      split at h
      · cases h
        rfl
      next parent hparent =>
        cases h
        have hne : parent ≠ c := by
          rintro rfl
          exact hc hparent
        exact childrenOf_detach _ hne _

theorem Keyed.remove {removed : Object} (hkeyed : t.Keyed)
    (h : t.remove id = (some removed, t')) : t'.Keyed := by
  intro x p hp
  rw [(get?_remove h x).2] at hp
  split at hp
  · cases hp
  · exact hkeyed x p hp

/-- Unless it was found by a name, a removed object changes nothing of what is found by it. -/
theorem findByName?_remove {removed : Object} (h : t.remove id = (some removed, t'))
    {name : String} (hname : t.findByName? name ≠ some id) :
    t'.findByName? name = t.findByName? name := by
  refine findByName?_of_ne (sameBut_remove h).get? (fun o ho => ?_) hname
  rw [(get?_remove h id).2, if_pos rfl] at ho
  cases ho

end ObjectTable

/-! ## References -/

namespace Stores

variable {s s' : Stores} {view : Viewpoint} {reference : String} {id : ObjectId} {o : Object}

/-- A reference that is neither the identifier nor the name of an object that is inserted, and did not
stand for it, stands for what it stood for before. -/
theorem identify?_insert (hinsert : s'.objects = s.objects.insert o) (hid : reference ≠ o.id)
    (hname : o.name ≠ reference) (hother : s.identify? view reference ≠ some o.id) :
    s'.identify? view reference = s.identify? view reference := by
  unfold identify? at hother ⊢
  rw [hinsert, ObjectTable.get?_insert, if_neg (Ne.symm hid)]
  by_cases hself : reference = Viewpoint.selfName
  · rw [if_pos hself, if_pos hself]
  · by_cases hparent : reference = Viewpoint.parentName
    · rw [if_neg hself, if_neg hself, if_pos hparent, if_pos hparent]
    · rw [if_neg hself, if_neg hparent] at hother ⊢
      rw [if_neg hself, if_neg hparent]
      by_cases hfound : (s.objects.get? reference).isSome
      · rw [if_pos hfound, if_pos hfound]
      · rw [if_neg hfound] at hother ⊢
        rw [if_neg hfound, ObjectTable.findByName?_insert hname hother]

/-- Another reference than its identifier does not stand for an object that is not there. -/
theorem identify?_ne_of_new (hnew : s.objects.get? id = none) (hself : view.object ≠ id)
    (hparent : view.container ≠ some id) (hid : reference ≠ id) :
    s.identify? view reference ≠ some id := by
  unfold identify?
  split
  · exact fun h => hself (Option.some.inj h)
  · split
    · exact hparent
    · split
      · exact fun h => hid (Option.some.inj h)
      · intro hfind
        obtain ⟨p, hp, -⟩ := ObjectTable.get?_of_findByName? hfind
        rw [hnew] at hp
        cases hp

/-- A reference that did not stand for the removed object stands for what it stood for before. -/
theorem identify?_remove {removed : Object}
    (hremove : s.objects.remove id = (some removed, s'.objects))
    (hid : s.identify? view reference ≠ some id) :
    s'.identify? view reference = s.identify? view reference := by
  unfold identify? at hid ⊢
  by_cases hself : reference = Viewpoint.selfName
  · rw [if_pos hself, if_pos hself]
  · by_cases hparent : reference = Viewpoint.parentName
    · rw [if_neg hself, if_neg hself, if_pos hparent, if_pos hparent]
    · rw [if_neg hself, if_neg hparent] at hid ⊢
      rw [if_neg hself, if_neg hparent]
      have hget := (ObjectTable.get?_remove hremove reference).2
      by_cases hfound : (s.objects.get? reference).isSome
      · rw [if_pos hfound] at hid ⊢
        have hne : id ≠ reference := fun heq => hid (congrArg some heq.symm)
        rw [hget, if_neg hne, if_pos hfound]
      · rw [if_neg hfound] at hid ⊢
        have hgone : (s'.objects.get? reference).isSome = false := by
          rw [hget]
          split
          · rfl
          · simpa using hfound
        rw [hgone, ObjectTable.findByName?_remove hremove hid]
        rfl

/-- What a reference to a property of another object stands for stays the same. -/
theorem propertyOf_sameBut {changed : ObjectId → Prop}
    (h : s.objects.SameBut id changed s'.objects)
    (hidentify : s'.identify? view reference = s.identify? view reference)
    (hid : s.identify? view reference ≠ some id) (path : Path) :
    s'.propertyOf view reference path = s.propertyOf view reference path := by
  have hobject : s'.objectOf view reference = s.objectOf view reference := by
    unfold objectOf
    rw [hidentify]
    cases hx : s.identify? view reference with
    | none => rfl
    | some x =>
      have hne : x ≠ id := fun heq => hid (heq ▸ hx)
      simp only [Option.bind_some, h.get? x hne]
  unfold propertyOf
  rw [hobject]

end Stores

/-- An object that is there can be removed. -/
theorem Scene.exists_remove {s : Scene} {id : ObjectId} {o : Object} (h : s.get? id = some o) :
    ∃ s' : Scene, s.remove id = (some o, s') ∧ s.objects.remove id = (some o, s'.objects) := by
  have ho : (s.objects.remove id).1 = some o := by
    have hget : s.objects.get? id = some o := h
    unfold ObjectTable.remove
    rw [hget]
    dsimp only
    split <;> rfl
  unfold remove
  exact ⟨_, by rw [← ho], by rw [← ho]⟩

/-- A slot with a context has the context that was asked for. -/
theorem VariableTable.context_slot {name : String} {scope : Scope} {context : Option ObjectId}
    {s : Slot} (h : slot name scope context = .ok s) {owner : ObjectId}
    (hcontext : s.context = some owner) : context = some owner := by
  unfold slot at h
  split at h <;> cases h
  · cases hcontext
  · exact hcontext

/-- Removing the variables of a context leaves all others. -/
theorem VariableTable.getElem?_removeContext (t : VariableTable) (owner : ObjectId) (slot : Slot) :
    (t.removeContext owner).2[slot]? = if slot.context = some owner then none else t[slot]? := by
  have hfilter : (t.removeContext owner).2 = t.filter fun s _ => s.context ≠ some owner := rfl
  rw [hfilter, Std.ExtTreeMap.getElem?_filter']
  by_cases h : slot.context = some owner
  · simp [h]
  · cases t[slot]? <;> simp [h]

/-- When the variables of one context are removed, a variable stands for the same unless one is seen
in that context. -/
theorem Stores.variableOf_removeContext {s s' : Stores} {view : Viewpoint} {name : String}
    {owner : ObjectId} (hvars : s'.vars = (s.vars.removeContext owner).2)
    (h : ∀ scope, view.contextOf scope = some owner → s.variableIn? view name scope = none) :
    s'.variableOf view name = s.variableOf view name := by
  have hin : s'.variableIn? view name = s.variableIn? view name := by
    funext scope
    have hnone := h scope
    unfold variableIn? at hnone ⊢
    cases hslot : VariableTable.slot name scope (view.contextOf scope) with
    | error e => rfl
    | ok slot =>
      rw [hslot] at hnone
      dsimp only at hnone ⊢
      rw [hvars, VariableTable.getElem?_removeContext]
      split
      next hcontext => exact (hnone (VariableTable.context_slot hslot hcontext)).symm
      next => rfl
  rw [variableOf, variableOf, hin]

theorem Viewpoint.ofObject_sameBut {t t' : ObjectTable} {id x : ObjectId}
    {changed : ObjectId → Prop} (h : t.SameBut id changed t') (hx : x ≠ id) :
    ofObject t' x = ofObject t x := by
  unfold ofObject
  rw [h.get? x hx]

end Parametric
