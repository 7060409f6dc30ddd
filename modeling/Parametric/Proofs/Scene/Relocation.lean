import Parametric.Proofs.Scene.Objects

/-!
# Objects that move

Moving an object changes its container and the children of the container that it leaves and of the
one that it comes to, and nothing else (`ObjectTable.Moved`). So what references stand for stays the
same, and so do all properties.
-/

namespace Parametric

namespace ObjectTable

variable {t t' : ObjectTable} {id : ObjectId} {parent : Option ObjectId}

/-- Between two tables an object came to lie in `parent`. -/
structure Moved (id : ObjectId) (parent : Option ObjectId) (t t' : ObjectTable) : Prop where
  get? : ∀ x, x ≠ id → t'.get? x = t.get? x
  object : ∃ o, t.get? id = some o ∧ t'.get? id = some { o with container := parent }
  childrenOf : ∀ c, t.containerOf? id ≠ some c → parent ≠ some c →
    t'.childrenOf c = t.childrenOf c

namespace Moved

/-- An object is in none of the tables, or in both and the same but for its container. -/
theorem get?_cases (h : t.Moved id parent t') (x : ObjectId) :
    t.get? x = none ∧ t'.get? x = none ∨ ∃ o o', t.get? x = some o ∧ t'.get? x = some o' ∧
      o.id = o'.id ∧ o.name = o'.name ∧ o.properties = o'.properties := by
  by_cases hx : x = id
  · obtain ⟨o, ho, ho'⟩ := h.object
    exact .inr ⟨o, { o with container := parent }, hx ▸ ho, hx ▸ ho', rfl, rfl, rfl⟩
  · rw [h.get? x hx]
    cases t.get? x with
    | none => exact .inl ⟨rfl, rfl⟩
    | some o => exact .inr ⟨o, o, rfl, rfl, rfl, rfl, rfl⟩

theorem isSome_get? (h : t.Moved id parent t') (x : ObjectId) :
    (t'.get? x).isSome = (t.get? x).isSome := by
  rcases h.get?_cases x with ⟨ho, ho'⟩ | ⟨o, o', ho, ho', -⟩ <;> simp [ho, ho']

theorem containerOf? (h : t.Moved id parent t') (x : ObjectId) :
    t'.containerOf? x = if x = id then parent else t.containerOf? x := by
  unfold ObjectTable.containerOf?
  split
  next hx =>
    obtain ⟨o, -, ho'⟩ := h.object
    rw [hx, ho']
    rfl
  next hx => rw [h.get? x hx]

theorem field? (h : t.Moved id parent t') (e : Entity) : t'.field? e = t.field? e := by
  unfold ObjectTable.field?
  rcases h.get?_cases e.object with ⟨ho, ho'⟩ | ⟨o, o', ho, ho', -, -, hproperties⟩
  · rw [ho, ho']
  · rw [ho, ho', Option.bind_some, Option.bind_some, hproperties]

theorem keyed (h : t.Moved id parent t') (hkeyed : t.Keyed) : t'.Keyed := by
  intro x p hp
  rcases h.get?_cases x with ⟨-, ho'⟩ | ⟨o, o', ho, ho', hid, -⟩
  · rw [hp] at ho'
    cases ho'
  · obtain rfl := Option.some.inj (hp.symm.trans ho')
    exact hid ▸ hkeyed x o ho

/-- The names of the objects stay the same, and so does what is found by them. -/
theorem findByName? (h : t.Moved id parent t') (name : String) :
    t'.findByName? name = t.findByName? name := by
  have hnames : t'.objects.map (fun _ o => o.name) = t.objects.map fun _ o => o.name := by
    ext1 x
    rw [Std.ExtTreeMap.getElem?_map, Std.ExtTreeMap.getElem?_map]
    rcases h.get?_cases x with ⟨ho, ho'⟩ | ⟨o, o', ho, ho', -, hname, -⟩
    · rw [show t.objects[x]? = none from ho, show t'.objects[x]? = none from ho']
    · rw [show t.objects[x]? = some o from ho, show t'.objects[x]? = some o' from ho',
        Option.map_some, Option.map_some, hname]
  have hfind : ∀ t : ObjectTable, t.findByName? name =
      ((t.objects.map fun _ o => o.name).toList.find? (·.2 = name)).map (·.1) := by
    intro t
    rw [Std.ExtTreeMap.toList_map, List.find?_map, Option.map_map]
    rfl
  rw [hfind, hfind, hnames]

end Moved

/-- An object that is inserted again with another container is moved. -/
theorem moved_insert (hkeyed : t.Keyed) {o : Object} (ho : t.get? id = some o)
    (hne : o.container ≠ parent) : t.Moved id parent (t.insert { o with container := parent }) := by
  have hid : o.id = id := hkeyed id o ho
  refine ⟨fun x hx => ?_, ⟨o, ho, ?_⟩, fun c hold hnew => ?_⟩
  · rw [get?_insert, if_neg]
    rintro rfl
    exact hx hid
  · rw [get?_insert, if_pos hid]
  · have hheld : t.get? ({ o with container := parent } : Object).id = some o := hid ▸ ho
    unfold insert
    rw [hheld]
    dsimp only
    rw [if_neg hne]
    have hcontainer : o.container ≠ some c := by
      rw [containerOf?, ho] at hold
      exact hold
    split
    · exact childrenOf_attach _ hnew _
    next d hd =>
      rw [childrenOf_attach _ hnew, childrenOf_detach]
      · rfl
      · rintro rfl
        exact hcontainer hd

end ObjectTable

namespace Scene

variable {s : Scene} {id : ObjectId} {o : Object}

theorem get?_of_require (h : s.require id = .ok o) : s.get? id = some o := by
  unfold require at h
  split at h
  · cases h
    assumption
  · cases h

theorem objects_recalculate_if (s : Scene) (c : Prop) [Decidable c] (container : ObjectId)
    (latest : ChildBounds) :
    (if c then s.recalculate container latest else s).objects = s.objects := by
  split <;> rfl

/-- A move of an object that is there puts it into its new container. -/
theorem moved_move (hkeyed : s.objects.Keyed) (ho : s.get? id = some o)
    (previous parent : Option ObjectId) :
    s.objects.Moved id parent (s.move o previous parent).objects := by
  have ho : s.objects.get? id = some o := ho
  let placed : Scene := if o.container = parent then s
    else { s with objects := (s.objects.reparent? o.id parent).getD s.objects }
  have hplaced : s.objects.Moved id parent placed.objects := by
    by_cases hsame : o.container = parent
    · have hobjects : placed.objects = s.objects := by rw [show placed = s from if_pos hsame]
      rw [hobjects]
      refine ⟨fun _ _ => rfl, ⟨o, ho, ?_⟩, fun _ _ _ => rfl⟩
      rw [ho, ← hsame]
    · have hget : s.objects.get? o.id = some o := (hkeyed id o ho).symm ▸ ho
      have hobjects : placed.objects = s.objects.insert { o with container := parent } := by
        rw [show placed = _ from if_neg hsame, ObjectTable.reparent?, hget]
        rfl
      rw [hobjects]
      exact ObjectTable.moved_insert hkeyed ho hsame
  have hrest : (s.move o previous parent).objects = placed.objects := by
    cases previous with
    | none => rfl
    | some old => exact placed.objects_recalculate_if _ old ∅
  rw [hrest]
  exact hplaced

/-- A change of the hierarchy is carried out if its object is there. -/
theorem moved_applyChange (hkeyed : s.objects.Keyed) (ho : (s.get? id).isSome) {r : Request}
    {previous parent : Option ObjectId} (htarget : r.target.object = id)
    (hkind : r.kind = .hierarchy) (hpayload : r.payload = .hierarchy previous parent) :
    ∃ outcome s', s.applyChange r = .ok (outcome, s') ∧ s.objects.Moved id parent s'.objects := by
  obtain ⟨o, ho⟩ := Option.isSome_iff_exists.1 ho
  refine ⟨(s.rehouse o r.payload).1, (s.rehouse o r.payload).2, ?_, ?_⟩
  · unfold applyChange require
    rw [htarget, ho, hkind]
    rfl
  · rw [hpayload]
    exact moved_move hkeyed ho previous parent

end Scene

/-! ## References -/

namespace Stores

variable {s s' : Stores} {id : ObjectId} {parent : Option ObjectId}

theorem identify?_moved (h : s.objects.Moved id parent s'.objects) (view : Viewpoint)
    (reference : String) : s'.identify? view reference = s.identify? view reference := by
  unfold identify?
  rw [h.isSome_get?, h.findByName?]

/-- A reference to a property stands for the same, if it is read from the same viewpoint. -/
theorem propertyOf_moved (h : s.objects.Moved id parent s'.objects) (view : Viewpoint)
    (reference : String) (path : Path) :
    s'.propertyOf view reference path = s.propertyOf view reference path := by
  unfold propertyOf objectOf
  rw [identify?_moved h]
  cases s.identify? view reference with
  | none => rfl
  | some x =>
    rcases h.get?_cases x with ⟨ho, ho'⟩ | ⟨o, o', ho, ho', -, -, hproperties⟩
    · simp only [Option.bind_some, ho, ho']
    · have hvalue : o.value? path = o'.value? path := by
        cases path with
        | nil => rfl
        | cons name rest => rw [Object.value?_cons, Object.value?_cons, hproperties]
      simp only [Option.bind_some, ho, ho', bind, Except.bind, hvalue]

end Stores

theorem Viewpoint.ofObject_moved {t t' : ObjectTable} {id x : ObjectId} {parent : Option ObjectId}
    (h : t.Moved id parent t') (hx : x ≠ id) : ofObject t' x = ofObject t x := by
  unfold ofObject
  rw [h.get? x hx]

end Parametric
