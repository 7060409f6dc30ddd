import Parametric.Proofs.Property
import Parametric.Proofs.Run
import Parametric.Proofs.Table
import Parametric.Scene.Basic

/-!
# The shape of a scene

The shape of an object table is what is left without the properties: identifiers, names, containers,
templates and children. Which objects references stand for depends on the shape alone, and a write
to a plain name changes nothing but one field of one object (`Scene.field?_write`).
-/

namespace Parametric

deriving instance DecidableEq for Object

/-- An object without its properties. -/
def Object.bare (o : Object) : Object := { o with properties := [] }

/-- Values below a field depend on that field alone. -/
theorem Object.value?_cons (o : Object) (name : String) (rest : Path) :
    o.value? (name :: rest) =
      (o.properties.get? name).bind fun p => (p.lookup rest).bind Property.value? := by
  simp only [value?, property?, Property.lookup, Property.field?, Property.fields,
    Option.bind_assoc]

theorem Object.bare_set (o : Object) (v : Value) (path : Path) : (o.set v path).bare = o.bare := by
  cases path <;> rfl

/-- The fields of an object after a write to one of them. -/
theorem Object.get?_set (o : Object) (v : Value) (name n : String) :
    (o.set v [name]).properties.get? n =
      if name = n then some (.leaf v) else o.properties.get? n := by
  simp only [set, Property.set, Property.fields, Fields.get?_put]

namespace ObjectTable

variable {t t' : ObjectTable}

/-- The objects without their properties, and the children. -/
def shape (t : ObjectTable) : ObjectTable := { t with objects := t.objects.map fun _ o => o.bare }

/-- The field of an object that an entity names. -/
def field? (t : ObjectTable) (e : Entity) : Option Property :=
  (t.get? e.object).bind (·.properties.get? e.property)

theorem get?_shape (t : ObjectTable) (id : ObjectId) :
    t.shape.get? id = (t.get? id).map Object.bare :=
  Std.ExtTreeMap.getElem?_map

/-- In tables of the same shape an object is in none, or in both and the same but for its
properties. -/
theorem get?_congr (h : t.shape = t'.shape) (id : ObjectId) :
    t.get? id = none ∧ t'.get? id = none ∨
    ∃ o o', t.get? id = some o ∧ t'.get? id = some o' ∧ o.bare = o'.bare := by
  have hmap : (t'.get? id).map Object.bare = (t.get? id).map Object.bare := by
    rw [← get?_shape, ← h, get?_shape]
  cases ho : t.get? id with
  | none =>
    rw [ho, Option.map_none, Option.map_eq_none_iff] at hmap
    exact .inl ⟨rfl, hmap⟩
  | some o =>
    rw [ho, Option.map_some, Option.map_eq_some_iff] at hmap
    obtain ⟨o', ho', hbare⟩ := hmap
    exact .inr ⟨o, o', rfl, ho', hbare.symm⟩

theorem isSome_get?_congr (h : t.shape = t'.shape) (id : ObjectId) :
    (t.get? id).isSome = (t'.get? id).isSome := by
  rcases get?_congr h id with ⟨ho, ho'⟩ | ⟨o, o', ho, ho', -⟩
  · rw [ho, ho']
  · rw [ho, ho', Option.isSome_some, Option.isSome_some]

theorem containerOf?_shape (t : ObjectTable) (id : ObjectId) :
    t.shape.containerOf? id = t.containerOf? id := by
  rw [containerOf?, containerOf?, get?_shape]
  cases t.get? id <;> rfl

theorem containerOf?_congr (h : t.shape = t'.shape) (id : ObjectId) :
    t.containerOf? id = t'.containerOf? id := by
  rw [← containerOf?_shape, h, containerOf?_shape]

theorem childrenOf_congr (h : t.shape = t'.shape) (id : ObjectId) :
    t.childrenOf id = t'.childrenOf id := by
  have := congrArg (childrenOf · id) h
  exact this

theorem findByName?_shape (t : ObjectTable) (name : String) :
    t.shape.findByName? name = t.findByName? name := by
  unfold findByName? shape
  rw [Std.ExtTreeMap.toList_map, List.find?_map]
  simp [Function.comp_def, Object.bare]

theorem findByName?_congr (h : t.shape = t'.shape) (name : String) :
    t.findByName? name = t'.findByName? name := by
  rw [← findByName?_shape, h, findByName?_shape]

/-- A write to a path keeps the shape, and the fields of the other objects. -/
theorem shape_set? {id : ObjectId} {path : Path} {v : Value} (h : t.set? id path v = some t') :
    t'.shape = t.shape := by
  unfold set? at h
  cases ho : t.get? id with
  | none => simp [ho] at h
  | some o =>
    simp only [ho, Option.map_some, Option.some.injEq] at h
    subst h
    unfold shape
    congr 1
    ext1 a
    rw [Std.ExtTreeMap.getElem?_map, Std.ExtTreeMap.getElem?_map, Table.getElem?_insert]
    split
    next heq =>
      have ho : t.objects[id]? = some o := ho
      rw [← heq, ho, Option.map_some, Option.map_some, Object.bare_set]
    next => rfl

/-- A write to a field changes that field alone. -/
theorem field?_set? {e : Entity} {v : Value} (h : t.set? e.object [e.property] v = some t')
    (x : Entity) : t'.field? x = if e = x then some (.leaf v) else t.field? x := by
  unfold set? at h
  cases ho : t.get? e.object with
  | none => simp [ho] at h
  | some o =>
    simp only [ho, Option.map_some, Option.some.injEq] at h
    subst h
    unfold field? get?
    simp only [Table.getElem?_insert]
    by_cases hobject : e.object = x.object
    · have ho : t.objects[x.object]? = some o := hobject ▸ ho
      simp only [if_pos hobject, ho, Option.bind_some, Object.get?_set]
      by_cases hproperty : e.property = x.property
      · rw [if_pos hproperty, if_pos]
        cases e
        cases x
        simp_all
      · rw [if_neg hproperty, if_neg]
        rintro rfl
        exact hproperty rfl
    · rw [if_neg hobject, if_neg]
      rintro rfl
      exact hobject rfl

theorem isSome_set? {id : ObjectId} (h : (t.get? id).isSome) (path : Path) (v : Value) :
    ∃ t', t.set? id path v = some t' := by
  obtain ⟨o, ho⟩ := Option.isSome_iff_exists.1 h
  exact ⟨_, by rw [set?, ho]; rfl⟩

end ObjectTable

/-! ## References -/

theorem Viewpoint.ofObject_congr {t t' : ObjectTable} (h : t.shape = t'.shape) (id : ObjectId) :
    ofObject t id = ofObject t' id := by
  unfold ofObject
  rcases ObjectTable.get?_congr h id with ⟨ho, ho'⟩ | ⟨o, o', ho, ho', hbare⟩
  · rw [ho, ho']
  · injection hbare with _ _ hcontainer htemplate
    simp only [ho, ho', hcontainer, htemplate]

@[simp]
theorem Viewpoint.object_ofObject (t : ObjectTable) (id : ObjectId) :
    (ofObject t id).object = id := by
  unfold ofObject
  split <;> rfl

@[simp]
theorem Viewpoint.container_ofObject (t : ObjectTable) (id : ObjectId) :
    (ofObject t id).container = t.containerOf? id := by
  unfold ofObject ObjectTable.containerOf?
  split
  next o ho => rw [ho]; rfl
  next ho => rw [ho]; rfl

theorem Stores.identify?_congr {s s' : Stores} (h : s.objects.shape = s'.objects.shape)
    (view : Viewpoint) (reference : String) :
    s.identify? view reference = s'.identify? view reference := by
  unfold identify?
  rw [ObjectTable.isSome_get?_congr h, ObjectTable.findByName?_congr h]

/-- A reference is read alike when the object that it stands for has the same value at the path. -/
theorem Stores.propertyOf_of_value? {s s' : Stores} (h : s.objects.shape = s'.objects.shape)
    {view : Viewpoint} {reference : String} {path : Path}
    (hvalue : ∀ id, s.identify? view reference = some id →
      (s.objects.get? id).bind (·.value? path) = (s'.objects.get? id).bind (·.value? path)) :
    s.propertyOf view reference path = s'.propertyOf view reference path := by
  unfold propertyOf objectOf
  rw [← identify?_congr h]
  cases hid : s.identify? view reference with
  | none => rfl
  | some id =>
    have hread := hvalue id hid
    rcases ObjectTable.get?_congr h id with ⟨ho, ho'⟩ | ⟨o, o', ho, ho', -⟩
    · simp only [Option.bind_some, ho, ho']
    · simp only [ho, ho', Option.bind_some] at hread
      simp only [Option.bind_some, ho, ho', bind, Except.bind, hread]

/-- What a reference to a property stands for depends on the shape and on the field that its path
starts with. -/
theorem Stores.propertyOf_congr {s s' : Stores} (h : s.objects.shape = s'.objects.shape)
    {view : Viewpoint} {reference : String} {path : Path}
    (hfield : ∀ id name rest, s.identify? view reference = some id → path = name :: rest →
      s.objects.field? ⟨id, name⟩ = s'.objects.field? ⟨id, name⟩) :
    s.propertyOf view reference path = s'.propertyOf view reference path := by
  refine propertyOf_of_value? h fun id hid => ?_
  cases path with
  | nil => cases s.objects.get? id <;> cases s'.objects.get? id <;> rfl
  | cons name rest =>
    have hread := hfield id name rest hid rfl
    unfold ObjectTable.field? at hread
    simp only [Object.value?_cons, ← Option.bind_assoc, hread]

/-! ## Variables -/

namespace VariableTable

variable {t t' : VariableTable} {name : String} {scope : Scope} {context : Option ObjectId}
  {v old : Value}

theorem name_slot {s : Slot} (h : slot name scope context = .ok s) : s.name = name := by
  unfold slot at h
  split at h <;> cases h <;> rfl

theorem define_spec (h : define t name scope context v = .ok t') :
    ∃ s : Slot, s.name = name ∧ t' = t.insert s v := by
  obtain ⟨s, hs, h⟩ := Run.ok_of_bind h
  refine ⟨s, name_slot hs, ?_⟩
  split at h <;> cases h
  rfl

theorem update_spec (h : update t name scope context v = .ok (old, t')) :
    ∃ s : Slot, s.name = name ∧ t' = t.insert s v := by
  obtain ⟨s, hs, h⟩ := Run.ok_of_bind h
  refine ⟨s, name_slot hs, ?_⟩
  split at h <;> cases h
  rfl

theorem delete_spec (h : delete t name scope context = .ok (old, t')) :
    ∃ s : Slot, s.name = name ∧ t' = t.erase s := by
  obtain ⟨s, hs, h⟩ := Run.ok_of_bind h
  refine ⟨s, name_slot hs, ?_⟩
  split at h <;> cases h
  rfl

end VariableTable

/-- What a variable stands for depends on the variables of its name. -/
theorem Stores.variableOf_congr {s s' : Stores} {name : String}
    (h : ∀ slot : Slot, slot.name = name → s.vars[slot]? = s'.vars[slot]?) (view : Viewpoint) :
    s.variableOf view name = s'.variableOf view name := by
  have hin : s.variableIn? view name = s'.variableIn? view name := by
    funext scope
    unfold variableIn?
    cases hslot : VariableTable.slot name scope (view.contextOf scope) with
    | error e => rfl
    | ok slot => exact h slot (VariableTable.name_slot hslot)
  rw [variableOf, variableOf, hin]

/-! ## Writes -/

/-- A write to an object that is there succeeds. -/
theorem Scene.exists_write (s : Scene) {e : Entity} (h : (s.get? e.object).isSome) (v : Value) :
    ∃ bounds s', s.write e v = .ok (bounds, s') := by
  obtain ⟨t, ht⟩ := ObjectTable.isSome_set? h (Path.ofString e.property) v
  rw [write, ht]
  exact ⟨_, _, rfl⟩

/-- What is written to is there. -/
theorem Scene.isSome_of_write {s s' : Scene} {e : Entity} {v : Value}
    {bounds : Option Contribution} (h : s.write e v = .ok (bounds, s')) :
    (s.get? e.object).isSome := by
  unfold write ObjectTable.set? at h
  cases ho : s.objects.get? e.object with
  | none => simp [ho] at h
  | some o => exact congrArg Option.isSome ho

/-- A write to any path keeps the shape. -/
theorem Scene.shape_write {s s' : Scene} {e : Entity} {v : Value} {bounds : Option Contribution}
    (h : s.write e v = .ok (bounds, s')) : s'.objects.shape = s.objects.shape := by
  unfold write at h
  split at h
  · cases h
  next ht =>
    cases h
    exact ObjectTable.shape_set? ht

/-- A write to a plain name changes the field of that name alone. -/
theorem Scene.field?_write {s s' : Scene} {e : Entity} {v : Value} {bounds : Option Contribution}
    (he : Path.Plain e.property) (h : s.write e v = .ok (bounds, s')) (x : Entity) :
    s'.objects.field? x = if e = x then some (.leaf v) else s.objects.field? x := by
  unfold write at h
  rw [Path.ofString_of_plain he] at h
  split at h
  · cases h
  next ht =>
    cases h
    exact ObjectTable.field?_set? ht x

end Parametric
