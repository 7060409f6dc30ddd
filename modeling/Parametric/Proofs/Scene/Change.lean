import Parametric.Proofs.Scene.Shape

/-!
# Changes in a scene

What a change to an object that stays where it is does to the scene: values are written into fields,
and nothing else happens (`ObjectTable.Writes`). A change of size or layout writes the numbers or
the text that it carries (`ChangeKind.imposes`), a change of a property the value of the property
(`Scene.writes_applyChange`).
-/

namespace Parametric

/-- Between two tables only values were written, and each of them satisfies `W`. -/
structure ObjectTable.Writes (W : Entity → Value → Prop) (t t' : ObjectTable) : Prop where
  shape : t'.shape = t.shape
  fields : ∀ e, t'.field? e = t.field? e ∨ ∃ v, W e v ∧ t'.field? e = some (.leaf v)

namespace ObjectTable

variable {W W' : Entity → Value → Prop} {t t' t'' : ObjectTable}

namespace Writes

theorem refl (t : ObjectTable) : Writes W t t := ⟨rfl, fun _ => .inl rfl⟩

theorem trans (h : Writes W t t') (h' : Writes W t' t'') : Writes W t t'' := by
  refine ⟨h'.shape.trans h.shape, fun e => ?_⟩
  rcases h'.fields e with heq | hv
  · exact heq ▸ h.fields e
  · exact .inr hv

theorem mono (h : Writes W t t') (hW : ∀ e v, W e v → W' e v) : Writes W' t t' :=
  ⟨h.shape, fun e => (h.fields e).imp_right fun ⟨v, hv, heq⟩ => ⟨v, hW e v hv, heq⟩⟩

theorem set? {id : ObjectId} {name : String} {v : Value} (hW : W ⟨id, name⟩ v) (t : ObjectTable) :
    Writes W t ((t.set? id [name] v).getD t) := by
  cases hset : t.set? id [name] v with
  | none => exact .refl t
  | some t' =>
    refine ⟨shape_set? hset, fun e => ?_⟩
    have hfield : t'.field? e = if (⟨id, name⟩ : Entity) = e then some (.leaf v) else t.field? e :=
      field?_set? hset e
    split at hfield
    next he => exact .inr ⟨v, he ▸ hW, hfield⟩
    next => exact .inl hfield

end Writes

/-- A write to the empty path changes nothing. -/
theorem set?_nil {id : ObjectId} {v : Value} (h : t.set? id [] v = some t') : t' = t := by
  unfold set? at h
  cases ho : t.get? id with
  | none => simp [ho] at h
  | some o =>
    have hsame : t.objects.insert id o = t.objects := by
      ext1 a
      rw [Table.getElem?_insert]
      split
      next heq => exact heq ▸ ho.symm
      next => rfl
    simp only [ho, Option.map_some, Option.some.injEq, Object.set, hsame] at h
    exact h.symm

end ObjectTable

namespace Scene

variable {s s' : Scene}

/-- A write to a name without a dot changes at most the field of that name. -/
theorem writes_write {e : Entity} {v : Value} {bounds : Option Contribution}
    (he : Path.Undotted e.property) (h : s.write e v = .ok (bounds, s')) :
    s.objects.Writes (fun x u => x = e ∧ u = v) s'.objects := by
  rcases he.eq_empty_or_plain with hempty | hplain
  · -- The empty name is no path, and nothing is written.
    have hpath : Path.ofString e.property = [] := by
      rw [hempty]
      rfl
    unfold write at h
    rw [hpath] at h
    split at h
    · cases h
    next ht =>
      cases h
      rw [ObjectTable.set?_nil ht]
      exact .refl _
  · refine ⟨shape_write h, fun x => ?_⟩
    rw [field?_write hplain h]
    split
    next hx => exact .inr ⟨v, ⟨hx.symm, rfl⟩, rfl⟩
    next => exact .inl rfl

end Scene

/-- The values that a change of size or layout writes, with the names of their properties. -/
def ChangeKind.imposes : ChangeKind → Payload → List (String × Value)
  | .size, .size w h d =>
    [(Names.width, .number w), (Names.height, .number h), (Names.depth, .number d)]
  | .layout, .layout config => [(Names.layout, .string config)]
  | _, _ => []

/-- What a request writes itself when it does not move its object: the values that it imposes, or
the value of the property that it is about. -/
def Request.Writes (r : Request) (e : Entity) (v : Value) : Prop :=
  e.object = r.target.object ∧ (e.property, v) ∈ r.kind.imposes r.payload ∨
    e = r.target ∧ r.kind = .property ∧ r.payload = .property r.target.property (some v)

namespace Scene

variable {s s' : Scene}

theorem writes_resize (s : Scene) (id : ObjectId) (payload : Payload) :
    s.objects.Writes (fun e v => e.object = id ∧ (e.property, v) ∈ ChangeKind.size.imposes payload)
      (s.resize id payload).2.objects := by
  unfold resize
  split
  next w h d =>
    refine ((ObjectTable.Writes.set? ?_ _).trans (.set? ?_ _)).trans (.set? ?_ _)
    all_goals exact ⟨rfl, by simp [ChangeKind.imposes]⟩
  · exact .refl _

theorem writes_arrange (s : Scene) (id : ObjectId) (payload : Payload) :
    s.objects.Writes
      (fun e v => e.object = id ∧ (e.property, v) ∈ ChangeKind.layout.imposes payload)
      (s.arrange id payload).2.objects := by
  unfold arrange
  split
  · exact .set? ⟨rfl, by simp [ChangeKind.imposes]⟩ _
  · exact .refl _

/-- A change of a property writes its value, if it has one. -/
theorem writes_change {id : ObjectId} {property : String} {value : Option Value}
    {outcome : Outcome} (hproperty : Path.Undotted property)
    (h : s.change id property value = .ok (outcome, s')) :
    s.objects.Writes (fun e v => e = ⟨id, property⟩ ∧ value = some v) s'.objects := by
  cases value with
  | none =>
    cases h
    exact .refl _
  | some v =>
    obtain ⟨⟨bounds, scene⟩, hwrite, h⟩ := Run.ok_of_bind h
    cases h
    exact (writes_write hproperty hwrite).mono fun e u hu => ⟨hu.1, by rw [hu.2]⟩

/-- A change that does not move its object and names no dotted property writes what it says. -/
theorem writes_applyChange {r : Request} {outcome : Outcome} (hkind : r.kind ≠ .hierarchy)
    (hproperty : r.kind = .property → ∀ name value, r.payload = .property name value →
      name = r.target.property ∧ Path.Undotted name)
    (h : s.applyChange r = .ok (outcome, s')) : s.objects.Writes r.Writes s'.objects := by
  obtain ⟨o, -, h⟩ := Run.ok_of_bind h
  split at h
  next hsize =>
    cases h
    refine (s.writes_resize _ _).mono fun e v hv => .inl ?_
    rwa [hsize]
  next hlayout =>
    cases h
    refine (s.writes_arrange _ _).mono fun e v hv => .inl ?_
    rwa [hlayout]
  next hhierarchy => exact absurd hhierarchy hkind
  next name value hpropertyKind hpayload =>
    obtain ⟨rfl, hundotted⟩ := hproperty hpropertyKind name value hpayload
    refine (writes_change hundotted h).mono fun e v hv => .inr ⟨hv.1, hpropertyKind, ?_⟩
    rw [hpayload, hv.2]
  · cases h

end Scene

end Parametric
