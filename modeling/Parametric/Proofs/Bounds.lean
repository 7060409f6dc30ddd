import Parametric.Bounds
import Parametric.Proofs.Decimal.Order

/-!
# The union of boxes

A box contains another one when it holds all of its points. For the boxes that are empty or go
upwards along every axis, as every box of a finite corner and extent does
(`Bounds.proper_ofOriginSize`), a box contains a union exactly when it contains both parts
(`Bounds.contains_union_iff`), and two such boxes that contain each other are the same up to the
sign of zero (`Bounds.Contains.antisymm`). So union is a join, and the union of a list is the least
box around its members (`Bounds.union_join`): it depends on which boxes are in the list alone.
-/

namespace Parametric

open Arithmetic (lesser greater)

/-! ## Axis by axis -/

namespace Vec

/-- Not above along any axis. -/
instance : LE Vec := ⟨fun a b => a.x ≤ b.x ∧ a.y ≤ b.y ∧ a.z ≤ b.z⟩

instance (a b : Vec) : Decidable (a ≤ b) := inferInstanceAs (Decidable (_ ∧ _ ∧ _))

/-- The same numbers along the axes, up to the sign of zero. -/
def Same (a b : Vec) : Prop := a.x == b.x ∧ a.y == b.y ∧ a.z == b.z

instance (a b : Vec) : Decidable (a.Same b) := inferInstanceAs (Decidable (_ ∧ _ ∧ _))

/-- Finite along every axis. -/
def Finite (a : Vec) : Prop := a.x.isFinite ∧ a.y.isFinite ∧ a.z.isFinite

instance (a : Vec) : Decidable a.Finite := inferInstanceAs (Decidable (_ ∧ _ ∧ _))

variable {a b c : Vec}

theorem le_self_iff :
    a ≤ a ↔ a.x.isNaN = false ∧ a.y.isNaN = false ∧ a.z.isNaN = false := by
  rw [← Decimal.le_self_iff, ← Decimal.le_self_iff, ← Decimal.le_self_iff]
  rfl

protected theorem le_trans (hab : a ≤ b) (hbc : b ≤ c) : a ≤ c :=
  ⟨Decimal.le_trans hab.1 hbc.1, Decimal.le_trans hab.2.1 hbc.2.1,
    Decimal.le_trans hab.2.2 hbc.2.2⟩

theorem le_self_of_le (h : a ≤ b) : a ≤ a ∧ b ≤ b := by
  have hx := Decimal.le_iff.1 h.1
  have hy := Decimal.le_iff.1 h.2.1
  have hz := Decimal.le_iff.1 h.2.2
  exact ⟨le_self_iff.2 ⟨hx.1, hy.1, hz.1⟩, le_self_iff.2 ⟨hx.2.1, hy.2.1, hz.2.1⟩⟩

theorem same_of_le_of_le (hab : a ≤ b) (hba : b ≤ a) : a.Same b :=
  ⟨Decimal.beq_of_le_of_le hab.1 hba.1, Decimal.beq_of_le_of_le hab.2.1 hba.2.1,
    Decimal.beq_of_le_of_le hab.2.2 hba.2.2⟩

/-- Two things along each axis are the one along all axes and the other. -/
theorem axes_and_axes {p₁ p₂ p₃ q₁ q₂ q₃ : Prop} :
    (p₁ ∧ q₁) ∧ (p₂ ∧ q₂) ∧ (p₃ ∧ q₃) ↔ (p₁ ∧ p₂ ∧ p₃) ∧ (q₁ ∧ q₂ ∧ q₃) := by
  rw [and_and_and_comm (a := p₂), and_and_and_comm]

theorem le_lesser_iff (ha : a ≤ a) (hb : b ≤ b) : c ≤ map₂ lesser a b ↔ c ≤ a ∧ c ≤ b := by
  obtain ⟨hax, hay, haz⟩ := le_self_iff.1 ha
  obtain ⟨hbx, hby, hbz⟩ := le_self_iff.1 hb
  have hx := Decimal.le_lesser_iff (c := c.x) hax hbx
  have hy := Decimal.le_lesser_iff (c := c.y) hay hby
  have hz := Decimal.le_lesser_iff (c := c.z) haz hbz
  exact (and_congr hx (and_congr hy hz)).trans axes_and_axes

theorem greater_le_iff (ha : a ≤ a) (hb : b ≤ b) : map₂ greater a b ≤ c ↔ a ≤ c ∧ b ≤ c := by
  obtain ⟨hax, hay, haz⟩ := le_self_iff.1 ha
  obtain ⟨hbx, hby, hbz⟩ := le_self_iff.1 hb
  have hx := Decimal.greater_le_iff (c := c.x) hax hbx
  have hy := Decimal.greater_le_iff (c := c.y) hay hby
  have hz := Decimal.greater_le_iff (c := c.z) haz hbz
  exact (and_congr hx (and_congr hy hz)).trans axes_and_axes

theorem lesser_le_self (ha : a ≤ a) (hb : b ≤ b) : map₂ lesser a b ≤ map₂ lesser a b := by
  obtain ⟨hax, hay, haz⟩ := le_self_iff.1 ha
  obtain ⟨hbx, hby, hbz⟩ := le_self_iff.1 hb
  exact le_self_iff.2 ⟨Decimal.isNaN_lesser hax hbx, Decimal.isNaN_lesser hay hby,
    Decimal.isNaN_lesser haz hbz⟩

theorem greater_le_self (ha : a ≤ a) (hb : b ≤ b) : map₂ greater a b ≤ map₂ greater a b := by
  obtain ⟨hax, hay, haz⟩ := le_self_iff.1 ha
  obtain ⟨hbx, hby, hbz⟩ := le_self_iff.1 hb
  exact le_self_iff.2 ⟨Decimal.isNaN_greater hax hbx, Decimal.isNaN_greater hay hby,
    Decimal.isNaN_greater haz hbz⟩

/-- Between the lesser and the greater corner lie both. -/
theorem lesser_le_greater (ha : a ≤ a) (hb : b ≤ b) : map₂ lesser a b ≤ map₂ greater a b :=
  Vec.le_trans ((le_lesser_iff ha hb).1 (lesser_le_self ha hb)).1
    ((greater_le_iff ha hb).1 (greater_le_self ha hb)).1

end Vec

/-! ## Boxes -/

namespace Bounds

/-- A point of a box. -/
def Holds (b : Bounds) (v : Vec) : Prop := b.min ≤ v ∧ v ≤ b.max

/-- A box holds all points of another one. -/
def Contains (a b : Bounds) : Prop := ∀ v, b.Holds v → a.Holds v

/-- The empty box, or one that goes upwards along every axis and has no corner that is no number. -/
def Proper (b : Bounds) : Prop := b = empty ∨ b.min ≤ b.max

/-- The same box up to the sign of zero. -/
def Same (a b : Bounds) : Prop := a.min.Same b.min ∧ a.max.Same b.max

instance (b : Bounds) (v : Vec) : Decidable (b.Holds v) := inferInstanceAs (Decidable (_ ∧ _))

instance (b : Bounds) : Decidable b.Proper := inferInstanceAs (Decidable (_ ∨ _))

instance (a b : Bounds) : Decidable (a.Same b) := inferInstanceAs (Decidable (_ ∧ _))

theorem not_holds_empty (v : Vec) : ¬empty.Holds v := fun ⟨hmin, hmax⟩ =>
  absurd (Vec.le_trans hmin hmax) (by decide)

theorem isEmpty_empty : empty.isEmpty = true := by decide

variable {a b c : Bounds}

theorem isEmpty_eq_false (h : b.min ≤ b.max) : b.isEmpty = false := by
  have hx := Decimal.not_lt_of_le h.1
  have hy := Decimal.not_lt_of_le h.2.1
  have hz := Decimal.not_lt_of_le h.2.2
  simp [isEmpty, hx, hy, hz]

/-- A box of a finite corner and extent goes upwards along every axis. -/
theorem proper_ofOriginSize {origin size : Vec} (horigin : origin.Finite) (hsize : size.Finite) :
    (ofOriginSize origin size).Proper := by
  have hnear : origin ≤ origin := Vec.le_self_iff.2
    ⟨Decimal.isNaN_of_isFinite horigin.1, Decimal.isNaN_of_isFinite horigin.2.1,
      Decimal.isNaN_of_isFinite horigin.2.2⟩
  have hfar : Vec.map₂ (· + ·) origin size ≤ Vec.map₂ (· + ·) origin size := Vec.le_self_iff.2
    ⟨Decimal.isNaN_add horigin.1 hsize.1, Decimal.isNaN_add horigin.2.1 hsize.2.1,
      Decimal.isNaN_add horigin.2.2 hsize.2.2⟩
  exact .inr (Vec.lesser_le_greater hnear hfar)

/-! ## Containing -/

theorem contains_refl (a : Bounds) : a.Contains a := fun _ h => h

theorem contains_empty (a : Bounds) : a.Contains empty := fun v h => absurd h (not_holds_empty v)

theorem contains_iff (h : b.min ≤ b.max) : a.Contains b ↔ a.min ≤ b.min ∧ b.max ≤ a.max := by
  obtain ⟨hmin, hmax⟩ := Vec.le_self_of_le h
  constructor
  · intro hab
    exact ⟨(hab b.min ⟨hmin, h⟩).1, (hab b.max ⟨h, hmax⟩).2⟩
  · intro ⟨hlow, hhigh⟩ v ⟨hv, hv'⟩
    exact ⟨Vec.le_trans hlow hv, Vec.le_trans hv' hhigh⟩

theorem not_empty_contains (h : b.min ≤ b.max) : ¬empty.Contains b := fun hempty =>
  not_holds_empty b.min (hempty b.min ⟨(Vec.le_self_of_le h).1, h⟩)

/-- Boxes that contain each other are the same. -/
theorem Contains.antisymm (ha : a.Proper) (hb : b.Proper) (hab : a.Contains b)
    (hba : b.Contains a) : a.Same b := by
  rcases ha with rfl | ha
  · rcases hb with rfl | hb
    · decide
    · exact absurd hab (not_empty_contains hb)
  · rcases hb with rfl | hb
    · exact absurd hba (not_empty_contains ha)
    · have hab := (contains_iff hb).1 hab
      have hba := (contains_iff ha).1 hba
      exact ⟨Vec.same_of_le_of_le hab.1 hba.1, Vec.same_of_le_of_le hba.2 hab.2⟩

/-! ## The union of two boxes -/

theorem empty_union (a : Bounds) : empty.union a = a := by
  rw [union, isEmpty_empty, if_pos rfl]

theorem union_empty (ha : a.Proper) : a.union empty = a := by
  rcases ha with rfl | ha
  · exact empty_union empty
  · rw [union, isEmpty_eq_false ha, isEmpty_empty, if_neg Bool.false_ne_true, if_pos rfl]

theorem union_self (a : Bounds) : a.union a = a := by
  have hlesser (x : Float) : lesser x x = x := by simp [lesser]
  have hgreater (x : Float) : greater x x = x := by simp [greater]
  simp [union, Vec.map₂, hlesser, hgreater]

theorem union_of_le (ha : a.min ≤ a.max) (hb : b.min ≤ b.max) :
    a.union b = ⟨.map₂ lesser a.min b.min, .map₂ greater a.max b.max⟩ := by
  rw [union, isEmpty_eq_false ha, isEmpty_eq_false hb, if_neg Bool.false_ne_true,
    if_neg Bool.false_ne_true]

theorem union_le (ha : a.min ≤ a.max) (hb : b.min ≤ b.max) :
    (a.union b).min ≤ (a.union b).max := by
  obtain ⟨hamin, hamax⟩ := Vec.le_self_of_le ha
  obtain ⟨hbmin, hbmax⟩ := Vec.le_self_of_le hb
  have hlow := (Vec.le_lesser_iff hamin hbmin).1 (Vec.lesser_le_self hamin hbmin)
  have hhigh := (Vec.greater_le_iff hamax hbmax).1 (Vec.greater_le_self hamax hbmax)
  rw [union_of_le ha hb]
  exact Vec.le_trans hlow.1 (Vec.le_trans ha hhigh.1)

theorem proper_union (ha : a.Proper) (hb : b.Proper) : (a.union b).Proper := by
  rcases ha with rfl | ha
  · rwa [empty_union]
  · rcases hb with rfl | hb
    · rw [union_empty (.inr ha)]
      exact .inr ha
    · exact .inr (union_le ha hb)

/-- A box contains a union exactly when it contains both parts. -/
theorem contains_union_iff (ha : a.Proper) (hb : b.Proper) :
    c.Contains (a.union b) ↔ c.Contains a ∧ c.Contains b := by
  rcases ha with rfl | ha
  · rw [empty_union]
    exact ⟨fun h => ⟨contains_empty c, h⟩, fun h => h.2⟩
  · rcases hb with rfl | hb
    · rw [union_empty (.inr ha)]
      exact ⟨fun h => ⟨h, contains_empty c⟩, fun h => h.1⟩
    · obtain ⟨hamin, hamax⟩ := Vec.le_self_of_le ha
      obtain ⟨hbmin, hbmax⟩ := Vec.le_self_of_le hb
      rw [contains_iff (union_le ha hb), contains_iff ha, contains_iff hb, union_of_le ha hb,
        Vec.le_lesser_iff hamin hbmin, Vec.greater_le_iff hamax hbmax]
      exact and_and_and_comm

/-- Two boxes that the same boxes contain are the same. -/
theorem same_of_contains_iff (ha : a.Proper) (hb : b.Proper)
    (h : ∀ c : Bounds, c.Contains a ↔ c.Contains b) : a.Same b :=
  Contains.antisymm ha hb ((h a).1 (contains_refl a)) ((h b).2 (contains_refl b))

/-! ## The union of a list -/

theorem proper_foldl_union {bs : List Bounds} (ha : a.Proper) (hbs : ∀ b ∈ bs, b.Proper) :
    (bs.foldl union a).Proper := by
  induction bs generalizing a with
  | nil => exact ha
  | cons b bs ih =>
    obtain ⟨hb, hbs⟩ := List.forall_mem_cons.1 hbs
    exact ih (proper_union ha hb) hbs

theorem contains_foldl_union_iff {bs : List Bounds} (ha : a.Proper) (hbs : ∀ b ∈ bs, b.Proper) :
    c.Contains (bs.foldl union a) ↔ c.Contains a ∧ ∀ b ∈ bs, c.Contains b := by
  induction bs generalizing a with
  | nil => simp
  | cons b bs ih =>
    obtain ⟨hb, hbs⟩ := List.forall_mem_cons.1 hbs
    rw [List.foldl_cons, ih (proper_union ha hb) hbs, contains_union_iff ha hb,
      List.forall_mem_cons, and_assoc]

theorem proper_unionAll {bs : List Bounds} (hbs : ∀ b ∈ bs, b.Proper) : (unionAll bs).Proper :=
  proper_foldl_union (.inl rfl) hbs

/-- A box contains the union of a list exactly when it contains each of its members. -/
theorem contains_unionAll_iff {bs : List Bounds} (hbs : ∀ b ∈ bs, b.Proper) :
    c.Contains (unionAll bs) ↔ ∀ b ∈ bs, c.Contains b := by
  rw [unionAll, contains_foldl_union_iff (.inl rfl) hbs, and_iff_right (contains_empty c)]

/-- Union is a join. On the boxes that are empty or go upwards, which are those of finite corners
and extents and kept by union, it is commutative, associative and idempotent, and the empty box is
its unit. The union of a list is the least box that contains every member, and it depends on which
boxes are in the list alone. -/
theorem union_join :
    (∀ origin size : Vec, origin.Finite → size.Finite → (ofOriginSize origin size).Proper) ∧
      (∀ a b : Bounds, a.Proper → b.Proper →
        (a.union b).Proper ∧ (a.union b).Same (b.union a)) ∧
      (∀ a b c : Bounds, a.Proper → b.Proper → c.Proper →
        ((a.union b).union c).Same (a.union (b.union c))) ∧
      (∀ a : Bounds, a.Proper → a.union a = a ∧ empty.union a = a ∧ a.union empty = a) ∧
      ∀ bs : List Bounds, (∀ b ∈ bs, b.Proper) →
        (unionAll bs).Proper ∧
        (∀ b ∈ bs, (unionAll bs).Contains b) ∧
        (∀ c : Bounds, (∀ b ∈ bs, c.Contains b) → c.Contains (unionAll bs)) ∧
        ∀ cs : List Bounds, (∀ b, b ∈ cs ↔ b ∈ bs) → (unionAll cs).Same (unionAll bs) := by
  refine ⟨fun _ _ => proper_ofOriginSize, ?comm, ?assoc,
    fun a ha => ⟨union_self a, empty_union a, union_empty ha⟩, ?list⟩
  case comm =>
    intro a b ha hb
    refine ⟨proper_union ha hb, same_of_contains_iff (proper_union ha hb) (proper_union hb ha) ?_⟩
    intro c
    rw [contains_union_iff ha hb, contains_union_iff hb ha, and_comm]
  case assoc =>
    intro a b c ha hb hc
    have hab := proper_union ha hb
    have hbc := proper_union hb hc
    refine same_of_contains_iff (proper_union hab hc) (proper_union ha hbc) fun d => ?_
    rw [contains_union_iff hab hc, contains_union_iff ha hb, contains_union_iff ha hbc,
      contains_union_iff hb hc, and_assoc]
  case list =>
    intro bs hbs
    refine ⟨proper_unionAll hbs, (contains_unionAll_iff hbs).1 (contains_refl _),
      fun c => (contains_unionAll_iff hbs).2, fun cs hcs => ?_⟩
    have hproper : ∀ b ∈ cs, b.Proper := fun b hb => hbs b ((hcs b).1 hb)
    refine same_of_contains_iff (proper_unionAll hproper) (proper_unionAll hbs) fun c => ?_
    rw [contains_unionAll_iff hproper, contains_unionAll_iff hbs]
    exact forall_congr' fun b => by rw [hcs b]

/-- Two boxes that lie apart, the second with an extent that points backwards, have one box around
them, whatever their order and however often they and the empty box come. -/
theorem union_join_apart :
    let a := ofOriginSize ⟨0, 0, 0⟩ ⟨1, 1, 1⟩
    let b := ofOriginSize ⟨4, -1, 0⟩ ⟨-2, 1, 0.5⟩
    a.Proper ∧ b.Proper ∧ unionAll [a, b] = ⟨⟨0, -1, 0⟩, ⟨4, 1, 1⟩⟩ ∧
      (unionAll [b, empty, a, b]).Same (unionAll [a, b, empty]) ∧
      (unionAll [a, b]).Contains b ∧ ((a.union b).union a).Same (a.union (b.union a)) := by
  intro a b
  have ha : a.Proper := union_join.1 _ _ (by decide) (by decide)
  have hb : b.Proper := union_join.1 _ _ (by decide) (by decide)
  have hempty : empty.Proper := .inl rfl
  have hlist := union_join.2.2.2.2
  have hmem (d : Bounds) : d ∈ [b, empty, a, b] ↔ d ∈ [a, b, empty] := by
    simp only [List.mem_cons, List.not_mem_nil]
    tauto
  exact ⟨ha, hb, by decide +kernel,
    (hlist [a, b, empty] (by simp [ha, hb, hempty])).2.2.2 _ hmem,
    (hlist [a, b] (by simp [ha, hb])).2.1 b (by simp), union_join.2.2.1 a b a ha hb ha⟩

end Bounds

end Parametric
