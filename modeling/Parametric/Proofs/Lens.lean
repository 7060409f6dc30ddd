import Mathlib.Data.String.Basic
import Parametric.Proofs.Property

/-!
# Paths as lenses

A path of names is a lens on properties (`Property.lens_laws`): what is written at a path is read
back there, the last of two writes stands, and a write leaves what is read at a path that parts from
its own. Above the end of the path a write makes records, below it nothing is left. Writes at paths
that part commute.

Reading goes along a path in steps (`lookup_append`), and so does writing: what is read at the front
of a path after a write is what was there, with the rest of the path written (`lookup_set_append`).
Paths that part (`Path.Parts`) part at one of their names, above which the fields of one record are
written in turn (`Fields.put_comm`).
-/

namespace Parametric

namespace Path

/-- Neither of two paths goes on from the other. -/
def Parts (a b : Path) : Prop := ¬a <+: b ∧ ¬b <+: a

instance (a b : Path) : Decidable (Parts a b) := inferInstanceAs (Decidable (_ ∧ _))

theorem not_parts_nil_left (b : Path) : ¬Parts [] b := fun h => h.1 List.nil_prefix

theorem not_parts_nil_right (a : Path) : ¬Parts a [] := fun h => h.2 List.nil_prefix

/-- Paths part at their first names or behind the one that they share. -/
theorem parts_cons {m n : String} {a b : Path} :
    Parts (m :: a) (n :: b) ↔ m ≠ n ∨ m = n ∧ Parts a b := by
  unfold Parts
  rw [List.cons_prefix_cons, List.cons_prefix_cons]
  by_cases h : m = n
  · simp [h]
  · simp [h, Ne.symm h]

end Path

/-! ## Fields -/

namespace Fields

/-- The last of two writes to a field stands. -/
theorem put_put (fs : Fields) (name : String) (p q : Property) :
    (fs.put name p).put name q = fs.put name q := by
  induction fs with
  | nil => simp [put]
  | cons f fs ih =>
    obtain ⟨m, r⟩ := f
    by_cases hm : m = name
    · simp [put, hm]
    · by_cases hlt : name < m
      · simp [put, hm, hlt]
      · simp [put, hm, hlt, ih]

/-- A field is put before the first name that is not less than its own, whatever the other fields
are: so two fields come to their places in any order. -/
theorem put_comm_of_lt (fs : Fields) {m n : String} (h : m < n) (p q : Property) :
    (fs.put m p).put n q = (fs.put n q).put m p := by
  have hne : m ≠ n := ne_of_lt h
  have hnot : ¬n < m := lt_asymm h
  induction fs with
  | nil => simp [put, hne, hne.symm, h, hnot]
  | cons f fs ih =>
    obtain ⟨k, r⟩ := f
    rcases lt_trichotomy k m with hk | rfl | hk
    · have hkn : k < n := hk.trans h
      simp [put, hk.ne, hkn.ne, lt_asymm hk, lt_asymm hkn, ih]
    · simp [put, hne, hnot]
    · rcases lt_trichotomy k n with hkn | rfl | hkn
      · simp [put, hk, hk.ne', hkn.ne, hne, lt_asymm hkn, hnot]
      · simp [put, hk, hk.ne', hne, hnot]
      · simp [put, hk, hk.ne', hkn, hkn.ne', hne, hne.symm, h, hnot]

theorem put_comm (fs : Fields) {m n : String} (h : m ≠ n) (p q : Property) :
    (fs.put m p).put n q = (fs.put n q).put m p := by
  rcases lt_or_gt_of_ne h with hlt | hlt
  · exact put_comm_of_lt fs hlt p q
  · exact (put_comm_of_lt fs hlt q p).symm

end Fields

namespace Property

/-! ## Steps along a path -/

/-- A write changes one field of the record that it makes. -/
theorem field?_set (v : Value) (p : Property) (name n : String) (path : Path) :
    (p.set v (name :: path)).field? n =
      if name = n then some (((p.field? name).getD (record [])).set v path) else p.field? n :=
  Fields.get?_put p.fields name n _

theorem lookup_append (p : Property) (front back : Path) :
    p.lookup (front ++ back) = (p.lookup front).bind (·.lookup back) := by
  induction front generalizing p with
  | nil => rfl
  | cons name front ih =>
    simp only [List.cons_append, lookup, Option.bind_assoc, ih]

theorem lookup_leaf (v : Value) {path : Path} (h : path ≠ []) : (leaf v).lookup path = none := by
  cases path with
  | nil => exact absurd rfl h
  | cons name path => rfl

theorem lookup_empty {path : Path} (h : path ≠ []) : (record []).lookup path = none := by
  cases path with
  | nil => exact absurd rfl h
  | cons name path => rfl

/-- What is missing reads like the empty record that a write would make of it. -/
theorem getD_lookup_bind (o : Option Property) (path : Path) :
    ((o.getD (record [])).lookup path).getD (record []) =
      (o.bind (·.lookup path)).getD (record []) := by
  cases o with
  | some p => rfl
  | none =>
    cases path with
    | nil => rfl
    | cons name path => rfl

/-- After a write, the front of its path leads to what was there with the rest of the path
written. -/
theorem lookup_set_append (v : Value) (p : Property) (front back : Path) :
    (p.set v (front ++ back)).lookup front =
      some (((p.lookup front).getD (record [])).set v back) := by
  induction front generalizing p with
  | nil => rfl
  | cons name front ih =>
    rw [List.cons_append, lookup, field?_set, if_pos rfl, Option.bind_some, ih, getD_lookup_bind,
      lookup]

/-! ## The laws -/

theorem lookup_set_self (v : Value) (p : Property) (path : Path) :
    (p.set v path).lookup path = some (leaf v) := by
  have h := lookup_set_append v p path []
  rwa [List.append_nil] at h

/-- Below the end of its path a write leaves nothing. -/
theorem lookup_set_below (v : Value) (p : Property) (path : Path) {rest : Path} (h : rest ≠ []) :
    (p.set v path).lookup (path ++ rest) = none := by
  rw [lookup_append, lookup_set_self, Option.bind_some, lookup_leaf v h]

/-- Above the end of its path a write leaves records. -/
theorem lookup_set_above (v : Value) (p : Property) (path : Path) {rest : Path} (h : rest ≠ []) :
    ∃ fields, (p.set v (path ++ rest)).lookup path = some (record fields) := by
  rw [lookup_set_append]
  cases rest with
  | nil => exact absurd rfl h
  | cons name rest => exact ⟨_, rfl⟩

theorem lookup_set_of_parts (v : Value) {a b : Path} (h : a.Parts b) (p : Property) :
    (p.set v a).lookup b = p.lookup b := by
  induction a generalizing b p with
  | nil => exact absurd h (Path.not_parts_nil_left b)
  | cons m a ih =>
    cases b with
    | nil => exact absurd h (Path.not_parts_nil_right _)
    | cons n b =>
      rw [lookup, lookup, field?_set]
      rcases Path.parts_cons.1 h with hne | ⟨rfl, hparts⟩
      · rw [if_neg hne]
      · rw [if_pos rfl, Option.bind_some, ih hparts]
        cases p.field? m with
        | some q => rfl
        | none =>
          have hb : b ≠ [] := fun hnil => Path.not_parts_nil_right a (hnil ▸ hparts)
          exact lookup_empty hb

/-- The last of two writes at a path stands. -/
theorem set_set (v w : Value) (p : Property) (path : Path) :
    (p.set v path).set w path = p.set w path := by
  induction path generalizing p with
  | nil => rfl
  | cons name path ih =>
    rw [set, field?_set, if_pos rfl, Option.getD_some, ih, set, set, fields, Fields.put_put]

theorem set_comm (v w : Value) {a b : Path} (h : a.Parts b) (p : Property) :
    (p.set v a).set w b = (p.set w b).set v a := by
  induction a generalizing b p with
  | nil => exact absurd h (Path.not_parts_nil_left b)
  | cons m a ih =>
    cases b with
    | nil => exact absurd h (Path.not_parts_nil_right _)
    | cons n b =>
      rw [set, set.eq_2 v (p.set w (n :: b)), field?_set, field?_set]
      rcases Path.parts_cons.1 h with hne | ⟨rfl, hparts⟩
      · rw [if_neg hne, if_neg hne.symm, set, set, fields, fields, Fields.put_comm _ hne]
      · rw [if_pos rfl, if_pos rfl, Option.getD_some, Option.getD_some, ih hparts, set, set,
          fields, fields, Fields.put_put, Fields.put_put]

/-- Paths are lenses: a write is read back at its path, the last of two writes stands, what is read
at a path that parts from the one written stays, above the end of the path there are records and
below it nothing, and writes at paths that part commute. -/
theorem lens_laws (p : Property) (v w : Value) (a b : Path) :
    (p.set v a).lookup a = some (leaf v) ∧
      (p.set v a).set w a = p.set w a ∧
      (a.Parts b → (p.set v a).lookup b = p.lookup b) ∧
      (b <+: a → b ≠ a → ∃ fields, (p.set v a).lookup b = some (record fields)) ∧
      (a <+: b → b ≠ a → (p.set v a).lookup b = none) ∧
      (a.Parts b → (p.set v a).set w b = (p.set w b).set v a) := by
  refine ⟨lookup_set_self v p a, set_set v w p a, fun h => lookup_set_of_parts v h p, ?above,
    ?below, fun h => set_comm v w h p⟩
  case above =>
    rintro ⟨rest, rfl⟩ hne
    exact lookup_set_above v p b fun h => hne (by rw [h, List.append_nil])
  case below =>
    rintro ⟨rest, rfl⟩ hne
    exact lookup_set_below v p a fun h => hne (by rw [h, List.append_nil])

/-- A write below the value at `a.b` makes a record of it, and the field beside it stays. -/
theorem lens_laws_below_value :
    let p := record [("a", record [("b", leaf (.bool true)), ("d", leaf (.string "left"))])]
    let q := p.set (.bool false) ["a", "b", "c"]
    q.lookup ["a", "d"] = p.lookup ["a", "d"] ∧
      (∃ fields, q.lookup ["a", "b"] = some (record fields)) ∧
      q.lookup ["a", "b", "c", "e"] = none ∧
      q.set (.string "right") ["a", "d"] =
        (p.set (.string "right") ["a", "d"]).set (.bool false) ["a", "b", "c"] := by
  intro p q
  have hside := lens_laws p (.bool false) (.string "right") ["a", "b", "c"] ["a", "d"]
  have habove := lens_laws p (.bool false) (.bool false) ["a", "b", "c"] ["a", "b"]
  have hbelow := lens_laws p (.bool false) (.bool false) ["a", "b", "c"] ["a", "b", "c", "e"]
  exact ⟨hside.2.2.1 (by decide), habove.2.2.2.1 (by decide) (by decide),
    hbelow.2.2.2.2.1 (by decide) (by decide), hside.2.2.2.2.2 (by decide)⟩

end Property

end Parametric
