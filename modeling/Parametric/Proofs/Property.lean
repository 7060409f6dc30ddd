import Parametric.Property

/-!
# Paths and fields

A plain name is one that is not empty and has no dot: the path that it stands for is itself
(`Path.ofString_of_plain`), and every name of a path is plain (`Path.plain_of_mem_ofString`). A
write to a field is read back there and changes no other field (`Fields.get?_put`). Properties can
be compared.
-/

namespace Parametric

namespace Path

/-- A name that is not empty and has no dot. -/
def Plain (name : String) : Prop := name ≠ "" ∧ '.' ∉ name.toList

instance (name : String) : Decidable (Plain name) := inferInstanceAs (Decidable (_ ∧ _))

/-- A name without a dot. -/
def Undotted (name : String) : Prop := '.' ∉ name.toList

instance (name : String) : Decidable (Undotted name) := inferInstanceAs (Decidable (_ ∉ _))

theorem Undotted.eq_empty_or_plain {name : String} (h : Undotted name) :
    name = "" ∨ Plain name :=
  (Classical.em (name = "")).imp_right fun hne => ⟨hne, h⟩

theorem names_of_notMem {cs : List Char} (hcs : '.' ∉ cs) (name : List Char) :
    ofString.names name cs = [String.ofList (name.reverse ++ cs)] := by
  induction cs generalizing name with
  | nil => simp [ofString.names]
  | cons c cs ih =>
    simp only [List.mem_cons, not_or] at hcs
    rw [ofString.names, if_neg (Ne.symm hcs.1), ih hcs.2]
    simp

/-- What stands before the first dot is the first name. -/
theorem names_append {front : List Char} (hfront : '.' ∉ front) (name back : List Char) :
    ofString.names name (front ++ '.' :: back) =
      String.ofList (name.reverse ++ front) :: ofString.names [] back := by
  induction front generalizing name with
  | nil => simp [ofString.names]
  | cons c front ih =>
    simp only [List.mem_cons, not_or] at hfront
    rw [List.cons_append, ofString.names, if_neg (Ne.symm hfront.1), ih hfront.2]
    simp

theorem notMem_of_mem_names {cs name : List Char} (hname : '.' ∉ name) {s : String}
    (hs : s ∈ ofString.names name cs) : '.' ∉ s.toList := by
  induction cs generalizing name with
  | nil =>
    simp only [ofString.names, List.mem_singleton] at hs
    simpa [hs] using hname
  | cons c cs ih =>
    rw [ofString.names] at hs
    split at hs
    · rcases List.mem_cons.1 hs with rfl | hs
      · simpa using hname
      · exact ih (by simp) hs
    next hc => exact ih (by simp [hname, Ne.symm hc]) hs

/-- The names of a path are plain. -/
theorem plain_of_mem_ofString {text name : String} (h : name ∈ ofString text) : Plain name := by
  obtain ⟨hmem, hne⟩ := List.mem_filter.1 h
  exact ⟨by simpa using hne, notMem_of_mem_names (by simp) hmem⟩

/-- A plain name is a path of one name. -/
theorem ofString_of_plain {name : String} (h : Plain name) : ofString name = [name] := by
  rw [ofString, names_of_notMem h.2]
  simp [h.1]

/-- Plain names are the path of the text that they make with dots between them. -/
theorem ofString_text {path : Path} (hpath : ∀ name ∈ path, Plain name) :
    ofString path.text = path := by
  have hnames : ∀ {name : String} {path : Path}, (∀ n ∈ name :: path, Plain n) →
      ofString.names [] (".".intercalate (name :: path)).toList = name :: path := by
    intro name path
    induction path generalizing name with
    | nil =>
      intro h
      have hplain := (h name List.mem_cons_self).2
      rw [String.toList_intercalate]
      simp [names_of_notMem hplain]
    | cons next path ih =>
      intro h
      obtain ⟨hname, hrest⟩ := List.forall_mem_cons.1 h
      have ih := ih hrest
      rw [String.toList_intercalate] at ih ⊢
      have hsplit : ['.'].intercalate ((name :: next :: path).map String.toList) =
          name.toList ++ '.' :: ['.'].intercalate ((next :: path).map String.toList) := by
        rw [List.map_cons, List.map_cons, List.intercalate_cons_cons]
        simp
      have hdot : (".").toList = ['.'] := rfl
      rw [hdot] at ih ⊢
      rw [hsplit, names_append hname.2, ih]
      simp
  cases path with
  | nil => rfl
  | cons name path =>
    unfold ofString text
    rw [hnames hpath]
    exact List.filter_eq_self.2 fun n hn => decide_eq_true (hpath n hn).1

end Path

namespace Fields

/-- A field that was written holds what was written, and the others hold what they did. -/
theorem get?_put (fs : Fields) (name n : String) (p : Property) :
    (fs.put name p).get? n = if name = n then some p else fs.get? n := by
  induction fs with
  | nil => simp [put, get?]
  | cons f fs ih =>
    obtain ⟨m, q⟩ := f
    unfold put
    by_cases hm : m = name
    · subst hm
      rw [if_pos rfl]
      simp only [get?]
      split <;> rfl
    · rw [if_neg hm]
      split
      · simp only [get?]
      · simp only [get?, ih]
        by_cases hn : m = n
        · subst hn
          simp [Ne.symm hm]
        · simp [hn]

end Fields

/-! ## Equality -/

namespace Property

mutual

/-- Whether two properties are equal. -/
def decEq (p q : Property) : Decidable (p = q) :=
  match p, q with
  | leaf v, leaf u => decidable_of_iff (v = u) (by rw [leaf.injEq])
  | record fs, record gs => @decidable_of_iff _ _ (by rw [record.injEq]) (decEqFields fs gs)
  | leaf _, record _ => isFalse Property.noConfusion
  | record _, leaf _ => isFalse Property.noConfusion

/-- Whether two lists of fields are equal. -/
def decEqFields (fs gs : List (String × Property)) : Decidable (fs = gs) :=
  match fs, gs with
  | [], [] => isTrue rfl
  | (m, p) :: fs, (n, q) :: gs =>
    match decEq p q, decEqFields fs gs with
    | isTrue hp, isTrue hfs => decidable_of_iff (m = n) (by simp [hp, hfs])
    | isFalse hp, _ => isFalse (by simp [hp])
    | _, isFalse hfs => isFalse (by simp [hfs])
  | [], _ :: _ => isFalse (by simp)
  | _ :: _, [] => isFalse (by simp)

end

instance : DecidableEq Property := decEq

end Property

end Parametric
