import Mathlib.Data.List.Perm.Basic
import Mathlib.Data.List.Nodup
import Parametric.Entity

/-!
# Lookups in tables

What a table holds after an insertion or a removal, in terms of the equality of keys, and which keys
it has then and how many.
-/

namespace Parametric.Table

variable {κ ν : Type} [Ord κ] [Std.TransOrd κ] [Std.LawfulEqOrd κ] [DecidableEq κ]

theorem getElem?_insert (t : Table κ ν) (k a : κ) (v : ν) :
    (t.insert k v)[a]? = if k = a then some v else t[a]? := by
  simp only [Std.ExtTreeMap.getElem?_insert, Std.LawfulEqCmp.compare_eq_iff_eq]

theorem getElem?_erase (t : Table κ ν) (k a : κ) :
    (t.erase k)[a]? = if k = a then none else t[a]? := by
  simp only [Std.ExtTreeMap.getElem?_erase, Std.LawfulEqCmp.compare_eq_iff_eq]

/-! ## Keys -/

omit [DecidableEq κ] in
theorem mem_keys_iff {t : Table κ ν} {k : κ} : k ∈ t.keys ↔ t[k]?.isSome := by
  rw [Std.ExtTreeMap.mem_keys, Std.ExtTreeMap.mem_iff_isSome_getElem?]

omit [Std.LawfulEqOrd κ] [DecidableEq κ] in
theorem nodup_keys (t : Table κ ν) : t.keys.Nodup := Std.ExtTreeMap.nodup_keys

theorem keys_insert_perm {t : Table κ ν} {k : κ} (h : t[k]? = none) (v : ν) :
    (t.insert k v).keys.Perm (k :: t.keys) := by
  have hk : k ∉ t.keys := by
    rw [mem_keys_iff, h]
    exact Bool.false_ne_true
  refine (List.perm_ext_iff_of_nodup (nodup_keys _) (List.nodup_cons.2 ⟨hk, nodup_keys t⟩)).2 ?_
  intro x
  rw [List.mem_cons, mem_keys_iff, mem_keys_iff, getElem?_insert]
  by_cases hx : k = x
  · simp [hx]
  · simp [hx, Ne.symm hx]

theorem keys_insert_perm_of_some {t : Table κ ν} {k : κ} {v : ν} (h : t[k]? = some v) (v' : ν) :
    (t.insert k v').keys.Perm t.keys := by
  refine (List.perm_ext_iff_of_nodup (nodup_keys _) (nodup_keys t)).2 fun x => ?_
  rw [mem_keys_iff, mem_keys_iff, getElem?_insert]
  by_cases hx : k = x
  · simp [← hx, h]
  · simp [hx]

theorem cons_keys_erase_perm {t : Table κ ν} {k : κ} {v : ν} (h : t[k]? = some v) :
    (k :: (t.erase k).keys).Perm t.keys := by
  have hk : k ∉ (t.erase k).keys := by simp
  refine (List.perm_ext_iff_of_nodup (List.nodup_cons.2 ⟨hk, nodup_keys _⟩) (nodup_keys t)).2 ?_
  intro x
  rw [List.mem_cons, mem_keys_iff, mem_keys_iff, getElem?_erase]
  by_cases hx : k = x
  · simp [← hx, h]
  · simp [hx, Ne.symm hx]

/-! ## Sizes -/

theorem size_insert_of_none {t : Table κ ν} {k : κ} (h : t[k]? = none) (v : ν) :
    (t.insert k v).size = t.size + 1 := by
  have hkeys := (keys_insert_perm h v).length_eq
  rwa [List.length_cons, Std.ExtTreeMap.length_keys, Std.ExtTreeMap.length_keys] at hkeys

theorem size_insert_of_some {t : Table κ ν} {k : κ} {v : ν} (h : t[k]? = some v) (v' : ν) :
    (t.insert k v').size = t.size := by
  have hkeys := (keys_insert_perm_of_some h v').length_eq
  rwa [Std.ExtTreeMap.length_keys, Std.ExtTreeMap.length_keys] at hkeys

theorem size_erase_add_one {t : Table κ ν} {k : κ} {v : ν} (h : t[k]? = some v) :
    (t.erase k).size + 1 = t.size := by
  have hkeys := (cons_keys_erase_perm h).length_eq
  rwa [List.length_cons, Std.ExtTreeMap.length_keys, Std.ExtTreeMap.length_keys] at hkeys

end Parametric.Table
