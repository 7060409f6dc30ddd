import Parametric.Cache
import Parametric.Proofs.Table

/-!
# What a cache holds

Nothing gets into a cache but what is inserted: a property of all entries is kept by every operation
(`Cache.Holds`), and what is found has it.
-/

namespace Parametric.Cache

variable {κ ν : Type} [Ord κ] [Std.TransOrd κ] {P : κ → ν → Prop} {c : Cache κ ν}

/-- All entries have a property. -/
def Holds (P : κ → ν → Prop) (c : Cache κ ν) : Prop :=
  ∀ (key : κ) (e : Cached ν), c.entries[key]? = some e → P key e.value

theorem Holds.new (life capacity : Nat) : Holds P (new life capacity : Cache κ ν) := by
  intro key e he
  simp [Cache.new] at he

theorem Holds.of_subset {c' : Cache κ ν} (h : c.Holds P)
    (hsub : ∀ (key : κ) (e : Cached ν), c'.entries[key]? = some e → c.entries[key]? = some e) :
    c'.Holds P :=
  fun key e he => h key e (hsub key e he)

theorem Holds.clear (c : Cache κ ν) : c.clear.Holds P := by
  intro key e he
  simp [Cache.clear] at he

variable [DecidableEq κ]

/-- A key that is not in the cache is not found. -/
theorem get_of_eq_none {key : κ} (h : c.entries[key]? = none) (now : Nat) :
    c.get key now = (none, { c with misses := c.misses + 1 }) := by
  simp only [get, h]

variable [Std.LawfulEqOrd κ]

theorem Holds.remove (h : c.Holds P) (key : κ) : (c.remove key).2.Holds P := by
  unfold Cache.remove
  split
  · exact h
  · refine h.of_subset fun k e he => ?_
    rw [Table.getElem?_erase] at he
    split at he
    · cases he
    · exact he

theorem Holds.get (h : c.Holds P) (key : κ) (now : Nat) :
    (c.get key now).2.Holds P ∧ ∀ v, (c.get key now).1 = some v → P key v := by
  unfold Cache.get
  cases he : c.entries[key]? with
  | none => exact ⟨h, fun v hv => by cases hv⟩
  | some e =>
    dsimp only
    split
    · exact ⟨h.remove key, fun v hv => by cases hv⟩
    · refine ⟨h, fun v hv => ?_⟩
      cases hv
      exact h key e he

theorem makeRoom_subset (capacity : Nat) (order : List κ) (entries : Table κ (Cached ν)) (key : κ)
    (e : Cached ν) (he : (makeRoom capacity entries order).1[key]? = some e) :
    entries[key]? = some e := by
  induction order generalizing entries with
  | nil => exact he
  | cons k order ih =>
    unfold makeRoom at he
    split at he
    · exact he
    · have hrest := ih _ he
      rw [Table.getElem?_erase] at hrest
      split at hrest
      · cases hrest
      · exact hrest

theorem Holds.insert (h : c.Holds P) {key : κ} {v : ν} (hv : P key v) (now : Nat) :
    (c.insert key v now).Holds P := by
  intro k e he
  have hsub : ∀ entries : Table κ (Cached ν),
      (∀ (k : κ) (e : Cached ν), entries[k]? = some e → c.entries[k]? = some e) →
      (entries.insert key ⟨v, now⟩)[k]? = some e → P k e.value := by
    intro entries hentries hk
    rw [Table.getElem?_insert] at hk
    split at hk
    next heq =>
      cases hk
      exact heq ▸ hv
    next => exact h k e (hentries k e hk)
  by_cases hkey : c.entries.contains key
  · simp only [Cache.insert, hkey, if_true] at he
    exact hsub _ (fun _ _ h => h) he
  · simp only [Cache.insert, hkey] at he
    exact hsub _ (makeRoom_subset c.capacity c.order c.entries) he

omit [DecidableEq κ] in
theorem getElem?_dropOwner [Owned κ] (c : Cache κ ν) (object : ObjectId) (key : κ) :
    (c.dropOwner object).2.entries[key]? =
      if Owned.owner key = object then none else c.entries[key]? := by
  unfold dropOwner
  dsimp only
  rw [Std.ExtTreeMap.getElem?_filter']
  by_cases hkey : Owned.owner key = object
  · simp [hkey]
  · cases c.entries[key]? <;> simp [hkey]

omit [DecidableEq κ] in
theorem Holds.dropOwner [Owned κ] (h : c.Holds P) (object : ObjectId) :
    (c.dropOwner object).2.Holds P := by
  refine h.of_subset fun key e he => ?_
  rw [getElem?_dropOwner] at he
  split at he
  · cases he
  · exact he

end Parametric.Cache
