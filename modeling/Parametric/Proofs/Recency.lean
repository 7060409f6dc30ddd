import Parametric.Formula.Function
import Parametric.Proofs.Cache

/-!
# Caches as lists by recency

A `Cache.Recency` is a cache in its plainest form: one list of keys with what is stored for them,
the key that was used least recently first, and no longer than the capacity. A cache answers as such
a list whatever is done with it and whatever the clock shows, and its table and its order hold the
same keys (`answers_by_recency`), because each operation keeps the cache listed by the list
(`Cache.Lists`).
-/

namespace Parametric.Cache

/-- The entries of a cache, the one used least recently first, and its counts. -/
structure Recency (κ ν : Type) where
  life : Nat
  capacity : Nat
  entries : List (κ × Cached ν) := []
  hits : Nat := 0
  misses : Nat := 0

namespace Recency

variable {κ ν : Type}

def keys (l : Recency κ ν) : List κ := l.entries.map Prod.fst

/-- An empty list that has room for one entry at least. -/
def new (life capacity : Nat) : Recency κ ν := { life, capacity := max capacity 1 }

/-- Drop the entries of an object: how many they were, and the list without them. -/
def dropOwner [Owned κ] (l : Recency κ ν) (object : ObjectId) : Nat × Recency κ ν :=
  (l.entries.countP (Owned.owner ·.1 = object),
    { l with entries := l.entries.filter (Owned.owner ·.1 ≠ object) })

/-- Drop all entries; the counts stay. -/
def clear (l : Recency κ ν) : Recency κ ν := { l with entries := [] }

variable [DecidableEq κ]

/-- What is stored for a key. -/
def find? (l : Recency κ ν) (key : κ) : Option (Cached ν) := l.entries.lookup key

/-- The entries of all other keys. -/
def others (l : Recency κ ν) (key : κ) : List (κ × Cached ν) := l.entries.filter (·.1 ≠ key)

/-- Put a key with its value at the most recent end. Only a new key in a full list drops the least
recent entry, whether or not that is gone. -/
def insert (l : Recency κ ν) (key : κ) (value : ν) (now : Nat) : Recency κ ν :=
  let kept :=
    if key ∈ l.keys then l.others key
    else if l.entries.length < l.capacity then l.entries
    else l.entries.tail
  { l with entries := kept ++ [(key, ⟨value, now⟩)] }

/-- Look a key up. An entry that is younger than the life of entries goes to the most recent end, an
older one is dropped. -/
def get (l : Recency κ ν) (key : κ) (now : Nat) : Option ν × Recency κ ν :=
  match l.find? key with
  | none => (none, { l with misses := l.misses + 1 })
  | some e =>
    if now - e.storedAt < l.life then
      (some e.value, { l with entries := l.others key ++ [(key, e)], hits := l.hits + 1 })
    else (none, { l with entries := l.others key, misses := l.misses + 1 })

/-- Drop an entry: its value, and the list without it. -/
def remove (l : Recency κ ν) (key : κ) : Option ν × Recency κ ν :=
  ((l.find? key).map Cached.value, { l with entries := l.others key })

end Recency

/-! ## Operations -/

/-- An operation on a cache, with the reading of the clock where it takes one. -/
inductive Op (κ ν : Type)
  | insert (key : κ) (value : ν) (now : Nat)
  | get (key : κ) (now : Nat)
  | remove (key : κ)
  | dropOwner (object : ObjectId)
  | clear

/-- What an operation answers. -/
inductive Answer (ν : Type)
  | done
  | value (v : Option ν)
  | count (n : Nat)
deriving DecidableEq

/-- What shows of an operation: its answer, and the number of entries and the counts after it. -/
structure Shown (ν : Type) where
  answer : Answer ν
  size : Nat
  hits : Nat
  misses : Nat
deriving DecidableEq

namespace Op

variable {κ ν : Type} [Owned κ] [DecidableEq κ]

def onCache [Ord κ] [Std.TransOrd κ] (c : Cache κ ν) (op : Op κ ν) : Shown ν × Cache κ ν :=
  let (answer, c) : Answer ν × Cache κ ν := match op with
    | insert key value now => (.done, c.insert key value now)
    | get key now => ((c.get key now).map .value id)
    | remove key => ((c.remove key).map .value id)
    | dropOwner object => ((c.dropOwner object).map .count id)
    | clear => (.done, c.clear)
  (⟨answer, c.size, c.hits, c.misses⟩, c)

def onRecency (l : Recency κ ν) (op : Op κ ν) : Shown ν × Recency κ ν :=
  let (answer, l) : Answer ν × Recency κ ν := match op with
    | insert key value now => (.done, l.insert key value now)
    | get key now => ((l.get key now).map .value id)
    | remove key => ((l.remove key).map .value id)
    | dropOwner object => ((l.dropOwner object).map .count id)
    | clear => (.done, l.clear)
  (⟨answer, l.entries.length, l.hits, l.misses⟩, l)

/-- Carry operations out: what shows of each of them, and the state after them. -/
def run {τ : Type} (step : τ → Op κ ν → Shown ν × τ) : List (Op κ ν) → τ → List (Shown ν) × τ
  | [], s => ([], s)
  | op :: ops, s =>
    let (shown, s) := step s op
    (run step ops s).map (shown :: ·) id

end Op

/-! ## Lists of entries -/

section

variable {κ ν : Type} {es : List (κ × Cached ν)} {key : κ}

theorem map_fst_filter (p : κ → Bool) :
    (es.filter (p ·.1)).map Prod.fst = (es.map Prod.fst).filter p := by
  rw [List.filter_map]
  rfl

variable [DecidableEq κ]

theorem lookup_cons (e : κ × Cached ν) :
    (e :: es).lookup key = if e.1 = key then some e.2 else es.lookup key := by
  rw [List.lookup_cons]
  by_cases h : e.1 = key
  · simp [h]
  · simp [h, beq_false_of_ne (Ne.symm h)]

theorem isSome_lookup_iff : (es.lookup key).isSome ↔ key ∈ es.map Prod.fst := by
  induction es with
  | nil => simp
  | cons e es ih =>
    rw [lookup_cons, List.map_cons, List.mem_cons, ← ih]
    by_cases h : e.1 = key
    · simp [h]
    · simp [h, Ne.symm h]

/-- Entries that are dropped by their keys are not found any more, and all others are. -/
theorem lookup_filter (p : κ → Bool) :
    (es.filter (p ·.1)).lookup key = if p key then es.lookup key else none := by
  induction es with
  | nil => simp
  | cons e es ih => by_cases he : p e.1 <;> by_cases hkey : e.1 = key <;> simp_all [lookup_cons]

theorem filter_ne_of_notMem (h : key ∉ es.map Prod.fst) : es.filter (·.1 ≠ key) = es :=
  List.filter_eq_self.2 fun e he => decide_eq_true fun heq => h (List.mem_map.2 ⟨e, he, heq⟩)

theorem lookup_concat (e : κ × Cached ν) :
    (es ++ [e]).lookup key = (es.lookup key).or (if e.1 = key then some e.2 else none) := by
  rw [List.lookup_append, lookup_cons, List.lookup_nil]

end

/-! ## Caches and lists -/

section

variable {κ ν : Type} [Ord κ] [Std.TransOrd κ]

theorem makeRoom_of_lt {capacity : Nat} {entries : Table κ (Cached ν)}
    (h : entries.size < capacity) (order : List κ) :
    makeRoom capacity entries order = (entries, order) := by
  cases order <;> simp [makeRoom, h]

variable [DecidableEq κ]

/-- A cache holds the entries of a list, in its order, and has its counts. -/
structure Lists (c : Cache κ ν) (l : Recency κ ν) : Prop where
  life : c.life = l.life
  capacity : c.capacity = l.capacity
  room : 0 < l.capacity
  length : l.entries.length ≤ l.capacity
  order : c.order = l.keys
  nodup : l.keys.Nodup
  entries : ∀ key, c.entries[key]? = l.find? key
  hits : c.hits = l.hits
  misses : c.misses = l.misses

namespace Lists

variable {c : Cache κ ν} {l : Recency κ ν} {key : κ}

theorem new (life capacity : Nat) :
    Lists (new life capacity : Cache κ ν) (.new life capacity) where
  life := rfl
  capacity := rfl
  room := Nat.lt_of_lt_of_le Nat.zero_lt_one (Nat.le_max_right capacity 1)
  length := Nat.zero_le _
  order := rfl
  nodup := List.nodup_nil
  entries _ := Std.ExtTreeMap.getElem?_empty
  hits := rfl
  misses := rfl

theorem mem_keys_iff (h : Lists c l) : key ∈ l.keys ↔ (c.entries[key]?).isSome := by
  rw [h.entries, Recency.find?, isSome_lookup_iff]
  rfl

/-- The counts may change in step. -/
theorem count (h : Lists c l) (hits misses : Nat) :
    Lists { c with hits := c.hits + hits, misses := c.misses + misses }
      { l with hits := l.hits + hits, misses := l.misses + misses } :=
  { h with hits := by rw [h.hits], misses := by rw [h.misses] }

/-- Entries may be dropped by their keys. -/
theorem filter (h : Lists c l) (p : κ → Bool) {entries : Table κ (Cached ν)}
    (hentries : ∀ key, entries[key]? = if p key then c.entries[key]? else none) :
    Lists { c with entries, order := c.order.filter p }
      { l with entries := l.entries.filter (p ·.1) } where
  life := h.life
  capacity := h.capacity
  room := h.room
  length := Nat.le_trans (List.length_filter_le _ _) h.length
  order := by rw [h.order, Recency.keys, Recency.keys, map_fst_filter]
  nodup := by
    rw [Recency.keys, map_fst_filter]
    exact h.nodup.filter p
  entries key := by
    show entries[key]? = (l.entries.filter (p ·.1)).lookup key
    rw [hentries, h.entries, lookup_filter, Recency.find?]
  hits := h.hits
  misses := h.misses

theorem clear (h : Lists c l) : Lists c.clear l.clear where
  life := h.life
  capacity := h.capacity
  room := h.room
  length := Nat.zero_le _
  order := rfl
  nodup := List.nodup_nil
  entries _ := Std.ExtTreeMap.getElem?_empty
  hits := h.hits
  misses := h.misses

theorem length_others_lt (h : Lists c l) (hkey : key ∈ l.keys) :
    (l.others key).length < l.capacity := by
  obtain ⟨e, he, rfl⟩ := List.mem_map.1 hkey
  have hlt : (l.others e.1).length < l.entries.length :=
    List.length_filter_lt_length_iff_exists.2 ⟨e, he, by simp⟩
  exact Nat.lt_of_lt_of_le hlt h.length

variable [Std.LawfulEqOrd κ]

theorem size (h : Lists c l) : c.entries.size = l.entries.length := by
  have hperm : c.entries.keys.Perm l.keys :=
    (List.perm_ext_iff_of_nodup (Table.nodup_keys _) h.nodup).2 fun key => by
      rw [Table.mem_keys_iff, h.mem_keys_iff]
  have hlength := hperm.length_eq
  rwa [Std.ExtTreeMap.length_keys, Recency.keys, List.length_map] at hlength

/-- A key that is not there may come to the most recent end if there is room. -/
theorem concat (h : Lists c l) (hkey : key ∉ l.keys) (hroom : l.entries.length < l.capacity)
    (e : Cached ν) :
    Lists { c with entries := c.entries.insert key e, order := c.order ++ [key] }
      { l with entries := l.entries ++ [(key, e)] } where
  life := h.life
  capacity := h.capacity
  room := h.room
  length := by
    rw [List.length_append, List.length_singleton]
    exact hroom
  order := by simp [h.order, Recency.keys]
  nodup := by
    have hnodup : (l.keys ++ [key]).Nodup :=
      List.nodup_append_comm.1 (by simpa [hkey] using h.nodup)
    simpa [Recency.keys] using hnodup
  entries x := by
    show (c.entries.insert key e)[x]? = (l.entries ++ [(key, e)]).lookup x
    rw [Table.getElem?_insert, lookup_concat, h.entries]
    by_cases hx : key = x
    · subst hx
      have hnone : l.entries.lookup key = none := by
        rw [← Option.not_isSome_iff_eq_none, isSome_lookup_iff]
        exact hkey
      rw [if_pos rfl, if_pos rfl, hnone, Option.none_or]
    · rw [if_neg hx, if_neg hx, Option.or_none]
      rfl
  hits := h.hits
  misses := h.misses

/-- The entry of a key is dropped. -/
theorem others (h : Lists c l) (key : κ) :
    Lists { c with entries := c.entries.erase key, order := c.order.filter (· ≠ key) }
      { l with entries := l.others key } := by
  refine h.filter (· ≠ key) fun x => ?_
  rw [Table.getElem?_erase]
  by_cases hx : key = x <;> simp [hx, Ne.symm]

/-- A key that is there moves to the most recent end, with what is stored for it now. -/
theorem refresh (h : Lists c l) (hkey : key ∈ l.keys) (e : Cached ν) :
    Lists { c with entries := c.entries.insert key e, order := c.order.filter (· ≠ key) ++ [key] }
      { l with entries := l.others key ++ [(key, e)] } := by
  have hgone : key ∉ ({ l with entries := l.others key } : Recency κ ν).keys := by
    simp [Recency.keys, Recency.others]
  have hmoved := (h.others key).concat hgone (h.length_others_lt hkey) e
  have herase : (c.entries.erase key).insert key e = c.entries.insert key e := by
    ext1 x
    simp only [Table.getElem?_insert, Table.getElem?_erase]
    split <;> rfl
  rwa [← herase]

/-! ### One operation -/

theorem remove (h : Lists c l) (key : κ) :
    (c.remove key).1 = (l.remove key).1 ∧ Lists (c.remove key).2 (l.remove key).2 := by
  have hothers := h.others key
  unfold Cache.remove Recency.remove
  rw [← h.entries]
  cases he : c.entries[key]? with
  | some e => exact ⟨rfl, hothers⟩
  | none =>
    refine ⟨rfl, ?_⟩
    have hkey : key ∉ l.keys := by simp [h.mem_keys_iff, he]
    rwa [Recency.others, filter_ne_of_notMem hkey]

theorem get (h : Lists c l) (key : κ) (now : Nat) :
    (c.get key now).1 = (l.get key now).1 ∧ Lists (c.get key now).2 (l.get key now).2 := by
  have hlife := h.life
  unfold Cache.get Recency.get
  rw [← h.entries]
  cases he : c.entries[key]? with
  | none => exact ⟨rfl, h.count 0 1⟩
  | some e =>
    have hkey : key ∈ l.keys := by simp [h.mem_keys_iff, he]
    have hremove := (h.remove key).2
    dsimp only
    by_cases hage : now - e.storedAt < l.life
    · rw [if_neg (by omega), if_pos hage]
      have hsame : c.entries.insert key e = c.entries := by
        ext1 x
        rw [Table.getElem?_insert]
        split
        next hx => rw [← hx, he]
        next => rfl
      have hrefresh := (h.refresh hkey e).count 1 0
      rw [hsame] at hrefresh
      exact ⟨rfl, hrefresh⟩
    · rw [if_pos (by omega), if_neg hage]
      exact ⟨rfl, hremove.count 0 1⟩

/-- In a full list the least recent entry makes room. -/
theorem makeRoom_of_full (h : Lists c l) {e : κ × Cached ν} {es : List (κ × Cached ν)}
    (hentries : l.entries = e :: es) (hfull : l.capacity ≤ l.entries.length) :
    Cache.makeRoom c.capacity c.entries c.order = (c.entries.erase e.1, es.map Prod.fst) ∧
      Lists { c with entries := c.entries.erase e.1, order := es.map Prod.fst }
        { l with entries := es } := by
  have horder : c.order = e.1 :: es.map Prod.fst := by rw [h.order, Recency.keys, hentries]; rfl
  have hfirst : e.1 ∉ es.map Prod.fst := (List.nodup_cons.1 (horder ▸ h.order ▸ h.nodup)).1
  have hothers := h.others e.1
  have htail : l.others e.1 = es := by
    rw [Recency.others, hentries, List.filter_cons_of_neg (by simp), filter_ne_of_notMem hfirst]
  rw [htail] at hothers
  have hrest : c.order.filter (· ≠ e.1) = es.map Prod.fst := hothers.order
  rw [hrest] at hothers
  have hsize : (c.entries.erase e.1).size = es.length := hothers.size
  have hcapacity := h.capacity
  have hle := h.length
  rw [hentries, List.length_cons] at hle hfull
  refine ⟨?_, hothers⟩
  rw [horder, Cache.makeRoom, if_neg, makeRoom_of_lt]
  · omega
  · rw [h.size, hentries, List.length_cons]
    omega

/-- At most the least recent entry makes room. -/
theorem makeRoom (h : Lists c l) :
    ∃ entries order, Cache.makeRoom c.capacity c.entries c.order = (entries, order) ∧
      Lists { c with entries, order }
        { l with entries :=
            if l.entries.length < l.capacity then l.entries else l.entries.tail } := by
  by_cases hroom : l.entries.length < l.capacity
  · rw [if_pos hroom]
    exact ⟨_, _, makeRoom_of_lt (by rw [h.size, h.capacity]; exact hroom) _, h⟩
  · rw [if_neg hroom]
    have hpos := h.room
    cases hentries : l.entries with
    | nil =>
      rw [hentries, List.length_nil] at hroom
      omega
    | cons e es => exact ⟨_, _, h.makeRoom_of_full hentries (Nat.le_of_not_lt hroom)⟩

theorem insert (h : Lists c l) (key : κ) (value : ν) (now : Nat) :
    Lists (c.insert key value now) (l.insert key value now) := by
  have hcontains : c.entries.contains key ↔ key ∈ l.keys := by
    rw [Std.ExtTreeMap.contains_eq_isSome_getElem?, h.mem_keys_iff]
  unfold Cache.insert Recency.insert
  by_cases hkey : key ∈ l.keys
  · rw [if_pos (hcontains.2 hkey), if_pos hkey]
    exact h.refresh hkey _
  · rw [if_neg (mt hcontains.1 hkey), if_neg hkey]
    obtain ⟨entries, order, hroom, hlists⟩ := h.makeRoom
    rw [hroom]
    have hlt : (if l.entries.length < l.capacity then l.entries else l.entries.tail).length <
        l.capacity := by
      have hpos := h.room
      have hle := h.length
      split
      · assumption
      · rw [List.length_tail]
        omega
    refine hlists.concat (fun hmem => hkey ?_) hlt _
    obtain ⟨e, he, heq⟩ := List.mem_map.1 hmem
    refine List.mem_map.2 ⟨e, ?_, heq⟩
    split at he
    · exact he
    · exact List.mem_of_mem_tail he

theorem dropOwner [Owned κ] (h : Lists c l) (object : ObjectId) :
    (c.dropOwner object).1 = (l.dropOwner object).1 ∧
      Lists (c.dropOwner object).2 (l.dropOwner object).2 := by
  have hkept : Lists (c.dropOwner object).2 (l.dropOwner object).2 := by
    refine h.filter (Owned.owner · ≠ object) fun key => ?_
    refine (getElem?_dropOwner c object key).trans ?_
    by_cases hkey : Owned.owner key = object <;> simp [hkey]
  refine ⟨?_, hkept⟩
  -- What is left and what is dropped add up to what was there.
  have hparts := List.length_eq_length_filter_add (l := l.entries)
    fun e => decide (Owned.owner e.1 = object)
  have hsize : (c.dropOwner object).2.entries.size = (l.dropOwner object).2.entries.length :=
    hkept.size
  have hsize' := h.size
  unfold Cache.dropOwner Recency.dropOwner at hsize ⊢
  dsimp only at hsize ⊢
  rw [hsize, hsize', List.countP_eq_length_filter, hparts]
  simp

variable [Owned κ]

theorem onCache (h : Lists c l) (op : Op κ ν) :
    (Op.onCache c op).1 = (Op.onRecency l op).1 ∧
      Lists (Op.onCache c op).2 (Op.onRecency l op).2 := by
  have hshown : ∀ {answer answer' : Answer ν} {c' : Cache κ ν} {l' : Recency κ ν},
      answer = answer' → Lists c' l' →
      (⟨answer, c'.size, c'.hits, c'.misses⟩ : Shown ν) =
        ⟨answer', l'.entries.length, l'.hits, l'.misses⟩ ∧ Lists c' l' := by
    rintro answer _ c' l' rfl h'
    exact ⟨by rw [Cache.size, h'.size, h'.hits, h'.misses], h'⟩
  cases op with
  | insert key value now => exact hshown rfl (h.insert key value now)
  | get key now =>
    obtain ⟨hvalue, hlists⟩ := h.get key now
    exact hshown (congrArg Answer.value hvalue) hlists
  | remove key =>
    obtain ⟨hvalue, hlists⟩ := h.remove key
    exact hshown (congrArg Answer.value hvalue) hlists
  | dropOwner object =>
    obtain ⟨hcount, hlists⟩ := h.dropOwner object
    exact hshown (congrArg Answer.count hcount) hlists
  | clear => exact hshown rfl h.clear

theorem run (h : Lists c l) (ops : List (Op κ ν)) :
    (Op.run Op.onCache ops c).1 = (Op.run Op.onRecency ops l).1 ∧
      Lists (Op.run Op.onCache ops c).2 (Op.run Op.onRecency ops l).2 := by
  induction ops generalizing c l with
  | nil => exact ⟨rfl, h⟩
  | cons op ops ih =>
    obtain ⟨hshown, hstep⟩ := h.onCache op
    obtain ⟨hrest, hlast⟩ := ih hstep
    exact ⟨congr (congrArg List.cons hshown) hrest, hlast⟩

end Lists

omit [Ord κ] [Std.TransOrd κ] in
theorem Op.capacity_run [Owned κ] (ops : List (Op κ ν)) (l : Recency κ ν) :
    (run onRecency ops l).2.capacity = l.capacity := by
  induction ops generalizing l with
  | nil => rfl
  | cons op ops ih =>
    refine (ih (onRecency l op).2).trans ?_
    cases op with
    | get key now =>
      simp only [onRecency, Recency.get]
      split
      · rfl
      · split <;> rfl
    | _ => rfl

/-- A cache shows what a list by recency shows, operation by operation, whatever the readings of the
clock are: the answers, the number of entries and the counts. Its table and its order then hold the
keys of the list, each of them once and never more than there is room for. -/
theorem answers_by_recency [Std.LawfulEqOrd κ] [Owned κ] (life capacity : Nat)
    (ops : List (Op κ ν)) :
    let c := (Op.run Op.onCache ops (new life capacity)).2
    let l := (Op.run Op.onRecency ops (.new life capacity)).2
    (Op.run Op.onCache ops (new life capacity)).1 =
        (Op.run Op.onRecency ops (.new life capacity)).1 ∧
      c.order = l.keys ∧ c.order.Nodup ∧ c.order.length ≤ max capacity 1 ∧
      (∀ key, key ∈ c.order ↔ (c.entries[key]?).isSome) ∧
      ∀ key, c.entries[key]? = l.find? key := by
  intro c l
  obtain ⟨hshown, h⟩ := (Lists.new life capacity).run ops
  have hlength : c.order.length ≤ max capacity 1 := by
    have hle := h.length
    rw [Op.capacity_run] at hle
    rw [h.order, Recency.keys, List.length_map]
    exact hle
  refine ⟨hshown, h.order, h.order ▸ h.nodup, hlength, fun key => ?_, h.entries⟩
  rw [h.order]
  exact h.mem_keys_iff

/-- In a cache for two entries that live for ten ticks: what was looked up stays when a third key
comes, an entry that is stored again begins a new life, and one from the future is of age zero. -/
theorem entries_by_recency :
    let key (object : ObjectId) : QueryKey := ⟨object, .childCount, none⟩
    let ops : List (Op QueryKey Nat) :=
      [.insert (key "a") 1 0, .insert (key "b") 2 5, .get (key "a") 9, .insert (key "c") 3 20,
        .get (key "b") 20, .get (key "a") 20, .get (key "c") 3, .insert (key "c") 4 8,
        .insert (key "a") 5 8, .get (key "c") 17, .get (key "a") 18, .dropOwner "c", .clear,
        .remove (key "c")]
    (Op.run Op.onCache ops (new 10 2)).1 = (Op.run Op.onRecency ops (.new 10 2)).1 ∧
      (Op.run Op.onCache ops (new 10 2)).1 =
        [⟨.done, 1, 0, 0⟩, ⟨.done, 2, 0, 0⟩, ⟨.value (some 1), 2, 1, 0⟩, ⟨.done, 2, 1, 0⟩,
          ⟨.value none, 2, 1, 1⟩, ⟨.value none, 1, 1, 2⟩, ⟨.value (some 3), 1, 2, 2⟩,
          ⟨.done, 1, 2, 2⟩, ⟨.done, 2, 2, 2⟩, ⟨.value (some 4), 2, 3, 2⟩,
          ⟨.value none, 1, 3, 3⟩, ⟨.count 1, 0, 3, 3⟩, ⟨.done, 0, 3, 3⟩,
          ⟨.value none, 0, 3, 3⟩] := by
  intro key ops
  exact ⟨(answers_by_recency 10 2 ops).1, by decide +kernel⟩

end

end Parametric.Cache
