import Parametric.Proofs.Update.Ledger

/-!
# The storage of a queue

The numbers in the bands are those of the waiting requests, each once in the band of its priority,
and those that were left behind (`storage_eq`). In a `Tallied` queue the count of stale numbers is
that of the numbers left behind, and it is no greater than that of the requests. Every operation
keeps this (`Tallied.onQueue`), and so does each number that a pop passes over, so that the count is
never lowered when it is zero: a pop that checks this answers like one that does not
(`Tallied.pop`).
-/

namespace Parametric

namespace Bands

theorem get_set_self (b : Bands) (p : Priority) : b.set p (b.get p) = b := by
  cases p <;> rfl

theorem set_set (b : Bands) (p : Priority) (ids ids' : List RequestId) :
    (b.set p ids).set p ids' = b.set p ids' := by
  cases p <;> rfl

theorem size_set (b : Bands) (p : Priority) (ids : List RequestId) :
    (b.set p ids).size + (b.get p).length = b.size + ids.length := by
  cases p <;> simp only [set, get, size] <;> omega

theorem size_push (b : Bands) (p : Priority) (id : RequestId) :
    (b.push p id).size = b.size + 1 := by
  have hset := b.size_set p (b.get p ++ [id])
  rw [List.length_append, List.length_singleton] at hset
  rw [push]
  omega

theorem size_set_cons (b : Bands) (p : Priority) (id : RequestId) (ids : List RequestId) :
    (b.set p (id :: ids)).size = (b.set p ids).size + 1 := by
  have hcons := b.size_set p (id :: ids)
  have hrest := b.size_set p ids
  rw [List.length_cons] at hcons
  omega

theorem size_pos_of_mem {b : Bands} {p : Priority} {id : RequestId} (h : id ∈ b.get p) :
    0 < b.size := by
  have hlength := List.length_pos_of_mem h
  cases p <;> simp only [get] at hlength <;> simp only [size] <;> omega

/-- Every number satisfies the condition of its band or does not. -/
theorem size_eq_filter_add (b : Bands) (keep : Priority → RequestId → Bool) :
    b.size = (b.filter keep).size + (b.filter fun p id => !keep p id).size := by
  have hband := fun p => List.length_eq_length_filter_add (l := b.get p) (keep p)
  have himmediate := hband .immediate
  have hhigh := hband .high
  have hnormal := hband .normal
  have hlow := hband .low
  have hbatch := hband .batch
  simp only [get] at himmediate hhigh hnormal hlow hbatch
  simp only [size, filter]
  omega

theorem filter_filter_self (b : Bands) (keep : Priority → RequestId → Bool) :
    (b.filter keep).filter keep = b.filter keep := by
  simp only [filter, List.filter_filter, Bool.and_self]

end Bands

namespace Queue

variable {q : Queue} {p : Priority} {id : RequestId} {t : Entity} {r : Request}

/-! ## Numbers that wait and numbers left behind -/

/-- The count of the numbers in the bands that no request waits under there. -/
def leftovers (q : Queue) : Nat := (q.bands.filter fun p id => !q.isLive p id).size

theorem isLive_iff : q.isLive p id ↔ ∃ r, q.requests[id]? = some r ∧ r.priority = p := by
  rw [isLive_eq, Option.isSome_iff_exists]
  exact exists_congr fun r => standing?_eq_some_iff

theorem length_filter_isLive (hb : q.Banded) (p : Priority) :
    ((q.bands.get p).filter (q.isLive p)).length = q.bandSize p := by
  have hkeys : ((q.requests.toList.filter (·.2.priority = p)).map Prod.fst).Nodup := by
    refine List.Nodup.sublist (List.filter_sublist.map _) ?_
    rw [Std.ExtTreeMap.map_fst_toList_eq_keys]
    exact Table.nodup_keys _
  have hperm : ((q.bands.get p).filter (q.isLive p)).Perm
      ((q.requests.toList.filter (·.2.priority = p)).map Prod.fst) := by
    refine (List.perm_ext_iff_of_nodup ((hb.nodup p).filter _) hkeys).2 fun id => ?_
    rw [List.mem_filter, isLive_iff, List.mem_map]
    constructor
    · rintro ⟨-, r, hr, hp⟩
      exact ⟨(id, r), List.mem_filter.2
        ⟨Std.ExtTreeMap.mem_toList_iff_getElem?_eq_some.2 hr, decide_eq_true hp⟩, rfl⟩
    · rintro ⟨⟨_, r⟩, hmem, rfl⟩
      obtain ⟨hmem, hp⟩ := List.mem_filter.1 hmem
      have hr := Std.ExtTreeMap.mem_toList_iff_getElem?_eq_some.1 hmem
      obtain rfl := of_decide_eq_true hp
      exact ⟨hb.mem hr, r, hr, rfl⟩
  rw [hperm.length_eq, List.length_map]
  rfl

/-- Every request has one priority. -/
theorem sum_bandSize (q : Queue) :
    q.bandSize .immediate + q.bandSize .high + q.bandSize .normal + q.bandSize .low +
      q.bandSize .batch = q.size := by
  have hsum : ∀ rs : List (RequestId × Request),
      (rs.filter (·.2.priority = .immediate)).length + (rs.filter (·.2.priority = .high)).length +
        (rs.filter (·.2.priority = .normal)).length + (rs.filter (·.2.priority = .low)).length +
        (rs.filter (·.2.priority = .batch)).length = rs.length := by
    intro rs
    induction rs with
    | nil => rfl
    | cons r rs ih =>
      simp only [List.filter_cons, List.length_cons]
      cases r.2.priority <;> simp <;> omega
  rw [size, ← Std.ExtTreeMap.length_toList]
  exact hsum _

/-- Of the numbers that wait there are as many as requests. -/
theorem size_filter_isLive (hb : q.Banded) : (q.bands.filter q.isLive).size = q.size := by
  have himmediate := length_filter_isLive hb .immediate
  have hhigh := length_filter_isLive hb .high
  have hnormal := length_filter_isLive hb .normal
  have hlow := length_filter_isLive hb .low
  have hbatch := length_filter_isLive hb .batch
  simp only [Bands.get] at himmediate hhigh hnormal hlow hbatch
  rw [← sum_bandSize]
  simp only [Bands.filter, Bands.size, himmediate, hhigh, hnormal, hlow, hbatch]

/-- A band has the numbers of its requests and numbers that were left behind. -/
theorem storage_eq (hb : q.Banded) : q.storage = q.size + q.leftovers := by
  rw [storage, q.bands.size_eq_filter_add q.isLive, size_filter_isLive hb]
  rfl

theorem leftovers_pos (hid : id ∈ q.bands.get p) (hstale : q.isLive p id = false) :
    0 < q.leftovers := by
  have hmem : id ∈ (q.bands.filter fun p id => !q.isLive p id).get p := by
    rw [Bands.get_filter, List.mem_filter]
    exact ⟨hid, by rw [hstale]; rfl⟩
  exact Bands.size_pos_of_mem hmem

/-! ## The count of stale numbers -/

/-- The stale numbers are counted as they are stored, and there are no more of them than there are
requests. -/
structure Tallied (q : Queue) : Prop where
  stored : q.storage = q.size + q.stale
  le : q.stale ≤ q.size

theorem Tallied.leftovers (h : q.Tallied) (hb : q.Banded) : q.stale = q.leftovers := by
  have hstored := h.stored
  rw [storage_eq hb] at hstored
  omega

/-- When numbers are swept out, all that were left behind are. -/
theorem tallied_compact (hb : q.compact.Banded) (h : q.storage = q.size + q.stale) :
    q.compact.Tallied := by
  by_cases hlt : q.size < q.stale
  · have hcompact : q.compact = { q with bands := q.bands.filter q.isLive, stale := 0 } :=
      if_pos hlt
    rw [hcompact] at hb ⊢
    have hlive := size_filter_isLive hb
    have hkept : ((q.bands.filter q.isLive).filter q.isLive).size = q.size := hlive
    rw [Bands.filter_filter_self] at hkept
    exact ⟨hkept, Nat.zero_le _⟩
  · rw [compact, if_neg hlt]
    exact ⟨h, Nat.le_of_not_lt hlt⟩

namespace Tallied

/-- The number of a request that is withdrawn is left behind. -/
theorem supersede (h : q.Tallied) (hq : q.Indexed) (hb : q.Banded) (t : Entity) :
    (q.supersede t).2.Tallied := by
  have hbanded := (supersede_line hq hb t).1
  unfold Queue.supersede at hbanded ⊢
  cases hid : q.pending[t]? with
  | none => exact h
  | some id =>
    obtain ⟨r, hr, -⟩ := hq.pending hid
    simp only [hid, get?, hr] at hbanded ⊢
    refine tallied_compact hbanded ?_
    have hstored := h.stored
    have hsize := Table.size_erase_add_one hr
    simp only [storage, size] at hstored ⊢
    omega

theorem push (h : q.Tallied) (hq : q.Indexed) (hb : q.Banded) (hunused : q.Unused r.id) :
    (q.push r).2.Tallied := by
  have hrest := h.supersede hq hb r.target
  have hsize := Table.size_insert_of_none
    (hq.requests_supersede (t := r.target) (requests_of_unused hb hunused)) r
  have hbands := (q.supersede r.target).2.bands.size_push r.priority r.id
  have hstored := hrest.stored
  have hle := hrest.le
  constructor
  · show ((q.supersede r.target).2.bands.push r.priority r.id).size =
      ((q.supersede r.target).2.requests.insert r.id r).size + (q.supersede r.target).2.stale
    simp only [storage, size] at hstored
    omega
  · show (q.supersede r.target).2.stale ≤
      ((q.supersede r.target).2.requests.insert r.id r).size
    simp only [size] at hle
    omega

/-- A request that moves to another band leaves its number behind. -/
theorem merge (h : q.Tallied) (hq : q.Indexed) (hb : q.Banded) (t : Entity) (priority : Priority)
    (payload : Payload) : (q.merge t priority payload).2.Tallied := by
  cases hwaits : q.pendingFor? t with
  | none =>
    rw [hq.merge_none hwaits]
    exact h
  | some r =>
    have hbanded := (merge_line hq hb hwaits priority payload).1
    have hsize := Table.size_insert_of_some (hq.pendingFor?_eq_some_iff.1 hwaits).1
      (r.absorb priority payload)
    have hstored := h.stored
    have hle := h.le
    rw [hq.merge_some hwaits] at hbanded ⊢
    simp only [storage, size] at hstored hle
    split at hbanded
    next hp =>
      rw [if_pos hp]
      refine tallied_compact hbanded ?_
      have hbands := q.bands.size_push priority r.id
      simp only [storage, size]
      omega
    next hp =>
      rw [if_neg hp]
      constructor <;> simp only [storage, size] <;> omega

end Tallied

/-! ## Popping with a checked count -/

/-- Pop from a band, and give up when a number is passed over while none is counted as stale. -/
def popBandChecked? (q : Queue) (p : Priority) : List RequestId → Option (Option Request × Queue)
  | [] => some (q.popBand p [])
  | id :: ids =>
    if q.isLive p id then some (q.popBand p (id :: ids))
    else if q.stale = 0 then none
    else popBandChecked? { q with stale := q.stale - 1 } p ids

def popBandsChecked? (q : Queue) : List Priority → Option (Option Request × Queue)
  | [] => some (none, q)
  | p :: ps =>
    match q.popBandChecked? p (q.bands.get p) with
    | none => none
    | some (some r, q) => some (some r, q)
    | some (none, q) => q.popBandsChecked? ps

/-- The next request to serve, and the queue without it, unless a pop lowers the count of stale
numbers when it is zero. -/
def popChecked? (q : Queue) : Option (Option Request × Queue) :=
  q.popBandsChecked? Priority.all

theorem popBand_of_live (hr : q.requests[id]? = some r) (hp : r.priority = p)
    (ids : List RequestId) : q.popBand p (id :: ids) = (some r, compact { q with
      bands := q.bands.set p ids
      requests := q.requests.erase id
      pending := q.pending.erase r.target }) := by
  simp only [popBand, get?, hr, hp, if_true]

theorem popBand_of_stale (hstale : q.isLive p id = false) (ids : List RequestId) :
    q.popBand p (id :: ids) = popBand { q with stale := q.stale - 1 } p ids := by
  rw [isLive] at hstale
  rw [popBand]
  cases hr : q.get? id with
  | none => rfl
  | some r =>
    rw [hr] at hstale
    dsimp only at hstale ⊢
    rw [if_neg (of_decide_eq_false hstale)]

/-- The queue of which the numbers `ids` of a band are left. -/
def remaining (q : Queue) (p : Priority) (ids : List RequestId) : Queue :=
  { q with bands := q.bands.set p ids }

theorem remaining_get (q : Queue) (p : Priority) : q.remaining p (q.bands.get p) = q := by
  rw [remaining, Bands.get_set_self]

theorem remaining_set (q : Queue) (p : Priority) (ids ids' : List RequestId) :
    (q.remaining p ids).bands.set p ids' = q.bands.set p ids' := Bands.set_set _ _ _ _

theorem get_remaining (q : Queue) (p : Priority) (ids : List RequestId) :
    (q.remaining p ids).bands.get p = ids := by
  rw [remaining, Bands.get_set, if_pos rfl]

/-- Each number that is passed over was left behind, and so it is counted. -/
theorem tallied_popBand {ids : List RequestId} (hb : (q.remaining p ids).Banded)
    (h : (q.remaining p ids).Tallied) :
    q.popBandChecked? p ids = some (q.popBand p ids) ∧ (q.popBand p ids).2.Banded ∧
      (q.popBand p ids).2.Tallied := by
  induction ids generalizing q with
  | nil => exact ⟨rfl, hb, h⟩
  | cons id ids ih =>
    have hstored := h.stored
    have hle := h.le
    have hfront : (q.remaining p (id :: ids)).bands.get p = [id] ++ ids := get_remaining q p _
    have hbands := q.bands.size_set_cons p id ids
    rw [popBandChecked?]
    simp only [storage, size, remaining] at hstored hle
    cases hlive : q.isLive p id with
    | true =>
      obtain ⟨r, hr, hp⟩ := isLive_iff.1 hlive
      have hfirst : (q.remaining p (id :: ids)).bands.get p = [] ++ id :: ids := hfront
      have hstanding : (q.remaining p (id :: ids)).standing? p id = some r :=
        standing?_eq_some_iff.2 ⟨hr, hp⟩
      have hserved := (serve_line hb hfirst (by simp) hstanding
        (q.pending.erase r.target) q.stale).1
      rw [remaining_set] at hserved
      have hbanded : Banded (compact { q with
          bands := q.bands.set p ids
          requests := q.requests.erase id
          pending := q.pending.erase r.target }) := hserved.compact
      rw [if_pos rfl, popBand_of_live hr hp]
      refine ⟨rfl, hbanded, tallied_compact hbanded ?_⟩
      have hsize := Table.size_erase_add_one hr
      simp only [storage, size]
      omega
    | false =>
      have hcounted := h.leftovers hb
      have hpos : 0 < (q.remaining p (id :: ids)).leftovers :=
        leftovers_pos (hfront ▸ List.mem_cons_self : id ∈ _) hlive
      have hstale : (q.remaining p (id :: ids)).stale = q.stale := rfl
      have hnone : ∀ x ∈ [id], (q.remaining p (id :: ids)).standing? p x = none := by
        intro x hx
        have hx : (q.remaining p (id :: ids)).isLive p x = false := by
          rw [List.mem_singleton.1 hx]
          exact hlive
        rwa [isLive_eq, Option.isSome_eq_false_iff, Option.isNone_iff_eq_none] at hx
      have hdropped := (drop_line hb hfront hnone (q.stale - 1)).1
      rw [remaining_set] at hdropped
      rw [if_neg Bool.false_ne_true, if_neg (by omega), popBand_of_stale hlive]
      refine ih (q := { q with stale := q.stale - 1 }) hdropped ⟨?_, ?_⟩ <;>
        simp only [storage, size, remaining] <;> omega

theorem tallied_popBands (hb : q.Banded) (h : q.Tallied) (ps : List Priority) :
    q.popBandsChecked? ps = some (q.popBands ps) ∧ (q.popBands ps).2.Tallied := by
  induction ps generalizing q with
  | nil => exact ⟨rfl, h⟩
  | cons p ps ih =>
    rw [← q.remaining_get p] at hb h
    obtain ⟨hchecked, hbanded, htallied⟩ := tallied_popBand hb h
    rw [popBandsChecked?, popBands, hchecked]
    cases hpop : q.popBand p (q.bands.get p) with
    | mk answer q' =>
      rw [hpop] at hbanded htallied
      cases answer with
      | none => exact ih hbanded htallied
      | some r => exact ⟨rfl, htallied⟩

/-- The count of stale numbers is never lowered when it is zero. -/
theorem Tallied.pop (h : q.Tallied) (hb : q.Banded) :
    q.popChecked? = some q.pop ∧ q.pop.2.Tallied := tallied_popBands hb h Priority.all

/-! ## Operations -/

theorem Tallied.onQueue (h : q.Tallied) (hq : q.Indexed) (hb : q.Banded) (op : Op)
    (hown : ∀ id, op.number? = some id → q.Unused id) : (op.onQueue q).2.Tallied := by
  cases op with
  | push r => exact h.push hq hb (hown r.id rfl)
  | supersede t => exact h.supersede hq hb t
  | merge t priority payload => exact h.merge hq hb t priority payload
  | pop => exact (h.pop hb).2

theorem Tallied.run (h : q.Tallied) (hq : q.Indexed) (hb : q.Banded) {ops : List Op}
    (hfresh : q.Fresh ops) :
    let q' := (Op.run Op.onQueue ops q).2
    q'.Indexed ∧ q'.Banded ∧ q'.Tallied := by
  induction ops generalizing q with
  | nil => exact ⟨hq, hb, h⟩
  | cons op ops ih =>
    obtain ⟨hown, hrest⟩ := hfresh.cons hq hb
    obtain ⟨hindexed, hbanded, -⟩ := op.keeps_order hq hb hown
    exact ih (h.onQueue hq hb op hown) hindexed hbanded hrest

/-- After any operations that push each request under a number of its own, the table of targets has
exactly the waiting requests, each of which stands once in the band of its priority. The count of
stale numbers is that of the numbers that were left behind, and no pop lowers it when it is zero. It
is no greater than the count of the requests, so that the bands have at most twice as many numbers
as there are requests. -/
theorem stale_counts_leftovers (ops : List Op) (hnumbers : (ops.filterMap Op.number?).Nodup) :
    let q := (Op.run Op.onQueue ops {}).2
    (∀ t id, q.pending[t]? = some id ↔ ∃ r, q.get? id = some r ∧ r.id = id ∧ r.target = t) ∧
    (∀ id r, q.get? id = some r → (q.bands.get r.priority).count id = 1) ∧
    q.stale = q.leftovers ∧ q.popChecked? = some q.pop ∧
    q.stale ≤ q.size ∧ q.storage ≤ 2 * q.size := by
  intro q
  have htallied : Tallied {} := ⟨rfl, Nat.le_refl _⟩
  obtain ⟨hq, hb, h⟩ : q.Indexed ∧ q.Banded ∧ q.Tallied :=
    htallied.run .empty .empty (.new hnumbers)
  refine ⟨fun t id => ⟨fun hid => ?_, ?_⟩, fun id r hr => ?_, h.leftovers hb, (h.pop hb).1, h.le,
    ?_⟩
  · obtain ⟨r, hr, ht⟩ := hq.pending hid
    exact ⟨r, hr, (hq.requests hr).1, ht⟩
  · rintro ⟨r, hr, -, rfl⟩
    exact (hq.requests hr).2
  · exact List.count_eq_one_of_mem (hb.nodup _) (hb.mem hr)
  · have hstored := h.stored
    have hle := h.le
    omega

/-- The number that a request left behind when it moved is passed over once the request is served,
and until then there are twice as many numbers as requests. -/
theorem moved_number_passed_over :
    let r (id : RequestId) (object : ObjectId) : Request :=
      ⟨id, id, ⟨object, "v"⟩, .property, .none, .low, .queued⟩
    let ops : List Op := [.push (r 1 "a"), .push (r 2 "b"), .merge ⟨"a", "v"⟩ .high .none, .pop]
    let q := (Op.run Op.onQueue ops {}).2
    (ops.filterMap Op.number?).Nodup ∧ q.bands.low = [1, 2] ∧ q.size = 1 ∧ q.leftovers = 1 ∧
      q.stale = 1 ∧ q.storage = 2 * q.size ∧ q.popChecked? = some q.pop ∧
      q.pop.1 = some (r 2 "b") := by
  intro r ops q
  have hnumbers : (ops.filterMap Op.number?).Nodup := by decide
  have hleft : q.leftovers = 1 := by decide
  obtain ⟨-, -, hstale, hchecked, -, -⟩ := stale_counts_leftovers ops hnumbers
  exact ⟨hnumbers, by decide, by decide, hleft, hstale.trans hleft, by decide, hchecked, by decide⟩

end Queue

end Parametric
