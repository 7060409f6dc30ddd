import Parametric.Proofs.Table
import Parametric.Update.Queue

/-!
# The queue as a map from targets

In an `Indexed` queue the table of targets and the table of requests say the same, so that all the
queue holds, apart from the order of service, is `pendingFor?`: the request that waits for each
target. Every operation is described by what it makes of that map: `push` puts a request at its
target, `merge` lets the waiting request absorb the work (`Request.absorb`), `supersede` and `pop`
take a request away.
-/

namespace Parametric

/-- A waiting request after work was folded into it. -/
def Request.absorb (r : Request) (priority : Priority) (payload : Payload) : Request :=
  { r with
    payload := if r.payload.isRecompute && payload.isRecompute then payload else r.payload
    priority := if priority < r.priority then priority else r.priority }

namespace Queue

variable {q q' : Queue}

/-- Each request has its own number and waits for its target, and each number in the table of
targets is the number of a request. -/
structure Indexed (q : Queue) : Prop where
  requests : ∀ {id : RequestId} {r : Request}, q.requests[id]? = some r →
    r.id = id ∧ q.pending[r.target]? = some id
  pending : ∀ {t : Entity} {id : RequestId}, q.pending[t]? = some id →
    ∃ r, q.requests[id]? = some r ∧ r.target = t

theorem pendingFor?_eq (q : Queue) (t : Entity) :
    q.pendingFor? t = q.pending[t]?.bind fun id => q.requests[id]? := rfl

theorem Indexed.empty : Indexed {} := ⟨by simp, by simp⟩

theorem Indexed.pendingFor?_eq_some_iff (hq : q.Indexed) {t : Entity} {r : Request} :
    q.pendingFor? t = some r ↔ q.requests[r.id]? = some r ∧ r.target = t := by
  unfold pendingFor? get?
  constructor
  · intro h
    obtain ⟨id, hid, hr⟩ := Option.bind_eq_some_iff.1 h
    obtain ⟨r', hr', ht⟩ := hq.pending hid
    rw [hr, Option.some.injEq] at hr'
    rw [(hq.requests hr).1]
    exact ⟨hr, hr' ▸ ht⟩
  · rintro ⟨hr, rfl⟩
    rw [(hq.requests hr).2]
    exact hr

theorem Indexed.pendingFor?_eq_none_iff (hq : q.Indexed) {t : Entity} :
    q.pendingFor? t = none ↔ q.pending[t]? = none := by
  unfold pendingFor? get?
  cases hid : q.pending[t]? with
  | none => simp
  | some id =>
    obtain ⟨r, hr, -⟩ := hq.pending hid
    simp [hr]

theorem Indexed.target_eq (hq : q.Indexed) {t : Entity} {r : Request}
    (hr : q.pendingFor? t = some r) : r.target = t :=
  (hq.pendingFor?_eq_some_iff.1 hr).2

/-- A number waits for a target when it is the number of a request for that target. -/
theorem Indexed.target_eq_iff (hq : q.Indexed) {id id' : RequestId} {r : Request} {t : Entity}
    (hr : q.requests[id]? = some r) (hid' : q.pending[t]? = some id') :
    r.target = t ↔ id = id' := by
  constructor
  · rintro rfl
    rw [(hq.requests hr).2] at hid'
    exact Option.some.inj hid'
  · rintro rfl
    obtain ⟨r', hr', rfl⟩ := hq.pending hid'
    rw [hr] at hr'
    rw [Option.some.inj hr']

/-- Of a queue only the two tables matter. -/
theorem Indexed.congr (hq : q.Indexed) (hrequests : q'.requests = q.requests)
    (hpending : q'.pending = q.pending) :
    q'.Indexed ∧ ∀ t, q'.pendingFor? t = q.pendingFor? t := by
  refine ⟨⟨fun h => ?_, fun h => ?_⟩, fun t => ?_⟩
  · rw [hrequests] at h
    rw [hpending]
    exact hq.requests h
  · rw [hpending] at h
    rw [hrequests]
    exact hq.pending h
  · simp only [pendingFor?_eq, hrequests, hpending]

/-! ## Changes of the two tables -/

/-- A request is taken away. -/
theorem Indexed.erase (hq : q.Indexed) {id : RequestId} {r : Request}
    (hr : q.requests[id]? = some r) (hrequests : q'.requests = q.requests.erase id)
    (hpending : q'.pending = q.pending.erase r.target) :
    q'.Indexed ∧ ∀ t, q'.pendingFor? t = if r.target = t then none else q.pendingFor? t := by
  refine ⟨⟨fun {id' r'} h => ?_, fun {t id'} h => ?_⟩, fun t => ?_⟩
  · simp only [hrequests, Table.getElem?_erase] at h
    split at h
    · cases h
    next hne =>
      obtain ⟨hid', ht'⟩ := hq.requests h
      refine ⟨hid', ?_⟩
      rw [hpending, Table.getElem?_erase, if_neg, ht']
      rwa [hq.target_eq_iff hr ht']
  · simp only [hpending, Table.getElem?_erase] at h
    split at h
    · cases h
    next hne =>
      obtain ⟨r', hr', ht'⟩ := hq.pending h
      refine ⟨r', ?_, ht'⟩
      rw [hrequests, Table.getElem?_erase, if_neg, hr']
      rwa [← hq.target_eq_iff hr h]
  · simp only [pendingFor?_eq, hrequests, hpending, Table.getElem?_erase]
    split
    · rfl
    next hne =>
      cases hid' : q.pending[t]? with
      | none => rfl
      | some id' =>
        rw [hq.target_eq_iff hr hid'] at hne
        rw [Option.bind_some, Option.bind_some, if_neg hne]

/-- A request with a new number is put in for a target that none waits for. -/
theorem Indexed.insert (hq : q.Indexed) {r : Request} (hid : q.requests[r.id]? = none)
    (ht : q.pendingFor? r.target = none) (hrequests : q'.requests = q.requests.insert r.id r)
    (hpending : q'.pending = q.pending.insert r.target r.id) :
    q'.Indexed ∧ ∀ t, q'.pendingFor? t = if r.target = t then some r else q.pendingFor? t := by
  have hnone := hq.pendingFor?_eq_none_iff.1 ht
  refine ⟨⟨fun {id' r'} h => ?_, fun {t id'} h => ?_⟩, fun t => ?_⟩
  · simp only [hrequests, Table.getElem?_insert] at h
    rw [hpending, Table.getElem?_insert]
    split at h
    next heq =>
      cases h
      exact ⟨heq, by rw [if_pos rfl, heq]⟩
    next hne =>
      obtain ⟨hid', ht'⟩ := hq.requests h
      refine ⟨hid', ?_⟩
      rw [if_neg, ht']
      intro heq
      rw [← heq, hnone] at ht'
      cases ht'
  · simp only [hpending, Table.getElem?_insert] at h
    rw [hrequests]
    simp only [Table.getElem?_insert]
    split at h
    next heq =>
      cases h
      exact ⟨r, by rw [if_pos rfl], heq⟩
    next hne =>
      obtain ⟨r', hr', ht'⟩ := hq.pending h
      refine ⟨r', ?_, ht'⟩
      rw [if_neg, hr']
      rintro rfl
      rw [hid] at hr'
      cases hr'
  · simp only [pendingFor?_eq, hrequests, hpending, Table.getElem?_insert]
    split
    next => simp
    next hne =>
      cases hid' : q.pending[t]? with
      | none => rfl
      | some id' =>
        obtain ⟨r', hr', ht'⟩ := hq.pending hid'
        have hne' : r.id ≠ id' := by
          rintro rfl
          rw [hid] at hr'
          cases hr'
        simp [hne']

/-- A request changes, but neither its number nor its target. -/
theorem Indexed.update (hq : q.Indexed) {id : RequestId} {r r' : Request}
    (hr : q.requests[id]? = some r) (hid : r'.id = r.id) (ht : r'.target = r.target)
    (hrequests : q'.requests = q.requests.insert id r') (hpending : q'.pending = q.pending) :
    q'.Indexed ∧ ∀ t, q'.pendingFor? t = if r.target = t then some r' else q.pendingFor? t := by
  obtain ⟨hrid, hrt⟩ := hq.requests hr
  refine ⟨⟨fun {id' s} h => ?_, fun {t id'} h => ?_⟩, fun t => ?_⟩
  · simp only [hrequests, Table.getElem?_insert] at h
    rw [hpending]
    split at h
    next heq =>
      cases h
      rw [hid, ht, hrt, hrid, heq]
      exact ⟨rfl, rfl⟩
    next => exact hq.requests h
  · rw [hpending] at h
    obtain ⟨s, hs, hst⟩ := hq.pending h
    simp only [hrequests, Table.getElem?_insert]
    split
    next heq =>
      rw [heq, hs, Option.some.injEq] at hr
      exact ⟨r', rfl, by rw [ht, ← hr, hst]⟩
    next => exact ⟨s, hs, hst⟩
  · simp only [pendingFor?_eq, hrequests, hpending, Table.getElem?_insert]
    cases hid' : q.pending[t]? with
    | none =>
      have hne : r.target ≠ t := by
        rintro rfl
        rw [hrt] at hid'
        cases hid'
      rw [if_neg hne, Option.bind_none, Option.bind_none]
    | some id' => simp only [Option.bind_some, hq.target_eq_iff hr hid']

/-! ## Operations -/

@[simp]
theorem requests_compact (q : Queue) : q.compact.requests = q.requests := by
  unfold compact
  split <;> rfl

@[simp]
theorem pending_compact (q : Queue) : q.compact.pending = q.pending := by
  unfold compact
  split <;> rfl

@[simp]
theorem requests_markStale (q : Queue) : q.markStale.requests = q.requests :=
  requests_compact _

@[simp]
theorem pending_markStale (q : Queue) : q.markStale.pending = q.pending :=
  pending_compact _

theorem Indexed.supersede (hq : q.Indexed) (t : Entity) :
    (q.supersede t).2.Indexed ∧
      ∀ x, (q.supersede t).2.pendingFor? x = if t = x then none else q.pendingFor? x := by
  unfold Queue.supersede
  cases hid : q.pending[t]? with
  | none =>
    refine ⟨hq, fun x => ?_⟩
    by_cases heq : t = x
    · rw [if_pos heq, ← heq]
      exact hq.pendingFor?_eq_none_iff.2 hid
    · rw [if_neg heq]
  | some id =>
    obtain ⟨r, hr, rfl⟩ := hq.pending hid
    simp only [get?, hr]
    exact hq.erase hr (by simp) (by simp)

/-- The numbers of the requests that a queue holds after one is withdrawn were there before. -/
theorem Indexed.requests_supersede (hq : q.Indexed) {t : Entity} {id : RequestId}
    (hid : q.requests[id]? = none) : (q.supersede t).2.requests[id]? = none := by
  obtain ⟨hindexed, hpendingFor⟩ := hq.supersede t
  cases hr : (q.supersede t).2.requests[id]? with
  | none => rfl
  | some r =>
    obtain ⟨hrid, -⟩ := hindexed.requests hr
    have hwaits := hindexed.pendingFor?_eq_some_iff.2 ⟨hrid.symm ▸ hr, rfl⟩
    rw [hpendingFor] at hwaits
    split at hwaits
    · cases hwaits
    · rw [← hrid, (hq.pendingFor?_eq_some_iff.1 hwaits).1] at hid
      cases hid

/-- A pushed request waits for its target, and nothing else changes. -/
theorem Indexed.push (hq : q.Indexed) {r : Request} (hid : q.requests[r.id]? = none) :
    (q.push r).2.Indexed ∧
      ∀ x, (q.push r).2.pendingFor? x = if r.target = x then some r else q.pendingFor? x := by
  obtain ⟨hindexed, hpendingFor⟩ := hq.supersede r.target
  obtain ⟨hindexed', hpendingFor'⟩ := hindexed.insert (hq.requests_supersede hid)
    (by simp [hpendingFor]) (rfl : (q.push r).2.requests = _) rfl
  refine ⟨hindexed', fun x => ?_⟩
  rw [hpendingFor', hpendingFor]
  split <;> rfl

/-- Work is refused when nothing waits for the target. -/
theorem Indexed.merge_none (hq : q.Indexed) {t : Entity} (hwaits : q.pendingFor? t = none)
    (priority : Priority) (payload : Payload) : q.merge t priority payload = (none, q) := by
  rw [hq.pendingFor?_eq_none_iff] at hwaits
  simp [Queue.merge, hwaits]

/-- The waiting request absorbs the work, and moves when the work is more urgent. -/
theorem Indexed.merge_some (hq : q.Indexed) {t : Entity} {r : Request}
    (hwaits : q.pendingFor? t = some r) (priority : Priority) (payload : Payload) :
    let requests := q.requests.insert r.id (r.absorb priority payload)
    q.merge t priority payload = (some r.id,
      if priority < r.priority then
        markStale { q with bands := q.bands.push priority r.id, requests }
      else { q with requests }) := by
  obtain ⟨hr, rfl⟩ := hq.pendingFor?_eq_some_iff.1 hwaits
  let folded : Request := { r with
    payload := if r.payload.isRecompute && payload.isRecompute then payload else r.payload }
  have hfolded : (if r.payload.isRecompute && payload.isRecompute then { r with payload }
      else r) = folded := by
    split <;> simp [folded, *]
  simp only [Queue.merge, (hq.requests hr).2, get?, hr, hfolded]
  by_cases hp : priority < r.priority
  · have habsorb : r.absorb priority payload = { folded with priority } := by
      simp only [Request.absorb, if_pos hp, folded]
    rw [if_pos hp, if_pos hp, habsorb]
  · have habsorb : r.absorb priority payload = folded := by
      simp only [Request.absorb, if_neg hp, folded]
    rw [if_neg hp, if_neg hp, habsorb]

/-- Work is folded into the request that waits for the target, or refused when none does. -/
theorem Indexed.merge (hq : q.Indexed) (t : Entity) (priority : Priority) (payload : Payload) :
    match q.pendingFor? t with
    | none => q.merge t priority payload = (none, q)
    | some r => (q.merge t priority payload).1 = some r.id ∧
        (q.merge t priority payload).2.Indexed ∧
        ∀ x, (q.merge t priority payload).2.pendingFor? x =
          if t = x then some (r.absorb priority payload) else q.pendingFor? x := by
  cases hwaits : q.pendingFor? t with
  | none => exact hq.merge_none hwaits priority payload
  | some r =>
    obtain ⟨hr, rfl⟩ := hq.pendingFor?_eq_some_iff.1 hwaits
    simp only [hq.merge_some hwaits priority payload, true_and]
    split
    · exact hq.update hr rfl rfl (by simp) (by simp)
    · exact hq.update hr rfl rfl rfl rfl

/-! ## Service -/

/-- A band gives its first request, or none and changes nothing but the stale numbers. -/
theorem popBand_spec (q : Queue) (p : Priority) (ids : List RequestId) :
    ((q.popBand p ids).1 = none ∧ (q.popBand p ids).2.requests = q.requests ∧
      (q.popBand p ids).2.pending = q.pending) ∨
    ∃ id r, (q.popBand p ids).1 = some r ∧ q.requests[id]? = some r ∧
      (q.popBand p ids).2.requests = q.requests.erase id ∧
      (q.popBand p ids).2.pending = q.pending.erase r.target := by
  induction ids generalizing q with
  | nil => exact .inl ⟨rfl, rfl, rfl⟩
  | cons id ids ih =>
    unfold popBand
    cases hr : q.get? id with
    | none => exact ih { q with stale := q.stale - 1 }
    | some r =>
      dsimp only
      split
      · exact .inr ⟨id, r, rfl, hr, by simp, by simp⟩
      · exact ih { q with stale := q.stale - 1 }

theorem popBands_spec (q : Queue) (ps : List Priority) :
    ((q.popBands ps).1 = none ∧ (q.popBands ps).2.requests = q.requests ∧
      (q.popBands ps).2.pending = q.pending) ∨
    ∃ id r, (q.popBands ps).1 = some r ∧ q.requests[id]? = some r ∧
      (q.popBands ps).2.requests = q.requests.erase id ∧
      (q.popBands ps).2.pending = q.pending.erase r.target := by
  induction ps generalizing q with
  | nil => exact .inl ⟨rfl, rfl, rfl⟩
  | cons p ps ih =>
    unfold popBands
    rcases popBand_spec q p (q.bands.get p) with ⟨hnone, hrequests, hpending⟩ | ⟨id, r, hr, h⟩
    · cases hpop : q.popBand p (q.bands.get p) with
      | mk answer rest =>
        simp only [hpop] at hnone hrequests hpending
        subst hnone
        simpa only [hrequests, hpending] using ih rest
    · cases hpop : q.popBand p (q.bands.get p) with
      | mk answer rest =>
        simp only [hpop] at hr h
        subst hr
        exact .inr ⟨id, r, rfl, h⟩

/-- When no request is served the queue holds what it did. -/
theorem Indexed.pop_none (hq : q.Indexed) (hpop : q.pop = (none, q')) :
    q'.Indexed ∧ ∀ x, q'.pendingFor? x = q.pendingFor? x := by
  unfold pop at hpop
  rcases popBands_spec q Priority.all with ⟨-, hrequests, hpending⟩ | ⟨id, r, hr, -⟩
  · rw [hpop] at hrequests hpending
    exact hq.congr hrequests hpending
  · rw [hpop] at hr
    cases hr

/-- A served request waited for its target, and nothing waits for it any more. -/
theorem Indexed.pop_some (hq : q.Indexed) {r : Request} (hpop : q.pop = (some r, q')) :
    q.pendingFor? r.target = some r ∧ q'.Indexed ∧
      ∀ x, q'.pendingFor? x = if r.target = x then none else q.pendingFor? x := by
  unfold pop at hpop
  rcases popBands_spec q Priority.all with ⟨hnone, -⟩ | ⟨id, r', hr', hr, hrequests, hpending⟩
  · rw [hpop] at hnone
    cases hnone
  · rw [hpop] at hr' hrequests hpending
    cases hr'
    refine ⟨?_, hq.erase hr hrequests hpending⟩
    exact hq.pendingFor?_eq_some_iff.2 ⟨(hq.requests hr).1.symm ▸ hr, rfl⟩

end Queue

end Parametric
