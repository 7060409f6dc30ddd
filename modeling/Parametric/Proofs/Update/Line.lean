import Mathlib.Data.List.Nodup
import Parametric.Proofs.Update.Queue

/-!
# The order of service

`Queue.line` lists the requests of a priority in the order in which they are served; stale numbers
are not in it. In a `Banded` queue every waiting request stands in its line, once and in no other
one, so that the lines say all about the order: `push` puts a request at the end of its line
(`push_line`), `merge` changes a request where it stands unless the work is more urgent
(`merge_line`), and `pop` takes the first request of the most urgent line that is not empty
(`pop_line_some`). Sweeping stale numbers out changes no line (`line_compact`).
-/

namespace Parametric.Queue

variable {q q' : Queue} {p : Priority}

/-- The request that a number in a band stands for; a stale number stands for none. -/
def standing? (q : Queue) (p : Priority) (id : RequestId) : Option Request :=
  q.requests[id]?.filter fun r => r.priority = p

/-- The requests of a priority in the order of service. -/
def line (q : Queue) (p : Priority) : List Request := (q.bands.get p).filterMap (q.standing? p)

/-- A band has a number once, and that of a waiting request stands in the band of its priority and
in no more urgent one. -/
structure Banded (q : Queue) : Prop where
  nodup : ∀ p, (q.bands.get p).Nodup
  mem : ∀ {id : RequestId} {r : Request}, q.requests[id]? = some r → id ∈ q.bands.get r.priority
  notMem : ∀ {id : RequestId} {r : Request} {p : Priority}, q.requests[id]? = some r →
    p < r.priority → id ∉ q.bands.get p

/-- No band has the number. -/
def Unused (q : Queue) (id : RequestId) : Prop := ∀ p, id ∉ q.bands.get p

theorem standing?_eq_some_iff {id : RequestId} {r : Request} :
    q.standing? p id = some r ↔ q.requests[id]? = some r ∧ r.priority = p := by
  simp [standing?, Option.filter_eq_some_iff]

theorem isLive_eq (q : Queue) (p : Priority) (id : RequestId) :
    q.isLive p id = (q.standing? p id).isSome := by
  unfold isLive get? standing?
  cases q.requests[id]? with
  | none => rfl
  | some r => by_cases h : r.priority = p <;> simp [Option.filter, h]

theorem mem_line_iff (hq : q.Indexed) (hb : q.Banded) {r : Request} :
    r ∈ q.line p ↔ q.requests[r.id]? = some r ∧ r.priority = p := by
  rw [line, List.mem_filterMap]
  constructor
  · rintro ⟨id, -, hr⟩
    rw [standing?_eq_some_iff] at hr
    rw [(hq.requests hr.1).1]
    exact hr
  · rintro ⟨hr, rfl⟩
    exact ⟨r.id, hb.mem hr, standing?_eq_some_iff.2 ⟨hr, rfl⟩⟩

/-- The requests that wait are those of the lines. -/
theorem exists_mem_line_iff (hq : q.Indexed) (hb : q.Banded) {r : Request} :
    r ∈ q.line r.priority ↔ q.pendingFor? r.target = some r := by
  rw [mem_line_iff hq hb, hq.pendingFor?_eq_some_iff]
  simp

theorem Banded.empty : Banded {} :=
  ⟨fun p => by cases p <;> exact .nil, by simp, by simp⟩

/-! ## Numbers in the bands -/

@[simp]
theorem bands_compact_get (q : Queue) (p : Priority) : q.compact.bands.get p =
    if q.size < q.stale then (q.bands.get p).filter (q.isLive p) else q.bands.get p := by
  unfold compact
  split
  · exact Bands.get_filter _ _ _
  · rfl

@[simp]
theorem standing?_compact (q : Queue) : q.compact.standing? = q.standing? := by
  unfold standing?
  simp

/-- Sweeping stale numbers out changes no line. -/
theorem line_compact (q : Queue) (p : Priority) : q.compact.line p = q.line p := by
  unfold line
  rw [bands_compact_get, standing?_compact]
  split
  · rw [List.filterMap_filter]
    refine List.filterMap_congr fun id _ => ?_
    rw [isLive_eq]
    cases h : q.standing? p id <;> simp
  · rfl

/-- Numbers may be taken out of the bands unless they stand for a request. -/
theorem Banded.sublist (hb : q.Banded) (hrequests : q'.requests = q.requests)
    (hsub : ∀ p, (q'.bands.get p).Sublist (q.bands.get p))
    (hlive : ∀ p, ∀ id ∈ q.bands.get p, (q.standing? p id).isSome → id ∈ q'.bands.get p) :
    q'.Banded := by
  refine ⟨fun p => (hb.nodup p).sublist (hsub p), fun hr => ?_, fun hr hp hid => ?_⟩
  · rw [hrequests] at hr
    exact hlive _ _ (hb.mem hr) (by simp [standing?_eq_some_iff.2 ⟨hr, rfl⟩])
  · rw [hrequests] at hr
    exact hb.notMem hr hp ((hsub _).subset hid)

theorem bands_compact_sublist (q : Queue) (p : Priority) :
    (q.compact.bands.get p).Sublist (q.bands.get p) := by
  rw [bands_compact_get]
  split
  · exact List.filter_sublist
  · exact List.Sublist.refl _

theorem Banded.compact (hb : q.Banded) : q.compact.Banded := by
  refine hb.sublist (requests_compact q) (bands_compact_sublist q) fun p id hid hlive => ?_
  rw [bands_compact_get]
  split
  · exact List.mem_filter.2 ⟨hid, (isLive_eq q p id).symm ▸ hlive⟩
  · exact hid

theorem get_push (b : Bands) (p p' : Priority) (id : RequestId) :
    (b.push p id).get p' = b.get p' ++ if p = p' then [id] else [] := by
  rw [Bands.push, Bands.get_set]
  split
  next h => rw [h]
  next => rw [List.append_nil]

/-! ## Changes of one request -/

theorem standing?_erase {id : RequestId} (hrequests : q'.requests = q.requests.erase id)
    (p : Priority) (x : RequestId) :
    q'.standing? p x = if id = x then none else q.standing? p x := by
  rw [standing?, hrequests, Table.getElem?_erase]
  split <;> rfl

theorem standing?_insert {id : RequestId} {r : Request}
    (hrequests : q'.requests = q.requests.insert id r) (p : Priority) (x : RequestId) :
    q'.standing? p x =
      if id = x then (if r.priority = p then some r else none) else q.standing? p x := by
  rw [standing?, hrequests, Table.getElem?_insert]
  split
  · simp [Option.filter]
  · rfl

/-- Requests may go, and change without changing their priorities. -/
theorem Banded.change (hb : q.Banded) (hbands : q'.bands = q.bands)
    (hold : ∀ {id : RequestId} {r : Request}, q'.requests[id]? = some r →
      ∃ r', q.requests[id]? = some r' ∧ r'.priority = r.priority) : q'.Banded := by
  refine ⟨fun p => hbands ▸ hb.nodup p, fun hr => ?_, fun hr hp => ?_⟩
  · obtain ⟨r', hr', heq⟩ := hold hr
    rw [hbands, ← heq]
    exact hb.mem hr'
  · obtain ⟨r', hr', heq⟩ := hold hr
    rw [hbands]
    exact hb.notMem hr' (heq ▸ hp)

theorem Banded.erase (hb : q.Banded) {id : RequestId} (hbands : q'.bands = q.bands)
    (hrequests : q'.requests = q.requests.erase id) : q'.Banded := by
  refine hb.change hbands fun {x r} hr => ⟨r, ?_, rfl⟩
  rw [hrequests, Table.getElem?_erase] at hr
  split at hr
  · cases hr
  · exact hr

/-- A request that goes is in no line but its own. -/
theorem line_erase_of_ne {id : RequestId} {r : Request} (hr : q.requests[id]? = some r)
    (hbands : q'.bands = q.bands) (hrequests : q'.requests = q.requests.erase id)
    (hne : r.priority ≠ p) : q'.line p = q.line p := by
  rw [line, hbands]
  refine List.filterMap_congr fun x _ => ?_
  rw [standing?_erase hrequests]
  split
  next heq =>
    subst heq
    symm
    simp [standing?, hr, hne, Option.filter]
  next => rfl

/-- A request with an unused number goes to the end of its line. -/
theorem line_insert {r : Request} (hunused : q.Unused r.id)
    (hrequests : q'.requests = q.requests.insert r.id r)
    (hbands : q'.bands = q.bands.push r.priority r.id) (p : Priority) :
    q'.line p = q.line p ++ if r.priority = p then [r] else [] := by
  rw [line, hbands, get_push, List.filterMap_append]
  congr 1
  · refine List.filterMap_congr fun x hx => ?_
    rw [standing?_insert hrequests, if_neg]
    rintro rfl
    exact hunused p hx
  · split
    next h => simp [standing?_insert hrequests, h]
    next => rfl

/-- A number may be added to the band of its request, if no band as urgent has it. -/
theorem Banded.push (hb : q.Banded) {id : RequestId} {r : Request}
    (hnot : ∀ p, ¬ r.priority < p → id ∉ q.bands.get p)
    (hrequests : q'.requests = q.requests.insert id r)
    (hbands : q'.bands = q.bands.push r.priority id) : q'.Banded := by
  refine ⟨fun p => ?_, fun {x y} hy => ?_, fun {x y p} hy hp => ?_⟩
  · rw [hbands, get_push]
    split
    next h => exact List.nodup_append'.2 ⟨hb.nodup p, List.nodup_singleton _,
        List.disjoint_singleton.2 (hnot p (h ▸ Nat.lt_irrefl _))⟩
    next =>
      rw [List.append_nil]
      exact hb.nodup p
  · rw [hbands, get_push]
    simp only [hrequests, Table.getElem?_insert] at hy
    split at hy
    next h =>
      cases hy
      simp [h]
    next => exact List.mem_append_left _ (hb.mem hy)
  · rw [hbands, get_push, List.mem_append, not_or]
    simp only [hrequests, Table.getElem?_insert] at hy
    split at hy
    next h =>
      cases hy
      refine ⟨h ▸ hnot p (Nat.lt_asymm hp), ?_⟩
      rw [if_neg]
      · exact List.not_mem_nil
      · rintro rfl
        exact Nat.lt_irrefl _ hp
    next h =>
      refine ⟨hb.notMem hy hp, ?_⟩
      split
      · exact fun hid => h (List.mem_singleton.1 hid).symm
      · exact List.not_mem_nil

/-- A request that changes without changing its priority stays where it stands. -/
theorem line_update (hq : q.Indexed) {id : RequestId} {r r' : Request}
    (hr : q.requests[id]? = some r) (hpriority : r'.priority = r.priority)
    (hrequests : q'.requests = q.requests.insert id r') (hbands : q'.bands = q.bands)
    (p : Priority) :
    q'.line p = (q.line p).map fun x => if x.target = r.target then r' else x := by
  rw [line, line, hbands, List.map_filterMap]
  refine List.filterMap_congr fun x _ => ?_
  rw [standing?_insert hrequests]
  by_cases h : id = x
  · subst h
    by_cases hp : r.priority = p
    · simp [standing?, hr, hpriority, hp, Option.filter]
    · simp [standing?, hr, hpriority, hp, Option.filter]
  · rw [if_neg h]
    cases hx : q.standing? p x with
    | none => rfl
    | some y =>
      obtain ⟨hy, -⟩ := standing?_eq_some_iff.1 hx
      have hne : y.target ≠ r.target := by
        intro heq
        exact h ((hq.target_eq_iff hr (hq.requests hy).2).1 heq.symm)
      simp [hne]

/-! ## Operations -/

theorem Banded.markStale (hb : q.Banded) : q.markStale.Banded :=
  compact (q := { q with stale := q.stale + 1 }) ⟨hb.nodup, hb.mem, hb.notMem⟩

theorem bands_markStale_sublist (q : Queue) (p : Priority) :
    (q.markStale.bands.get p).Sublist (q.bands.get p) :=
  bands_compact_sublist { q with stale := q.stale + 1 } p

/-- Withdrawing a request uses no number, and no line changes when there is none to withdraw. -/
theorem supersede_line (hq : q.Indexed) (hb : q.Banded) (t : Entity) :
    (q.supersede t).2.Banded ∧
    (∀ id, q.Unused id → (q.supersede t).2.Unused id) ∧
    (q.pendingFor? t = none → ∀ p, (q.supersede t).2.line p = q.line p) := by
  unfold supersede
  cases hid : q.pending[t]? with
  | none => exact ⟨hb, fun _ h => h, fun _ p => rfl⟩
  | some id =>
    obtain ⟨r, hr, -⟩ := hq.pending hid
    simp only [get?, hr]
    refine ⟨.markStale (hb.erase rfl rfl), fun x hx p hmem => ?_, fun hnone => ?_⟩
    · have hmem := (bands_markStale_sublist _ p).subset hmem
      exact hx p hmem
    · rw [hq.pendingFor?_eq_none_iff, hid] at hnone
      cases hnone

/-- A pushed request goes to the end of its line. -/
theorem push_line (hq : q.Indexed) (hb : q.Banded) {r : Request} (hunused : q.Unused r.id) :
    (q.push r).2.Banded ∧
    (∀ id, id ≠ r.id → q.Unused id → (q.push r).2.Unused id) ∧
    (q.pendingFor? r.target = none →
      ∀ p, (q.push r).2.line p = q.line p ++ if r.priority = p then [r] else []) := by
  obtain ⟨hbanded, hsupersede, hline⟩ := supersede_line hq hb r.target
  have hunused' := hsupersede r.id hunused
  refine ⟨hbanded.push (fun p _ => hunused' p) rfl rfl, fun id hne hid p hmem => ?_,
    fun hnone p => ?_⟩
  · rw [show (q.push r).2.bands = (q.supersede r.target).2.bands.push r.priority r.id from rfl,
      get_push, List.mem_append] at hmem
    rcases hmem with hmem | hmem
    · exact hsupersede id hid p hmem
    · split at hmem
      · exact hne (List.mem_singleton.1 hmem)
      · cases hmem
  · rw [line_insert hunused' rfl rfl, hline hnone]

/-- Work that is not more urgent changes the waiting request where it stands. -/
theorem merge_line (hq : q.Indexed) (hb : q.Banded) {t : Entity} {r : Request}
    (hwaits : q.pendingFor? t = some r) (priority : Priority) (payload : Payload) :
    (q.merge t priority payload).2.Banded ∧
    (∀ id, q.Unused id → (q.merge t priority payload).2.Unused id) ∧
    (¬ priority < r.priority → ∀ p, (q.merge t priority payload).2.line p =
      (q.line p).map fun x => if x.target = t then r.absorb priority payload else x) := by
  obtain ⟨hr, rfl⟩ := hq.pendingFor?_eq_some_iff.1 hwaits
  rw [hq.merge_some hwaits]
  by_cases hp : priority < r.priority
  · have habsorb : (r.absorb priority payload).priority = priority := by simp [Request.absorb, hp]
    refine ⟨?_, fun id hid p hmem => ?_, fun h => absurd hp h⟩
    · simp only [if_pos hp]
      refine .markStale (hb.push (r := r.absorb priority payload) (fun p' hp' => ?_) rfl
        (by rw [habsorb]))
      rw [habsorb] at hp'
      exact hb.notMem hr (Nat.lt_of_le_of_lt (Nat.le_of_not_lt hp') hp)
    · simp only [if_pos hp] at hmem
      have hmem := (bands_markStale_sublist _ p).subset hmem
      simp only [get_push, List.mem_append] at hmem
      rcases hmem with hmem | hmem
      · exact hid p hmem
      · split at hmem
        · rw [List.mem_singleton.1 hmem] at hid
          exact hid _ (hb.mem hr)
        · cases hmem
  · have habsorb : (r.absorb priority payload).priority = r.priority := by
      simp [Request.absorb, hp]
    simp only [if_neg hp]
    refine ⟨hb.change rfl fun {x y} hy => ?_, fun id hid => hid, fun _ p => ?_⟩
    · simp only [Table.getElem?_insert] at hy
      split at hy
      next h =>
        cases hy
        exact ⟨r, h ▸ hr, habsorb.symm⟩
      next => exact ⟨y, hy, rfl⟩
    · refine line_update hq hr habsorb ?_ ?_ p
      · rfl
      · rfl

/-! ## Service -/

theorem popBand_nil (q : Queue) {p : Priority} {ids : List RequestId}
    (h : ids.filterMap (q.standing? p) = []) :
    ∃ stale, q.popBand p ids = (none, { q with bands := q.bands.set p [], stale }) := by
  induction ids generalizing q with
  | nil => exact ⟨q.stale, rfl⟩
  | cons id ids ih =>
    rw [List.filterMap_cons] at h
    cases hid : q.standing? p id with
    | some r => simp [hid] at h
    | none =>
      rw [hid] at h
      obtain ⟨stale, heq⟩ := ih { q with stale := q.stale - 1 } h
      refine ⟨stale, ?_⟩
      rw [popBand, get?]
      cases hr : q.requests[id]? with
      | none => exact heq
      | some r =>
        have hne : r.priority ≠ p := fun hp => by
          rw [standing?_eq_some_iff.2 ⟨hr, hp⟩] at hid
          cases hid
        simp only [hne, if_false]
        exact heq

/-- The first number of a band that is not stale is served. -/
theorem popBand_cons (q : Queue) {p : Priority} {ids : List RequestId} {r : Request}
    {rest : List Request} (h : ids.filterMap (q.standing? p) = r :: rest) :
    ∃ before id after stale, ids = before ++ id :: after ∧
      (∀ x ∈ before, q.standing? p x = none) ∧ q.standing? p id = some r ∧
      after.filterMap (q.standing? p) = rest ∧
      q.popBand p ids = (some r, compact { q with
        bands := q.bands.set p after
        requests := q.requests.erase id
        pending := q.pending.erase r.target
        stale }) := by
  induction ids generalizing q with
  | nil => cases h
  | cons id ids ih =>
    rw [List.filterMap_cons] at h
    cases hid : q.standing? p id with
    | some r' =>
      rw [hid] at h
      obtain ⟨rfl, rfl⟩ := List.cons.inj h
      obtain ⟨hr, hp⟩ := standing?_eq_some_iff.1 hid
      refine ⟨[], id, ids, q.stale, rfl, by simp, hid, rfl, ?_⟩
      simp [popBand, get?, hr, hp]
    | none =>
      rw [hid] at h
      obtain ⟨before, x, after, stale, rfl, hbefore, hx, hafter, heq⟩ :=
        ih { q with stale := q.stale - 1 } h
      refine ⟨id :: before, x, after, stale, rfl, List.forall_mem_cons.2 ⟨hid, hbefore⟩, hx, hafter,
        ?_⟩
      rw [popBand, get?]
      cases hr : q.requests[id]? with
      | none => exact heq
      | some r' =>
        have hne : r'.priority ≠ p := fun hp => by
          rw [standing?_eq_some_iff.2 ⟨hr, hp⟩] at hid
          cases hid
        simp only [hne, if_false]
        exact heq

/-- Taking stale numbers off the front of a band changes no line. -/
theorem drop_line (hb : q.Banded) {before after : List RequestId}
    (hids : q.bands.get p = before ++ after) (hbefore : ∀ x ∈ before, q.standing? p x = none)
    (stale : Nat) :
    let dropped : Queue := { q with bands := q.bands.set p after, stale }
    dropped.Banded ∧ (∀ id, q.Unused id → dropped.Unused id) ∧
      ∀ p', dropped.line p' = q.line p' := by
  intro dropped
  have hget : ∀ p', dropped.bands.get p' = if p = p' then after else q.bands.get p' :=
    fun p' => Bands.get_set _ _ _ _
  have hsub : ∀ p', (dropped.bands.get p').Sublist (q.bands.get p') := by
    intro p'
    rw [hget]
    split
    next heq =>
      rw [← heq, hids]
      exact List.sublist_append_right _ _
    next => exact List.Sublist.refl _
  refine ⟨hb.sublist rfl hsub fun p' id hid hlive => ?_,
    fun id hid p' hmem => hid p' ((hsub p').subset hmem), fun p' => ?_⟩
  · rw [hget]
    split
    next heq =>
      subst heq
      rw [hids] at hid
      refine (List.mem_append.1 hid).resolve_left fun hmem => ?_
      rw [hbefore id hmem] at hlive
      cases hlive
    next => exact hid
  · rw [line, hget]
    split
    next heq =>
      rw [← heq, line, hids, List.filterMap_append, List.filterMap_eq_nil_iff.2 hbefore]
      rfl
    next => rfl

/-- Serving the first request of a line leaves the rest of it, and the other lines. -/
theorem serve_line (hb : q.Banded) {before after : List RequestId}
    {id : RequestId} {r : Request} (hids : q.bands.get p = before ++ id :: after)
    (hbefore : ∀ x ∈ before, q.standing? p x = none) (hid : q.standing? p id = some r)
    (pending : Table Entity RequestId) (stale : Nat) :
    let served : Queue := { q with
      bands := q.bands.set p after, requests := q.requests.erase id, pending, stale }
    served.Banded ∧ (∀ x, q.Unused x → served.Unused x) ∧
      ∀ p', served.line p' = if p = p' then after.filterMap (q.standing? p) else q.line p' := by
  obtain ⟨hr, hp⟩ := standing?_eq_some_iff.1 hid
  -- Without the request its number is stale, like those before it.
  let erased : Queue := { q with requests := q.requests.erase id, pending }
  have hstanding : ∀ x, erased.standing? p x = if id = x then none else q.standing? p x :=
    standing?_erase rfl p
  have hstale : ∀ x ∈ before ++ [id], erased.standing? p x = none := by
    intro x hx
    rw [hstanding]
    split
    next => rfl
    next hne =>
      refine hbefore x ((List.mem_append.1 hx).resolve_right fun hmem => ?_)
      exact hne (List.mem_singleton.1 hmem).symm
  have hfront : erased.bands.get p = before ++ [id] ++ after := by
    rw [List.append_assoc]
    exact hids
  obtain ⟨hbanded, hunused, hlines⟩ :=
    drop_line (q := erased) (hb.erase rfl rfl) hfront hstale stale
  refine ⟨hbanded, hunused, fun p' => (hlines p').trans ?_⟩
  split
  next heq =>
    subst heq
    rw [line, hfront, List.filterMap_append, List.filterMap_eq_nil_iff.2 hstale, List.nil_append]
    refine List.filterMap_congr fun x hx => ?_
    rw [hstanding, if_neg]
    rintro rfl
    have hnodup := hb.nodup p
    rw [hids] at hnodup
    exact (List.nodup_cons.1 (List.nodup_append.1 hnodup).2.1).1 hx
  next hne => exact line_erase_of_ne hr rfl rfl (hp.symm ▸ hne)

theorem popBands_line (hb : q.Banded) (ps : List Priority) :
    (∃ q', q.popBands ps = (none, q') ∧ (∀ p ∈ ps, q.line p = []) ∧ q'.Banded ∧
      (∀ id, q.Unused id → q'.Unused id) ∧ ∀ p, q'.line p = q.line p) ∨
    ∃ r q' before after rest, q.popBands ps = (some r, q') ∧ ps = before ++ r.priority :: after ∧
      (∀ p ∈ before, q.line p = []) ∧ q.line r.priority = r :: rest ∧ q'.Banded ∧
      (∀ id, q.Unused id → q'.Unused id) ∧
      ∀ p, q'.line p = if r.priority = p then rest else q.line p := by
  induction ps generalizing q with
  | nil => exact .inl ⟨q, rfl, by simp, hb, fun _ h => h, fun _ => rfl⟩
  | cons p ps ih =>
    rw [popBands]
    cases hline : q.line p with
    | nil =>
      obtain ⟨stale, heq⟩ := popBand_nil q hline
      obtain ⟨hbanded, hunused, hsame⟩ :=
        drop_line hb (List.append_nil _).symm (List.filterMap_eq_nil_iff.1 hline) stale
      simp only [heq]
      rcases ih (q := { q with bands := q.bands.set p [], stale }) hbanded with
        ⟨q', hpop, hempty, hbanded', hunused', hlines⟩ |
        ⟨r, q', before, after, rest, hpop, rfl, hempty, hr, hbanded', hunused', hlines⟩
      · refine .inl ⟨q', hpop, List.forall_mem_cons.2 ⟨hline, fun p hp => ?_⟩, hbanded',
          fun id hid => hunused' id (hunused id hid), fun p => ?_⟩
        · rw [← hsame, hempty p hp]
        · rw [hlines, hsame]
      · refine .inr ⟨r, q', p :: before, after, rest, hpop, rfl,
          List.forall_mem_cons.2 ⟨hline, fun p hp => ?_⟩, ?_, hbanded',
          fun id hid => hunused' id (hunused id hid), fun p => ?_⟩
        · rw [← hsame, hempty p hp]
        · rw [← hsame, hr]
        · rw [hlines, hsame]
    | cons r rest =>
      obtain ⟨before, id, after, stale, hids, hbefore, hid, hafter, heq⟩ := popBand_cons q hline
      obtain ⟨hbanded, hunused, hlines⟩ :=
        serve_line hb hids hbefore hid (q.pending.erase r.target) stale
      obtain ⟨-, hp⟩ := standing?_eq_some_iff.1 hid
      subst hp
      rw [hafter] at hlines
      simp only [heq]
      refine .inr ⟨r, _, [], ps, rest, rfl, rfl, by simp, hline, hbanded.compact,
        fun x hx p hmem => hunused x hx p ((bands_compact_sublist _ p).subset hmem), fun p => ?_⟩
      rw [line_compact, hlines]

/-- Every waiting request can be served: nothing is popped only when all lines are empty. -/
theorem pop_line_none (hb : q.Banded) (hpop : q.pop = (none, q')) :
    (∀ p, q.line p = []) ∧ q'.Banded ∧ (∀ id, q.Unused id → q'.Unused id) := by
  rcases popBands_line hb Priority.all with ⟨q'', heq, hempty, hbanded, hunused, -⟩ |
    ⟨r, q'', before, after, rest, heq, -⟩
  · rw [pop, heq] at hpop
    cases hpop
    exact ⟨fun p => hempty p (by cases p <;> decide), hbanded, hunused⟩
  · rw [pop, heq] at hpop
    cases hpop

/-- The first request of the most urgent line that is not empty is popped. -/
theorem pop_line_some (hb : q.Banded) {r : Request} (hpop : q.pop = (some r, q')) :
    ∃ rest, q.line r.priority = r :: rest ∧ (∀ p, p < r.priority → q.line p = []) ∧ q'.Banded ∧
      (∀ id, q.Unused id → q'.Unused id) ∧
      ∀ p, q'.line p = if r.priority = p then rest else q.line p := by
  rcases popBands_line hb Priority.all with ⟨q'', heq, -⟩ |
    ⟨r', q'', before, after, rest, heq, hall, hempty, hline, hbanded, hunused, hlines⟩
  · rw [pop, heq] at hpop
    cases hpop
  · rw [pop, heq] at hpop
    cases hpop
    refine ⟨rest, hline, fun p hp => hempty p ?_, hbanded, hunused, hlines⟩
    -- The bands are in order, so that a more urgent one stands before the one that is served.
    have hmem : p ∈ before ++ r.priority :: after := hall ▸ by cases p <;> decide
    have hsorted : (before ++ r.priority :: after).Pairwise (· < ·) := hall ▸ by decide
    rcases List.mem_append.1 hmem with hmem | hmem
    · exact hmem
    · obtain ⟨-, hsorted, -⟩ := List.pairwise_append.1 hsorted
      rcases List.mem_cons.1 hmem with rfl | hmem
      · exact absurd hp (Nat.lt_irrefl _)
      · exact absurd hp (Nat.lt_asymm ((List.pairwise_cons.1 hsorted).1 p hmem))

end Parametric.Queue
