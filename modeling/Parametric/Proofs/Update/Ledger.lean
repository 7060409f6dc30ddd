import Parametric.Proofs.Update.Turn

/-!
# The queue as a list with stamps

A `Queue.Ledger` is a queue in its plainest form: a list of the requests that wait, each with a
stamp that says when it came to its place, so that the request to serve is the one with the least
priority and stamp. The queue gives the same answers as a ledger to all operations, and the same
requests wait in both (`answers_as_ledger`), as long as each request is pushed under a number of its
own: the numbers that requests left behind in the bands are never taken for live ones
(`Queue.Records`).
-/

namespace Parametric

namespace Queue

/-- A request that waits, and when it came to its place. -/
structure Entry where
  request : Request
  stamp : Nat

namespace Entry

def target (x : Entry) : Entity := x.request.target

/-- An entry is served before all those of less urgent requests and those with later stamps. -/
def Before (x y : Entry) : Prop :=
  x.request.priority < y.request.priority ∨
    x.request.priority = y.request.priority ∧ x.stamp ≤ y.stamp

instance (x y : Entry) : Decidable (x.Before y) := inferInstanceAs (Decidable (_ ∨ _))

end Entry

/-- The requests that wait, at most one for each target, and the next stamp. -/
structure Ledger where
  entries : List Entry := []
  next : Nat := 0

namespace Ledger

/-- The entry for a target. -/
def entryFor? (l : Ledger) (t : Entity) : Option Entry := l.entries.find? (·.target = t)

def size (l : Ledger) : Nat := l.entries.length

/-- The count of waiting requests of a priority. -/
def bandSize (l : Ledger) (p : Priority) : Nat :=
  (l.entries.filter (·.request.priority = p)).length

def get? (l : Ledger) (id : RequestId) : Option Request :=
  (l.entries.find? (·.request.id = id)).map Entry.request

/-- The request that waits for a target. -/
def pendingFor? (l : Ledger) (t : Entity) : Option Request := (l.entryFor? t).map Entry.request

/-- The list without the entry for a target. -/
def without (l : Ledger) (t : Entity) : Ledger :=
  { l with entries := l.entries.filter (·.target ≠ t) }

/-- Put an entry in the place of the one for the same target. -/
def replace (l : Ledger) (x : Entry) : Ledger :=
  { l with entries := l.entries.map fun y => if y.target = x.target then x else y }

/-- Withdraw the request that waits for a target. -/
def supersede (l : Ledger) (t : Entity) : Option Request × Ledger :=
  ((l.pendingFor? t).map fun r => { r with state := .superseded }, l.without t)

/-- Add a request with a new stamp. One that waits for the same target is withdrawn. -/
def push (l : Ledger) (r : Request) : Option Request × Ledger :=
  let (displaced, l) := l.supersede r.target
  (displaced, { entries := l.entries ++ [⟨r, l.next⟩], next := l.next + 1 })

/-- Let the request that waits for a target absorb work. It gets a new stamp if the work is more
urgent. -/
def merge (l : Ledger) (t : Entity) (priority : Priority) (payload : Payload) :
    Option RequestId × Ledger :=
  match l.entryFor? t with
  | none => (none, l)
  | some x =>
    let r := x.request.absorb priority payload
    if priority < x.request.priority then
      (some r.id, { l.replace ⟨r, l.next⟩ with next := l.next + 1 })
    else (some r.id, l.replace ⟨r, x.stamp⟩)

/-- The entry that comes before all others. -/
def first? (l : Ledger) : Option Entry := l.entries.find? fun x => l.entries.all fun y => x.Before y

/-- Take the first request out. -/
def pop (l : Ledger) : Option Request × Ledger :=
  match l.first? with
  | none => (none, l)
  | some x => (some x.request, l.without x.target)

end Ledger

/-! ## Operations and their answers -/

inductive Op
  | push (r : Request)
  | supersede (t : Entity)
  | merge (t : Entity) (priority : Priority) (payload : Payload)
  | pop

inductive Answer
  | request (r : Option Request)
  | number (id : Option RequestId)
deriving DecidableEq

namespace Op

/-- The number under which an operation pushes a request. -/
def number? : Op → Option RequestId
  | push r => some r.id
  | _ => none

def onQueue : Op → Queue → Answer × Queue
  | push r, q => (q.push r).map .request id
  | supersede t, q => (q.supersede t).map .request id
  | merge t priority payload, q => (q.merge t priority payload).map .number id
  | pop, q => q.pop.map .request id

def onLedger : Op → Ledger → Answer × Ledger
  | push r, l => (l.push r).map .request id
  | supersede t, l => (l.supersede t).map .request id
  | merge t priority payload, l => (l.merge t priority payload).map .number id
  | pop, l => l.pop.map .request id

/-- The answers to operations one after another, and what they leave. -/
def run {σ : Type} (step : Op → σ → Answer × σ) : List Op → σ → List Answer × σ
  | [], s => ([], s)
  | op :: ops, s =>
    let (answer, s) := step op s
    let (answers, s) := run step ops s
    (answer :: answers, s)

/-- An operation keeps the tables and the bands in order, if no band has the number under which it
pushes a request, and uses no other number. -/
theorem keeps_order {q : Queue} (hq : q.Indexed) (hb : q.Banded) (op : Op)
    (hown : ∀ id, op.number? = some id → q.Unused id) :
    (op.onQueue q).2.Indexed ∧ (op.onQueue q).2.Banded ∧
      ∀ id, op.number? ≠ some id → q.Unused id → (op.onQueue q).2.Unused id := by
  cases op with
  | push r =>
    have hunused := hown r.id rfl
    obtain ⟨hbanded, hused, -⟩ := push_line hq hb hunused
    refine ⟨(hq.push (requests_of_unused hb hunused)).1, hbanded, fun id hne => hused id ?_⟩
    rintro rfl
    exact hne rfl
  | supersede t =>
    obtain ⟨hbanded, hused, -⟩ := supersede_line hq hb t
    exact ⟨(hq.supersede t).1, hbanded, fun id _ => hused id⟩
  | merge t priority payload =>
    have hmerge := hq.merge t priority payload
    show (q.merge t priority payload).2.Indexed ∧ (q.merge t priority payload).2.Banded ∧
      ∀ id, _ → q.Unused id → (q.merge t priority payload).2.Unused id
    cases hwaits : q.pendingFor? t with
    | none =>
      rw [hq.merge_none hwaits]
      exact ⟨hq, hb, fun id _ hid => hid⟩
    | some r =>
      rw [hwaits] at hmerge
      obtain ⟨hbanded, hused, -⟩ := merge_line hq hb hwaits priority payload
      exact ⟨hmerge.2.1, hbanded, fun id _ => hused id⟩
  | pop =>
    cases hpop : q.pop with
    | mk answer q' =>
      show q.pop.2.Indexed ∧ q.pop.2.Banded ∧ ∀ id, _ → q.Unused id → q.pop.2.Unused id
      rw [hpop]
      cases answer with
      | none =>
        obtain ⟨-, hbanded, hused⟩ := pop_line_none hb hpop
        exact ⟨(hq.pop_none hpop).1, hbanded, fun id _ => hused id⟩
      | some r =>
        obtain ⟨-, -, -, hbanded, hused, -⟩ := pop_line_some hb hpop
        exact ⟨(hq.pop_some hpop).2.1, hbanded, fun id _ => hused id⟩

end Op

/-- The numbers under which operations push requests are all different, and no band has them. -/
structure Fresh (q : Queue) (ops : List Op) : Prop where
  nodup : (ops.filterMap Op.number?).Nodup
  unused : ∀ id ∈ ops.filterMap Op.number?, q.Unused id

theorem Fresh.new {ops : List Op} (hnodup : (ops.filterMap Op.number?).Nodup) : Fresh {} ops :=
  ⟨hnodup, fun _ _ p => by cases p <;> exact List.not_mem_nil⟩

theorem Fresh.cons {q : Queue} {op : Op} {ops : List Op} (h : q.Fresh (op :: ops))
    (hq : q.Indexed) (hb : q.Banded) :
    (∀ id, op.number? = some id → q.Unused id) ∧ (op.onQueue q).2.Fresh ops := by
  have hown : ∀ id, op.number? = some id → q.Unused id := fun id hid =>
    h.unused id (List.mem_filterMap.2 ⟨op, List.mem_cons_self, hid⟩)
  obtain ⟨-, -, hused⟩ := op.keeps_order hq hb hown
  refine ⟨hown, h.nodup.sublist ((List.sublist_cons_self op ops).filterMap _), fun id hid => ?_⟩
  refine hused id (fun heq => ?_) (h.unused id ?_)
  · have hnodup := h.nodup
    rw [List.filterMap_cons_some heq] at hnodup
    exact (List.nodup_cons.1 hnodup).1 hid
  · obtain ⟨op', hop', hid'⟩ := List.mem_filterMap.1 hid
    exact List.mem_filterMap.2 ⟨op', List.mem_cons_of_mem _ hop', hid'⟩

/-! ## Entries and targets -/

namespace Ledger

variable {l : Ledger} {t : Entity} {x : Entry} {r : Request}

theorem mem_of_entryFor? (h : l.entryFor? t = some x) : x ∈ l.entries ∧ x.target = t :=
  ⟨List.mem_of_find?_eq_some h, by simpa using List.find?_some h⟩

theorem entryFor?_of_mem (hnodup : (l.entries.map Entry.target).Nodup) (hx : x ∈ l.entries) :
    l.entryFor? x.target = some x := by
  cases hfind : l.entryFor? x.target with
  | none => exact absurd (decide_eq_true rfl) (List.find?_eq_none.1 hfind x hx)
  | some y =>
    obtain ⟨hy, heq⟩ := mem_of_entryFor? hfind
    rw [List.inj_on_of_nodup_map hnodup hy hx heq]

theorem pendingFor?_eq_some_iff (hnodup : (l.entries.map Entry.target).Nodup) :
    l.pendingFor? t = some r ↔ ∃ x ∈ l.entries, x.request = r ∧ x.target = t := by
  rw [pendingFor?, Option.map_eq_some_iff]
  constructor
  · rintro ⟨x, hx, rfl⟩
    obtain ⟨hmem, ht⟩ := mem_of_entryFor? hx
    exact ⟨x, hmem, rfl, ht⟩
  · rintro ⟨x, hx, rfl, rfl⟩
    exact ⟨x, entryFor?_of_mem hnodup hx, rfl⟩

theorem entryFor?_without (l : Ledger) (t t' : Entity) :
    (l.without t).entryFor? t' = if t = t' then none else l.entryFor? t' := by
  unfold entryFor? without
  rw [List.find?_filter]
  split
  next h => exact List.find?_eq_none.2 fun x _ => by simp [h]
  next h =>
    refine congrArg (l.entries.find? ·) (funext fun x => ?_)
    by_cases hx : x.target = t' <;> simp [hx, Ne.symm h]

theorem entryFor?_replace (l : Ledger) (x : Entry) (t : Entity) :
    (l.replace x).entryFor? t =
      if x.target = t then (l.entryFor? t).map fun _ => x else l.entryFor? t := by
  have htarget : ∀ y : Entry, (if y.target = x.target then x else y).target = y.target := by
    intro y
    split <;> simp [*]
  unfold entryFor? replace
  simp only [List.find?_map, Function.comp_def, htarget]
  cases hfind : l.entries.find? (·.target = t) with
  | none => simp
  | some y =>
    obtain ⟨-, hy⟩ := mem_of_entryFor? hfind
    simp only [Option.map_some, hy, eq_comm (a := t)]
    split <;> rfl

theorem entryFor?_push (l : Ledger) (r : Request) (t : Entity) :
    (l.push r).2.entryFor? t = if r.target = t then some ⟨r, l.next⟩ else l.entryFor? t := by
  have hentry : (l.push r).2.entryFor? t =
      ((l.without r.target).entryFor? t).or (if r.target = t then some ⟨r, l.next⟩ else none) := by
    unfold push supersede entryFor?
    simp only [List.find?_append, List.find?_singleton]
    by_cases h : r.target = t <;> simp [Entry.target, without, h]
  rw [hentry, entryFor?_without]
  split <;> simp

theorem map_target_replace (l : Ledger) (x : Entry) :
    (l.replace x).entries.map Entry.target = l.entries.map Entry.target := by
  unfold replace
  rw [List.map_map]
  refine List.map_congr_left fun y _ => ?_
  simp only [Function.comp_apply]
  split <;> simp [*]

/-- In entries with different targets one entry is replaced. -/
theorem perm_replace (hnodup : (l.entries.map Entry.target).Nodup) {old : Entry}
    (hold : old ∈ l.entries) (new : Entry) (htarget : new.target = old.target) :
    (l.replace new).entries.Perm ((l.without old.target).entries ++ [new]) := by
  obtain ⟨before, after, heq⟩ := List.append_of_mem hold
  rw [heq, List.map_append, List.map_cons, List.nodup_middle] at hnodup
  have hothers : ∀ x ∈ before ++ after, x.target ≠ old.target := fun x hx h =>
    (List.nodup_cons.1 hnodup).1 (by
      rw [← List.map_append]
      exact h ▸ List.mem_map_of_mem hx)
  have hreplace : ∀ xs : List Entry, (∀ x ∈ xs, x.target ≠ old.target) →
      xs.map (fun y => if y.target = new.target then new else y) = xs := fun xs hxs =>
    (List.map_congr_left fun y hy => if_neg (htarget ▸ hxs y hy)).trans (List.map_id _)
  have hwithout : ∀ xs : List Entry, (∀ x ∈ xs, x.target ≠ old.target) →
      xs.filter (·.target ≠ old.target) = xs := fun xs hxs =>
    List.filter_eq_self.2 fun y hy => decide_eq_true (hxs y hy)
  obtain ⟨hbefore, hafter⟩ := List.forall_mem_append.1 hothers
  unfold replace without
  rw [heq, List.map_append, List.map_cons, hreplace _ hbefore, hreplace _ hafter,
    if_pos htarget.symm, List.filter_append, List.filter_cons_of_neg (by simp), hwithout _ hbefore,
    hwithout _ hafter]
  exact List.perm_middle.trans (List.perm_append_singleton new _).symm

/-- The entry that comes before all others is the first one, as no other one has its stamp. -/
theorem first?_of_before (hnodup : (l.entries.map Entry.stamp).Nodup) (hx : x ∈ l.entries)
    (hbefore : ∀ y ∈ l.entries, x.Before y) : l.first? = some x := by
  unfold first?
  cases hfind : l.entries.find? fun x => l.entries.all fun y => x.Before y with
  | none =>
    have hnot := List.find?_eq_none.1 hfind x hx
    exact absurd (List.all_eq_true.2 fun y hy => decide_eq_true (hbefore y hy)) hnot
  | some y =>
    have hy : y ∈ l.entries := List.mem_of_find?_eq_some hfind
    have hall := List.find?_some hfind
    have hyx : y.Before x := of_decide_eq_true (List.all_eq_true.1 hall x hx)
    have hxy := hbefore y hy
    have hstamp : y.stamp = x.stamp := by
      rcases hyx with hlt | ⟨heq, hle⟩
      · rcases hxy with hlt' | ⟨heq, -⟩
        · exact absurd hlt (Nat.lt_asymm hlt')
        · exact absurd (heq ▸ hlt) (Nat.lt_irrefl _)
      · rcases hxy with hlt' | ⟨-, hle'⟩
        · exact absurd (heq ▸ hlt') (Nat.lt_irrefl _)
        · exact Nat.le_antisymm hle hle'
    rw [List.inj_on_of_nodup_map hnodup hy hx hstamp]

end Ledger

/-! ## Entries in the order of service -/

/-- In the order of their stamps, entries have these targets for each priority. -/
def Lined (entries : List Entry) (targets : Priority → List Entity) : Prop :=
  ∃ xs : List Entry, xs.Perm entries ∧ xs.Pairwise (·.stamp < ·.stamp) ∧
    ∀ p, targets p = (xs.filter (·.request.priority = p)).map Entry.target

namespace Lined

variable {entries entries' : List Entry} {targets : Priority → List Entity}

theorem perm (h : Lined entries targets) (hperm : entries.Perm entries') :
    Lined entries' targets := by
  obtain ⟨xs, hxs, hsorted, htargets⟩ := h
  exact ⟨xs, hxs.trans hperm, hsorted, htargets⟩

theorem nodup_stamps (h : Lined entries targets) : (entries.map Entry.stamp).Nodup := by
  obtain ⟨xs, hperm, hsorted, -⟩ := h
  exact (hperm.map _).nodup_iff.1 (List.pairwise_map.2 (hsorted.imp fun hlt => hlt.ne))

theorem mem_iff (h : Lined entries targets) {p : Priority} {t : Entity} :
    t ∈ targets p ↔ ∃ x ∈ entries, x.request.priority = p ∧ x.target = t := by
  obtain ⟨xs, hperm, -, htargets⟩ := h
  simp [htargets, hperm.mem_iff, and_assoc]

theorem nodup_targets (h : Lined entries targets) (hnodup : (entries.map Entry.target).Nodup)
    (p : Priority) : (targets p).Nodup := by
  obtain ⟨xs, hperm, -, htargets⟩ := h
  rw [htargets]
  exact ((hperm.map _).nodup_iff.2 hnodup).sublist (List.filter_sublist.map _)

/-- The first target of a priority has the earliest stamp. -/
theorem stamp_le (h : Lined entries targets) (hnodup : (entries.map Entry.target).Nodup)
    {x y : Entry} (hx : x ∈ entries) {rest : List Entity}
    (hfirst : targets x.request.priority = x.target :: rest) (hy : y ∈ entries)
    (hp : x.request.priority = y.request.priority) : x.stamp ≤ y.stamp := by
  obtain ⟨xs, hperm, hsorted, htargets⟩ := h
  rw [htargets] at hfirst
  obtain ⟨z, zs, hline, hz, -⟩ := List.map_eq_cons_iff.1 hfirst
  have hz' : z ∈ xs := List.mem_of_mem_filter (hline ▸ List.mem_cons_self)
  obtain rfl : z = x := List.inj_on_of_nodup_map hnodup (hperm.mem_iff.1 hz') hx hz
  have hmem : y ∈ z :: zs :=
    hline ▸ List.mem_filter.2 ⟨hperm.mem_iff.2 hy, decide_eq_true hp.symm⟩
  have hordered := hsorted.filter (·.request.priority = z.request.priority)
  rw [hline] at hordered
  rcases List.mem_cons.1 hmem with rfl | hmem
  · exact Nat.le_refl _
  · exact ((List.pairwise_cons.1 hordered).1 y hmem).le

/-- The entry for a target is taken away. -/
theorem without (h : Lined entries targets) (t : Entity) :
    Lined (entries.filter (·.target ≠ t)) fun p => (targets p).filter (· ≠ t) := by
  obtain ⟨xs, hperm, hsorted, htargets⟩ := h
  refine ⟨xs.filter (·.target ≠ t), hperm.filter _, hsorted.filter _, fun p => ?_⟩
  dsimp only
  rw [htargets, List.filter_map, List.filter_filter, List.filter_filter]
  exact congrArg (List.map _) (List.filter_congr fun x _ => Bool.and_comm _ _)

/-- An entry with a later stamp is added. -/
theorem append (h : Lined entries targets) {x : Entry} (hlater : ∀ y ∈ entries, y.stamp < x.stamp) :
    Lined (entries ++ [x]) fun p =>
      targets p ++ if x.request.priority = p then [x.target] else [] := by
  obtain ⟨xs, hperm, hsorted, htargets⟩ := h
  refine ⟨xs ++ [x], hperm.append_right _, ?_, fun p => ?_⟩
  · refine List.pairwise_append.2 ⟨hsorted, List.pairwise_singleton _ _, fun y hy z hz => ?_⟩
    rw [List.mem_singleton.1 hz]
    exact hlater y (hperm.mem_iff.1 hy)
  · dsimp only
    rw [htargets, List.filter_append, List.map_append]
    by_cases hp : x.request.priority = p <;> simp [hp]

/-- Entries change, but none of their places. -/
theorem map (h : Lined entries targets) {f : Entry → Entry}
    (hf : ∀ x ∈ entries, (f x).stamp = x.stamp ∧ (f x).target = x.target ∧
      (f x).request.priority = x.request.priority) : Lined (entries.map f) targets := by
  obtain ⟨xs, hperm, hsorted, htargets⟩ := h
  have hf : ∀ x ∈ xs, (f x).stamp = x.stamp ∧ (f x).target = x.target ∧
      (f x).request.priority = x.request.priority := fun x hx => hf x (hperm.mem_iff.1 hx)
  refine ⟨xs.map f, hperm.map f, ?_, fun p => ?_⟩
  · refine List.pairwise_map.2 (hsorted.imp_of_mem fun {x y} hx hy hlt => ?_)
    rw [(hf x hx).1, (hf y hy).1]
    exact hlt
  · rw [htargets, List.filter_map, List.map_map]
    have hfilter : xs.filter ((fun x => decide (x.request.priority = p)) ∘ f) =
        xs.filter (·.request.priority = p) :=
      List.filter_congr fun x hx => by simp only [Function.comp_apply, (hf x hx).2.2]
    rw [hfilter]
    exact (List.map_congr_left fun x hx => (hf x (List.mem_of_mem_filter hx)).2.1).symm

end Lined

/-! ## One operation -/

/-- The queue and a ledger hold the same requests in the same order. -/
structure Records (q : Queue) (l : Ledger) : Prop where
  indexed : q.Indexed
  banded : q.Banded
  nodup : (l.entries.map Entry.target).Nodup
  waits : ∀ t, q.pendingFor? t = l.pendingFor? t
  stamps : ∀ x ∈ l.entries, x.stamp < l.next
  order : Lined l.entries q.targets

namespace Records

variable {q q' : Queue} {l : Ledger} {t : Entity} {r : Request}

theorem empty : Records {} {} where
  indexed := .empty
  banded := .empty
  nodup := .nil
  waits t := by simp [Queue.pendingFor?_eq, Ledger.pendingFor?, Ledger.entryFor?]
  stamps := by simp
  order := ⟨[], .nil, .nil, fun p => by cases p <;> rfl⟩

/-- The request for a target is taken away. -/
theorem without (h : Records q l) (hindexed : q'.Indexed) (hbanded : q'.Banded)
    (hwaits : ∀ x, q'.pendingFor? x = if t = x then none else q.pendingFor? x)
    (htargets : ∀ p, q'.targets p = (q.targets p).filter (· ≠ t)) : Records q' (l.without t) where
  indexed := hindexed
  banded := hbanded
  nodup := h.nodup.sublist (List.filter_sublist.map _)
  waits x := by
    rw [hwaits, h.waits, Ledger.pendingFor?, Ledger.pendingFor?, Ledger.entryFor?_without]
    split <;> rfl
  stamps x hx := h.stamps x (List.mem_of_mem_filter hx)
  order := (funext htargets : q'.targets = _) ▸ h.order.without t

theorem supersede (h : Records q l) (t : Entity) :
    (q.supersede t).1 = (l.supersede t).1 ∧ Records (q.supersede t).2 (l.supersede t).2 := by
  obtain ⟨hbanded, -, -⟩ := supersede_line h.indexed h.banded t
  obtain ⟨hindexed, hwaits⟩ := h.indexed.supersede t
  refine ⟨?_, h.without hindexed hbanded hwaits (targets_supersede h.indexed h.banded t)⟩
  rw [Ledger.supersede, ← h.waits, Queue.supersede, Queue.pendingFor?_eq]
  cases hid : q.pending[t]? with
  | none => rfl
  | some id =>
    obtain ⟨r, hr, -⟩ := h.indexed.pending hid
    simp only [get?, Option.bind_some, hr, Option.map_some]

theorem push (h : Records q l) (hunused : q.Unused r.id) :
    (q.push r).1 = (l.push r).1 ∧ Records (q.push r).2 (l.push r).2 := by
  obtain ⟨hanswer, hrest⟩ := h.supersede r.target
  obtain ⟨hindexed, hwaits⟩ := h.indexed.push (requests_of_unused h.banded hunused)
  refine ⟨hanswer, ?_⟩
  exact {
    indexed := hindexed
    banded := (push_line h.indexed h.banded hunused).1
    nodup := by
      have hgone : r.target ∉ (l.without r.target).entries.map Entry.target := by
        simp [Ledger.without]
      show (((l.without r.target).entries ++ [Entry.mk r l.next]).map Entry.target).Nodup
      rw [List.map_append]
      exact List.nodup_append'.2 ⟨hrest.nodup, List.nodup_singleton _,
        List.disjoint_singleton.2 hgone⟩
    waits := fun t => by
      rw [hwaits, h.waits, Ledger.pendingFor?, Ledger.pendingFor?, Ledger.entryFor?_push]
      split <;> rfl
    stamps := fun x hx => by
      rcases List.mem_append.1 hx with hx | hx
      · exact Nat.lt_succ_of_lt (hrest.stamps x hx)
      · rw [List.mem_singleton.1 hx]
        exact Nat.lt_succ_self _
    order := by
      have horder := (h.order.without r.target).append (x := ⟨r, l.next⟩) hrest.stamps
      rw [show (q.push r).2.targets = _ from funext (targets_push h.indexed h.banded hunused)]
      exact horder }

theorem merge (h : Records q l) (t : Entity) (priority : Priority) (payload : Payload) :
    (q.merge t priority payload).1 = (l.merge t priority payload).1 ∧
      Records (q.merge t priority payload).2 (l.merge t priority payload).2 := by
  have hwaits := h.waits t
  rw [Ledger.pendingFor?] at hwaits
  unfold Ledger.merge
  cases hentry : l.entryFor? t with
  | none =>
    rw [hentry] at hwaits
    rw [h.indexed.merge_none hwaits]
    exact ⟨rfl, h⟩
  | some x =>
    obtain ⟨hx, rfl⟩ := Ledger.mem_of_entryFor? hentry
    rw [hentry] at hwaits
    have hmerge := h.indexed.merge x.target priority payload
    rw [hwaits] at hmerge
    obtain ⟨hanswer, hindexed, hpending⟩ := hmerge
    have htargets := targets_merge h.indexed h.banded hwaits priority payload
    have hbanded := (merge_line h.indexed h.banded hwaits priority payload).1
    -- Whatever the stamp is, the new entry holds the request that absorbed the work.
    have hreplaced : ∀ stamp t, (q.merge x.target priority payload).2.pendingFor? t =
        (l.replace ⟨x.request.absorb priority payload, stamp⟩).pendingFor? t := by
      intro stamp t
      rw [hpending, h.waits, Ledger.pendingFor?, Ledger.pendingFor?, Ledger.entryFor?_replace]
      change _ = Option.map Entry.request (if x.target = t then _ else _)
      split
      next ht => rw [← ht, hentry, Option.map_some, Option.map_some]
      next => rfl
    have hnodup : ∀ y, ((l.replace y).entries.map Entry.target).Nodup := fun y =>
      (l.map_target_replace y).symm ▸ h.nodup
    dsimp only
    split
    next hp =>
      have hpriority : (x.request.absorb priority payload).priority = priority := by
        simp [Request.absorb, hp]
      have horder := ((h.order.without x.target).append
        (x := ⟨x.request.absorb priority payload, l.next⟩)
        fun y hy => h.stamps y (List.mem_of_mem_filter hy)).perm
        (Ledger.perm_replace h.nodup hx ⟨x.request.absorb priority payload, l.next⟩ rfl).symm
      refine ⟨hanswer, hindexed, hbanded, hnodup _, hreplaced _, fun y hy => ?_, ?_⟩
      · obtain ⟨z, hz, rfl⟩ := List.mem_map.1 hy
        split
        · exact Nat.lt_succ_self _
        · exact Nat.lt_succ_of_lt (h.stamps z hz)
      · rw [show (q.merge x.target priority payload).2.targets = _ from funext htargets]
        simp only [if_pos hp]
        simp only [hpriority] at horder
        exact horder
    next hp =>
      have hpriority : (x.request.absorb priority payload).priority = x.request.priority := by
        simp [Request.absorb, hp]
      have hsame : ∀ y ∈ l.entries, y.target = x.target → y = x := fun y hy ht =>
        List.inj_on_of_nodup_map h.nodup hy hx ht
      refine ⟨hanswer, hindexed, hbanded, hnodup _, hreplaced _, fun y hy => ?_, ?_⟩
      · obtain ⟨z, hz, rfl⟩ := List.mem_map.1 hy
        split
        · exact h.stamps x hx
        · exact h.stamps z hz
      · rw [show (q.merge x.target priority payload).2.targets = q.targets from
          funext fun p => (htargets p).trans (if_neg hp)]
        refine h.order.map fun y hy => ?_
        split
        next ht =>
          rw [hsame y hy ht]
          exact ⟨rfl, rfl, hpriority⟩
        next => exact ⟨rfl, rfl, rfl⟩

theorem pop_none (h : Records q l) (hpop : q.pop = (none, q')) :
    l.pop = (none, l) ∧ Records q' l := by
  obtain ⟨hempty, hbanded, -⟩ := pop_line_none h.banded hpop
  obtain ⟨hindexed, hwaits⟩ := h.indexed.pop_none hpop
  have hnone : ∀ p t, t ∉ q.targets p := fun p t ht => by
    rw [targets, hempty] at ht
    cases ht
  have hentries : l.entries = [] := List.eq_nil_iff_forall_not_mem.2 fun x hx =>
    hnone x.request.priority x.target (h.order.mem_iff.2 ⟨x, hx, rfl, rfl⟩)
  have htargets : q'.targets = q.targets := funext fun p => by
    have hline : q'.line p = [] := List.eq_nil_iff_forall_not_mem.2 fun r hr => by
      obtain ⟨hr, -⟩ := (mem_line_iff hindexed hbanded).1 hr
      have hold := hindexed.pendingFor?_eq_some_iff.2 ⟨hr, rfl⟩
      rw [hwaits, ← exists_mem_line_iff h.indexed h.banded, hempty] at hold
      cases hold
    rw [targets, targets, hline, hempty]
  refine ⟨by rw [Ledger.pop, Ledger.first?, hentries]; rfl, hindexed, hbanded, h.nodup,
    fun t => (hwaits t).trans (h.waits t), h.stamps, htargets ▸ h.order⟩

/-- The request of the first entry is popped. -/
theorem pop_some (h : Records q l) (hpop : q.pop = (some r, q')) :
    l.pop = (some r, l.without r.target) ∧ Records q' (l.without r.target) := by
  obtain ⟨rest, hline, hempty, hbanded, -, hlines⟩ := pop_line_some h.banded hpop
  obtain ⟨hwaits, hindexed, hpending⟩ := h.indexed.pop_some hpop
  rw [h.waits] at hwaits
  obtain ⟨x, hx, rfl, -⟩ := (Ledger.pendingFor?_eq_some_iff h.nodup).1 hwaits
  have hfirst : q.targets x.request.priority = x.target :: rest.map Request.target := by
    rw [targets, hline]
    rfl
  have hbefore : ∀ y ∈ l.entries, x.Before y := by
    intro y hy
    rcases Priority.trichotomy x.request.priority y.request.priority with hlt | heq | hlt
    · exact .inl hlt
    · exact .inr ⟨heq, h.order.stamp_le h.nodup hx hfirst hy heq⟩
    · have hmem := h.order.mem_iff.2 ⟨y, hy, rfl, rfl⟩
      rw [targets, hempty _ hlt] at hmem
      cases hmem
  refine ⟨?_, h.without hindexed hbanded hpending fun p => ?_⟩
  · rw [Ledger.pop, Ledger.first?_of_before h.order.nodup_stamps hx hbefore]
    rfl
  · have hnodup := h.order.nodup_targets h.nodup p
    have hothers : x.request.priority = p ∨ x.target ∉ q.targets p := by
      refine or_iff_not_imp_right.2 fun hmem => ?_
      obtain ⟨y, hy, hp, ht⟩ := h.order.mem_iff.1 (not_not.1 hmem)
      exact List.inj_on_of_nodup_map h.nodup hy hx ht ▸ hp
    have hfilter : ∀ ts : List Entity, x.target ∉ ts → ts.filter (· ≠ x.target) = ts :=
      fun ts hts => List.filter_eq_self.2 fun t ht =>
        decide_eq_true fun heq => hts (heq ▸ ht)
    rw [targets, hlines]
    rcases hothers with rfl | hmem
    · rw [hfirst] at hnodup ⊢
      rw [if_pos rfl, List.filter_cons_of_neg (by simp [Entry.target])]
      exact (hfilter _ (List.nodup_cons.1 hnodup).1).symm
    · rw [if_neg, ← targets]
      · exact (hfilter _ hmem).symm
      · rintro rfl
        exact hmem (hfirst ▸ List.mem_cons_self)

/-- The queue answers to an operation like the ledger, if no band has the number of a request that
is pushed, and uses no other number. -/
theorem step (h : Records q l) (op : Op) (hunused : ∀ id, op.number? = some id → q.Unused id) :
    (op.onQueue q).1 = (op.onLedger l).1 ∧ Records (op.onQueue q).2 (op.onLedger l).2 ∧
      ∀ id, op.number? ≠ some id → q.Unused id → (op.onQueue q).2.Unused id := by
  obtain ⟨-, -, hused⟩ := op.keeps_order h.indexed h.banded hunused
  suffices hsame : (op.onQueue q).1 = (op.onLedger l).1 ∧
      Records (op.onQueue q).2 (op.onLedger l).2 from ⟨hsame.1, hsame.2, hused⟩
  cases op with
  | push r =>
    obtain ⟨hanswer, hrest⟩ := h.push (hunused r.id rfl)
    exact ⟨congrArg Answer.request hanswer, hrest⟩
  | supersede t =>
    obtain ⟨hanswer, hrest⟩ := h.supersede t
    exact ⟨congrArg Answer.request hanswer, hrest⟩
  | merge t priority payload =>
    obtain ⟨hanswer, hrest⟩ := h.merge t priority payload
    exact ⟨congrArg Answer.number hanswer, hrest⟩
  | pop =>
    cases hpop : q.pop with
    | mk answer q' =>
      show Answer.request q.pop.1 = .request l.pop.1 ∧ Records q.pop.2 l.pop.2
      cases answer with
      | none =>
        obtain ⟨hledger, hrest⟩ := h.pop_none hpop
        rw [hpop, hledger]
        exact ⟨rfl, hrest⟩
      | some r =>
        obtain ⟨hledger, hrest⟩ := h.pop_some hpop
        rw [hpop, hledger]
        exact ⟨rfl, hrest⟩

theorem run (h : Records q l) (ops : List Op) (hnodup : (ops.filterMap Op.number?).Nodup)
    (hunused : ∀ id ∈ ops.filterMap Op.number?, q.Unused id) :
    (Op.run Op.onQueue ops q).1 = (Op.run Op.onLedger ops l).1 ∧
      Records (Op.run Op.onQueue ops q).2 (Op.run Op.onLedger ops l).2 := by
  have hfresh : q.Fresh ops := ⟨hnodup, hunused⟩
  clear hnodup hunused
  induction ops generalizing q l with
  | nil => exact ⟨rfl, h⟩
  | cons op ops ih =>
    obtain ⟨hown, hlater⟩ := hfresh.cons h.indexed h.banded
    obtain ⟨hanswer, hrest, -⟩ := h.step op hown
    obtain ⟨hanswers, hall⟩ := ih hrest hlater
    exact ⟨congrArg₂ List.cons hanswer hanswers, hall⟩

/-! ## What both hold -/

theorem mem_entries_iff (h : Records q l) {id : RequestId} {r : Request} :
    q.requests[id]? = some r ↔ ∃ x ∈ l.entries, x.request = r ∧ r.id = id := by
  have hpending : q.pendingFor? r.target = some r ↔ ∃ x ∈ l.entries, x.request = r := by
    rw [h.waits, Ledger.pendingFor?_eq_some_iff h.nodup]
    refine exists_congr fun x => and_congr_right fun _ => and_iff_left_of_imp ?_
    rintro rfl
    rfl
  rw [h.indexed.pendingFor?_eq_some_iff, and_iff_left rfl] at hpending
  constructor
  · intro hr
    obtain ⟨rfl, -⟩ := h.indexed.requests hr
    obtain ⟨x, hx, hxr⟩ := hpending.1 hr
    exact ⟨x, hx, hxr, rfl⟩
  · rintro ⟨x, hx, hxr, rfl⟩
    exact hpending.2 ⟨x, hx, hxr⟩

theorem get? (h : Records q l) (id : RequestId) : q.get? id = l.get? id := by
  refine Option.ext fun r => h.mem_entries_iff.trans ?_
  rw [Ledger.get?, Option.map_eq_some_iff]
  constructor
  · rintro ⟨x, hx, rfl, hid⟩
    cases hfind : l.entries.find? (·.request.id = id) with
    | none => exact absurd (decide_eq_true hid) (List.find?_eq_none.1 hfind x hx)
    | some y =>
      have hy : y.request.id = id := by simpa using List.find?_some hfind
      have hrx := h.mem_entries_iff.2 ⟨x, hx, rfl, hid⟩
      have hry := h.mem_entries_iff.2
        ⟨y, List.mem_of_find?_eq_some hfind, rfl, hy⟩
      exact ⟨y, rfl, Option.some.inj (hry.symm.trans hrx)⟩
  · rintro ⟨x, hfind, rfl⟩
    exact ⟨x, List.mem_of_find?_eq_some hfind, rfl, by simpa using List.find?_some hfind⟩

/-- The table of requests lists the requests of the entries. -/
theorem perm_requests (h : Records q l) :
    (l.entries.map fun x => (x.request.id, x.request)).Perm q.requests.toList := by
  have hnodup : (l.entries.map fun x => (x.request.id, x.request)).Nodup := by
    refine List.Nodup.of_map (fun y : RequestId × Request => y.2.target) ?_
    rw [List.map_map]
    exact h.nodup
  have hnodup' : q.requests.toList.Nodup := by
    refine List.Nodup.of_map Prod.fst ?_
    rw [Std.ExtTreeMap.map_fst_toList_eq_keys]
    exact Table.nodup_keys _
  refine (List.perm_ext_iff_of_nodup hnodup hnodup').2 fun ⟨id, r⟩ => ?_
  rw [Std.ExtTreeMap.mem_toList_iff_getElem?_eq_some, h.mem_entries_iff, List.mem_map]
  refine exists_congr fun x => and_congr_right fun _ => ?_
  rw [Prod.mk.injEq]
  constructor
  · rintro ⟨hid, rfl⟩
    exact ⟨rfl, hid⟩
  · rintro ⟨rfl, hid⟩
    exact ⟨hid, rfl⟩

theorem size (h : Records q l) : q.size = l.size := by
  have hlength := h.perm_requests.length_eq
  rw [List.length_map, Std.ExtTreeMap.length_toList] at hlength
  exact hlength.symm

theorem bandSize (h : Records q l) (p : Priority) : q.bandSize p = l.bandSize p := by
  rw [Queue.bandSize, ← (h.perm_requests.filter _).length_eq, List.filter_map, List.length_map]
  rfl

end Records

/-- A queue gives the answers of a list of requests with stamps to all operations, if each request
is pushed under a number of its own; and then the same requests wait in both, at most one for each
target. As this holds for all operations, it holds after each of them. -/
theorem answers_as_ledger (ops : List Op) (hnumbers : (ops.filterMap Op.number?).Nodup) :
    let q := (Op.run Op.onQueue ops {}).2
    let l := (Op.run Op.onLedger ops {}).2
    (Op.run Op.onQueue ops {}).1 = (Op.run Op.onLedger ops {}).1 ∧
      (l.entries.map Entry.target).Nodup ∧ (l.entries.map Entry.stamp).Nodup ∧
      q.size = l.size ∧ (∀ p, q.bandSize p = l.bandSize p) ∧ (∀ id, q.get? id = l.get? id) ∧
      ∀ t, q.pendingFor? t = l.pendingFor? t := by
  have hunused : ∀ id, Unused {} id := fun id p => by cases p <;> exact List.not_mem_nil
  obtain ⟨hanswers, h⟩ := Records.empty.run ops hnumbers fun id _ => hunused id
  exact ⟨hanswers, h.nodup, h.order.nodup_stamps, h.size, h.bandSize, h.get?, h.waits⟩

/-- A request that urgent work moved is served before one that came earlier to a less urgent place,
and its old number is passed over. -/
theorem moved_served_once :
    let r (id : RequestId) (object : ObjectId) : Request :=
      ⟨id, id, ⟨object, "v"⟩, .property, .none, .low, .queued⟩
    let ops : List Op := [.push (r 1 "a"), .push (r 2 "b"), .merge ⟨"b", "v"⟩ .high .none, .pop,
      .push (r 3 "a"), .pop, .pop]
    (ops.filterMap Op.number?).Nodup ∧
      (Op.run Op.onQueue ops {}).1 = (Op.run Op.onLedger ops {}).1 ∧
      (Op.run Op.onQueue ops {}).1 = [.request none, .request none, .number (some 2),
        .request (some { r 2 "b" with priority := .high }),
        .request (some { r 1 "a" with state := .superseded }), .request (some (r 3 "a")),
        .request none] := by
  intro r ops
  have hnumbers : (ops.filterMap Op.number?).Nodup := by decide
  exact ⟨hnumbers, (answers_as_ledger ops hnumbers).1, by decide⟩

end Queue

end Parametric
