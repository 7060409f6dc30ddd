import Parametric.Proofs.Update.Turn

/-!
# What waits about one object

`Queue.agenda` lists the requests about an object in the order of service. Work on other objects
leaves it as it is, a change of the object puts its request at the end of a line, and what is served
is not about the object or comes first in it (`agenda_pop`). So the agenda of an object that nothing
feeds is what was asked for about it and is not served yet (`Scheduler.agendaAt_schedule`,
`Scheduler.agenda_cascade`).
-/

namespace Parametric

/-- The priorities before one in the order of service are more urgent, those after it less. -/
theorem Priority.exists_split (p : Priority) : ∃ before after, all = before ++ p :: after ∧
    (∀ q ∈ before, q < p) ∧ ∀ q ∈ after, p < q := by
  cases p
  · exact ⟨[], _, rfl, by decide, by decide⟩
  · exact ⟨[.immediate], _, rfl, by decide, by decide⟩
  · exact ⟨[.immediate, .high], _, rfl, by decide, by decide⟩
  · exact ⟨[.immediate, .high, .normal], _, rfl, by decide, by decide⟩
  · exact ⟨[.immediate, .high, .normal, .low], _, rfl, by decide, by decide⟩

namespace Queue

variable {q q' : Queue} {p : Priority} {t : Entity} {r : Request} {id : ObjectId}

/-- The requests of a priority about an object in the order of service. -/
def agendaAt (q : Queue) (id : ObjectId) (p : Priority) : List Request :=
  (q.line p).filter (·.target.object = id)

/-- The requests about an object in the order of service. -/
def agenda (q : Queue) (id : ObjectId) : List Request := Priority.all.flatMap (q.agendaAt id)

theorem agenda_congr (h : ∀ p, q'.agendaAt id p = q.agendaAt id p) :
    q'.agenda id = q.agenda id := by
  rw [agenda, agenda, funext h]

theorem agendaAt_eq_nil (h : q.line p = []) : q.agendaAt id p = [] := by
  rw [agendaAt, h, List.filter_nil]

theorem agenda_eq_nil (h : ∀ p, q.line p = []) : q.agenda id = [] :=
  List.flatMap_eq_nil_iff.2 fun p _ => agendaAt_eq_nil (h p)

/-- Taking out the request for a target of another object leaves an agenda. -/
theorem filter_agendaAt (ht : t.object ≠ id) (rs : List Request) :
    (rs.filter (·.target ≠ t)).filter (·.target.object = id) =
      rs.filter (·.target.object = id) := by
  rw [List.filter_filter]
  refine List.filter_congr fun x _ => ?_
  by_cases hx : x.target.object = id
  · have hne : x.target ≠ t := fun heq => ht (heq ▸ hx)
    simp [hx, hne]
  · simp [hx]

theorem agendaAt_push_of_ne (hq : q.Indexed) (hb : q.Banded) (hunused : q.Unused r.id)
    (hr : r.target.object ≠ id) (p : Priority) : (q.push r).2.agendaAt id p = q.agendaAt id p := by
  rw [agendaAt, line_push hq hb hunused, List.filter_append, filter_agendaAt hr, agendaAt]
  split
  · rw [List.filter_singleton, decide_eq_false hr]
    exact List.append_nil _
  · exact List.append_nil _

/-- A request about the object takes the place of the one for the same target, at the end of its
line. -/
theorem agendaAt_push (hq : q.Indexed) (hb : q.Banded) (hunused : q.Unused r.id)
    (hr : r.target.object = id) (p : Priority) : (q.push r).2.agendaAt id p =
      (q.agendaAt id p).filter (·.target ≠ r.target) ++ if r.priority = p then [r] else [] := by
  rw [agendaAt, line_push hq hb hunused, List.filter_append, agendaAt, List.filter_comm]
  congr 1
  split
  · rw [List.filter_singleton, decide_eq_true hr]
    rfl
  · rfl

theorem agendaAt_merge_of_ne (hq : q.Indexed) (hb : q.Banded) (hwaits : q.pendingFor? t = some r)
    (ht : t.object ≠ id) (priority : Priority) (payload : Payload) (p : Priority) :
    (q.merge t priority payload).2.agendaAt id p = q.agendaAt id p := by
  have hr : (r.absorb priority payload).target.object ≠ id := hq.target_eq hwaits ▸ ht
  rw [agendaAt, line_merge hq hb hwaits, agendaAt]
  split
  · rw [List.filter_append, filter_agendaAt ht]
    split
    · rw [List.filter_singleton, decide_eq_false hr]
      exact List.append_nil _
    · exact List.append_nil _
  · -- Only the request for the target changes, and it is about another object before and after.
    induction q.line p with
    | nil => rfl
    | cons x xs ih =>
      rw [List.map_cons, List.filter_cons, List.filter_cons, ih]
      by_cases hx : x.target = t
      · rw [if_pos hx, if_neg (by simpa using hr), if_neg (by simpa [hx] using ht)]
      · rw [if_neg hx]

/-- What is served is not about the object, or the first of its agenda. -/
theorem agenda_pop (hb : q.Banded) (hpop : q.pop = (some r, q')) :
    q.agenda id = (if r.target.object = id then [r] else []) ++ q'.agenda id := by
  obtain ⟨rest, hline, hempty, -, -, hlines⟩ := pop_line_some hb hpop
  have hfirst : q.agendaAt id r.priority =
      (if r.target.object = id then [r] else []) ++ q'.agendaAt id r.priority := by
    rw [agendaAt, agendaAt, hlines, if_pos rfl, hline, List.filter_cons]
    by_cases hr : r.target.object = id <;> simp [hr]
  have hothers : ∀ p ≠ r.priority, q.agendaAt id p = q'.agendaAt id p := fun p hp => by
    rw [agendaAt, agendaAt, hlines, if_neg hp.symm]
  obtain ⟨before, after, hall, hbefore, hafter⟩ := r.priority.exists_split
  have hnone : ∀ p ∈ before, q.agendaAt id p = [] := fun p hp =>
    agendaAt_eq_nil (hempty p (hbefore p hp))
  have hnone' : ∀ p ∈ before, q'.agendaAt id p = [] := fun p hp => by
    rw [← hothers p fun heq => Nat.lt_irrefl _ (heq ▸ hbefore p hp), hnone p hp]
  have hlater : after.flatMap (q.agendaAt id) = after.flatMap (q'.agendaAt id) :=
    List.flatMap_congr fun p hp => hothers p fun heq => Nat.lt_irrefl _ (heq ▸ hafter p hp)
  rw [agenda, agenda, hall, List.flatMap_append, List.flatMap_append, List.flatMap_cons,
    List.flatMap_cons, List.flatMap_eq_nil_iff.2 hnone, List.flatMap_eq_nil_iff.2 hnone', hfirst,
    hlater, List.nil_append, List.nil_append, List.append_assoc]

/-- When nothing is served, nothing waits about any object, before and after. -/
theorem agenda_pop_none (hq : q.Indexed) (hb : q.Banded) (hpop : q.pop = (none, q')) :
    q'.agenda id = q.agenda id := by
  obtain ⟨hempty, hbanded, -⟩ := pop_line_none hb hpop
  obtain ⟨hindexed, hsame⟩ := hq.pop_none hpop
  rw [agenda_eq_nil hempty]
  refine agenda_eq_nil fun p => List.eq_nil_iff_forall_not_mem.2 fun r hr => ?_
  have hline : r ∈ q'.line r.priority := ((mem_line_iff hindexed hbanded).1 hr).2.symm ▸ hr
  have hwaits := (exists_mem_line_iff hindexed hbanded).1 hline
  rw [hsame, ← exists_mem_line_iff hq hb, hempty] at hwaits
  cases hwaits

end Queue

namespace Scheduler

variable {s : Scheduler} {rest : List Submission} {trigger : Entity} {value : Option Value}
  {priority : Priority} {root : RequestId} {id : ObjectId}

theorem agendaAt_enqueueRecompute (hs : Orderly s.queue rest s.inbox.nextId) {c : Entity}
    (hc : c.object ≠ id) (p : Priority) :
    (s.enqueueRecompute trigger value priority root c).queue.agendaAt id p =
      s.queue.agendaAt id p := by
  cases hwaits : s.queue.pendingFor? c with
  | none =>
    rw [enqueueRecompute_of_none hs.indexed hwaits]
    exact Queue.agendaAt_push_of_ne hs.indexed hs.banded (hs.unusedNext _ (Nat.le_refl _)) hc p
  | some r =>
    rw [enqueueRecompute_of_some hs.indexed hwaits]
    exact Queue.agendaAt_merge_of_ne hs.indexed hs.banded hwaits hc _ _ p

theorem agendaAt_foldl_enqueueRecompute (hs : Orderly s.queue rest s.inbox.nextId)
    {consumers : List Entity} (hconsumers : ∀ c ∈ consumers, c.object ≠ id) (p : Priority) :
    (consumers.foldl (enqueueRecompute · trigger value priority root) s).queue.agendaAt id p =
      s.queue.agendaAt id p := by
  induction consumers generalizing s with
  | nil => rfl
  | cons c consumers ih =>
    obtain ⟨hc, hconsumers⟩ := List.forall_mem_cons.1 hconsumers
    rw [List.foldl_cons, ih (orderly_enqueueRecompute hs c) hconsumers,
      agendaAt_enqueueRecompute hs hc]

/-- A change of the object is scheduled: its request comes to the end of its line. -/
theorem agendaAt_schedule {c : Submission} (hs : Orderly s.queue (c :: rest) s.inbox.nextId)
    (hc : c.target.object = id)
    (hconsumers : ∀ x ∈ s.graph.downstream c.request.affected, x.object ≠ id) (p : Priority) :
    (s.schedule c).queue.agendaAt id p = (s.queue.agendaAt id p).filter (·.target ≠ c.target) ++
      if c.priority = p then [c.request] else [] := by
  rw [schedule_eq]
  refine (agendaAt_foldl_enqueueRecompute (s := s.pushed c) hs.schedule hconsumers p).trans ?_
  exact Queue.agendaAt_push hs.indexed hs.banded (hs.unusedRest c List.mem_cons_self) hc p

/-- Nothing waits about an object in a scheduler that is idle. -/
theorem agendaAt_of_isIdle (hs : Orderly s.queue rest s.inbox.nextId) (hidle : s.isIdle)
    (p : Priority) : s.queue.agendaAt id p = [] := by
  refine Queue.agendaAt_eq_nil (List.eq_nil_iff_forall_not_mem.2 fun r hr => ?_)
  have hline : r ∈ s.queue.line r.priority :=
    ((Queue.mem_line_iff hs.indexed hs.banded).1 hr).2.symm ▸ hr
  exact all_of_isIdle hidle (fun _ => False) r.target r
    ((Queue.exists_mem_line_iff hs.indexed hs.banded).1 hline)

/-- What follows from a request is about objects that something feeds. -/
theorem agenda_cascade (hs : Orderly s.queue rest s.inbox.nextId) (r : Request) (o : Outcome)
    (hconsumers : ∀ p, ∀ c ∈ s.graph.consumersOf p, c.object ≠ id) :
    (s.cascade r o).queue.agenda id = s.queue.agenda id ∧
      Orderly (s.cascade r o).queue rest (s.cascade r o).inbox.nextId := by
  unfold cascade
  generalize r.affected = affected
  induction affected generalizing s with
  | nil => exact ⟨rfl, hs⟩
  | cons p affected ih =>
    obtain ⟨queue, next, heq, -⟩ := Scheduler.foldl_enqueueRecompute hs.toNumbered p o.value
      r.priority r.root (s.graph.consumersOf p)
    let s' := (s.graph.consumersOf p).foldl (enqueueRecompute · p o.value r.priority r.root) s
    have horderly : Orderly s'.queue rest s'.inbox.nextId := orderly_foldl_enqueueRecompute hs _
    have hagenda : s'.queue.agenda id = s.queue.agenda id :=
      Queue.agenda_congr (agendaAt_foldl_enqueueRecompute hs (hconsumers p))
    dsimp only [s'] at horderly hagenda
    rw [List.foldl_cons]
    rw [heq] at horderly hagenda ⊢
    obtain ⟨hsame, hlater⟩ := ih horderly hconsumers
    exact ⟨hsame.trans hagenda, hlater⟩

end Scheduler

end Parametric
