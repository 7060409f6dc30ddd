import Parametric.Proofs.Graph.Visits
import Parametric.Proofs.Update.Cascade
import Parametric.Proofs.Update.Draining
import Parametric.Proofs.Update.Turn

/-!
# Changes whose affected entities come up again

When a change is scheduled, what follows from it waits in the order of the graph, but for the
affected entities themselves, which the change stands for. The cascade knows no such exception: once
the change is applied, an affected entity that consumes another one is put behind all that waits
(`stage_cascade`). So a drain serves a line that consumers join (`yields_of_serves`), which comes to
an end (`Graph.exists_serves`), and is in order exactly when the visits of the graph are
(`recomputes_in_order_iff`).
-/

namespace Parametric

namespace Graph

/-- Who joins a line takes at most the efforts of all who come. -/
theorem sum_joinLine_le (effort : Entity → Nat) (line es : List Entity) :
    ((joinLine line es).map effort).sum ≤ (line.map effort).sum + (es.map effort).sum := by
  induction es generalizing line with
  | nil => exact Nat.le_refl _
  | cons e es ih =>
    have hfirst : ((joinLine line [e]).map effort).sum ≤ (line.map effort).sum + effort e := by
      simp only [joinLine, List.foldl_cons, List.foldl_nil]
      split
      · exact Nat.le_add_right _ _
      · simp
    have hlater := ih (joinLine line [e])
    rw [← joinLine_append, List.singleton_append] at hlater
    rw [List.map_cons, List.sum_cons, ← Nat.add_assoc]
    exact hlater.trans (Nat.add_le_add_right hfirst _)

/-- Every line is served to its end, as the efforts of its entities get less. -/
theorem exists_serves {g : Graph} (hg : g.Sound) (line : List Entity) :
    ∃ es, g.Serves line es := by
  induction hn : (line.map (g.effort hg)).sum using Nat.strong_induction_on generalizing line with
  | _ n ih =>
    cases line with
    | nil => exact ⟨[], .nil⟩
    | cons e rest =>
      have hjoin := sum_joinLine_le (g.effort hg) rest (g.consumersOf e)
      rw [List.map_cons, List.sum_cons, effort_eq] at hn
      obtain ⟨es, h⟩ := ih _ (by omega) (joinLine rest (g.consumersOf e)) rfl
      exact ⟨e :: es, .cons h⟩

end Graph

theorem Request.stable_recompute : Request.Stable fun r => r.kind = .recompute :=
  ⟨fun _ h => h, fun _ _ _ _ h => h⟩

namespace Scheduler

variable {g : Graph} {p : Priority} {s : Scheduler} {rest : List Request} {P : Request → Prop}

/-! ## Consumers join the line -/

theorem Stage.priority_eq (h : Stage g p s rest) {r : Request} (hr : r ∈ rest) :
    r.priority = p := by
  have hr' : r ∈ s.queue.line p := by rwa [h.line, if_pos rfl]
  exact ((Queue.mem_line_iff h.orderly.indexed h.orderly.banded).1 hr').2

/-- The line has all that waits. -/
theorem Stage.mem_iff (h : Stage g p s rest) {r : Request} :
    r ∈ rest ↔ s.queue.pendingFor? r.target = some r := by
  rw [← Queue.exists_mem_line_iff h.orderly.indexed h.orderly.banded, h.line]
  constructor
  · intro hr
    rwa [if_pos (h.priority_eq hr).symm]
  · intro hr
    split at hr
    · exact hr
    · cases hr

theorem Stage.size_eq_zero_iff (h : Stage g p s rest) : s.queue.size = 0 ↔ rest = [] := by
  constructor
  · intro hsize
    have hidle : s.isIdle := decide_eq_true (by simp [pending, hsize, h.unread])
    refine List.eq_nil_iff_forall_not_mem.2 fun r hr => not_waits_of_isIdle hidle r.target ?_
    rw [Waits, h.mem_iff.1 hr]
    rfl
  · rintro rfl
    refine Std.ExtTreeMap.eq_empty_iff_size_eq_zero.1 (Std.ExtTreeMap.ext_getElem? fun id => ?_)
    rw [Std.ExtTreeMap.getElem?_empty]
    cases hr : s.queue.requests[id]? with
    | none => rfl
    | some r =>
      obtain rfl := (h.orderly.indexed.requests hr).1
      cases h.mem_iff.2 (h.orderly.indexed.pendingFor?_eq_some_iff.2 ⟨hr, rfl⟩)

/-- A recompute is folded into a request of the line, or joins it. -/
theorem stage_enqueueRecompute (hP : Request.Stable P) (h : Stage g p s rest) (trigger : Entity)
    (value : Option Value) (root : RequestId) (c : Entity) :
    ∃ rest', Stage g p (s.enqueueRecompute trigger value p root c) rest' ∧
      rest'.map Request.target = Graph.joinLine (rest.map Request.target) [c] ∧
      ((∀ r ∈ rest, P r) → ∀ r ∈ rest', P r) := by
  have hs := h.orderly
  cases hwaits : s.queue.pendingFor? c with
  | none =>
    let r : Request :=
      ⟨s.inbox.nextId, root, c, .recompute, .recompute c.property trigger value, p, .queued⟩
    have hc : c ∉ rest.map Request.target := fun hc => by
      obtain ⟨r, hr, rfl⟩ := List.mem_map.1 hc
      rw [h.mem_iff.1 hr] at hwaits
      cases hwaits
    obtain ⟨-, -, hline⟩ := Queue.push_line hs.indexed hs.banded (r := r)
      (hs.unusedNext _ (Nat.le_refl _))
    rw [enqueueRecompute_of_none hs.indexed hwaits]
    refine ⟨rest ++ [r], ⟨hs.recompute rfl, h.unread, h.graph, fun p' => ?_⟩, ?_, fun hall => ?_⟩
    · rw [hline hwaits, h.line]
      change _ ++ (if p = p' then [r] else []) = _
      split <;> rfl
    · simp [Graph.joinLine, hc, r]
    · exact List.forall_mem_append.2 ⟨hall, by simpa using hP.recompute r rfl⟩
  | some r =>
    obtain rfl := hs.indexed.target_eq hwaits
    have hr := h.mem_iff.2 hwaits
    obtain rfl := h.priority_eq hr
    let payload : Payload := .recompute r.target.property trigger value
    obtain ⟨-, -, hline⟩ := Queue.merge_line hs.indexed hs.banded hwaits r.priority payload
    rw [enqueueRecompute_of_some hs.indexed hwaits]
    let absorb (x : Request) : Request :=
      if x.target = r.target then r.absorb r.priority payload else x
    refine ⟨rest.map absorb, ⟨hs.merge hwaits _ _, h.unread, h.graph, fun p' => ?_⟩, ?_,
      fun hall x hx => ?_⟩
    · rw [hline (Nat.lt_irrefl _), h.line]
      split <;> rfl
    · have htarget : ∀ x, (absorb x).target = x.target := fun x => by
        dsimp only [absorb]
        split
        next hx => exact hx.symm
        next => rfl
      have hmem : r.target ∈ rest.map Request.target := List.mem_map_of_mem hr
      simp [Graph.joinLine, Function.comp_def, htarget, List.mem_map.1 hmem]
    · obtain ⟨y, hy, rfl⟩ := List.mem_map.1 hx
      dsimp only [absorb]
      split
      · exact hP.absorb r _ _ rfl (hall r hr)
      · exact hall y hy

theorem stage_foldl_enqueueRecompute (hP : Request.Stable P) (h : Stage g p s rest)
    (trigger : Entity) (value : Option Value) (root : RequestId) (cs : List Entity) :
    ∃ rest', Stage g p (cs.foldl (enqueueRecompute · trigger value p root) s) rest' ∧
      rest'.map Request.target = Graph.joinLine (rest.map Request.target) cs ∧
      ((∀ r ∈ rest, P r) → ∀ r ∈ rest', P r) := by
  induction cs generalizing s rest with
  | nil => exact ⟨rest, h, rfl, fun h => h⟩
  | cons c cs ih =>
    obtain ⟨rest', h', htargets, hall⟩ := stage_enqueueRecompute hP h trigger value root c
    obtain ⟨rest'', h'', htargets', hall'⟩ := ih h'
    refine ⟨rest'', h'', ?_, fun h => hall' (hall h)⟩
    rw [htargets', htargets, ← Graph.joinLine_append, List.singleton_append]

/-- The consumers of what a request affects join the line. -/
theorem stage_cascade (hP : Request.Stable P) {r : Request} (h : Stage g r.priority s rest)
    (o : Outcome) :
    ∃ rest', Stage g r.priority (s.cascade r o) rest' ∧ rest'.map Request.target =
        Graph.joinLine (rest.map Request.target) (r.affected.flatMap g.consumersOf) ∧
      ((∀ r ∈ rest, P r) → ∀ r ∈ rest', P r) := by
  unfold cascade
  generalize r.affected = affected
  induction affected generalizing s rest with
  | nil => exact ⟨rest, h, rfl, fun h => h⟩
  | cons e affected ih =>
    obtain ⟨rest', h', htargets, hall⟩ :=
      stage_foldl_enqueueRecompute hP h e o.value r.root (s.graph.consumersOf e)
    obtain ⟨rest'', h'', htargets', hall'⟩ := ih h'
    refine ⟨rest'', h'', ?_, fun h => hall' (hall h)⟩
    rw [htargets', htargets, ← Graph.joinLine_append, h.graph, List.flatMap_cons]

/-! ## Serving the line -/

/-- A drain serves the targets `es` as far as its limit goes, and leaves nothing when the limit does
not end before them. -/
def Yields {τ : Type} (applier : Applier τ) (d : Drain τ) (es : List Entity) : Prop :=
  ∀ limit, (Drain.services applier limit d).map (fun x => x.request.target) = es.take limit ∧
    ((Drain.serveAll applier limit d).scheduler.queue.size = 0 ↔ es.length ≤ limit)

theorem serveAll_zero {τ : Type} (applier : Applier τ) {d : Drain τ}
    (h : Stage g p d.scheduler rest) :
    (Drain.serveAll applier 0 d).scheduler.queue.size = 0 ↔ rest = [] := by
  rw [Drain.serveAll, readInbox_eq h.unread]
  exact h.size_eq_zero_iff

theorem yields_nil {τ : Type} (applier : Applier τ) {d : Drain τ} (h : Stage g p d.scheduler []) :
    Yields applier d [] := by
  have hsize := (serveAll_zero applier h).2 rfl
  intro limit
  cases limit with
  | zero => exact ⟨rfl, iff_of_true hsize (Nat.le_refl 0)⟩
  | succ limit =>
    have hpop := h.pop_nil
    cases hqueue : d.scheduler.readInbox.queue.pop with
    | mk request queue =>
      rw [hqueue] at hpop
      cases hpop
      obtain ⟨hall, hservices⟩ := Drain.serveAll_of_pop_none applier limit hqueue
      have hkept : queue.size = d.scheduler.readInbox.queue.size :=
        congrArg Std.ExtTreeMap.size (Queue.keys_pop_none hqueue)
      rw [hall, hservices]
      exact ⟨rfl, iff_of_true (hkept.trans hsize) (Nat.zero_le _)⟩

section

variable {τ : Type} {applier : Applier τ} (hreserved : applier.Reserved)
  (hsucceeds : ∀ r t inbox, ((applier.apply r t).run inbox).1.isOk)
include hreserved hsucceeds

/-- When the first of a line is applied, the consumers of what it affects join the rest. -/
theorem services_of_stage_cons (hP : Request.Stable P) {r : Request} {d : Drain τ}
    (h : Stage g p d.scheduler (r :: rest)) (limit : Nat) :
    ∃ x d' rest', Drain.services applier (limit + 1) d = x :: Drain.services applier limit d' ∧
      Drain.serveAll applier (limit + 1) d = Drain.serveAll applier limit d' ∧ x.request = r ∧
      Stage g p d'.scheduler rest' ∧ rest'.map Request.target =
        Graph.joinLine (rest.map Request.target) (r.affected.flatMap g.consumersOf) ∧
      ((∀ r ∈ rest, P r) → ∀ r ∈ rest', P r) := by
  obtain rfl := h.priority_eq List.mem_cons_self
  obtain ⟨queue, hpop, hpopped⟩ := h.pop_cons
  obtain ⟨hall, hservices⟩ := Drain.serveAll_of_pop_some applier limit hpop
  rcases Drain.scheduler_serve hreserved (d.popped queue) r with ⟨hfailed, -⟩ | ⟨o, bounds, heq⟩
  · have hok : ((d.popped queue).answer applier r).1.isOk = true := hsucceeds ..
    rw [hfailed] at hok
    cases hok
  · obtain ⟨rest', hstage, htargets, hkept⟩ := stage_cascade hP hpopped o
    refine ⟨_, _, rest', hservices, hall, rfl, ?_, htargets, hkept⟩
    rw [heq]
    exact ⟨hstage.orderly, hstage.unread, hstage.graph, hstage.line⟩

/-- A request at the head of a line of recomputes comes first, and then what the line yields once
the consumers of what the request affects have joined it. -/
theorem yields_cons {r : Request} {es : List Entity} {d : Drain τ}
    (h : Stage g p d.scheduler (r :: rest)) (hrest : ∀ r ∈ rest, r.kind = .recompute)
    (hlater : ∀ {d' : Drain τ} {rest' : List Request}, Stage g p d'.scheduler rest' →
      rest'.map Request.target =
        Graph.joinLine (rest.map Request.target) (r.affected.flatMap g.consumersOf) →
      (∀ r ∈ rest', r.kind = .recompute) → Yields applier d' es) :
    Yields applier d (r.target :: es) := by
  intro limit
  cases limit with
  | zero =>
    rw [serveAll_zero applier h]
    exact ⟨rfl, iff_of_false (List.cons_ne_nil _ _) (Nat.not_succ_le_zero _)⟩
  | succ limit =>
    obtain ⟨x, d', rest', hservices, hall, rfl, hstage, htargets, hkept⟩ :=
      services_of_stage_cons hreserved hsucceeds Request.stable_recompute h limit
    obtain ⟨hserved, hsize⟩ := hlater hstage htargets (hkept hrest) limit
    rw [hservices, hall, List.map_cons, hserved, hsize, List.length_cons, Nat.succ_le_succ_iff]
    exact ⟨rfl, Iff.rfl⟩

/-- A line of recomputes yields itself and the consumers that join it. -/
theorem yields_of_serves {line es : List Entity} (hserves : g.Serves line es) {d : Drain τ}
    (h : Stage g p d.scheduler rest) (hline : rest.map Request.target = line)
    (hrest : ∀ r ∈ rest, r.kind = .recompute) : Yields applier d es := by
  induction hserves generalizing d rest with
  | nil =>
    cases List.map_eq_nil_iff.1 hline
    exact yields_nil applier h
  | cons _ ih =>
    obtain ⟨r, rest, rfl, rfl, rfl⟩ := List.map_eq_cons_iff.1 hline
    obtain ⟨hr, hrest⟩ := List.forall_mem_cons.1 hrest
    have haffected : r.affected = [r.target] := by
      rw [Request.affected, hr]
      rfl
    refine yields_cons hreserved hsucceeds h hrest fun hstage htargets hkept => ?_
    rw [haffected, List.flatMap_singleton] at htargets
    exact ih hstage htargets hkept

end

/-! ## The line of a change -/

/-- In an idle scheduler the request for a change is all that waits. -/
theorem stage_pushed {c : Submission} (hs : Orderly s.queue [c] s.inbox.nextId)
    (hunread : s.inbox.unread = []) (hline : ∀ p, s.queue.line p = [])
    (hpending : ∀ t, s.queue.pendingFor? t = none) :
    Stage s.graph c.priority (s.pushed c) [c.request] := by
  obtain ⟨-, -, hpush⟩ := Queue.push_line hs.indexed hs.banded (r := c.request)
    (hs.unusedRest c List.mem_cons_self)
  refine ⟨?_, hunread, rfl, fun p => ?_⟩
  · show Orderly _ s.inbox.unread _
    rw [hunread]
    exact hs.schedule
  · show (s.queue.push c.request).2.line p = _
    rw [hpush (hpending _), hline, List.nil_append]
    rfl

/-- After a change of an idle scheduler, its request is the first of a line, and a recompute of each
follower beyond is behind it. -/
theorem stage_schedule_beyond {c : Submission} (hg : s.graph.Sound)
    (hs : Orderly s.queue [c] s.inbox.nextId) (hunread : s.inbox.unread = [])
    (hline : ∀ p, s.queue.line p = []) (hpending : ∀ t, s.queue.pendingFor? t = none) :
    ∃ r rest, Stage s.graph c.priority (s.schedule c) (r :: rest) ∧ r.target = c.target ∧
      r.affected = c.request.affected ∧
      rest.map Request.target = s.graph.beyond c.request.affected c.target ∧
      ∀ x ∈ rest, x.kind = .recompute := by
  obtain ⟨rest, hstage, htargets, hkept⟩ := stage_foldl_enqueueRecompute
    (Request.stable_recompute.or_target c.target) (stage_pushed hs hunread hline hpending)
    c.target none c.id (s.graph.downstream c.request.affected)
  rw [← schedule_eq] at hstage
  have hbeyond : rest.map Request.target =
      c.target :: s.graph.beyond c.request.affected c.target := by
    have hfilter : (s.graph.downstream c.request.affected).filter
        (· ∉ [c.request].map Request.target) = s.graph.beyond c.request.affected c.target :=
      List.filter_congr fun x _ => by simp [Submission.request]
    have hjoin : Graph.joinLine [] (s.graph.beyond c.request.affected c.target) =
        s.graph.beyond c.request.affected c.target :=
      Graph.joinLine_of_nodup (Graph.pairwise_beyond hg _ _).1
    rw [htargets, Graph.joinLine_eq, hfilter, hjoin]
    rfl
  obtain ⟨r, rest, rfl, hr, hrest⟩ := List.map_eq_cons_iff.1 hbeyond
  refine ⟨r, rest, hstage, hr, ?_, hrest, fun x hx => ?_⟩
  · -- The recomputes of the target are folded into its request.
    obtain ⟨r', hwaits, haffected⟩ := WaitsAs.schedule (t := c.target)
      (Q := fun r => r.affected = c.request.affected)
      (fun r priority payload hpayload h => (r.affected_absorb priority hpayload).trans h)
      hs.toNumbered (by rw [if_pos rfl])
    have hfirst := hstage.mem_iff.1 List.mem_cons_self
    rw [hr, hwaits] at hfirst
    exact Option.some.inj hfirst ▸ haffected
  · have hmem : x.target ∈ s.graph.beyond c.request.affected c.target :=
      hrest ▸ List.mem_map_of_mem hx
    refine (hkept (by simp [Submission.request]) x (List.mem_cons_of_mem _ hx)).resolve_left
      fun htarget => ?_
    exact ((Graph.mem_beyond hg).1 hmem).2 (htarget ▸ List.mem_cons_self)

/-- A change of an idle scheduler, and a drain with an applier that submits no changes and fails at
nothing. The drain serves the change and then the entities `recomputed`, as far as its limit goes,
and nothing is left when the limit is greater than their count. They are the entities that follow
from what the change affects. None of them but the target comes twice, and no consumer before one of
its producers, exactly when the visits of the graph are in order, and then they are the visits. This
fails when an affected entity, or the target, follows from the change and feeds an entity beyond,
which is then recomputed before it and once more after it. -/
theorem recomputes_in_order_iff (settings : PropagationSettings) (ops : List Op) (change : Change)
    (target : Entity) {τ : Type} (applier : Applier τ) (state : τ) :
    let s := (history ops { settings }).2
    let affected := change.kind.affected target change.payload
    let s' := s.afterChange change
    s.isIdle → change.kind ≠ .recompute →
    change.kind.target change.object change.payload = .ok target →
    applier.Reserved → (∀ r t inbox, ((applier.apply r t).run inbox).1.isOk) →
    ∃ recomputed,
      (s'.services applier state).map (fun x => x.request.target) =
        (target :: recomputed).take s.settings.maxServed ∧
      ((s'.drain applier state).1.remaining = 0 ↔ recomputed.length < s.settings.maxServed) ∧
      (∀ x, x ∈ recomputed ↔ s.graph.Follows affected x) ∧
      ((∀ x, x ≠ target → recomputed.count x ≤ 1) ∧ s.graph.InOrder recomputed ↔
        s.graph.InOrder (s.graph.visits affected target)) ∧
      (s.graph.InOrder recomputed → recomputed = s.graph.visits affected target) ∧
      ∀ e ∈ target :: affected, s.graph.Follows affected e → ∀ c ∉ target :: affected,
        s.graph.Feeds e c → [c, e, c].Sublist recomputed := by
  intro s affected s' hidle hkind htarget hreserved hsucceeds
  have hsound : s.Sound := (history_spec (Sound.new settings) ops).1
  have hs : Orderly s.queue s.inbox.unread s.inbox.nextId :=
    (accounted_history settings ops).1.orderly
  obtain ⟨hunread, hline, hpending⟩ := stage_of_isIdle hs hidle
  let c : Submission := ⟨s.inbox.nextId, target, change.kind, change.payload, change.priority⟩
  have hschedule : s' = s.accepted.schedule c := s.afterChange_taken hkind htarget
  have hsettings : s'.settings = s.settings := hschedule ▸ s.accepted.settings_schedule c
  obtain ⟨r, rest, hstage, hr, haffected, hrest, hrecomputes⟩ := stage_schedule_beyond
    (s := s.accepted) (c := c) hsound.graph (hs.accept rfl hkind (by rw [hunread])) hunread hline
    hpending
  obtain ⟨recomputed, h⟩ := Graph.exists_serves hsound.graph (Graph.joinLine
    (s.graph.beyond affected target) (affected.flatMap s.graph.consumersOf))
  have hyields : Yields applier ⟨s', state, {}⟩ (target :: recomputed) := by
    rw [show target = r.target from hr.symm]
    refine yields_cons hreserved hsucceeds (hschedule ▸ hstage) hrecomputes
      fun hlater htargets => ?_
    rw [haffected, hrest] at htargets
    exact yields_of_serves hreserved hsucceeds h hlater htargets
  obtain ⟨hserved, hsize⟩ := hyields s.settings.maxServed
  have hremaining : (s'.drain applier state).1.remaining =
      (Drain.serveAll applier s.settings.maxServed ⟨s', state, {}⟩).scheduler.queue.size := by
    rw [← hsettings]
    exact congrArg Queue.size (Drain.queue_flushAll applier _)
  obtain ⟨hiff, heq⟩ := h.visits hsound.graph
  refine ⟨recomputed, ?_, hremaining ▸ hsize, h.mem_iff_follows hsound.graph,
    ⟨fun hinOrder => hiff.1 hinOrder.2, fun hvisits => ⟨fun x _ => ?_, hiff.2 hvisits⟩⟩, heq,
    fun e he hfollows x hx hfeeds => h.sublist_again hsound.graph he hfollows hx hfeeds⟩
  · rw [services, hsettings]
    exact hserved
  · rw [heq (hiff.2 hvisits)]
    exact List.nodup_iff_count_le_one.1 (Graph.nodup_visits hsound.graph affected target) x

/-- The height of an object is computed from its width, and a property of another object from the
height. When the size of the object changes, that property is recomputed before the height. -/
theorem height_recomputed_too_late :
    let edge (p c : Entity) : Op := .add p c ⟨.reference, none⟩
    let ops := [edge ⟨"a", "width"⟩ ⟨"a", "height"⟩, edge ⟨"a", "height"⟩ ⟨"b", "y"⟩]
    let change : Change := { object := "a", kind := .size, payload := .none }
    let applier : Applier Unit :=
      { apply _ _ := .done (.ok {}) (), applyBounds _ _ _ := (.ok (), ()) }
    let s := (history ops { settings := {} }).2
    let s' := s.afterChange change
    (s'.services applier ()).map (fun x => x.request.target) =
        [⟨"a", "size"⟩, ⟨"b", "y"⟩, ⟨"a", "height"⟩, ⟨"b", "y"⟩] ∧
      (s'.drain applier ()).1.remaining = 0 ∧
      ¬ s.graph.InOrder
        (s.graph.visits (ChangeKind.size.affected ⟨"a", "size"⟩ .none) ⟨"a", "size"⟩) := by
  intro edge ops change applier s s'
  have hserved : (s'.services applier ()).map (fun x => x.request.target) =
      [⟨"a", "size"⟩, ⟨"b", "y"⟩, ⟨"a", "height"⟩, ⟨"b", "y"⟩] := by decide +kernel
  have hremaining : (s'.drain applier ()).1.remaining = 0 := by decide +kernel
  have hlimit : s.settings.maxServed = 10000 := by decide
  obtain ⟨recomputed, htake, -, -, hiff, -⟩ :=
    recomputes_in_order_iff {} ops change ⟨"a", "size"⟩ applier () (by decide) (by decide)
      rfl ⟨fun _ _ _ => rfl, fun _ _ _ => rfl⟩ (fun _ _ _ => rfl)
  rw [hserved, hlimit] at htake
  have hlength : recomputed.length = 3 := by
    have := congrArg List.length htake
    simp only [List.length_take, List.length_cons, List.length_nil] at this
    omega
  rw [List.take_of_length_le (by rw [List.length_cons]; omega)] at htake
  obtain ⟨-, rfl⟩ := List.cons.inj htake
  refine ⟨hserved, hremaining, fun hvisits => ?_⟩
  exact absurd ((hiff.2 hvisits).1 ⟨"b", "y"⟩ (by decide)) (by decide)

end Scheduler

end Parametric
