import Parametric.Proofs.Workbench.Serve

/-!
# Drains of a workbench

Between operations a workbench is steady: its formulas are bound, nothing is left in the inbox, and
the requests that wait are about properties (`Workbench.Steady`). A drain keeps this, and every
property that applying a request keeps (`Served.drain`).
-/

namespace Parametric.Workbench

open Scheduler

variable {σ : Type} {w w' : Workbench σ} {ok : Entity → Prop}

/-- Nothing is in the inbox, and all requests are about properties. -/
structure Steady (ok : Entity → Prop) (w : Workbench σ) : Prop where
  bound : w.Bound
  unread : w.scheduler.inbox.unread = []
  queue : w.scheduler.queue.All (Request.OfProperty ok)

namespace Steady

theorem of_quiet (hw : Steady ok w) (hb : w'.Bound) (h : Quiet w.scheduler w'.scheduler) :
    Steady ok w' :=
  ⟨hb, h.unread.trans hw.unread, h.all _ (Request.stable_ofProperty ok) hw.queue⟩

end Steady

/-- A property of a workbench and of what is pending that is kept when requests are applied. -/
structure Served (ok : Entity → Prop) (P : Workbench σ → (Entity → Prop) → Prop) : Prop where
  same : ∀ {w w' : Workbench σ} {pend pend' : Entity → Prop}, w.Bound → SameContent w w' →
    P w pend → (∀ e, pend e → pend' e) → P w' pend'
  applies : ∀ {w w' : Workbench σ} {pend pend' : Entity → Prop} {r : Request}
    {result : Except ApplyError Outcome}, w.Bound → r.OfProperty ok → Applies w r result w' →
    P w pend → (∀ e, pend e → e = r.target ∨ pend' e) →
    (result.isOk → ∀ e, w.scheduler.graph.Feeds r.target e → pend' e) → P w' pend'

namespace Served

variable {P : Workbench σ → (Entity → Prop) → Prop} (hP : Served ok P)
include hP

/-- The request that was taken out of the queue is applied, which leaves its consumers to wait if it
succeeds. -/
theorem applied (hw : Steady ok w) (h : P w w.scheduler.Waits) {r : Request} {queue : Queue}
    (hpop : w.scheduler.queue.pop = (some r, queue)) {result : Except ApplyError Outcome}
    (heffect : Effect { w with scheduler := { w.scheduler with queue } } r result w')
    {s : Scheduler} (hs : Quiet { w.scheduler with queue } s)
    (hreaders : result.isOk → ∀ e, w.scheduler.graph.Feeds r.target e → s.Waits e) :
    Steady ok { w' with scheduler := s } ∧ P { w' with scheduler := s } s.Waits := by
  have hscheduler : w.scheduler.Sound := hw.bound.scheduler
  obtain ⟨hr, -, hpendingFor⟩ := hscheduler.numbered.indexed.pop_some hpop
  obtain ⟨hsound, hwaits⟩ := Drain.pop_spec hscheduler hpop
  have hof : r.OfProperty ok := hw.queue _ r hr
  let popped : Workbench σ := { w with scheduler := { w.scheduler with queue } }
  have hsame : SameContent w popped := .rescheduled _ _
  have hbound : popped.Bound := hsame.bound hw.bound hsound rfl
  have hqueue : queue.All (Request.OfProperty ok) := by
    intro t r' hr'
    rw [hpendingFor] at hr'
    split at hr'
    · cases hr'
    · exact hw.queue t r' hr'
  have happlies : Applies popped r result w' := heffect.applies hbound hof
  have hpopped := hP.same hw.bound hsame h hwaits
  have happlied : P w' s.Waits := hP.applies hbound hof happlies hpopped
    (fun e he => he.imp_right (hs.waits e)) hreaders
  have hw' : w'.Bound := happlies.bound hbound
  have hcontent : SameContent w' { w' with scheduler := s } := .rescheduled _ _
  have hgraph : s.graph = w'.scheduler.graph := by
    rw [hs.graph, happlies.scheduler]
  have hsteady : Steady ok popped := ⟨hbound, hw.unread, hqueue⟩
  exact ⟨hsteady.of_quiet (hcontent.bound hw' hs.sound hgraph) hs,
    hP.same hw' hcontent happlied fun _ he => he⟩

theorem course : Course fun w => Steady ok w ∧ P w w.scheduler.Waits where
  sound h := h.1.bound.scheduler
  unread h := h.1.unread
  same h hsame halike := by
    obtain ⟨hw, hp⟩ := h
    refine ⟨⟨hsame.bound hw.bound halike.sound halike.graph, halike.unread.trans hw.unread, ?_⟩,
      hP.same hw.bound hsame hp fun e he => ?_⟩
    · exact fun t r hr => hw.queue t r (halike.pendingFor t ▸ hr)
    · rwa [Waits, halike.pendingFor]
  failed := by
    intro w w' r queue e h hpop heffect
    have hsound := (Drain.pop_spec h.1.bound.scheduler hpop).1
    have hscheduler : w'.scheduler = { w.scheduler with queue } := heffect.scheduler
    have happlied := hP.applied h.1 h.2 hpop heffect (.refl hsound) fun h => by cases h
    rw [← hscheduler] at happlied
    exact happlied
  applied := by
    intro w w' r queue outcome h hpop heffect
    have hsound := (Drain.pop_spec h.1.bound.scheduler hpop).1
    have hscheduler : w'.scheduler = { w.scheduler with queue } := heffect.scheduler
    have hr := (h.1.bound.scheduler.numbered.indexed.pop_some hpop).1
    rw [hscheduler]
    refine hP.applied h.1 h.2 hpop heffect (.cascade hsound r outcome) fun _ c hc => ?_
    refine (waits_cascade hsound r outcome c).2 (.inl ⟨r.target, ?_, hc⟩)
    rw [(h.1.queue _ r hr).affected]
    exact List.mem_singleton_self _

/-- A drain keeps what applying a request keeps. -/
theorem drain (hw : Steady ok w) (h : P w w.scheduler.Waits) :
    Steady ok w.drain.2 ∧ P w.drain.2 w.drain.2.scheduler.Waits :=
  hP.course.drain ⟨hw, h⟩

end Served

end Parametric.Workbench
