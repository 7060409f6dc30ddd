import Parametric.Settings
import Parametric.Update.Graph
import Parametric.Update.PendingBounds
import Parametric.Update.Queue

/-!
# The scheduler

A change is scheduled together with a recompute of everything that follows from it. A drain serves
requests in order, hands each one to an applier, and schedules the consumers of whatever was
applied. At the end of a drain the containers whose children changed are recalculated.

An applier answers each request in a conversation: it may submit further changes, and is told how
each of them was taken, before it says what came of the request.
-/

namespace Parametric

/-! ## Changes and the inbox -/

/-- A change as it is asked for. -/
structure Change where
  object : ObjectId
  kind : ChangeKind
  payload : Payload := .none
  priority : Priority := .normal
deriving DecidableEq

/-- A change that has its number and its target. -/
structure Submission where
  id : RequestId
  target : Entity
  kind : ChangeKind
  payload : Payload
  priority : Priority
deriving DecidableEq

/-- The submissions that the scheduler has not read, and the next number to give out. -/
structure Inbox where
  unread : List Submission := []
  nextId : RequestId := 1

namespace Inbox

/-- Give a change its number and its target. A recompute cannot be asked for, and a refused change
takes no number. -/
def accept (i : Inbox) (c : Change) : Except ScheduleError (Submission × Inbox) :=
  if c.kind = .recompute then .error (.unknownKind c.kind.name)
  else do
    let target ← c.kind.target c.object c.payload
    return (⟨i.nextId, target, c.kind, c.payload, c.priority⟩, { i with nextId := i.nextId + 1 })

/-- Leave a change for the scheduler to read. -/
def submit (i : Inbox) (c : Change) : Except ScheduleError RequestId × Inbox :=
  match i.accept c with
  | .error e => (.error e, i)
  | .ok (s, i) => (.ok s.id, { i with unread := i.unread ++ [s] })

end Inbox

/-! ## Appliers -/

/-- What an applier with states of type `τ` answers to a request. -/
inductive Reply (τ : Type)
  | done (result : Except ApplyError Outcome) (state : τ)
  /-- Submit a change, and go on with how it was taken. -/
  | submit (change : Change) (next : Except ScheduleError RequestId → Reply τ)

/-- Carry a reply out. -/
def Reply.run {τ : Type} : Reply τ → Inbox → Except ApplyError Outcome × τ × Inbox
  | done result state, inbox => (result, state, inbox)
  | submit change next, inbox =>
    let (taken, inbox) := inbox.submit change
    (next taken).run inbox

/-- The side of the scene in a drain. -/
structure Applier (τ : Type) where
  /-- Carry a request out. -/
  apply : Request → τ → Reply τ
  /-- Recalculate a container from the latest bounds of some of its children. -/
  applyBounds : ObjectId → ChildBounds → τ → Except ApplyError Unit × τ
  /-- The changes that are submitted while a container is recalculated. -/
  boundsChanges : ObjectId → ChildBounds → τ → List Change := fun _ _ _ => []

/-! ## Reports -/

/-- A request that was applied. -/
structure Applied where
  request : RequestId
  root : RequestId
  target : Entity
deriving DecidableEq

/-- A request that failed. -/
structure Failure where
  request : RequestId
  root : RequestId
  target : Entity
  reason : ApplyError
deriving DecidableEq

/-- What a drain did. -/
structure Report where
  /-- The applied requests in the order of service. -/
  applied : List Applied := []
  failed : List Failure := []
  /-- The requests that newer changes took the place of since the last drain. -/
  superseded : List RequestId := []
  boundsFlushed : Nat := 0
  boundsFailed : List (ObjectId × ApplyError) := []
  /-- The count of requests left for the next drain. -/
  remaining : Nat := 0
deriving DecidableEq

namespace Report

/-- Nothing failed. -/
def isClean (r : Report) : Bool := r.failed.isEmpty && r.boundsFailed.isEmpty

def targets (r : Report) : List Entity := r.applied.map Applied.target

end Report

/-! ## Scheduling -/

/-- The graph, the queue and what else waits. -/
structure Scheduler where
  graph : Graph := {}
  queue : Queue := {}
  bounds : PendingBounds := {}
  settings : PropagationSettings := {}
  /-- The requests that newer changes took the place of since the last drain. -/
  superseded : List RequestId := []
  inbox : Inbox := {}

namespace Scheduler

/-- The count of requests that wait, unread submissions included. -/
def pending (s : Scheduler) : Nat := s.queue.size + s.inbox.unread.length

/-- Nothing waits. -/
def isIdle (s : Scheduler) : Bool := s.pending = 0

/-- Schedule a consumer to be computed again, folding the reason into a request that waits for
it. -/
def enqueueRecompute (s : Scheduler) (trigger : Entity) (triggerValue : Option Value)
    (priority : Priority) (root : RequestId) (consumer : Entity) : Scheduler :=
  let payload : Payload := .recompute consumer.property trigger triggerValue
  match s.queue.merge consumer priority payload with
  | (some _, queue) => { s with queue }
  | (none, queue) =>
    let id := s.inbox.nextId
    let (_, queue) := queue.push ⟨id, root, consumer, .recompute, payload, priority, .queued⟩
    { s with queue, inbox := { s.inbox with nextId := id + 1 } }

/-- Schedule a change and a recompute of everything that follows from it. -/
def schedule (s : Scheduler) (c : Submission) : Scheduler :=
  let request : Request := ⟨c.id, c.id, c.target, c.kind, c.payload, c.priority, .queued⟩
  let (displaced, queue) := s.queue.push request
  let s := { s with queue, superseded := s.superseded ++ (displaced.map Request.id).toList }
  (s.graph.downstream request.affected).foldl (enqueueRecompute · c.target none c.priority c.id) s

/-- Schedule a change at once: its number, and the new state. -/
def propagate (s : Scheduler) (c : Change) : Except ScheduleError (RequestId × Scheduler) := do
  let (submission, inbox) ← s.inbox.accept c
  return (submission.id, schedule { s with inbox } submission)

/-- Leave a change for the next drain. -/
def submit (s : Scheduler) (c : Change) : Except ScheduleError RequestId × Scheduler :=
  let (taken, inbox) := s.inbox.submit c
  (taken, { s with inbox })

/-- Schedule the submissions in the inbox. -/
def readInbox (s : Scheduler) : Scheduler :=
  s.inbox.unread.foldl schedule { s with inbox := { s.inbox with unread := [] } }

/-- Put edges in place of all edges into a consumer, unless that would close a cycle. -/
def replaceProducers (s : Scheduler) (consumer : Entity) (edges : List (Entity × Edge)) :
    Except CycleError Unit × Scheduler :=
  let (result, graph) := s.graph.replaceProducers consumer edges
  (result, { s with graph })

def removeConsumer (s : Scheduler) (consumer : Entity) : List (Entity × Edge) × Scheduler :=
  let (edges, graph) := s.graph.removeConsumer consumer
  (edges, { s with graph })

def removeObject (s : Scheduler) (object : ObjectId) : Nat × Scheduler :=
  let (n, graph) := s.graph.removeObject object
  (n, { s with graph })

/-- Schedule the consumers of what a request changed. -/
def cascade (s : Scheduler) (r : Request) (o : Outcome) : Scheduler :=
  r.affected.foldl (fun s producer =>
    (s.graph.consumersOf producer).foldl
      (enqueueRecompute · producer o.value r.priority r.root) s) s

/-! ## Drains -/

/-- A drain in progress. -/
structure Drain (τ : Type) where
  scheduler : Scheduler
  state : τ
  report : Report

namespace Drain

variable {τ : Type} (applier : Applier τ)

/-- Recalculate a container. -/
def flush (d : Drain τ) (parent : ObjectId) (children : ChildBounds) : Drain τ :=
  let changes := applier.boundsChanges parent children d.state
  let inbox := changes.foldl (fun inbox c => (inbox.submit c).2) d.scheduler.inbox
  let (result, state) := applier.applyBounds parent children d.state
  let d := { d with state, scheduler := { d.scheduler with inbox } }
  match result with
  | .ok () => { d with report := { d.report with boundsFlushed := d.report.boundsFlushed + 1 } }
  | .error e =>
    { d with report := { d.report with boundsFailed := d.report.boundsFailed ++ [(parent, e)] } }

/-- Keep a contribution for the end of the drain, or recalculate its container at once. -/
def contribute (d : Drain τ) (c : Contribution) : Drain τ :=
  if d.scheduler.settings.coalesceBounds then
    { d with scheduler := { d.scheduler with bounds := d.scheduler.bounds.add c } }
  else d.flush applier c.parent ((∅ : ChildBounds).insert c.child c.bounds)

/-- Serve a request. One that fails is reported and has no consequences. -/
def serve (d : Drain τ) (r : Request) : Drain τ :=
  let (result, state, inbox) :=
    (applier.apply { r with state := .processing } d.state).run d.scheduler.inbox
  let d := { d with state, scheduler := { d.scheduler with inbox } }
  match result with
  | .error e =>
    { d with report :=
        { d.report with failed := d.report.failed ++ [⟨r.id, r.root, r.target, e⟩] } }
  | .ok outcome =>
    let d := { d with scheduler := d.scheduler.cascade r outcome }
    let d := match outcome.bounds with
      | none => d
      | some c => d.contribute applier c
    { d with report := { d.report with applied := d.report.applied ++ [⟨r.id, r.root, r.target⟩] } }

/-- Serve requests until none waits or `limit` are served. Submissions are read before each one. -/
def serveAll : Nat → Drain τ → Drain τ
  | 0, d => { d with scheduler := d.scheduler.readInbox }
  | limit + 1, d =>
    let s := d.scheduler.readInbox
    match s.queue.pop with
    | (none, queue) => { d with scheduler := { s with queue } }
    | (some r, queue) => serveAll limit (serve applier { d with scheduler := { s with queue } } r)

/-- Recalculate the containers that wait, in their order. -/
def flushAll (d : Drain τ) : Drain τ :=
  let parents := d.scheduler.bounds.parents.toList
  let d := { d with scheduler := { d.scheduler with bounds := {} } }
  parents.foldl (fun d (parent, children) => d.flush applier parent children) d

def finish (d : Drain τ) : Report × Scheduler × τ :=
  ({ d.report with superseded := d.scheduler.superseded, remaining := d.scheduler.queue.size },
    { d.scheduler with superseded := [] }, d.state)

end Drain

/-- Serve requests in order, up to the limit of the settings, and recalculate containers. -/
def drain {τ : Type} (s : Scheduler) (applier : Applier τ) (state : τ) : Report × Scheduler × τ :=
  ((Drain.serveAll applier s.settings.maxServed ⟨s, state, {}⟩).flushAll applier).finish

end Scheduler

end Parametric
