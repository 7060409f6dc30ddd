import Parametric.Update.Request

/-!
# The queue

Requests wait in one band for each priority and are served by priority first and by their entry into
the band second. No two requests for the same target wait at once: new work is folded into the
waiting request or takes its place.

A request that is withdrawn or moves to another band leaves its number behind. Such stale numbers
are skipped, and swept out when there are more of them than requests.
-/

namespace Parametric

/-- A list of requests for each priority. -/
structure Bands where
  immediate : List RequestId := []
  high : List RequestId := []
  normal : List RequestId := []
  low : List RequestId := []
  batch : List RequestId := []
deriving DecidableEq

namespace Bands

def get (b : Bands) : Priority → List RequestId
  | .immediate => b.immediate
  | .high => b.high
  | .normal => b.normal
  | .low => b.low
  | .batch => b.batch

/-- Put a list in place of the band of a priority. -/
def set (b : Bands) (p : Priority) (ids : List RequestId) : Bands :=
  match p with
  | .immediate => { b with immediate := ids }
  | .high => { b with high := ids }
  | .normal => { b with normal := ids }
  | .low => { b with low := ids }
  | .batch => { b with batch := ids }

@[simp]
theorem get_set (b : Bands) (p q : Priority) (ids : List RequestId) :
    (b.set p ids).get q = if p = q then ids else b.get q := by
  cases p <;> cases q <;> rfl

/-- Add a number at the end of a band. -/
def push (b : Bands) (p : Priority) (id : RequestId) : Bands := b.set p (b.get p ++ [id])

/-- Keep the numbers that satisfy a condition of their band. -/
def filter (b : Bands) (keep : Priority → RequestId → Bool) : Bands :=
  ⟨b.immediate.filter (keep .immediate), b.high.filter (keep .high), b.normal.filter (keep .normal),
    b.low.filter (keep .low), b.batch.filter (keep .batch)⟩

@[simp]
theorem get_filter (b : Bands) (keep : Priority → RequestId → Bool) (p : Priority) :
    (b.filter keep).get p = (b.get p).filter (keep p) := by
  cases p <;> rfl

/-- The count of all numbers. -/
def size (b : Bands) : Nat :=
  b.immediate.length + b.high.length + b.normal.length + b.low.length + b.batch.length

end Bands

/-- The waiting requests. -/
structure Queue where
  /-- The numbers in the order of service, stale ones included. -/
  bands : Bands := {}
  requests : Table RequestId Request := ∅
  /-- The request that waits for each target. -/
  pending : Table Entity RequestId := ∅
  stale : Nat := 0

namespace Queue

def size (q : Queue) : Nat := q.requests.size

def get? (q : Queue) (id : RequestId) : Option Request := q.requests[id]?

/-- The request that waits for a target. -/
def pendingFor? (q : Queue) (target : Entity) : Option Request :=
  q.pending[target]?.bind q.get?

/-- The count of waiting requests of a priority. -/
def bandSize (q : Queue) (p : Priority) : Nat :=
  (q.requests.toList.filter (·.2.priority = p)).length

/-- The count of numbers in the bands, stale ones included. -/
def storage (q : Queue) : Nat := q.bands.size

/-- Whether a number waits in this band. -/
def isLive (q : Queue) (p : Priority) (id : RequestId) : Bool :=
  match q.get? id with
  | some r => r.priority = p
  | none => false

/-- Sweep stale numbers out when there are more of them than requests. -/
def compact (q : Queue) : Queue :=
  if q.size < q.stale then { q with bands := q.bands.filter q.isLive, stale := 0 } else q

/-- One more number is stale. -/
def markStale (q : Queue) : Queue := compact { q with stale := q.stale + 1 }

/-- Withdraw the request that waits for a target: that request, and the queue without it. -/
def supersede (q : Queue) (target : Entity) : Option Request × Queue :=
  match q.pending[target]? with
  | none => (none, q)
  | some id =>
    let q := { q with pending := q.pending.erase target }
    match q.get? id with
    | none => (none, q)
    | some r =>
      (some { r with state := .superseded },
        markStale { q with requests := q.requests.erase id })

/-- Add a request. One that waits for the same target is withdrawn. -/
def push (q : Queue) (r : Request) : Option Request × Queue :=
  let (displaced, q) := q.supersede r.target
  (displaced, { q with
    bands := q.bands.push r.priority r.id
    pending := q.pending.insert r.target r.id
    requests := q.requests.insert r.id r })

/-- Fold work into the request that waits for a target: its number, and the new queue. The request
keeps its place unless the work is more urgent; then it moves to the end of that band. The reason of
a recompute gives way to a newer one, other payloads stay. -/
def merge (q : Queue) (target : Entity) (priority : Priority) (payload : Payload) :
    Option RequestId × Queue :=
  match q.pending[target]? with
  | none => (none, q)
  | some id =>
    match q.get? id with
    | none => (none, q)
    | some r =>
      let r := if r.payload.isRecompute && payload.isRecompute then { r with payload } else r
      if priority < r.priority then
        (some id, markStale { q with
          bands := q.bands.push priority id
          requests := q.requests.insert id { r with priority } })
      else (some id, { q with requests := q.requests.insert id r })

/-- Drop stale numbers from the front of a band: the first live request, and the queue without it;
the queue without the stale numbers when there is none. -/
def popBand (q : Queue) (p : Priority) : List RequestId → Option Request × Queue
  | [] => (none, { q with bands := q.bands.set p [] })
  | id :: ids =>
    match q.get? id with
    | none => popBand { q with stale := q.stale - 1 } p ids
    | some r =>
      if r.priority = p then
        (some r, compact { q with
          bands := q.bands.set p ids
          requests := q.requests.erase id
          pending := q.pending.erase r.target })
      else popBand { q with stale := q.stale - 1 } p ids

/-- Pop from the first of the given bands that has a request. -/
def popBands (q : Queue) : List Priority → Option Request × Queue
  | [] => (none, q)
  | p :: ps =>
    match q.popBand p (q.bands.get p) with
    | (some r, q) => (some r, q)
    | (none, q) => q.popBands ps

/-- The next request to serve, and the queue without it. -/
def pop (q : Queue) : Option Request × Queue := q.popBands Priority.all

end Queue

end Parametric
