import Parametric.Entity

/-!
# The dependency graph

An edge from a producer to a consumer says that the consumer must be computed again when the
producer changes. The graph never has a cycle: an edge that would close one is refused.

* `Graph.add` inserts an edge, `remove`, `removeConsumer` and `removeObject` take edges away;
* `Graph.reaches` follows edges from producers to consumers;
* `Graph.downstream` lists all that follows from some entities, producers before consumers.
-/

namespace Parametric

/-- How a consumer names its producer. -/
inductive EdgeKind
  | reference
  | variable
  /-- Through a function that depends on it. -/
  | implicit
deriving DecidableEq, Repr

/-- What is known of an edge. -/
structure Edge where
  kind : EdgeKind
  /-- A note, such as the reference as written. -/
  note : Option String
deriving DecidableEq, Repr

/-- The ends of an edge. -/
structure Link where
  producer : Entity
  consumer : Entity
deriving DecidableEq, Repr

namespace Link

/-- By producer, then by consumer. -/
instance : Ord Link where
  compare a b := (compare a.producer b.producer).then (compare a.consumer b.consumer)

theorem compare_eq_compareLex : (compare : Link → Link → Ordering) =
    compareLex (compareOn Link.producer) (compareOn Link.consumer) := rfl

instance : Std.TransOrd Link := by
  rw [Std.TransOrd, compare_eq_compareLex]
  infer_instance

instance : Std.LawfulEqOrd Link where
  eq_of_compare {a b} h := by
    obtain ⟨hp, hc⟩ : compare a.producer b.producer = .eq ∧ compare a.consumer b.consumer = .eq :=
      Ordering.then_eq_eq.1 h
    have hp := Std.LawfulEqOrd.eq_of_compare hp
    have hc := Std.LawfulEqOrd.eq_of_compare hc
    cases a
    cases b
    simp_all

end Link

/-- The edge would close a cycle. -/
structure CycleError where
  producer : Entity
  consumer : Entity
deriving DecidableEq, Repr

def CycleError.message (e : CycleError) : String :=
  "dependency " ++ e.producer.text ++ " -> " ++ e.consumer.text ++ " would create a cycle"

/-- Edges, and their ends by producer and by consumer. -/
structure Graph where
  /-- The consumers of each producer that has any. -/
  consumers : Table Entity (Group Entity) := ∅
  /-- The producers of each consumer that has any. -/
  producers : Table Entity (Group Entity) := ∅
  edges : Table Link Edge := ∅

namespace Graph

/-! ## Edges -/

def consumersOf (g : Graph) (e : Entity) : List Entity := (g.consumers[e]?.getD ∅).toList

def producersOf (g : Graph) (e : Entity) : List Entity := (g.producers[e]?.getD ∅).toList

def edge? (g : Graph) (producer consumer : Entity) : Option Edge :=
  g.edges[Link.mk producer consumer]?

/-- Add `e` to the group of `key`. -/
def join (ends : Table Entity (Group Entity)) (key e : Entity) : Table Entity (Group Entity) :=
  ends.insert key ((ends[key]?.getD ∅).insert e)

/-- Take `e` out of the group of `key`; an empty group goes. -/
def part (ends : Table Entity (Group Entity)) (key e : Entity) : Table Entity (Group Entity) :=
  match ends[key]? with
  | none => ends
  | some group =>
    let rest := group.erase e
    if rest.isEmpty then ends.erase key else ends.insert key rest

/-- Follow the edges from the entities of `todo`, leaving out those that were seen. The fuel is one
step for every entity to come: those of `todo`, and one for every edge. -/
def explore (g : Graph) : Nat → List Entity → Group Entity → Group Entity
  | _, [], seen => seen
  | 0, _, seen => seen
  | fuel + 1, e :: todo, seen =>
    if seen.contains e then g.explore fuel todo seen
    else g.explore fuel (g.consumersOf e ++ todo) (seen.insert e)

/-- The entities that some of `roots` lead to, the roots included. -/
def reached (g : Graph) (roots : List Entity) : Group Entity :=
  g.explore (roots.length + g.edges.size) roots ∅

/-- Whether edges lead from one entity to another, or they are the same. -/
def reaches (g : Graph) (source goal : Entity) : Bool := (g.reached [source]).contains goal

/-- Insert an edge, or replace what is known of it. -/
def add (g : Graph) (producer consumer : Entity) (edge : Edge) : Except CycleError Graph :=
  if producer = consumer ∨ g.reaches consumer producer then .error ⟨producer, consumer⟩
  else .ok {
    consumers := join g.consumers producer consumer
    producers := join g.producers consumer producer
    edges := g.edges.insert ⟨producer, consumer⟩ edge }

/-- Remove an edge: what was known of it, and the graph without it. -/
def remove (g : Graph) (producer consumer : Entity) : Option Edge × Graph :=
  match g.edge? producer consumer with
  | none => (none, g)
  | some edge =>
    (some edge, {
      consumers := part g.consumers producer consumer
      producers := part g.producers consumer producer
      edges := g.edges.erase ⟨producer, consumer⟩ })

/-- Remove the edges into a consumer: those edges by producer, and the graph without them. -/
def removeConsumer (g : Graph) (consumer : Entity) : List (Entity × Edge) × Graph :=
  let removed := (g.producersOf consumer).filterMap fun p => (g.edge? p consumer).map (p, ·)
  let g := (g.producersOf consumer).foldl (fun g p =>
    { g with consumers := part g.consumers p consumer, edges := g.edges.erase ⟨p, consumer⟩ }) g
  (removed, { g with producers := g.producers.erase consumer })

/-- Remove the edges at an object: how many they were, and the graph without them. -/
def removeObject (g : Graph) (object : ObjectId) : Nat × Graph :=
  let doomed := g.edges.keys.filter fun l =>
    l.producer.object = object || l.consumer.object = object
  (doomed.length, doomed.foldl (fun g l => (g.remove l.producer l.consumer).2) g)

/-- Insert edges into a consumer up to the first one that would close a cycle. -/
def addAll (g : Graph) (consumer : Entity) : List (Entity × Edge) → Except CycleError Unit × Graph
  | [] => (.ok (), g)
  | (producer, edge) :: rest =>
    match g.add producer consumer edge with
    | .ok g => g.addAll consumer rest
    | .error e => (.error e, g)

/-- Put removed edges into a consumer back; one that would close a cycle is left out. -/
def restore (g : Graph) (consumer : Entity) (removed : List (Entity × Edge)) : Graph :=
  removed.foldl (fun g (producer, edge) =>
    match g.add producer consumer edge with
    | .ok g => g
    | .error _ => g) g

/-- Put edges in place of all edges into a consumer. When one of them would close a cycle, those
that were put in are taken out and the previous ones put back. -/
def replaceProducers (g : Graph) (consumer : Entity) (edges : List (Entity × Edge)) :
    Except CycleError Unit × Graph :=
  let (previous, bare) := g.removeConsumer consumer
  match bare.addAll consumer edges with
  | (.ok (), g) => (.ok (), g)
  | (.error e, g) => (.error e, (g.removeConsumer consumer).2.restore consumer previous)

/-! ## What follows -/

/-- The order of a computation in progress: how many producers each entity still waits for, and
which entities wait for none. -/
structure Waiting where
  counts : Table Entity Nat
  ready : Group Entity

/-- A producer of `e` is done. -/
def Waiting.release (w : Waiting) (e : Entity) : Waiting :=
  match w.counts[e]? with
  | none => w
  | some n =>
    { counts := w.counts.insert e (n - 1),
      ready := if n - 1 = 0 then w.ready.insert e else w.ready }

/-- Take the least entity that waits for no producer, again and again. The fuel is the number of
entities. -/
def order (g : Graph) : Nat → Waiting → List Entity
  | 0, _ => []
  | fuel + 1, w =>
    match w.ready.toList.head? with
    | none => []
    | some e =>
      let w := { w with ready := w.ready.erase e }
      e :: g.order fuel ((g.consumersOf e).foldl Waiting.release w)

/-- All entities that follow from some of `roots`, without the roots. Producers come before
consumers, and of several entities that could come next the least does. -/
def downstream (g : Graph) (roots : List Entity) : List Entity :=
  let followers := (g.reached roots).filter fun e => !roots.contains e
  let count (e : Entity) := ((g.producersOf e).filter followers.contains).length
  let counts : Table Entity Nat := .ofList (followers.toList.map fun e => (e, count e))
  g.order followers.size ⟨counts, followers.filter fun e => count e = 0⟩

end Graph

end Parametric
