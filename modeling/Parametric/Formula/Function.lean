import Parametric.Cache
import Parametric.Formula.Error
import Parametric.Text.Quoted

/-!
# Functions

What a formula can call. A function computes from its arguments, asks about the containers of the
scene, selects one of two branches, or is a host function: one with a state of type `σ` that it may
read and change, and that may take time.
-/

namespace Parametric

/-- What a call depends on although it names no reference. -/
inductive Implicit
  /-- A property of the container of the evaluating object. -/
  | container (property : String)
  /-- A property of the evaluating object itself. -/
  | own (property : String)
deriving DecidableEq, Repr

/-- What a function sees while it runs. Times are in milliseconds. -/
structure Call where
  object : ObjectId
  container : Option ObjectId
  objects : ObjectTable
  /-- The number of children that may be visited. -/
  maxVisited : Nat
  /-- The time that the evaluation may take. -/
  budget : Nat
  /-- The time that it has taken so far. -/
  spent : Nat

namespace Call

/-- The container of the evaluating object. -/
def containerObject (c : Call) : Except FunctionFault Object :=
  match c.container with
  | none => .error .noContainer
  | some id =>
    match c.objects.get? id with
    | none => .error (.unknownContainer id)
    | some o => .ok o

/-- The children of a container, unless there are too many to visit. -/
def children (c : Call) (container : ObjectId) : Except FunctionFault (List ObjectId) :=
  let ids := c.objects.childrenOf container
  if c.maxVisited < ids.length then
    .error (.tooManyChildren container ids.length c.maxVisited)
  else .ok ids

end Call

/-! ## Questions about containers -/

/-- A question about the children of an object. -/
inductive Question
  | childCount
  | siblingIndex
deriving DecidableEq, Repr

/-- The place of a question in the order of keys. -/
def Question.rank : Question → Nat
  | childCount => 0
  | siblingIndex => 1

/-- A question about a container, asked for an object or for none in particular. -/
structure QueryKey where
  container : ObjectId
  question : Question
  subject : Option ObjectId
deriving DecidableEq

namespace QueryKey

instance : Owned QueryKey := ⟨QueryKey.container⟩

/-- The container, the question and the subject in turn. -/
instance : Ord QueryKey where
  compare a b := (compare a.container b.container).then
    ((compare a.question.rank b.question.rank).then (compare a.subject b.subject))

theorem compare_eq_compareLex : (compare : QueryKey → QueryKey → Ordering) =
    compareLex (compareOn QueryKey.container)
      (compareLex (compareOn fun k => k.question.rank) (compareOn QueryKey.subject)) := rfl

instance : Std.TransOrd QueryKey := by
  rw [Std.TransOrd, compare_eq_compareLex]
  infer_instance

theorem rank_injective {p q : Question} (h : p.rank = q.rank) : p = q := by
  cases p <;> cases q <;> simp_all [Question.rank]

instance : Std.LawfulEqOrd QueryKey where
  eq_of_compare {a b} h := by
    obtain ⟨hc, h⟩ : compare a.container b.container = .eq ∧
        (compare a.question.rank b.question.rank).then (compare a.subject b.subject) = .eq :=
      Ordering.then_eq_eq.1 h
    obtain ⟨hq, hs⟩ := Ordering.then_eq_eq.1 h
    have hc := Std.LawfulEqOrd.eq_of_compare hc
    have hq := rank_injective (Std.LawfulEqOrd.eq_of_compare hq)
    have hs := Std.LawfulEqOrd.eq_of_compare hs
    cases a
    cases b
    simp_all

end QueryKey

/-- A question that a function asks. -/
inductive Query
  /-- The number of children of the container. -/
  | siblingCount
  /-- The place of the evaluating object among the children of its container. -/
  | siblingIndex
  /-- The number of children of the evaluating object. -/
  | childCount
deriving DecidableEq, Repr

namespace Query

/-- The key of the answer. -/
def key (q : Query) (c : Call) : Except FunctionFault QueryKey :=
  match q with
  | siblingCount => do return ⟨(← c.containerObject).id, .childCount, none⟩
  | siblingIndex => do return ⟨(← c.containerObject).id, .siblingIndex, some c.object⟩
  | childCount => .ok ⟨c.object, .childCount, none⟩

/-- The answer to the question of a key. -/
def answer (c : Call) (k : QueryKey) : Except FunctionFault Value := do
  let ids ← c.children k.container
  match k.question with
  | .childCount => return Value.ofNat ids.length
  | .siblingIndex =>
    let subject := k.subject.getD c.object
    match ids.idxOf? subject with
    | some i => return Value.ofNat i
    | none => throw (.notAChild subject k.container)

end Query

/-! ## Functions -/

/-- What a host function answers: its result, the time it took and its new state. -/
structure HostReply (σ : Type) where
  result : Except FunctionFault Value
  spent : Nat
  state : σ

/-- What a function does with its arguments. -/
inductive Body (σ : Type)
  | compute (run : Call → List Value → Except FunctionFault Value)
  | ask (query : Query)
  | host (run : Call → List Value → σ → HostReply σ)
  /-- Of a condition and two branches, only the condition and one branch are evaluated. -/
  | select

/-- A function by name, with the number of arguments it takes. -/
structure Function (σ : Type) where
  name : String
  minArgs : Nat
  maxArgs : Nat
  implicit : Option Implicit := none
  body : Body σ

/-- The number of arguments that stands for no limit. -/
def unlimitedArgs : Nat := 0xFFFFFFFFFFFFFFFF

namespace Function

variable {σ : Type}

/-- Whether a function takes `count` arguments. -/
def accepts (f : Function σ) (count : Nat) : Bool := f.minArgs ≤ count && count ≤ f.maxArgs

/-- The lazy choice between two branches under a name. -/
def ofSelect (name : String) (implicit : Option Implicit := none) : Function σ :=
  ⟨name, 3, 3, implicit, .select⟩

/-- Whether a function chooses between branches. -/
def isSelect (f : Function σ) : Bool :=
  match f.body with
  | .select => true
  | _ => false

/-- The body on given arguments, without any cache; a choice has no body to run. -/
def run? (f : Function σ) (c : Call) (args : List Value) (state : σ) : Option (HostReply σ) :=
  match f.body with
  | .compute run => some ⟨run c args, 0, state⟩
  | .ask query => some ⟨(query.key c).bind (Query.answer c), 0, state⟩
  | .host run => some (run c args state)
  | .select => none

/-- A function as it is shown to developers. -/
def debugText (f : Function σ) : String :=
  let implicit := match f.implicit with
    | none => "None"
    | some (.container p) => "Some(Container(" ++ Text.quoteString p ++ "))"
    | some (.own p) => "Some(Own(" ++ Text.quoteString p ++ "))"
  "FunctionDef \x7b name: " ++ Text.quoteString f.name ++ ", min_args: " ++ toString f.minArgs ++
    ", max_args: " ++ toString f.maxArgs ++ ", implicit: " ++ implicit ++ ", .. \x7d"

end Function

/-- The functions that formulas can call, by name. -/
abbrev Registry (σ : Type) := Table String (Function σ)

/-- Add a function, replacing the one of its name. -/
def Registry.register {σ : Type} (r : Registry σ) (f : Function σ) : Registry σ :=
  r.insert f.name f

end Parametric
