import Parametric.Formula.Function

/-!
# Evaluation

The value of an expression from a viewpoint. One pass over an expression reads every variable and
every property at most once, stops at the first error, and evaluates only what it needs: the right
side of `&&` and `||` when the left one does not decide, and one branch of a choice.

A pass may not nest deeper than its settings allow and may not take longer than its budget. Time
passes only in host functions; it is looked at before every node and after every call.
-/

namespace Parametric

/-- A name that a pass has resolved. -/
inductive Reading
  | variableNamed (name : String)
  | propertyOf (reference : String) (path : Path)
deriving DecidableEq

/-- What a pass works with. -/
structure Evaluator (σ : Type) where
  functions : Registry σ
  maxDepth : Nat
  /-- The time that the pass may take, in milliseconds. -/
  budget : Nat
  maxVisited : Nat
  stores : Stores
  view : Viewpoint
  /-- The clock when the pass starts, for the cache of answers. -/
  now : Nat

/-- What a pass carries along. -/
structure Pass (σ : Type) where
  /-- The names resolved so far. -/
  memo : List (Reading × Value)
  /-- The time that the pass has taken. -/
  spent : Nat
  /-- The cache of answers about containers, if one is attached. -/
  answers : Option (Cache QueryKey Value)
  host : σ

/-- A step of a pass. -/
abbrev EvalM (σ : Type) := ExceptT EvalError (StateM (Pass σ))

namespace BinaryOp

/-- A number as a result, if it is finite. -/
def finite (op : BinaryOp) (x : Float) : Except EvalError Value :=
  if x.isFinite then .ok (.number x) else .error (.nonFinite op)

/-- Whether a comparison holds, given whether the left side is less than, equal to or greater than
the right one. -/
def holds (op : BinaryOp) (less equal greater : Bool) : Bool :=
  match op with
  | lt => less
  | le => less || equal
  | gt => greater
  | ge => greater || equal
  | _ => false

/-- A comparison of two values of one kind. Texts compare by code points, and false is less than
true. A number that is no number compares with none. -/
def order (op : BinaryOp) : Value → Value → Except EvalError Value
  | .number m, .number n =>
    let (x, y) := (m.toFloat, n.toFloat)
    .ok (.bool (op.holds (x < y) (x == y) (y < x)))
  | .string s, .string t => .ok (.bool (op.holds (s < t) (s = t) (t < s)))
  | .bool b, .bool c => .ok (.bool (op.holds (!b && c) (b == c) (b && !c)))
  | v, w => .error (.mismatch op v.kind w.kind)

/-- Arithmetic on two numbers. -/
def arithmetic (op : BinaryOp) (f : Float → Float → Float) : Value → Value → Except EvalError Value
  | .number m, .number n => op.finite (f m n)
  | v, w => .error (.mismatch op v.kind w.kind)

/-- A division, which needs a divisor other than zero. -/
def division (op : BinaryOp) (f : Float → Float → Float) : Value → Value → Except EvalError Value
  | .number m, .number n =>
    if n.toFloat == 0.0 then .error .divisionByZero else op.finite (f m n)
  | v, w => .error (.mismatch op v.kind w.kind)

/-- A connective of two truth values. -/
def connective (op : BinaryOp) (f : Bool → Bool → Bool) : Value → Value → Except EvalError Value
  | .bool b, .bool c => .ok (.bool (f b c))
  | v, w => .error (.mismatch op v.kind w.kind)

/-- Equality of two values of one kind, or its opposite. -/
def equality (op : BinaryOp) (wanted : Bool) (v w : Value) : Except EvalError Value :=
  if v.kind = w.kind then .ok (.bool (v.same w == wanted))
  else .error (.mismatch op v.kind w.kind)

/-- The sum of two numbers, or two texts joined. -/
def addition : Value → Value → Except EvalError Value
  | .string s, .string t => .ok (.string (s ++ t))
  | v, w => arithmetic add (· + ·) v w

/-- An operator on the values of both operands. -/
def apply (op : BinaryOp) (v w : Value) : Except EvalError Value :=
  match op with
  | or => connective or (· || ·) v w
  | and => connective and (· && ·) v w
  | eq => equality eq true v w
  | ne => equality ne false v w
  | lt => order lt v w
  | gt => order gt v w
  | le => order le v w
  | ge => order ge v w
  | add => addition v w
  | sub => arithmetic sub (· - ·) v w
  | mul => arithmetic mul (· * ·) v w
  | div => division div (· / ·) v w
  | rem => division rem Decimal.remainder v w

end BinaryOp

def UnaryOp.apply : UnaryOp → Value → Except EvalError Value
  | .not, .bool b => .ok (.bool !b)
  | .neg, .number n => .ok (.number n.neg)
  | .not, v => .error (.unexpectedKind .bool v.kind)
  | .neg, v => .error (.unexpectedKind .number v.kind)

def Value.condition : Value → Except EvalError Bool
  | .bool b => .ok b
  | v => .error (.unexpectedKind .bool v.kind)

namespace Evaluator

variable {σ : Type} (ev : Evaluator σ)

/-! ## Steps -/

def checkTime : EvalM σ Unit := do
  if ev.budget ≤ (← get).spent then throw (.timeout ev.budget)

/-- Enter a node at a depth. -/
def enter (depth : Nat) : EvalM σ Unit := do
  if ev.maxDepth < depth then throw (.tooDeep ev.maxDepth)
  ev.checkTime

/-- What a name stands for in the stores. -/
def resolve : Reading → Except LookupError Value
  | .variableNamed name => ev.stores.variableOf ev.view name
  | .propertyOf reference path => ev.stores.propertyOf ev.view reference path

/-- What a name stands for; the stores are asked once. -/
def read (r : Reading) : EvalM σ Value := do
  match (← get).memo.lookup r with
  | some v => return v
  | none =>
    match ev.resolve r with
    | .error e => throw (.lookup e)
    | .ok v =>
      modify fun p => { p with memo := (r, v) :: p.memo }
      return v

/-- What a function sees when it is called. -/
def call (spent : Nat) : Call :=
  ⟨ev.view.object, ev.view.container, ev.stores.objects, ev.maxVisited, ev.budget, spent⟩

/-- The answer to a question about a container, from the cache if one is attached and has it. -/
def answer (query : Query) : EvalM σ (Except FunctionFault Value) := do
  let pass ← get
  let c := ev.call pass.spent
  match query.key c with
  | .error fault => return .error fault
  | .ok key =>
    match pass.answers with
    | none => return Query.answer c key
    | some cache =>
      match cache.get key ev.now with
      | (some v, cache) =>
        set { pass with answers := some cache }
        return .ok v
      | (none, cache) =>
        match Query.answer c key with
        | .error fault =>
          set { pass with answers := some cache }
          return .error fault
        | .ok v =>
          set { pass with answers := some (cache.insert key v ev.now) }
          return .ok v

/-- Run the body of a function on its arguments. -/
def runBody (f : Function σ) (args : List Value) : EvalM σ (Except FunctionFault Value) := do
  match f.body with
  | .compute run => return run (ev.call (← get).spent) args
  | .ask query => ev.answer query
  | .host run =>
    let pass ← get
    let reply := run (ev.call pass.spent) args pass.host
    set { pass with spent := pass.spent + reply.spent, host := reply.state }
    return reply.result
  | .select => return .error .undefined

/-- The value that a function returned: numbers must be finite. -/
def returned (name : String) : Except FunctionFault Value → Except EvalError Value
  | .error fault => .error (.functionFailed name fault)
  | .ok (.number n) =>
    if n.toFloat.isFinite then .ok (.number n) else .error (.functionFailed name .nonFinite)
  | .ok v => .ok v

/-- Call the function of a name, if there is one and it takes so many arguments. -/
def apply (name : String) (args : List Value) : EvalM σ Value := do
  match ev.functions[name]? with
  | none => throw (.unknownFunction name)
  | some f =>
    if f.accepts args.length then
      let result ← ev.runBody f args
      ev.checkTime
      returned name result
    else throw (.arity name f.minArgs f.maxArgs args.length)

/-! ## Expressions -/

mutual

/-- The value of an expression at a depth. -/
def eval (e : Expr) (depth : Nat) : EvalM σ Value := do
  ev.enter depth
  match e with
  | .literal v => return v
  | .var name => ev.read (.variableNamed name)
  | .reference object path => ev.read (.propertyOf object path)
  | .unary op operand => op.apply (← eval operand (depth + 1))
  | .binary .and left right =>
    if ← (← eval left (depth + 1)).condition then
      return .bool (← (← eval right (depth + 1)).condition)
    else return .bool false
  | .binary .or left right =>
    if ← (← eval left (depth + 1)).condition then return .bool true
    else return .bool (← (← eval right (depth + 1)).condition)
  | .binary op left right =>
    let l ← eval left (depth + 1)
    let r ← eval right (depth + 1)
    op.apply l r
  | .conditional c t e =>
    if ← (← eval c (depth + 1)).condition then eval t (depth + 1) else eval e (depth + 1)
  | .call name args =>
    match ev.functions[name]? with
    | some f =>
      if f.isSelect then
        match args with
        | [c, t, e] =>
          if ← (← eval c (depth + 2)).condition then eval t (depth + 2) else eval e (depth + 2)
        | args => throw (.arity name f.minArgs f.maxArgs args.length)
      else ev.apply name (← evalAll args (depth + 1))
    | none => ev.apply name (← evalAll args (depth + 1))

/-- The values of expressions from left to right. -/
def evalAll (es : List Expr) (depth : Nat) : EvalM σ (List Value) := do
  match es with
  | [] => return []
  | e :: es =>
    let v ← eval e depth
    return v :: (← evalAll es depth)

end

/-- One pass over an expression, with a cache of answers or without: the result, the cache and the
state of the host functions. -/
def evaluate (e : Expr) (answers : Option (Cache QueryKey Value)) (host : σ) :
    Except EvalError Value × Option (Cache QueryKey Value) × σ :=
  let (result, pass) := (ev.eval e 1).run ⟨[], 0, answers, host⟩
  (result, pass.answers, pass.host)

end Evaluator

end Parametric
