import Parametric.Formula.Expr
import Parametric.Formula.Token

/-!
# Parsing

The grammar of formulas, from the weakest binding to the strongest: `?:`, `||`, `&&`, `== !=`,
`<= >= < >`, `+ -`, `* / %`, the signs `!` and `-`, and operands. Binary operators group to the
left, the conditional to the right. Each nested expression and each sign is one level deeper, and
there are `maxNesting` levels.

The parsers of one level are built from those of the level below, so that all of them are plain
functions of the tokens. Whether functions exist and take so many arguments is not asked here.
-/

namespace Parametric

/-- What the grammar asks for. -/
inductive Wanted
  | expression
  | number
  | stringLiteral
  | symbol (s : String)
  /-- The parenthesis after the name of a function. -/
  | callParenthesis
  /-- An expression of fewer levels. -/
  | shallower
  | endOfInput
deriving DecidableEq, Repr

/-- Levels of nested expressions and signs. -/
def maxNesting : Nat := 100

def Wanted.text : Wanted → String
  | expression => "expression"
  | number => "number"
  | stringLiteral => "string literal"
  | symbol s => "'" ++ s ++ "'"
  | callParenthesis => "'(' after function name"
  | shallower => "at most " ++ toString maxNesting ++ " levels of nesting"
  | endOfInput => "end of input"

/-- A token where the grammar asks for another one, or an end that comes too early. -/
structure ParseError where
  offset : Nat
  wanted : Wanted
  found : Option String
deriving DecidableEq, Repr

def ParseError.message (e : ParseError) : String :=
  "at offset " ++ toString e.offset ++ ": expected " ++ e.wanted.text ++ ", found " ++
    match e.found with
    | some text => "'" ++ text ++ "'"
    | none => "end of input"

/-- Why a source text is no formula. -/
inductive CompileError
  | lex (e : LexError)
  | parse (e : ParseError)
deriving DecidableEq, Repr

def CompileError.message : CompileError → String
  | lex e => "lex error: " ++ e.message
  | parse e => "parse error: " ++ e.message

namespace Parser

/-- A parser takes a part of the grammar off the front of the tokens. -/
abbrev Parse (α : Type) := List Token → Except ParseError (α × List Token)

/-- The offset that is reported at the end of the input. -/
abbrev End := Nat

/-- The failure to find what is wanted at the front of the tokens. -/
def refuse {α : Type} (stop : End) (wanted : Wanted) : Parse α
  | [] => .error ⟨stop, wanted, none⟩
  | t :: _ => .error ⟨t.offset, wanted, some t.text⟩

/-- The tokens after `symbol`, if they start with it. -/
def eat? (symbol : String) : List Token → Option (List Token)
  | t :: ts => if t.is symbol then some ts else none
  | [] => none

/-- Drop `symbol` from the front. -/
def expect (stop : End) (symbol : String) : Parse Unit := fun ts =>
  match eat? symbol ts with
  | some ts => .ok ((), ts)
  | none => refuse stop (.symbol symbol) ts

/-! ## Operands -/

/-- The arguments of a call after the first one, and the closing parenthesis. The fuel is the number
of tokens: every further argument takes its comma. -/
def furtherArguments (stop : End) (expression : Parse Expr) : Nat → Parse (List Expr)
  | 0, ts => refuse stop (.symbol ",") ts
  | fuel + 1, ts =>
    match eat? ")" ts with
    | some ts => .ok ([], ts)
    | none => do
      let ((), ts) ← expect stop "," ts
      let (arg, ts) ← expression ts
      let (args, ts) ← furtherArguments stop expression fuel ts
      return (arg :: args, ts)

/-- The arguments of a call after its opening parenthesis, and the closing one. -/
def arguments (stop : End) (expression : Parse Expr) : Parse (List Expr) := fun ts =>
  match eat? ")" ts with
  | some ts => .ok ([], ts)
  | none => do
    let (arg, ts) ← expression ts
    let (args, ts) ← furtherArguments stop expression ts.length ts
    return (arg :: args, ts)

/-- The rest of an operand that starts with the identifier `t`: a call or a truth value. -/
def named (stop : End) (expression : Parse Expr) (t : Token) : Parse Expr := fun ts =>
  match eat? "(" ts with
  | some ts => do
    let (args, ts) ← arguments stop expression ts
    return (.call t.text args, ts)
  | none =>
    if t.text = "true" then .ok (.literal (.bool true), ts)
    else if t.text = "false" then .ok (.literal (.bool false), ts)
    else .error ⟨t.offset, .callParenthesis, ts.head?.map Token.text⟩

/-- The object and the path of a dotted reference. -/
def splitReference (text : String) : Expr :=
  match Path.ofString text with
  | [] => .reference "" []
  | object :: path => .reference object path

/-- A literal, a variable, a reference, a call or an expression in parentheses. -/
def operand (stop : End) (expression : Parse Expr) : Parse Expr
  | [] => refuse stop .expression []
  | t :: ts =>
    match t.kind with
    | .number =>
      match Number.read? t.text with
      | some n => .ok (.literal (.number n), ts)
      | none => refuse stop .number (t :: ts)
    | .string =>
      match t.decode? with
      | some s => .ok (.literal (.string s), ts)
      | none => refuse stop .stringLiteral (t :: ts)
    | .variable => .ok (.var (String.ofList (t.text.toList.drop 1)), ts)
    | .reference => .ok (splitReference t.text, ts)
    | .identifier => named stop expression t ts
    | .operator => refuse stop .expression (t :: ts)
    | .punctuation =>
      if t.text = "(" then do
        let (e, ts) ← expression ts
        let ((), ts) ← expect stop ")" ts
        return (e, ts)
      else refuse stop .expression (t :: ts)

/-- An operand with a sign before it, whose own operand is parsed by `deeper`, or without one. -/
def signed (stop : End) (deeper expression : Parse Expr) : Parse Expr := fun ts =>
  match eat? "!" ts with
  | some ts => do
    let (e, ts) ← deeper ts
    return (.unary .not e, ts)
  | none =>
    match eat? "-" ts with
    | some ts => do
      let (e, ts) ← deeper ts
      return (.unary .neg e, ts)
    | none => operand stop expression ts

/-! ## Operators -/

/-- The operator of a group at the front of the tokens. -/
def operator? (group : List BinaryOp) : List Token → Option (BinaryOp × List Token)
  | t :: ts =>
    if t.kind = .operator then (group.find? (·.symbol = t.text)).map fun op => (op, ts) else none
  | [] => none

/-- The rest of a chain of operators of one group, which groups to the left. The fuel is the number
of tokens. -/
def chainFrom (group : List BinaryOp) (next : Parse Expr) : Nat → Expr → Parse Expr
  | 0, left, ts => .ok (left, ts)
  | fuel + 1, left, ts =>
    match operator? group ts with
    | none => .ok (left, ts)
    | some (op, ts) => do
      let (right, ts) ← next ts
      chainFrom group next fuel (.binary op left right) ts

def chain (group : List BinaryOp) (next : Parse Expr) : Parse Expr := fun ts => do
  let (left, ts) ← next ts
  chainFrom group next ts.length left ts

/-- The groups of operators, the strongest binding first. -/
def groups : List (List BinaryOp) :=
  [[.mul, .div, .rem], [.add, .sub], [.le, .ge, .lt, .gt], [.eq, .ne], [.and], [.or]]

/-- All binary operators over the operands that `next` parses. -/
def operators (next : Parse Expr) : Parse Expr :=
  groups.foldl (fun next group => chain group next) next

/-- A choice between two expressions, or one without a choice. -/
def choice (stop : End) (expression next : Parse Expr) : Parse Expr := fun ts => do
  let (condition, ts) ← operators next ts
  match eat? "?" ts with
  | none => return (condition, ts)
  | some ts =>
    let (thenBranch, ts) ← expression ts
    let ((), ts) ← expect stop ":" ts
    let (elseBranch, ts) ← expression ts
    return (.conditional condition thenBranch elseBranch, ts)

/-! ## Levels -/

/-- The parsers of one level of nesting. -/
structure Level where
  /-- A nested expression, which is one level deeper. -/
  expression : Parse Expr
  /-- An operand with its signs. -/
  signed : Parse Expr

/-- No level is left: neither an expression nor a sign may follow. -/
def Level.bottom (stop : End) : Level :=
  let none : Parse Expr := refuse stop .shallower
  ⟨none, Parser.signed stop none none⟩

/-- The level above `l`. -/
def Level.above (stop : End) (l : Level) : Level :=
  let expression := choice stop l.expression l.signed
  ⟨expression, Parser.signed stop l.signed expression⟩

/-- The level with `n` levels below it. -/
def Level.ofDepth (stop : End) : Nat → Level
  | 0 => .bottom stop
  | n + 1 => (Level.ofDepth stop n).above stop

end Parser

namespace Expr

open Parametric.Parser

/-- Parse all tokens as one expression; `stop` is the offset of the end of the input. -/
def ofTokens (tokens : List Token) (stop : Nat) : Except ParseError Expr := do
  let (e, rest) ← (Level.ofDepth stop maxNesting).expression tokens
  match rest with
  | [] => return e
  | _ :: _ => (·.1) <$> refuse stop .endOfInput rest

def ofSource (source : String) : Except CompileError Expr :=
  match Token.ofText source with
  | .error e => .error (.lex e)
  | .ok tokens =>
    match ofTokens tokens source.utf8ByteSize with
    | .error e => .error (.parse e)
    | .ok e => .ok e

end Expr

end Parametric
