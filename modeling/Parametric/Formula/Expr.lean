import Parametric.Property

/-!
# Expressions

The tree of a formula, the text it prints as, and the list of its nodes. The printed text is formula
source again: it carries a parenthesis around every operator and a sign only as an operator.
-/

namespace Parametric

/-- The operators between two operands, in groups of one precedence from the weakest. -/
inductive BinaryOp
  | or
  | and
  | eq
  | ne
  | lt
  | gt
  | le
  | ge
  | add
  | sub
  | mul
  | div
  | rem
deriving DecidableEq, Repr

def BinaryOp.symbol : BinaryOp → String
  | or => "||"
  | and => "&&"
  | eq => "=="
  | ne => "!="
  | lt => "<"
  | gt => ">"
  | le => "<="
  | ge => ">="
  | add => "+"
  | sub => "-"
  | mul => "*"
  | div => "/"
  | rem => "%"

/-- The operators before one operand. -/
inductive UnaryOp
  | not
  | neg
deriving DecidableEq, Repr

def UnaryOp.symbol : UnaryOp → String
  | not => "!"
  | neg => "-"

/-- An expression. -/
inductive Expr
  | literal (v : Value)
  /-- A variable, looked for in the scopes of the evaluating object. -/
  | var (name : String)
  /-- A property of an object given by its identifier or name, or as `self` or `parent`. -/
  | reference (object : String) (path : Path)
  | call (function : String) (args : List Expr)
  | binary (op : BinaryOp) (left right : Expr)
  | unary (op : UnaryOp) (operand : Expr)
  | conditional (condition thenBranch elseBranch : Expr)

namespace Expr

/-! ## Printing -/

/-- A character of a string literal. -/
def escapeLiteral (c : Char) : List Char :=
  if c = '"' then ['\\', '"']
  else if c = '\\' then ['\\', '\\']
  else if c = '\n' then ['\\', 'n']
  else if c = '\t' then ['\\', 't']
  else [c]

/-- A text as a string literal. -/
def literalText (s : String) : String :=
  "\"" ++ String.ofList (s.toList.flatMap escapeLiteral) ++ "\""

/-- A literal as source. A negative number is a sign before a positive one. -/
def valueText : Value → String
  | .number n => if n.isNegative then "(-" ++ n.neg.text ++ ")" else n.text
  | .string s => literalText s
  | v => v.text

mutual

def text : Expr → String
  | literal v => valueText v
  | var name => "$" ++ name
  | reference object path => object ++ "." ++ path.text
  | call function args => function ++ "(" ++ ", ".intercalate (texts args) ++ ")"
  | binary op left right => "(" ++ text left ++ " " ++ op.symbol ++ " " ++ text right ++ ")"
  | unary op operand => op.symbol ++ "(" ++ text operand ++ ")"
  | conditional c t e => "(" ++ text c ++ " ? " ++ text t ++ " : " ++ text e ++ ")"

def texts : List Expr → List String
  | [] => []
  | e :: es => text e :: texts es

end

/-! ## Nodes -/

mutual

/-- The nodes of an expression, parents before children and left before right. -/
def nodes : Expr → List Expr
  | literal v => [literal v]
  | var name => [var name]
  | reference object path => [reference object path]
  | call function args => call function args :: nodesOfAll args
  | binary op left right => binary op left right :: (nodes left ++ nodes right)
  | unary op operand => unary op operand :: nodes operand
  | conditional c t e => conditional c t e :: (nodes c ++ nodes t ++ nodes e)

def nodesOfAll : List Expr → List Expr
  | [] => []
  | e :: es => nodes e ++ nodesOfAll es

end

mutual

/-- Equality of expressions with numbers compared as numbers: the zeros are equal. -/
def same : Expr → Expr → Bool
  | literal v, literal w => v.same w
  | var n, var m => n == m
  | reference o p, reference o' p' => o == o' && p == p'
  | call f as, call g bs => f == g && sameAll as bs
  | binary op l r, binary op' l' r' => op == op' && same l l' && same r r'
  | unary op x, unary op' x' => op == op' && same x x'
  | conditional c t e, conditional c' t' e' => same c c' && same t t' && same e e'
  | _, _ => false

def sameAll : List Expr → List Expr → Bool
  | [], [] => true
  | a :: as, b :: bs => same a b && sameAll as bs
  | _, _ => false

end

end Expr

end Parametric
