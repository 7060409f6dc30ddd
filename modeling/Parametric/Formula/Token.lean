import Parametric.Text.Blank
import Parametric.Text.Quoted

/-!
# Tokens

Formula text is cut from left to right. At each place the classes of lexemes are tried in a fixed
order and the first that matches wins, so dotted references and variables come before plain
identifiers. Each class says how many characters it takes, none meaning that it does not match.

* `Token.ofText` cuts a text into tokens with their offsets in bytes, blanks dropped;
* `Token.decode?` is the text that a string literal stands for.
-/

namespace Parametric

/-- The kind of a token. -/
inductive Token.Kind
  | number
  | string
  | identifier
  /-- An object and a property path, as in `door.size.width`. -/
  | reference
  /-- A name after a dollar sign. -/
  | variable
  | operator
  | punctuation
deriving DecidableEq, Repr

def Token.Kind.name : Token.Kind → String
  | number => "number"
  | string => "string"
  | identifier => "identifier"
  | reference => "reference"
  | .variable => "variable"
  | operator => "operator"
  | punctuation => "punctuation"

/-- A lexeme with its place in the text. -/
structure Token where
  kind : Token.Kind
  text : String
  /-- The offset of the lexeme in bytes. -/
  offset : Nat
deriving DecidableEq, Repr

/-- A character that starts no lexeme. -/
structure LexError where
  offset : Nat
  found : Char
deriving DecidableEq, Repr

def LexError.message (e : LexError) : String :=
  "unexpected character " ++ Text.quoteChar e.found ++ " at offset " ++ toString e.offset

namespace Token

/-! ## Classes of lexemes -/

/-- The first character of an identifier. -/
def isIdentifierStart (c : Char) : Bool := c.isAlpha || c = '_'

/-- A later character of an identifier. -/
def isIdentifierRest (c : Char) : Bool := c.isAlphanum || c = '_'

/-- Characters at the front that satisfy `p`. -/
def run (p : Char → Bool) (cs : List Char) : Nat := (cs.takeWhile p).length

/-- Blanks. -/
def blanks (cs : List Char) : Nat := run Text.isBlank cs

/-- A point with digits after it. -/
def fraction : List Char → Nat
  | '.' :: cs => if run Char.isDigit cs = 0 then 0 else 1 + run Char.isDigit cs
  | _ => 0

/-- An exponent mark with an optional sign and digits after it. -/
def exponent : List Char → Nat
  | c :: cs =>
    if c = 'e' || c = 'E' then
      let signs := match cs with
        | '+' :: _ => 1
        | '-' :: _ => 1
        | _ => 0
      let digits := run Char.isDigit (cs.drop signs)
      if digits = 0 then 0 else 1 + signs + digits
    else 0
  | [] => 0

/-- Digits with an optional fraction, or a fraction alone, and an optional exponent. -/
def numeral (cs : List Char) : Nat :=
  let whole := run Char.isDigit cs
  let n := whole + fraction (cs.drop whole)
  if n = 0 then 0 else n + exponent (cs.drop n)

/-- The rest of a string literal up to its quote; a backslash takes the next character with it. -/
def quoted (quote : Char) : List Char → Option Nat
  | [] => none
  | ['\\'] => none
  | '\\' :: _ :: cs => (quoted quote cs).map (· + 2)
  | c :: cs => if c = quote then some 1 else (quoted quote cs).map (· + 1)

/-- A string literal in single or double quotes. -/
def literal : List Char → Nat
  | c :: cs => if c = '"' || c = '\'' then ((quoted c cs).map (· + 1)).getD 0 else 0
  | [] => 0

/-- A letter or underscore and the letters, digits and underscores after it. -/
def identifier : List Char → Nat
  | c :: cs => if isIdentifierStart c then 1 + run isIdentifierRest cs else 0
  | [] => 0

/-- Identifiers with a point before each. The fuel is the length of the text. -/
def segments : Nat → List Char → Nat
  | fuel + 1, '.' :: cs =>
    let n := identifier cs
    if n = 0 then 0 else 1 + n + segments fuel (cs.drop n)
  | _, _ => 0

/-- An identifier with at least one segment after it. -/
def reference (cs : List Char) : Nat :=
  let n := identifier cs
  if n = 0 then 0
  else
    let m := segments cs.length (cs.drop n)
    if m = 0 then 0 else n + m

/-- A dollar sign and an identifier. -/
def variableName : List Char → Nat
  | '$' :: cs => if identifier cs = 0 then 0 else 1 + identifier cs
  | _ => 0

/-- The operators, each before those that it starts with. -/
def operators : List String :=
  ["==", "!=", "<=", ">=", "&&", "||", "+", "-", "*", "/", "%", "<", ">", "!"]

/-- The marks that are no operators. -/
def marks : List String := ["(", ")", ",", "?", ":"]

/-- The first word of a list that the text starts with. -/
def oneOf (words : List String) (cs : List Char) : Nat :=
  ((words.find? fun w => w.toList.isPrefixOf cs).map String.length).getD 0

/-- The classes in the order in which they are tried. Blanks give no token. -/
def classes : List (Option Kind × (List Char → Nat)) :=
  [(none, blanks), (some .number, numeral), (some .string, literal), (some .reference, reference),
    (some .variable, variableName), (some .identifier, identifier),
    (some .operator, oneOf operators), (some .punctuation, oneOf marks)]

/-- The class of the lexeme at the front and its length, which is not zero. -/
def lexeme? (cs : List Char) : Option (Option Kind × Nat) :=
  classes.findSome? fun (kind, match?) =>
    if match? cs = 0 then none else some (kind, match? cs)

/-! ## Cutting a text -/

/-- The length of a list of characters in bytes. -/
def byteLength : List Char → Nat
  | [] => 0
  | c :: cs => c.utf8Size + byteLength cs

/-- Cut a text that starts at `offset`. The fuel is the length of the text: every lexeme takes a
character. -/
def scan : Nat → Nat → List Char → Except LexError (List Token)
  | _, _, [] => .ok []
  | 0, _, _ :: _ => .ok []
  | fuel + 1, offset, c :: cs =>
    match lexeme? (c :: cs) with
    | none => .error ⟨offset, c⟩
    | some (kind, n) => do
      let text := (c :: cs).take n
      let tokens ← scan fuel (offset + byteLength text) ((c :: cs).drop n)
      match kind with
      | none => return tokens
      | some kind => return ⟨kind, String.ofList text, offset⟩ :: tokens

def ofText (text : String) : Except LexError (List Token) :=
  scan text.toList.length 0 text.toList

/-! ## Reading a token -/

/-- Whether a token is the operator or mark `symbol`. -/
def is (t : Token) (symbol : String) : Bool :=
  (t.kind = .operator || t.kind = .punctuation) && t.text = symbol

/-- Undo the escapes of a string literal. -/
def unescape? : List Char → Option (List Char)
  | [] => some []
  | ['\\'] => none
  | '\\' :: c :: cs =>
    (unescape? cs).map ((if c = 'n' then '\n' else if c = 't' then '\t' else c) :: ·)
  | c :: cs => (unescape? cs).map (c :: ·)

/-- The text that a string literal stands for. -/
def decode? (t : Token) : Option String :=
  if t.kind = .string then (unescape? (t.text.toList.drop 1).dropLast).map String.ofList else none

end Token

end Parametric
