import Parametric.Json.Basic

/-!
# Reading JSON

`Json.read?` reads a whole text as one document: no text may follow it but blanks. What nests more
than `nestingLimit` deep is read over.
-/

namespace Parametric.Json

/-- The deepest nesting of arrays and objects. -/
def nestingLimit : Nat := 127

/-- The blanks between the parts of a document. -/
def isBlank (c : Char) : Bool := c = ' ' || c = '\n' || c = '\t' || c = '\r'

def skip (cs : List Char) : List Char := cs.dropWhile isBlank

/-- Drop an expected word. -/
def expect? (word : List Char) (cs : List Char) : Option (List Char) :=
  if word.isPrefixOf cs then some (cs.drop word.length) else none

/-! ## Strings -/

/-- The value of a hexadecimal digit. -/
def hexValue? (c : Char) : Option Nat :=
  if c.isDigit then some (c.toNat - '0'.toNat)
  else if 'a' ≤ c && c ≤ 'f' then some (c.toNat - 'a'.toNat + 10)
  else if 'A' ≤ c && c ≤ 'F' then some (c.toNat - 'A'.toNat + 10)
  else none

/-- The value of four hexadecimal digits. -/
def hexUnit? (a b c d : Char) : Option Nat := do
  return (((← hexValue? a) * 16 + (← hexValue? b)) * 16 + (← hexValue? c)) * 16 + (← hexValue? d)

/-- The character that a one-letter escape stands for. -/
def shortEscape? : Char → Option Char
  | '"' => some '"'
  | '\\' => some '\\'
  | '/' => some '/'
  | 'b' => some '\x08'
  | 'f' => some '\x0c'
  | 'n' => some '\n'
  | 'r' => some '\r'
  | 't' => some '\t'
  | _ => none

/-- The character of a pair of surrogate units. -/
def ofSurrogates (high low : Nat) : Char :=
  Char.ofNat (0x10000 + (high - 0xD800) * 0x400 + (low - 0xDC00))

/-- A reader takes a value off the front of a text. -/
abbrev Reader (α : Type) := List Char → Option (α × List Char)

/-- A high surrogate followed by an escape of a low one. -/
def readPair? (high : Nat) : Reader Char
  | '\\' :: 'u' :: a :: b :: c :: d :: cs => do
    let low ← hexUnit? a b c d
    if 0xDC00 ≤ low && low < 0xE000 then return (ofSurrogates high low, cs) else none
  | _ => none

/-- The character of an escape after its backslash; no character for a surrogate without its
partner. -/
def readEscape? : Reader (Option Char)
  | 'u' :: a :: b :: c :: d :: cs => do
    let u ← hexUnit? a b c d
    if u < 0xD800 || 0xE000 ≤ u then return (some (Char.ofNat u), cs)
    else if 0xDC00 ≤ u then return (none, cs)
    else match readPair? u cs with
      | some (c, cs) => return (some c, cs)
      | none => return (none, cs)
  | c :: cs => (shortEscape? c).map fun e => (some e, cs)
  | [] => none

/-- The rest of a string after its opening quote; no string when an escape has no character.
Controls must be escaped. The fuel is the length of the text. -/
def readString? : Nat → Reader (Option (List Char))
  | 0, _ => none
  | fuel + 1, cs =>
    match cs with
    | [] => none
    | '"' :: cs => some (some [], cs)
    | '\\' :: cs => do
      let (c, cs) ← readEscape? cs
      let (s, r) ← readString? fuel cs
      return (s.bind fun s => c.map (· :: s), r)
    | c :: cs =>
      if c.toNat < 0x20 then none
      else (readString? fuel cs).map fun (s, r) => (s.map (c :: ·), r)

def ofChars : Option (List Char) → Json
  | some s => .string (String.ofList s)
  | none => .unusable

/-! ## Documents -/

/-- The items of an array after its opening bracket and blanks, at least one. The fuel is the
length of the text. -/
def readItems? (item : Reader Json) : Nat → Reader (List Json)
  | 0, _ => none
  | fuel + 1, cs => do
    let (j, cs) ← item (skip cs)
    match skip cs with
    | ',' :: cs =>
      let (js, r) ← readItems? item fuel cs
      return (j :: js, r)
    | ']' :: cs => return ([j], cs)
    | _ => none

/-- A member of an object: a name, a colon and a document. The fuel is the length of the text. -/
def readMember? (item : Reader Json) (fuel : Nat) : Reader (Option (List Char) × Json)
  | '"' :: cs => do
    let (name, cs) ← readString? fuel cs
    match skip cs with
    | ':' :: cs =>
      let (j, cs) ← item (skip cs)
      return ((name, j), cs)
    | _ => none
  | _ => none

/-- The members of an object after its opening brace and blanks, at least one. The fuel is the
length of the text. -/
def readMembers? (item : Reader Json) : Nat → Reader (List (Option (List Char) × Json))
  | 0, _ => none
  | fuel + 1, cs => do
    let (m, cs) ← readMember? item (fuel + 1) (skip cs)
    match skip cs with
    | ',' :: cs =>
      let (ms, r) ← readMembers? item fuel cs
      return (m :: ms, r)
    | '\x7d' :: cs => return ([m], cs)
    | _ => none

/-- Members as an object; a name must be a string. -/
def ofMembers (ms : List (Option (List Char) × Json)) : Json :=
  match ms.mapM fun (name, j) => name.map fun s => (String.ofList s, j) with
  | some members => .object members
  | none => .unusable

/-- What is nested in a document, if so many levels may still be entered. -/
def within (levels : Nat) (j : Json) : Json := if levels = 0 then .unusable else j

/-- A document at the front of a text without leading blanks; `levels` of nesting are left. The fuel
is more than the length of the text, and stays so: every level takes a character. -/
def readValue? : Nat → Nat → Reader Json
  | 0, _, _ => none
  | fuel + 1, levels, cs =>
    match cs with
    | 'n' :: _ => (expect? ['n', 'u', 'l', 'l'] cs).map fun r => (.null, r)
    | 't' :: _ => (expect? ['t', 'r', 'u', 'e'] cs).map fun r => (.bool true, r)
    | 'f' :: _ => (expect? ['f', 'a', 'l', 's', 'e'] cs).map fun r => (.bool false, r)
    | '"' :: cs => (readString? fuel cs).map fun (s, r) => (ofChars s, r)
    | '[' :: cs =>
      match skip cs with
      | ']' :: r => some (within levels (.array []), r)
      | cs =>
        (readItems? (readValue? fuel (levels - 1)) fuel cs).map fun (js, r) =>
          (within levels (.array js), r)
    | '\x7b' :: cs =>
      match skip cs with
      | '\x7d' :: r => some (within levels (.object []), r)
      | cs =>
        (readMembers? (readValue? fuel (levels - 1)) fuel cs).map fun (ms, r) =>
          (within levels (ofMembers ms), r)
    | _ => (Number.read? cs).map fun (n, r) => (.number n, r)

/-- Read a whole text as one document. -/
def read? (text : String) : Option Json := do
  let cs := skip text.toList
  let (j, r) ← readValue? (cs.length + 1) nestingLimit cs
  if skip r = [] then return j else none

end Parametric.Json
