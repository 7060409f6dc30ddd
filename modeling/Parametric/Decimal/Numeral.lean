import Parametric.Decimal.Shortest

/-!
# Numerals

The text of numbers. A number is written with the shortest digits that read back to it, always
positionally: never with an exponent, and with no point when it is whole. Reading takes digits with
an optional point and exponent, and the words for the values that are no numbers.
-/

namespace Parametric.Decimal

def digitValue (c : Char) : Nat := c.toNat - '0'.toNat

def ofDigits (cs : List Char) : Nat :=
  cs.foldl (fun n c => 10 * n + digitValue c) 0

def digitsOf (n : Nat) : List Char := Nat.toDigits 10 n

/-! ## Writing -/

/-- A decimal written out by position. -/
def Scaled.layout (d : Scaled) : List Char :=
  let ds := digitsOf d.digits
  let places := (-d.exponent).toNat
  if places = 0 then ds ++ List.replicate d.exponent.toNat '0'
  else if places < ds.length then
    ds.take (ds.length - places) ++ '.' :: ds.drop (ds.length - places)
  else '0' :: '.' :: List.replicate (places - ds.length) '0' ++ ds

/-- The text of a magnitude given by its code. -/
def codeText (code : Nat) : String :=
  if infinityCode < code then "NaN"
  else if code = infinityCode then "inf"
  else String.ofList (shortest code).layout

def text (x : Float) : String :=
  if isNegative x && codeOf x ≤ infinityCode then "-" ++ codeText (codeOf x)
  else codeText (codeOf x)

/-! ## Reading -/

/-- An exponent with its mark: `e`, an optional sign and at least one digit, nothing after it. -/
def readExponent? : List Char → Option Int
  | [] => some 0
  | e :: cs =>
    if e = 'e' || e = 'E' then
      let (negative, ds) := match cs with
        | '-' :: r => (true, r)
        | '+' :: r => (false, r)
        | r => (false, r)
      if ds ≠ [] && ds.all Char.isDigit then
        some (if negative then -(ofDigits ds : Int) else ofDigits ds)
      else none
    else none

/-- A decimal: digits with an optional point, at least one digit in all, and an optional
exponent. -/
def readScaled? (cs : List Char) : Option Scaled :=
  let whole := cs.takeWhile Char.isDigit
  let rest := cs.dropWhile Char.isDigit
  let (fraction, rest) := match rest with
    | '.' :: r => (r.takeWhile Char.isDigit, r.dropWhile Char.isDigit)
    | r => ([], r)
  if whole = [] && fraction = [] then none
  else (readExponent? rest).map fun e => ⟨ofDigits (whole ++ fraction), e - fraction.length⟩

/-- The words for the values that are no numbers, in any case. -/
def readWord? (cs : List Char) : Option Nat :=
  let w := cs.map Char.toLower
  if w = ['i', 'n', 'f'] || w = ['i', 'n', 'f', 'i', 'n', 'i', 't', 'y'] then some infinityCode
  else if w = ['n', 'a', 'n'] then some (infinityCode + binade / 2)
  else none

/-- The code of an unsigned numeral. -/
def readCode? (cs : List Char) : Option Nat :=
  ((readScaled? cs).map Scaled.code).or (readWord? cs)

/-- The double that a numeral spells, with an optional sign. -/
def read? (s : String) : Option Float :=
  match s.toList with
  | '-' :: cs => (readCode? cs).map (ofCode true)
  | '+' :: cs => (readCode? cs).map (ofCode false)
  | cs => (readCode? cs).map (ofCode false)

end Parametric.Decimal
