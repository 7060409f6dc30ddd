import Parametric.Decimal.Numeral

/-!
# Numbers of JSON documents

A number keeps how it was written as far as a reader can tell: naturals and negative integers that
fit in 64 bits stay exact, everything else is a double. The double is found the quick way: as many
leading digits as fit in 64 bits are rounded first and then scaled by powers of ten, so a long
numeral may end one step away from the nearest double. A numeral above all doubles has no value.
-/

namespace Parametric.Json

open Decimal

/-- A number as a document holds it. -/
inductive Number
  | natural (n : Nat)
  | negative (n : Nat)
  | real (x : Float)
  | tooLarge
deriving DecidableEq

namespace Number

/-- The double that a number stands for, if there is one. -/
def toFloat? : Number → Option Float
  | natural n => some (Float.ofNat n)
  | negative n => some (-Float.ofNat n)
  | real x => some x
  | tooLarge => none

/-- The number as a natural no larger than `limit`. -/
def toNat? (limit : Nat) : Number → Option Nat
  | natural n => if n ≤ limit then some n else none
  | _ => none

/-! ## Reading -/

/-- The greatest significand that is kept. -/
def significandLimit : Nat := 0xFFFFFFFFFFFFFFFF

/-- Take digits into the significand `s` as long as it stays within the limit: the significand and
the count of digits taken. -/
def absorb (s : Nat) : List Char → Nat × Nat
  | [] => (s, 0)
  | c :: cs =>
    if 10 * s + digitValue c ≤ significandLimit then
      let (s', n) := absorb (10 * s + digitValue c) cs
      (s', n + 1)
    else (s, 0)

/-- The double `10 ^ e`. -/
def powerOfTen (e : Nat) : Float := ofCode false (Scaled.code ⟨1, e⟩)

/-- `x * 10 ^ e`, computed in doubles by one power of ten below `10 ^ 309` at a time. -/
def scale? (x : Float) (e : Int) : Option Float :=
  go 4 x e
where
  go : Nat → Float → Int → Option Float
    | 0, x, _ => some x
    | fuel + 1, x, e =>
      if e.natAbs ≤ 308 then
        if 0 ≤ e then
          let y := x * powerOfTen e.natAbs
          if y.isInf then none else some y
        else some (x / powerOfTen e.natAbs)
      else if x == 0 then some x
      else if 0 ≤ e then none
      else go fuel (x / powerOfTen 308) (e + 308)

/-- The digits after a point: none without a point, at least one with it. -/
def readFraction? : List Char → Option (List Char × List Char)
  | '.' :: cs =>
    match cs.takeWhile Char.isDigit with
    | [] => none
    | ds => some (ds, cs.dropWhile Char.isDigit)
  | cs => some ([], cs)

/-- The exponent after its mark: zero without a mark, at least one digit with it. -/
def readPower? : List Char → Option (Option Int × List Char)
  | [] => some (none, [])
  | c :: cs =>
    if c = 'e' || c = 'E' then
      let (down, r) := match cs with
        | '-' :: r => (true, r)
        | '+' :: r => (false, r)
        | r => (false, r)
      match r.takeWhile Char.isDigit with
      | [] => none
      | ds =>
        some (some (if down then -(ofDigits ds : Int) else ofDigits ds),
          r.dropWhile Char.isDigit)
    else some (none, c :: cs)

/-- A whole part is a zero alone or starts with another digit. -/
def readWhole? (cs : List Char) : Option (List Char × List Char) :=
  match cs.takeWhile Char.isDigit with
  | [] => none
  | ['0'] => some (['0'], cs.dropWhile Char.isDigit)
  | '0' :: _ => none
  | ds => some (ds, cs.dropWhile Char.isDigit)

/-- An integer with its sign. A negative zero and integers below `-2 ^ 63` are doubles. -/
def ofInteger (minus : Bool) (n : Nat) : Number :=
  if !minus then .natural n
  else if n = 0 || Decimal.signBit < n then .real (-Float.ofNat n)
  else .negative n

/-- A double with its sign, from a significand and an exponent. -/
def ofScaled (minus : Bool) (s : Nat) (e : Int) : Number :=
  match scale? (Float.ofNat s) e with
  | some x => .real (if minus then -x else x)
  | none => .tooLarge

/-- A number at the front of a text, with its sign already read. -/
def readUnsigned? (minus : Bool) (cs : List Char) : Option (Number × List Char) := do
  let (whole, cs) ← readWhole? cs
  let (fraction, cs) ← readFraction? cs
  let (power, cs) ← readPower? cs
  let (s, kept) := absorb 0 whole
  let dropped := whole.length - kept
  if fraction = [] && power = none && dropped = 0 then
    return (ofInteger minus s, cs)
  let (s, places) := absorb s fraction
  return (ofScaled minus s (dropped - places + power.getD 0), cs)

/-- A number at the front of a text. -/
def read? : List Char → Option (Number × List Char)
  | '-' :: cs => readUnsigned? true cs
  | cs => readUnsigned? false cs

end Number

end Parametric.Json
