/-!
# Doubles as whole numbers of units

Every finite double is a whole number of *units* of `2 ^ (-1074)`, with a sign. A bit pattern
without its sign is a code: codes are ordered like the magnitudes they stand for, and the codes
from `infinityCode` on stand for no number.

* `units` reads a code as its number of units;
* `nearestCode` finds the code nearest to a ratio of naturals, ties going to the even code;
* `remainder` is the remainder of the truncated division of two doubles.
-/

namespace Parametric.Decimal

/-- The code of infinity: the first one that stands for no number. -/
def infinityCode : Nat := 0x7FF0000000000000

/-- The power of two that one unit divides by. -/
def unitShift : Nat := 1074

/-- The count of codes with one exponent, `2 ^ 52`. -/
def binade : Nat := 0x10000000000000

/-- The bit of the sign, `2 ^ 63`. -/
def signBit : Nat := 0x8000000000000000

/-- The exponent of the spacing of the codes around `code`, in units. -/
def spacing (code : Nat) : Nat := code / binade - 1

/-- The magnitude of a code below `infinityCode`, in units. -/
def units (code : Nat) : Nat :=
  (code - spacing code * binade) <<< spacing code

/-- The quotient of `a` by `d` to the nearest natural, ties going to the even one. -/
def divNearest (a d : Nat) : Nat :=
  let r := a % d
  if 2 * r < d then a / d
  else if d < 2 * r then a / d + 1
  else a / d + a / d % 2

/-- The code nearest to `num / den`; `infinityCode` when the ratio is too large. -/
def nearestCode (num den : Nat) : Nat :=
  let a := num <<< unitShift
  let k := (a / den).log2 - 52
  min infinityCode (k * binade + divNearest a (den <<< k))

/-- The code of a double, its sign dropped. -/
def codeOf (x : Float) : Nat := x.toBits.toNat % signBit

def isNegative (x : Float) : Bool := signBit ≤ x.toBits.toNat

/-- The double with a sign and a code. -/
def ofCode (negative : Bool) (code : Nat) : Float :=
  Float.ofBits (UInt64.ofNat (code + if negative then signBit else 0))

/-- The remainder of `x` by `y` with the sign of `x`: exact, and no number when `x` is infinite or
`y` is zero. -/
def remainder (x y : Float) : Float :=
  if codeOf x ≥ infinityCode || codeOf y > infinityCode || codeOf y = 0 then 0.0 / 0.0
  else if codeOf y = infinityCode then x
  else ofCode (isNegative x) (nearestCode (units (codeOf x) % units (codeOf y)) (1 <<< unitShift))

end Parametric.Decimal
