import Parametric.Decimal.Binary64

/-!
# The shortest decimal of a double

A double is shown by the fewest digits that read back to it, and by the nearest of those. The
search goes through the decimal grids from coarse to fine and tries the two neighbours of the
value on each.
-/

namespace Parametric.Decimal

def tenTo (n : Nat) : Nat := Nat.pow 10 n

/-- The number `digits * 10 ^ exponent`. -/
structure Scaled where
  digits : Nat
  exponent : Int
deriving DecidableEq, Repr

namespace Scaled

/-- The code nearest to a decimal. Exponents far outside the range of doubles are settled without
computing the power of ten. -/
def code (d : Scaled) : Nat :=
  if d.digits = 0 then 0
  else if 400 < d.exponent then infinityCode
  else if d.digits.log2 + d.exponent < -400 then 0
  else nearestCode (d.digits * tenTo d.exponent.toNat) (tenTo (-d.exponent).toNat)

/-- The same number without trailing zeros in its digits. -/
def trim (d : Scaled) : Scaled :=
  go d.digits d
where
  go : Nat → Scaled → Scaled
    | 0, d => d
    | fuel + 1, d =>
      if d.digits ≠ 0 ∧ d.digits % 10 = 0 then go fuel ⟨d.digits / 10, d.exponent + 1⟩ else d

end Scaled

/-- The least `k` with `num / den < 10 ^ k`, for a positive ratio: an estimate from the binary
logarithm, corrected by single steps. -/
def decade (num den : Nat) : Int :=
  raise 4 (((num.log2 : Int) - (den.log2 : Int) - 1) * 30103 / 100000 - 1)
where
  raise : Nat → Int → Int
    | 0, k => k
    | fuel + 1, k =>
      if num * tenTo (-k).toNat < den * tenTo k.toNat then k else raise fuel (k + 1)

/-- The decimal with exponent `e` next to the ratio that reads back to `target`: the nearer of the
two neighbours, the upper one on a tie. -/
def onGrid? (target num den : Nat) (e : Int) : Option Scaled :=
  let n := num * tenTo (-e).toNat
  let d := den * tenTo e.toNat
  let lower : Scaled := ⟨n / d, e⟩
  let upper : Scaled := ⟨n / d + 1, e⟩
  if lower.code = target then
    if upper.code = target ∧ d ≤ 2 * (n % d) then some upper else some lower
  else if upper.code = target then some upper
  else none

/-- The shortest decimal that reads back to a code below `infinityCode`. -/
def shortest (target : Nat) : Scaled :=
  let num := units target
  let den := 1 <<< unitShift
  if num = 0 then ⟨0, 0⟩
  else
    let k := decade num den
    match (List.range 17).findSome? fun i : Nat => onGrid? target num den (k - 1 - i) with
    | some d => d.trim
    | none => Scaled.trim ⟨num * Nat.pow 5 unitShift, -unitShift⟩

end Parametric.Decimal
