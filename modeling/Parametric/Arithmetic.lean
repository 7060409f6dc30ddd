/-!
# Arithmetic on numbers

The operations on doubles that the library needs beyond the basic ones: choosing between two
numbers, folding lists of them, and the easing curves.
-/

namespace Parametric.Arithmetic

def infinity : Float := 1.0 / 0.0

def nan : Float := 0.0 / 0.0

/-- The ratio of a circle's circumference to its diameter. -/
def pi : Float := 3.141592653589793

/-- The lesser of two numbers; the other one when one is no number, the second one on a tie. -/
def lesser (a b : Float) : Float :=
  if b.isNaN then a else if a < b then a else b

/-- The greater of two numbers; the other one when one is no number, the second one on a tie. -/
def greater (a b : Float) : Float :=
  if b.isNaN then a else if b < a then a else b

/-- The least of a list; infinity for none. -/
def least (xs : List Float) : Float := xs.foldl lesser infinity

/-- The greatest of a list; negative infinity for none. -/
def greatest (xs : List Float) : Float := xs.foldl greater (-infinity)

/-- The sum of a list from the left. The sum of nothing is the negative zero, which leaves every
number as it is. -/
def sum (xs : List Float) : Float := xs.foldl (· + ·) (-0.0)

def mean (xs : List Float) : Float := sum xs / Float.ofNat xs.length

/-- `x` held between two bounds, the lower one first. -/
def clamp (x lo hi : Float) : Float :=
  if x < lo then lo else if hi < x then hi else x

/-- `clamp` where it has a meaning: both bounds are numbers and the first is not the greater one. -/
def clamp? (x lo hi : Float) : Option Float :=
  if lo <= hi then some (clamp x lo hi) else none

/-! ## Easing

Each curve takes `t` in the range from `lo` to `hi` to a number from `a` to `b`. Outside the range
it stays at the end, and on an empty range it is `a`.
-/

/-- The share of the range from `lo` to `hi` that lies below `t`. -/
def share (t lo hi : Float) : Float := clamp ((t - lo) / (hi - lo)) 0.0 1.0

/-- A straight line. -/
def linear (t lo hi a b : Float) : Float :=
  if hi <= lo then a else a + (b - a) * share t lo hi

/-- A curve that starts and ends slowly. -/
def ease (t lo hi a b : Float) : Float :=
  if hi > lo then
    let r := share t lo hi
    a + (b - a) * (r * r * (3.0 - 2.0 * r))
  else a

/-- A curve that starts slowly. -/
def easeIn (t lo hi a b : Float) : Float :=
  if hi > lo then
    let r := share t lo hi
    a + (b - a) * r * r
  else a

/-- A curve that ends slowly. -/
def easeOut (t lo hi a b : Float) : Float :=
  if hi > lo then
    let r := share t lo hi
    a + (b - a) * r * (2.0 - r)
  else a

/-- The number at the share `t` of the way from `a` to `b`. -/
def lerp (a b t : Float) : Float := a + (b - a) * t

def radians (x : Float) : Float := x * pi / 180.0

def degrees (x : Float) : Float := x * 180.0 / pi

end Parametric.Arithmetic
