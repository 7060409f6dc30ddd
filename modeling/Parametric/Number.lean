import Parametric.Arithmetic
import Parametric.Decimal.Numeral

/-!
# Numbers

The numbers of formulas are doubles. What is no number has a sign as well, which shows when the
number is printed as source, so a number keeps it beside the doubles.
-/

namespace Parametric

/-- A number: a double, or what is no number with a negative sign. -/
inductive Number
  | double (x : Float)
  | negativeNaN
deriving DecidableEq

namespace Number

/-- The number as a double, which knows one `NaN`. -/
def toFloat : Number → Float
  | double x => x
  | negativeNaN => Arithmetic.nan

instance : Coe Float Number := ⟨double⟩
instance : Coe Number Float := ⟨toFloat⟩

def isNegative : Number → Bool
  | double x => Decimal.isNegative x
  | negativeNaN => true

def neg : Number → Number
  | double x => if x.isNaN then negativeNaN else double (-x)
  | negativeNaN => double Arithmetic.nan

/-- The text of a number. What is no number is written without its sign. -/
def text (n : Number) : String := Decimal.text n.toFloat

def read? (s : String) : Option Number :=
  (Decimal.read? s).map fun x => if x.isNaN && s.startsWith "-" then negativeNaN else double x

end Number

end Parametric
