import Parametric.Entity

/-!
# Identifiers of formulas

A formula is identified by a number that is written like a random identifier of 128 bits: 32
hexadecimal digits in groups, with the version 4 and the usual variant. The identifier of a serial
number keeps the version and the variant and spreads the serial number over the other bits.
-/

namespace Parametric

/-- The identifier of a formula. -/
structure FormulaId where
  value : Nat
deriving DecidableEq, Repr

namespace FormulaId

instance : Ord FormulaId := ⟨fun a b => compare a.value b.value⟩

theorem compare_eq_compareOn : (compare : FormulaId → FormulaId → Ordering) =
    compareOn FormulaId.value := rfl

instance : Std.TransOrd FormulaId := by
  rw [Std.TransOrd, compare_eq_compareOn]
  infer_instance

instance : Std.LawfulEqOrd FormulaId where
  eq_of_compare {a b} h := by
    have h : a.value = b.value := Std.LawfulEqOrd.eq_of_compare h
    cases a
    cases b
    simp_all

def ofSerial (n : Nat) : FormulaId :=
  ⟨(n >>> 74) <<< 80 + 4 <<< 76 + (n >>> 62 % 0x1000) <<< 64 + 2 <<< 62 + n % 0x4000000000000000⟩

theorem ofSerial_injective {m n : Nat} (h : ofSerial m = ofSerial n) : m = n := by
  simp only [ofSerial, mk.injEq] at h
  omega

/-! ## Text -/

/-- The lengths of the groups of digits. -/
def groups : List Nat := [8, 4, 4, 4, 12]

/-- Cut a list into groups of given lengths. -/
def split (cs : List Char) : List Nat → List (List Char)
  | [] => []
  | n :: ns => cs.take n :: split (cs.drop n) ns

/-- The 32 digits of an identifier. -/
def digits (id : FormulaId) : List Char :=
  let ds := Nat.toDigits 16 id.value
  List.replicate (32 - ds.length) '0' ++ ds

/-- An identifier in groups of digits. -/
def text (id : FormulaId) : String :=
  "-".intercalate ((split id.digits groups).map String.ofList)

/-- The number that a list of hexadecimal digits spells. -/
def ofDigits? (cs : List Char) : Option Nat :=
  cs.foldlM (fun n c =>
    if c.isDigit then some (16 * n + (c.toNat - '0'.toNat))
    else if 'a' ≤ c.toLower && c.toLower ≤ 'f' then
      some (16 * n + (c.toLower.toNat - 'a'.toNat + 10))
    else none) 0

/-- The digits of groups with a dash between each two. -/
def ungroup? (cs : List Char) : List Nat → Option (List Char)
  | [] => if cs = [] then some [] else none
  | [n] => if cs.length = n then some cs else none
  | n :: ns =>
    match cs.drop n with
    | '-' :: rest => (ungroup? rest ns).map (cs.take n ++ ·)
    | _ => none

/-- The groups of an identifier without what may stand around them: braces, or a scheme in either
case. -/
def bare (cs : List Char) : List Char :=
  let scheme := ['u', 'r', 'n', ':', 'u', 'u', 'i', 'd', ':']
  if cs.length = 38 && cs.head? = some '\x7b' && cs.getLast? = some '\x7d' then cs.tail.dropLast
  else if cs.length = 45 && scheme.isPrefixOf (cs.map Char.toLower) then cs.drop scheme.length
  else cs

/-- An identifier from its text: digits in either case, all together or in groups. -/
def ofText? (s : String) : Option FormulaId :=
  let cs := s.toList
  let ds := if cs.length = 32 then some cs else ungroup? (bare cs) groups
  (ds.bind ofDigits?).map mk

end FormulaId

end Parametric
