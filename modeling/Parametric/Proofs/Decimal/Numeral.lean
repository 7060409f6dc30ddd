import Parametric.Number
import Parametric.Proofs.Decimal.Bits
import Parametric.Proofs.Decimal.Nearest

/-!
# Reading back what is written

A number is written as digits, with a point and more digits if it has a fraction (`written`), and
reading that gives the decimal that was written, up to trailing zeros (`layout_spec`). So every
finite number without a sign reads back to itself (`Number.read?_text`). What is read from text that
starts with a digit or a point is unsigned (`Number.Unsigned`) and finite unless it is too great.
-/

namespace Parametric

namespace Decimal

/-- Digits, with a point and the digits of a fraction if there are any. -/
def written (whole fraction : List Char) : List Char :=
  whole ++ if fraction = [] then [] else '.' :: fraction

/-! ## Digits -/

theorem isDigit_of_mem_digitsOf {n : Nat} {c : Char} (h : c ∈ digitsOf n) : c.isDigit :=
  Nat.isDigit_of_mem_toDigits (by decide) (by decide) h

theorem ofDigits_digitsOf (n : Nat) : ofDigits (digitsOf n) = n := Nat.ofDigitChars_ten_toDigits

theorem ofDigits_append_zeros (cs : List Char) (n : Nat) :
    ofDigits (cs ++ List.replicate n '0') = ofDigits cs * 10 ^ n := by
  change Nat.ofDigitChars 10 _ 0 = Nat.ofDigitChars 10 _ 0 * _
  rw [Nat.ofDigitChars_append, Nat.ofDigitChars_replicate_zero, Nat.mul_comm]

theorem ofDigits_zeros_append (n : Nat) (cs : List Char) :
    ofDigits (List.replicate n '0' ++ cs) = ofDigits cs := by
  change Nat.ofDigitChars 10 _ 0 = Nat.ofDigitChars 10 _ 0
  rw [Nat.ofDigitChars_append, Nat.ofDigitChars_replicate_zero, Nat.mul_zero]

/-! ## Decimals -/

theorem takeWhile_digits {cs : List Char} (hcs : ∀ c ∈ cs, c.isDigit) (rest : List Char)
    (hrest : ∀ c, rest.head? = some c → c.isDigit = false) :
    (cs ++ rest).takeWhile Char.isDigit = cs ∧ (cs ++ rest).dropWhile Char.isDigit = rest := by
  rw [List.takeWhile_append_of_pos hcs, List.dropWhile_append_of_pos hcs]
  cases rest with
  | nil => simp
  | cons c rest => simp [hrest c rfl]

/-- Digits with an optional point, at least one of them, and an exponent that can be read. -/
theorem readScaled?_append {whole fraction tail : List Char} {e : Int}
    (hne : whole ≠ [] ∨ fraction ≠ []) (hwhole : ∀ c ∈ whole, c.isDigit)
    (hfraction : ∀ c ∈ fraction, c.isDigit) (htail : ∀ c ∈ tail.head?, c = 'e' ∨ c = 'E')
    (he : readExponent? tail = some e) :
    readScaled? (written whole fraction ++ tail) =
      some ⟨ofDigits (whole ++ fraction), e - fraction.length⟩ := by
  have hmark : ∀ c, tail.head? = some c → c.isDigit = false := by
    intro c hc
    rcases htail c hc with rfl | rfl <;> rfl
  unfold readScaled? written
  by_cases hempty : fraction = []
  · have hwhole' : whole ≠ [] := hne.resolve_right (not_not_intro hempty)
    obtain ⟨htake, hdrop⟩ := takeWhile_digits hwhole tail hmark
    simp only [if_pos hempty, List.append_nil, htake, hdrop]
    split
    next => exact absurd (htail '.' rfl) (by decide)
    next => simp [hwhole', he, hempty]
  · obtain ⟨htake, hdrop⟩ := takeWhile_digits hwhole ('.' :: (fraction ++ tail)) (by simp)
    obtain ⟨htake', hdrop'⟩ := takeWhile_digits hfraction tail hmark
    simp only [if_neg hempty, List.append_assoc, List.cons_append, htake, hdrop, htake', hdrop']
    simp [he, hempty]

theorem readScaled?_written {whole fraction : List Char} (hne : whole ≠ [])
    (hwhole : ∀ c ∈ whole, c.isDigit) (hfraction : ∀ c ∈ fraction, c.isDigit) :
    readScaled? (written whole fraction) =
      some ⟨ofDigits (whole ++ fraction), -(fraction.length : Int)⟩ := by
  have hexponent : readExponent? [] = some 0 := rfl
  have hread := readScaled?_append (.inl hne) hwhole hfraction (by simp) hexponent
  rwa [List.append_nil, Int.zero_sub] at hread

/-- A mark with an optional sign and digits can be read. -/
theorem exists_readExponent? {mark : Char} {sign digits : List Char}
    (hmark : (mark = 'e' || mark = 'E') = true) (hsign : sign = [] ∨ sign = ['+'] ∨ sign = ['-'])
    (hne : digits ≠ []) (hdigits : ∀ c ∈ digits, c.isDigit) :
    ∃ e, readExponent? (mark :: (sign ++ digits)) = some e := by
  have hall : digits.all Char.isDigit = true := List.all_eq_true.2 hdigits
  rcases hsign with rfl | rfl | rfl
  · obtain ⟨d, ds, rfl⟩ := List.exists_cons_of_ne_nil hne
    have hd := hdigits d List.mem_cons_self
    unfold readExponent?
    dsimp only [List.nil_append]
    rw [if_pos hmark]
    split
    next heq =>
      cases heq
      exact absurd hd (by decide)
    next heq =>
      cases heq
      exact absurd hd (by decide)
    next => simp [hall]
  · simp [readExponent?, hmark, hne, hall]
  · simp [readExponent?, hmark, hne, hall]

/-- What is written for a decimal has its value. -/
theorem layout_spec (d : Scaled) : ∃ whole fraction, d.layout = written whole fraction ∧
    whole ≠ [] ∧ (∀ c ∈ whole, c.isDigit) ∧ (∀ c ∈ fraction, c.isDigit) ∧
    Scaled.code ⟨ofDigits (whole ++ fraction), -(fraction.length : Int)⟩ = d.code := by
  have hdigit : ∀ c ∈ digitsOf d.digits, c.isDigit := fun c hc => isDigit_of_mem_digitsOf hc
  have hne : digitsOf d.digits ≠ [] := Nat.toDigits_ne_nil
  have hvalue := ofDigits_digitsOf d.digits
  have hzero : ∀ n, ∀ c ∈ List.replicate n '0', c.isDigit := by
    intro n c hc
    rw [List.eq_of_mem_replicate hc]
    decide
  unfold Scaled.layout
  generalize digitsOf d.digits = ds at *
  generalize hplaces : (-d.exponent).toNat = places
  dsimp only
  split
  next h =>
    refine ⟨ds ++ List.replicate d.exponent.toNat '0', [], by simp [written], by simp [hne],
      List.forall_mem_append.2 ⟨hdigit, hzero _⟩, by simp, Scaled.code_congr ?_⟩
    rw [List.append_nil, ofDigits_append_zeros, hvalue, hplaces, h]
    simp [Scaled.tenTo_eq]
  next h =>
    have hexponent : d.exponent = -(places : Int) := by omega
    split
    next hlt =>
      have hdrop : (ds.drop (ds.length - places)).length = places := by
        rw [List.length_drop]
        omega
      refine ⟨ds.take (ds.length - places), ds.drop (ds.length - places), ?_, ?_,
        fun c hc => hdigit c (List.mem_of_mem_take hc),
        fun c hc => hdigit c (List.mem_of_mem_drop hc), ?_⟩
      · rw [written, if_neg]
        exact List.ne_nil_of_length_pos (by omega)
      · refine List.ne_nil_of_length_pos ?_
        rw [List.length_take]
        omega
      · rw [List.take_append_drop, hvalue, hdrop, ← hexponent]
    next hlt =>
      refine ⟨['0'], List.replicate (places - ds.length) '0' ++ ds, ?_, by simp, hzero 1,
        List.forall_mem_append.2 ⟨hzero _, hdigit⟩, ?_⟩
      · rw [written, if_neg]
        · rfl
        · simp [hne]
      · rw [List.length_append, List.length_replicate, Nat.sub_add_cancel (by omega), ← hexponent,
          ← List.append_assoc, ← List.replicate_one, List.replicate_append_replicate,
          ofDigits_zeros_append, hvalue]

/-! ## Numbers -/

/-- What starts with a digit or a point has no sign. -/
theorem read?_eq {s : String} {c : Char} {cs : List Char} (hs : s.toList = c :: cs)
    (hc : c.isDigit ∨ c = '.') : read? s = (readCode? (c :: cs)).map (ofCode false) := by
  rw [read?, hs]
  split
  next heq =>
    cases heq
    exact absurd hc (by decide)
  next heq =>
    cases heq
    exact absurd hc (by decide)
  next => rfl

/-- A finite number without a sign is written as a decimal, which reads back to it. -/
theorem text_spec {x : Float} (hsign : isNegative x = false) (hfinite : codeOf x < infinityCode) :
    ∃ whole fraction, (text x).toList = written whole fraction ∧ whole ≠ [] ∧
      (∀ c ∈ whole, c.isDigit) ∧ (∀ c ∈ fraction, c.isDigit) ∧ read? (text x) = some x := by
  obtain ⟨whole, fraction, hlayout, hne, hwhole, hfraction, hcode⟩ :=
    layout_spec (shortest (codeOf x))
  have htext : (text x).toList = written whole fraction := by
    rw [text, hsign, Bool.false_and, if_neg Bool.false_ne_true, codeText,
      if_neg (Nat.not_lt.2 (Nat.le_of_lt hfinite)), if_neg (Nat.ne_of_lt hfinite),
      String.toList_ofList, hlayout]
  refine ⟨whole, fraction, htext, hne, hwhole, hfraction, ?_⟩
  have hread : readCode? (written whole fraction) = some (codeOf x) := by
    rw [readCode?, readScaled?_written hne hwhole hfraction, Option.map_some, hcode,
      code_shortest hfinite, Option.some_or]
  obtain ⟨c, rest, rfl⟩ := List.exists_cons_of_ne_nil hne
  have hc := hwhole c List.mem_cons_self
  have hread' := read?_eq htext (.inl hc)
  change _ = (readCode? (written (c :: rest) fraction)).map _ at hread'
  rw [hread', hread, Option.map_some, ofCode_codeOf hsign]

theorem isNaN_eq_false {x : Float} (hsign : isNegative x = false) (hle : codeOf x ≤ infinityCode) :
    x.isNaN = false := by
  have hlt : x.toBits.toNat < signBit := by simpa [isNegative] using hsign
  rw [codeOf, Nat.mod_eq_of_lt hlt] at hle
  exact isNaN_of_le hle

/-- What starts with a digit or a point is no word, so it has no code beyond infinity. -/
theorem readCode?_le {c : Char} {cs : List Char} (hc : c.isDigit ∨ c = '.') {code : Nat}
    (h : readCode? (c :: cs) = some code) : code ≤ infinityCode := by
  have hlower : c.toLower ≠ 'i' ∧ c.toLower ≠ 'n' := by
    obtain hc | rfl := hc
    · have hsame : c.toLower = c := by
        simp only [Char.isDigit, Char.toLower] at *
        grind
      rw [hsame]
      constructor <;> rintro rfl <;> exact absurd hc (by decide)
    · decide
  have hword : readWord? (c :: cs) = none := by
    simp [readWord?, hlower.1, hlower.2]
  rw [readCode?, hword, Option.or_none] at h
  obtain ⟨d, -, rfl⟩ := Option.map_eq_some_iff.1 h
  exact d.code_le

theorem read?_spec {s : String} {c : Char} {cs : List Char} (hs : s.toList = c :: cs)
    (hc : c.isDigit ∨ c = '.') {x : Float} (h : read? s = some x) :
    isNegative x = false ∧ codeOf x ≤ infinityCode := by
  rw [read?_eq hs hc] at h
  obtain ⟨code, hcode, rfl⟩ := Option.map_eq_some_iff.1 h
  have hle := readCode?_le hc hcode
  obtain ⟨hsame, hsign⟩ := codeOf_ofCode hle
  exact ⟨hsign, hsame.symm ▸ hle⟩

end Decimal

namespace Number

/-- A finite number without a sign reads back to itself. -/
theorem read?_text {x : Float} (hsign : Decimal.isNegative x = false)
    (hfinite : Decimal.codeOf x < Decimal.infinityCode) :
    read? (double x).text = some (.double x) := by
  obtain ⟨-, -, -, -, -, -, hread⟩ := Decimal.text_spec hsign hfinite
  have hnan := Decimal.isNaN_eq_false hsign (Nat.le_of_lt hfinite)
  change (Decimal.read? (Decimal.text x)).map _ = _
  rw [hread, Option.map_some, hnan]
  rfl

/-- The values that source text spells without a sign: infinity for a numeral that is too great. -/
def Unsigned : Number → Prop
  | double x => Decimal.isNegative x = false ∧ Decimal.codeOf x ≤ Decimal.infinityCode
  | negativeNaN => False

instance : DecidablePred Unsigned
  | double _ => inferInstanceAs (Decidable (_ ∧ _))
  | negativeNaN => inferInstanceAs (Decidable False)

def Finite (n : Number) : Prop := Decimal.codeOf n < Decimal.infinityCode

instance (n : Number) : Decidable n.Finite := inferInstanceAs (Decidable (_ < _))

namespace Unsigned

variable {n : Number}

theorem exists_double (h : n.Unsigned) : ∃ x, n = double x ∧ Decimal.isNegative x = false := by
  cases n with
  | double x => exact ⟨x, rfl, h.1⟩
  | negativeNaN => exact h.elim

theorem isNegative (h : n.Unsigned) : n.isNegative = false := by
  obtain ⟨x, rfl, hsign⟩ := h.exists_double
  exact hsign

/-- A finite unsigned number is written as a numeral, which reads back to it. -/
theorem text_spec (h : n.Unsigned) (hfinite : n.Finite) : ∃ whole fraction,
    n.text.toList = Decimal.written whole fraction ∧ whole ≠ [] ∧
      (∀ c ∈ whole, c.isDigit) ∧ (∀ c ∈ fraction, c.isDigit) ∧ read? n.text = some n := by
  obtain ⟨x, rfl, hsign⟩ := h.exists_double
  obtain ⟨whole, fraction, htext, hne, hwhole, hfraction, -⟩ := Decimal.text_spec hsign hfinite
  exact ⟨whole, fraction, htext, hne, hwhole, hfraction, read?_text hsign hfinite⟩

theorem text_of_not_finite (h : n.Unsigned) (hfinite : ¬n.Finite) : n.text = "inf" := by
  obtain ⟨x, rfl, hsign⟩ := h.exists_double
  have hcode : Decimal.codeOf x = Decimal.infinityCode :=
    Nat.le_antisymm h.2 (Nat.not_lt.1 hfinite)
  change Decimal.text x = "inf"
  rw [Decimal.text, hsign, Bool.false_and, if_neg Bool.false_ne_true, Decimal.codeText, hcode]
  rfl

end Unsigned

theorem unsigned_of_read? {s : String} {c : Char} {cs : List Char} (hs : s.toList = c :: cs)
    (hc : c.isDigit ∨ c = '.') {n : Number} (h : read? s = some n) : n.Unsigned := by
  obtain ⟨x, hread, rfl⟩ := Option.map_eq_some_iff.1 h
  obtain ⟨hsign, hle⟩ := Decimal.read?_spec hs hc hread
  rw [Decimal.isNaN_eq_false hsign hle]
  exact ⟨hsign, hle⟩

end Number

end Parametric
