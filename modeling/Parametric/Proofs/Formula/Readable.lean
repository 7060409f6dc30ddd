import Parametric.Proofs.Formula.Cutting

/-!
# Tokens can be read

What a class of lexemes takes can be read as what the class stands for (`Token.Readable`). The
digits, the point and the exponent of a numeral are those that reading a number asks for
(`exists_numeral_parts`). Between the quotes of a string literal a backslash has its character, as
the scan takes both at once (`quoted_spec`). A reference is its path with points between the names,
and a variable is a name after a dollar sign.
-/

namespace Parametric

namespace Token

variable {cs : List Char}

/-! ## Numerals -/

theorem run_eq_zero {p : Char → Bool} : run p cs = 0 ↔ cs.takeWhile p = [] :=
  List.length_eq_zero_iff

theorem isDigit_of_mem_takeWhile : ∀ c ∈ cs.takeWhile Char.isDigit, c.isDigit :=
  fun c hc => List.all_eq_true.1 List.all_takeWhile c hc

theorem take_fraction (cs : List Char) : ∃ digits, (∀ c ∈ digits, c.isDigit) ∧
    cs.take (fraction cs) = (if digits = [] then [] else '.' :: digits) ∧
    (digits = [] → fraction cs = 0) := by
  unfold fraction
  split
  next cs =>
    by_cases hnone : run Char.isDigit cs = 0
    · exact ⟨[], by simp, by simp [hnone], fun _ => by simp [hnone]⟩
    · have hne : cs.takeWhile Char.isDigit ≠ [] := fun h => hnone (run_eq_zero.2 h)
      refine ⟨cs.takeWhile Char.isDigit, isDigit_of_mem_takeWhile, ?_, fun h => absurd h hne⟩
      rw [if_neg hnone, if_neg hne, Nat.add_comm, List.take_succ_cons, take_run]
  next => exact ⟨[], by simp, by simp, fun _ => rfl⟩

theorem take_signs (cs : List Char) :
    cs.take (signs cs) = [] ∨ cs.take (signs cs) = ['+'] ∨ cs.take (signs cs) = ['-'] := by
  unfold signs
  split <;> simp

/-- An exponent that is taken can be read. -/
theorem take_exponent (cs : List Char) : (∀ c ∈ (cs.take (exponent cs)).head?, c = 'e' ∨ c = 'E') ∧
    ∃ e, Decimal.readExponent? (cs.take (exponent cs)) = some e := by
  cases cs with
  | nil => exact ⟨by simp [exponent], 0, rfl⟩
  | cons c cs =>
    rw [exponent_cons]
    by_cases hc : (c = 'e' || c = 'E') = true
    · by_cases hnone : run Char.isDigit (cs.drop (signs cs)) = 0
      · simp [hnone, Decimal.readExponent?]
      · have hdigits : cs.take (signs cs + run Char.isDigit (cs.drop (signs cs))) =
            cs.take (signs cs) ++ (cs.drop (signs cs)).takeWhile Char.isDigit := by
          rw [List.take_add, take_run]
        rw [if_pos hc, if_neg hnone, Nat.add_assoc, Nat.add_comm 1, List.take_succ_cons, hdigits]
        refine ⟨fun d hd => ?_, ?_⟩
        · cases hd
          simpa using hc
        · exact Decimal.exists_readExponent? hc (take_signs cs) (fun h => hnone (run_eq_zero.2 h))
            isDigit_of_mem_takeWhile
    · rw [if_neg hc]
      exact ⟨by simp, 0, rfl⟩

/-- What the class of numerals takes are digits with an optional point, at least one of them, and an
exponent that can be read. -/
theorem exists_numeral_parts (h : numeral cs ≠ 0) : ∃ whole digits tail,
    cs.take (numeral cs) = Decimal.written whole digits ++ tail ∧ (whole ≠ [] ∨ digits ≠ []) ∧
      (∀ c ∈ whole, c.isDigit) ∧ (∀ c ∈ digits, c.isDigit) ∧
      (∀ c ∈ tail.head?, c = 'e' ∨ c = 'E') ∧ ∃ e, Decimal.readExponent? tail = some e := by
  unfold numeral at h ⊢
  dsimp only at h ⊢
  obtain ⟨digits, hdigits, hfraction, hpoint⟩ := take_fraction (cs.drop (run Char.isDigit cs))
  generalize fraction (cs.drop (run Char.isDigit cs)) = f at h hfraction hpoint ⊢
  by_cases hnone : run Char.isDigit cs + f = 0
  · exact absurd (if_pos hnone) h
  · obtain ⟨hmark, hexponent⟩ := take_exponent (cs.drop (run Char.isDigit cs + f))
    refine ⟨cs.takeWhile Char.isDigit, digits, _, ?_, ?_, isDigit_of_mem_takeWhile, hdigits, hmark,
      hexponent⟩
    · rw [if_neg hnone, List.take_add, List.take_add, take_run, hfraction, Decimal.written]
    · by_contra hboth
      rw [not_or, not_not, not_not] at hboth
      exact hnone (by rw [run_eq_zero.2 hboth.1, hpoint hboth.2])

/-- A numeral can be read as a number. -/
theorem exists_read?_numeral (h : numeral cs ≠ 0) :
    ∃ n, Number.read? (String.ofList (cs.take (numeral cs))) = some n := by
  obtain ⟨c, rest, hfront, hc⟩ := exists_numeral h
  obtain ⟨whole, digits, tail, htake, hne, hwhole, hdigits, hmark, e, he⟩ := exists_numeral_parts h
  have hscaled := Decimal.readScaled?_append hne hwhole hdigits hmark he
  rw [← htake, hfront] at hscaled
  have htext : (String.ofList (cs.take (numeral cs))).toList = c :: rest := by
    rw [String.toList_ofList, hfront]
  rw [Number.read?, Decimal.read?_eq htext hc, Decimal.readCode?, hscaled]
  exact ⟨_, rfl⟩

/-! ## String literals -/

/-- The quotes of a literal can be cut off: characters meet after the first byte of the text and
before its last one. -/
def Unquotable (text : String) : Prop :=
  2 ≤ text.utf8ByteSize ∧ (⟨1⟩ : String.Pos.Raw).IsValid text ∧
    (⟨text.utf8ByteSize - 1⟩ : String.Pos.Raw).IsValid text

instance (text : String) : Decidable (Unquotable text) := inferInstanceAs (Decidable (_ ∧ _ ∧ _))

/-- The scan keeps a backslash together with its character, so that what it passes can be decoded
up to its end. -/
theorem quoted_spec {quote : Char} {cs : List Char} {n : Nat} (h : quoted quote cs = some n) :
    ∃ inner s, cs.take n = inner ++ [quote] ∧ unescape? inner = some s := by
  fun_induction quoted quote cs generalizing n with
  | case1 => cases h
  | case2 => cases h
  | case3 c cs ih =>
    obtain ⟨m, hm, rfl⟩ := Option.map_eq_some_iff.1 h
    obtain ⟨inner, s, htake, hs⟩ := ih hm
    exact ⟨'\\' :: c :: inner, _, by simp [htake], by rw [unescape?, hs, Option.map_some]⟩
  | case4 cs =>
    cases h
    exact ⟨[], [], rfl, rfl⟩
  | case5 c cs hnil hcons _ ih =>
    obtain ⟨m, hm, rfl⟩ := Option.map_eq_some_iff.1 h
    obtain ⟨inner, s, htake, hs⟩ := ih hm
    have hc := ne_backslash hnil hcons
    refine ⟨c :: inner, c :: s, by simp [htake], ?_⟩
    rw [unescape?.eq_4 _ _ (fun h => absurd h hc) (fun _ _ h => absurd h hc), hs, Option.map_some]

theorem exists_literal (h : literal cs ≠ 0) : ∃ quote inner s, (quote = '"' ∨ quote = '\'') ∧
    cs.take (literal cs) = quote :: (inner ++ [quote]) ∧ unescape? inner = some s := by
  cases cs with
  | nil => exact absurd rfl h
  | cons c cs =>
    rw [literal] at h ⊢
    split at h
    next hquote =>
      cases hclosed : quoted c cs with
      | none =>
        rw [hclosed] at h
        exact absurd rfl h
      | some n =>
        obtain ⟨inner, s, htake, hs⟩ := quoted_spec hclosed
        refine ⟨c, inner, s, by simpa using hquote, ?_, hs⟩
        rw [if_pos hquote, Option.map_some, Option.getD_some, List.take_succ_cons, htake]
    next => exact absurd rfl h

theorem unquotable_of_quotes {quote : Char} (hquote : quote.utf8Size = 1) (inner : List Char) :
    Unquotable (String.ofList (quote :: (inner ++ [quote]))) := by
  have hfront : String.ofList (quote :: (inner ++ [quote])) =
      String.ofList [quote] ++ String.ofList (inner ++ [quote]) := by
    rw [← String.ofList_append, List.singleton_append]
  have hback : String.ofList (quote :: (inner ++ [quote])) =
      String.ofList (quote :: inner) ++ String.ofList [quote] := by
    rw [← String.ofList_append, List.cons_append]
  have hone : byteLength [quote] = 1 := by rw [byteLength, byteLength, hquote]
  have hsize : byteLength (quote :: (inner ++ [quote])) = byteLength (quote :: inner) + 1 := by
    rw [← List.cons_append, byteLength_append, hone]
  refine ⟨?_, String.Pos.Raw.isValid_iff_exists_append.2 ⟨_, _, hfront, ?_⟩,
    String.Pos.Raw.isValid_iff_exists_append.2 ⟨_, _, hback, ?_⟩⟩
  · rw [byteLength_ofList, hsize, byteLength, hquote]
    omega
  · rw [String.rawEndPos, byteLength_ofList, hone]
  · rw [String.rawEndPos, byteLength_ofList, byteLength_ofList, hsize, Nat.add_sub_cancel]

/-! ## References and variables -/

theorem split_reference (h : reference cs ≠ 0) :
    2 ≤ (Path.ofString (String.ofList (cs.take (reference cs)))).length ∧
      (∀ name ∈ Path.ofString (String.ofList (cs.take (reference cs))), IsName name.toList) ∧
      (Path.ofString (String.ofList (cs.take (reference cs)))).text =
        String.ofList (cs.take (reference cs)) := by
  obtain ⟨object, path, htake, hobject, hpath, hnames⟩ := exists_reference h
  rw [htake, ofString_dotted hobject hnames]
  refine ⟨?_, List.forall_mem_cons.2 ⟨by simpa using hobject, hnames⟩, ?_⟩
  · have := List.length_pos_iff.2 hpath
    rw [List.length_cons]
    omega
  · rw [← String.toList_inj, toList_text, String.toList_ofList, String.toList_ofList]

/-! ## Tokens -/

/-- A token can be read as what its kind stands for. -/
structure Readable (t : Token) : Prop where
  ofNumber : t.kind = .number → ∃ n, Number.read? t.text = some n
  ofString : t.kind = .string → Unquotable t.text ∧ ∃ s, t.decode? = some s
  ofReference : t.kind = .reference → 2 ≤ (Path.ofString t.text).length ∧
    (∀ name ∈ Path.ofString t.text, IsName name.toList) ∧ (Path.ofString t.text).text = t.text
  ofVariable : t.kind = .variable → ∃ name, t.text = "$" ++ name ∧ IsName name.toList

theorem readable_lexeme {kind : Kind} {n offset : Nat} (h : lexeme? cs = some (some kind, n)) :
    Readable ⟨kind, String.ofList (cs.take n), offset⟩ := by
  obtain ⟨rfl, hne⟩ := lexeme?_some h
  constructor
  · rintro rfl
    exact exists_read?_numeral hne
  · rintro rfl
    obtain ⟨quote, inner, s, hquote, htake, hs⟩ := exists_literal hne
    change Unquotable (String.ofList (cs.take (literal cs))) ∧
      ∃ s, decode? ⟨.string, String.ofList (cs.take (literal cs)), offset⟩ = some s
    rw [htake]
    have hsize : quote.utf8Size = 1 := by rcases hquote with rfl | rfl <;> rfl
    refine ⟨unquotable_of_quotes hsize inner, String.ofList s, ?_⟩
    rw [decode?, if_pos rfl]
    simp [hs]
  · rintro rfl
    exact split_reference hne
  · rintro rfl
    obtain ⟨name, htake, hname⟩ := exists_variable hne
    refine ⟨String.ofList name, ?_, by simpa using hname⟩
    change String.ofList (cs.take (variableName cs)) = _
    rw [htake, ← String.toList_inj]
    simp

end Token

end Parametric
