import Parametric.Proofs.Formula.Cutting

/-!
# String literals by bytes

A string literal can be cut from the bytes of a text as well: a backslash takes the next byte with
it, and the first byte of a quote that is left closes the literal. Of a longer character the
backslash takes the first byte only, but none of the others is a quote or a backslash
(`exists_utf8EncodeChar`). So the bytes give the literal that the characters give
(`literalBytes_bytes`), and at the offset of a string token they give that token
(`Laid.literalBytes_drop`).
-/

namespace Parametric.Token

/-- The bytes of a text. -/
def bytes (cs : List Char) : List UInt8 := cs.flatMap String.utf8EncodeChar

/-- The byte of a character below 128. -/
def byte (c : Char) : UInt8 := UInt8.ofNat c.toNat

/-- The rest of a string literal up to its quote; a backslash takes the next byte with it. -/
def quotedBytes (quote : UInt8) : List UInt8 → Option Nat
  | [] => none
  | b :: bs =>
    if b = byte '\\' then
      match bs with
      | [] => none
      | _ :: bs => (quotedBytes quote bs).map (· + 2)
    else if b = quote then some 1
    else (quotedBytes quote bs).map (· + 1)

/-- A string literal in single or double quotes, by its bytes. -/
def literalBytes : List UInt8 → Nat
  | b :: bs =>
    if b = byte '"' || b = byte '\'' then ((quotedBytes b bs).map (· + 1)).getD 0 else 0
  | [] => 0

/-! ## Characters -/

theorem toNat_byte {c : Char} (h : c.toNat < 128) : (byte c).toNat = c.toNat := by
  rw [byte, UInt8.toNat_ofNat']
  exact Nat.mod_eq_of_lt (h.trans (by decide))

theorem byte_lt {c : Char} (h : c.toNat < 128) : byte c < 128 := by
  rw [UInt8.lt_iff_toNat_lt, toNat_byte h]
  exact h

theorem byte_inj {c d : Char} (hc : c.toNat < 128) (hd : d.toNat < 128) :
    byte c = byte d ↔ c = d := by
  rw [← UInt8.toNat_inj, toNat_byte hc, toNat_byte hd, Char.toNat_inj]

/-- A character is its own byte below 128, and some bytes from 128 on otherwise. -/
theorem utf8EncodeChar_cases (c : Char) :
    c.toNat < 128 ∧ String.utf8EncodeChar c = [byte c] ∨
      128 ≤ c.toNat ∧ ∀ b ∈ String.utf8EncodeChar c, 128 ≤ b := by
  have hmarked : ∀ m n : Nat, m + n < 256 → 128 ≤ n → (128 : UInt8) ≤ UInt8.ofNat (m + n) := by
    intro m n hlt hle
    rw [UInt8.le_iff_toNat_le, UInt8.toNat_ofNat', Nat.mod_eq_of_lt hlt]
    exact hle.trans (Nat.le_add_left n m)
  have hcode : c.toNat = c.val.toNat := rfl
  fun_cases String.utf8EncodeChar c with
  | case1 v hone => exact .inl ⟨by omega, rfl⟩
  | case2 v hone =>
    refine .inr ⟨by omega, List.forall_mem_cons.2 ⟨hmarked _ _ (by omega) (by omega), ?_⟩⟩
    exact List.forall_mem_singleton.2 (hmarked _ _ (by omega) (by omega))
  | case3 v hone =>
    refine .inr ⟨by omega, List.forall_mem_cons.2 ⟨hmarked _ _ (by omega) (by omega),
      List.forall_mem_cons.2 ⟨hmarked _ _ (by omega) (by omega), ?_⟩⟩⟩
    exact List.forall_mem_singleton.2 (hmarked _ _ (by omega) (by omega))
  | case4 v hone =>
    refine .inr ⟨by omega, List.forall_mem_cons.2 ⟨hmarked _ _ (by omega) (by omega),
      List.forall_mem_cons.2 ⟨hmarked _ _ (by omega) (by omega),
        List.forall_mem_cons.2 ⟨hmarked _ _ (by omega) (by omega), ?_⟩⟩⟩⟩
    exact List.forall_mem_singleton.2 (hmarked _ _ (by omega) (by omega))

/-- The first byte of a character tells it from the characters below 128, and the other bytes are
none of theirs. -/
theorem exists_utf8EncodeChar (c : Char) : ∃ b bs, String.utf8EncodeChar c = b :: bs ∧
    (∀ d : Char, d.toNat < 128 → (b = byte d ↔ c = d)) ∧ ∀ x ∈ bs, 128 ≤ x := by
  rcases utf8EncodeChar_cases c with ⟨hc, hbytes⟩ | ⟨hc, hbytes⟩
  · exact ⟨byte c, [], hbytes, fun d hd => byte_inj hc hd, by simp⟩
  · obtain ⟨b, bs, hcons⟩ := List.exists_cons_of_ne_nil (String.utf8EncodeChar_ne_nil (c := c))
    rw [hcons, List.forall_mem_cons] at hbytes
    refine ⟨b, bs, hcons, fun d hd => iff_of_false ?_ ?_, hbytes.2⟩
    · rintro rfl
      exact absurd (byte_lt hd) (UInt8.not_lt.2 hbytes.1)
    · rintro rfl
      omega

theorem length_of_utf8EncodeChar {c : Char} {b : UInt8} {bs : List UInt8}
    (h : String.utf8EncodeChar c = b :: bs) : bs.length + 1 = c.utf8Size := by
  rw [← String.length_utf8EncodeChar, h, List.length_cons]

theorem bytes_cons (c : Char) (cs : List Char) :
    bytes (c :: cs) = String.utf8EncodeChar c ++ bytes cs := List.flatMap_cons

theorem length_bytes (cs : List Char) : (bytes cs).length = byteLength cs := by
  induction cs with
  | nil => rfl
  | cons c cs ih =>
    rw [bytes_cons, List.length_append, String.length_utf8EncodeChar, ih, byteLength_cons]

theorem bytes_append (cs ds : List Char) : bytes (cs ++ ds) = bytes cs ++ bytes ds :=
  List.flatMap_append

/-! ## The scan -/

theorem quotedBytes_escape (quote b : UInt8) (bs : List UInt8) :
    quotedBytes quote (byte '\\' :: b :: bs) = (quotedBytes quote bs).map (· + 2) := by
  rw [quotedBytes.eq_def]
  rfl

theorem quotedBytes_of_ne {b : UInt8} (hb : b ≠ byte '\\') (quote : UInt8) (bs : List UInt8) :
    quotedBytes quote (b :: bs) =
      if b = quote then some 1 else (quotedBytes quote bs).map (· + 1) := by
  rw [quotedBytes.eq_def]
  exact if_neg hb

section
variable {quote : Char} (hquote : quote.toNat < 128)
include hquote

/-- The later bytes of a character neither escape nor close. -/
theorem quotedBytes_append {bs : List UInt8} (hbs : ∀ b ∈ bs, 128 ≤ b) (rest : List UInt8) :
    quotedBytes (byte quote) (bs ++ rest) =
      (quotedBytes (byte quote) rest).map (· + bs.length) := by
  induction bs with
  | nil => simp
  | cons b bs ih =>
    obtain ⟨hb, hbs⟩ := List.forall_mem_cons.1 hbs
    have hne : ∀ d : Char, d.toNat < 128 → b ≠ byte d := by
      rintro d hd rfl
      exact absurd (byte_lt hd) (UInt8.not_lt.2 hb)
    rw [List.cons_append, quotedBytes_of_ne (hne '\\' (by decide)), if_neg (hne quote hquote),
      ih hbs, Option.map_map, List.length_cons]
    rfl

/-- The bytes close a literal where the characters do. -/
theorem quotedBytes_bytes (hne : quote ≠ '\\') (cs : List Char) :
    quotedBytes (byte quote) (bytes cs) =
      (quoted quote cs).map fun n => byteLength (cs.take n) := by
  fun_induction quoted quote cs with
  | case1 => rfl
  | case2 => rfl
  | case3 c cs ih =>
    obtain ⟨b, bs, hbytes, -, hbs⟩ := exists_utf8EncodeChar c
    have hsize := length_of_utf8EncodeChar hbytes
    have hfront : bytes ('\\' :: c :: cs) = byte '\\' :: b :: (bs ++ bytes cs) := by
      rw [bytes_cons, bytes_cons, hbytes]
      rfl
    rw [hfront, quotedBytes_escape, quotedBytes_append hquote hbs, ih]
    simp only [Option.map_map]
    congr 1
    funext n
    have hone : '\\'.utf8Size = 1 := rfl
    simp only [Function.comp, List.take_succ_cons, byteLength_cons]
    omega
  | case4 cs hnil hcons =>
    obtain ⟨b, bs, hbytes, hfirst, -⟩ := exists_utf8EncodeChar quote
    have hb : b = byte quote := (hfirst quote hquote).2 rfl
    have hsize : quote.utf8Size = 1 := by
      rcases utf8EncodeChar_cases quote with ⟨-, hsingle⟩ | ⟨hge, -⟩
      · rw [← String.length_utf8EncodeChar, hsingle, List.length_singleton]
      · omega
    have hopen : byte quote ≠ byte '\\' := fun h => hne ((byte_inj hquote (by decide)).1 h)
    rw [bytes_cons, hbytes, hb, List.cons_append, quotedBytes_of_ne hopen, if_pos rfl,
      Option.map_some, List.take_succ_cons, List.take_zero, byteLength_cons, hsize]
    rfl
  | case5 c cs hnil hcons hopen ih =>
    obtain ⟨b, bs, hbytes, hfirst, hbs⟩ := exists_utf8EncodeChar c
    have hsize := length_of_utf8EncodeChar hbytes
    have hslash : b ≠ byte '\\' :=
      fun h => ne_backslash hnil hcons ((hfirst '\\' (by decide)).1 h)
    have hclose : b ≠ byte quote := fun h => hopen ((hfirst quote hquote).1 h)
    rw [bytes_cons, hbytes, List.cons_append, quotedBytes_of_ne hslash, if_neg hclose,
      quotedBytes_append hquote hbs, ih]
    simp only [Option.map_map]
    congr 1
    funext n
    simp only [Function.comp, List.take_succ_cons, byteLength_cons]
    omega

end

/-- A text has the literal that its bytes have. -/
theorem literalBytes_bytes (cs : List Char) :
    literalBytes (bytes cs) = byteLength (cs.take (literal cs)) := by
  cases cs with
  | nil => rfl
  | cons c cs =>
    obtain ⟨b, bs, hbytes, hfirst, hbs⟩ := exists_utf8EncodeChar c
    rw [bytes_cons, hbytes, List.cons_append, literalBytes, literal]
    simp only [hfirst '"' (by decide), hfirst '\'' (by decide)]
    split
    next hopen =>
      have hc : c.toNat < 128 ∧ c ≠ '\\' := by
        simp only [Bool.or_eq_true, decide_eq_true_eq] at hopen
        rcases hopen with rfl | rfl <;> decide
      have hb : b = byte c := (hfirst c hc.1).2 rfl
      have hsize := length_of_utf8EncodeChar hbytes
      rw [hb, quotedBytes_append hc.1 hbs, quotedBytes_bytes hc.1 hc.2]
      cases quoted c cs with
      | none => rfl
      | some n =>
        simp only [Option.map_some, Option.getD_some, List.take_succ_cons, byteLength_cons]
        omega
    next => rfl

namespace Laid

variable {offset : Nat} {cs : List Char} {ts : List Token}

/-- At the offset of a string token the bytes have that token. -/
theorem literalBytes_drop (h : Laid 0 cs ts) : ∀ t ∈ ts, t.kind = .string →
    literalBytes ((bytes cs).drop t.offset) = t.text.utf8ByteSize := by
  intro t ht hkind
  obtain ⟨before, after, hslice, hoffset⟩ := h.slices t ht
  obtain ⟨hlength, hne⟩ := lexeme?_some (h.stands t ht [] .nil)
  rw [hkind] at hlength
  change literal (t.text.toList ++ []) = t.text.toList.length at hlength
  have hliteral : literal (t.text.toList ++ after) = t.text.toList.length := by
    rw [literal_append (hlength ▸ hne) hlength.le, hlength]
  rw [hslice, List.append_assoc, bytes_append, hoffset, Nat.zero_add, ← length_bytes,
    List.drop_left, literalBytes_bytes, hliteral, List.take_left, ← byteLength_ofList,
    String.ofList_toList]

end Laid

end Parametric.Token
