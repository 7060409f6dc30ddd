import Parametric.Proofs.Formula.Foresight

/-!
# How a text is cut

A text is laid out in its tokens and the blanks between them (`Token.Laid`): the tokens are slices
of the text that do not overlap, and all else is blank. A token stays what it is when the rest of
the text goes away or a space follows, so a text up to an error is cut, and so are the tokens of a
text when they are written with spaces between them (`ofText_keeps_text`).
-/

namespace Parametric.Token

/-! ## Bytes -/

theorem byteLength_cons (c : Char) (cs : List Char) :
    byteLength (c :: cs) = c.utf8Size + byteLength cs := rfl

theorem byteLength_append (cs ds : List Char) :
    byteLength (cs ++ ds) = byteLength cs + byteLength ds := by
  induction cs with
  | nil => exact (Nat.zero_add _).symm
  | cons c cs ih => rw [List.cons_append, byteLength_cons, byteLength_cons, ih, Nat.add_assoc]

theorem byteLength_ofList (cs : List Char) : (String.ofList cs).utf8ByteSize = byteLength cs := by
  induction cs with
  | nil => rfl
  | cons c cs ih =>
    have hcons : String.ofList (c :: cs) = String.singleton c ++ String.ofList cs := by
      rw [← String.toList_inj]
      simp
    rw [hcons, String.utf8ByteSize_append, ih, byteLength_cons]
    simp

/-- The tokens of a text that starts at an offset. Each of them is the lexeme at its place, and what
is between them are blanks. -/
inductive Laid : Nat → List Char → List Token → Prop
  | nil (offset : Nat) : Laid offset [] []
  | blank {offset : Nat} (front : List Char) {rest : List Char} {ts : List Token}
      (hlexeme : lexeme? (front ++ rest) = some (none, front.length))
      (hrest : Laid (offset + byteLength front) rest ts) : Laid offset (front ++ rest) ts
  | token {offset : Nat} (front : List Char) {rest : List Char} {kind : Kind} {ts : List Token}
      (hlexeme : lexeme? (front ++ rest) = some (some kind, front.length))
      (hrest : Laid (offset + byteLength front) rest ts) :
      Laid offset (front ++ rest) (⟨kind, String.ofList front, offset⟩ :: ts)

theorem Laid.lexeme {offset : Nat} {front rest : List Char} {kind : Option Kind} {ts : List Token}
    (hlexeme : lexeme? (front ++ rest) = some (kind, front.length))
    (hrest : Laid (offset + byteLength front) rest ts) :
    Laid offset (front ++ rest)
      (kind.elim ts fun kind => ⟨kind, String.ofList front, offset⟩ :: ts) := by
  cases kind with
  | none => exact .blank front hlexeme hrest
  | some kind => exact .token front hlexeme hrest

/-- What scanning says of a text: it is laid out in the tokens, or a part of it is that ends before
the character that is found. -/
def Scanned (offset : Nat) (cs : List Char) : Except LexError (List Token) → Prop
  | .ok ts => Laid offset cs ts
  | .error e => ∃ before after ts, cs = before ++ e.found :: after ∧
      e.offset = offset + byteLength before ∧ Laid offset before ts

theorem scanned (fuel offset : Nat) (cs : List Char) (hfuel : cs.length ≤ fuel) :
    Scanned offset cs (scan fuel offset cs) := by
  induction fuel generalizing offset cs with
  | zero =>
    obtain rfl : cs = [] := List.length_eq_zero_iff.1 (Nat.le_zero.1 hfuel)
    exact .nil offset
  | succ fuel ih =>
    cases cs with
    | nil => exact .nil offset
    | cons c cs =>
      rw [scan]
      cases hlexeme : lexeme? (c :: cs) with
      | none => exact ⟨[], cs, [], rfl, rfl, .nil offset⟩
      | some lexeme =>
        obtain ⟨kind, n⟩ := lexeme
        obtain ⟨_, _, _, hlength, hne⟩ := lexeme?_spec hlexeme
        obtain ⟨front, rest, hsplit, hfront⟩ : ∃ front rest, c :: cs = front ++ rest ∧
            front.length = n :=
          ⟨(c :: cs).take n, (c :: cs).drop n, (List.take_append_drop n _).symm,
            List.length_take_of_le (lexeme?_length hlexeme)⟩
        subst hfront
        dsimp only
        rw [hsplit] at hlexeme hfuel ⊢
        rw [List.take_left, List.drop_left]
        rw [List.length_append] at hfuel
        have hrest := ih (offset + byteLength front) rest (by omega)
        cases hscan : scan fuel (offset + byteLength front) rest with
        | ok ts =>
          rw [hscan] at hrest
          have hlaid := Laid.lexeme hlexeme hrest
          cases kind <;> exact hlaid
        | error e =>
          rw [hscan] at hrest
          obtain ⟨before, after, ts, rfl, hoffset, hbefore⟩ := hrest
          rw [← List.append_assoc] at hlexeme
          have hfirst := lexeme?_front hlexeme (by rw [List.length_append]; omega)
          refine ⟨front ++ before, after, _, (List.append_assoc ..).symm, ?_,
            .lexeme hfirst hbefore⟩
          rw [hoffset, byteLength_append, Nat.add_assoc]

namespace Laid

variable {offset : Nat} {cs : List Char} {ts : List Token}

/-- Every token is a slice of the text at its offset. -/
theorem slices (h : Laid offset cs ts) : ∀ t ∈ ts, ∃ before after,
    cs = before ++ t.text.toList ++ after ∧ t.offset = offset + byteLength before := by
  induction h with
  | nil => simp
  | blank front hlexeme hrest ih =>
    intro t ht
    obtain ⟨before, after, rfl, hoffset⟩ := ih t ht
    exact ⟨front ++ before, after, by simp, by rw [hoffset, byteLength_append, Nat.add_assoc]⟩
  | @token offset front rest kind ts hlexeme hrest ih =>
    refine List.forall_mem_cons.2 ⟨⟨[], rest, by simp, rfl⟩, fun t ht => ?_⟩
    obtain ⟨before, after, rfl, hoffset⟩ := ih t ht
    exact ⟨front ++ before, after, by simp, by rw [hoffset, byteLength_append, Nat.add_assoc]⟩

/-- A token is the lexeme at the front of its own text, if a space or nothing follows. -/
theorem stands (h : Laid offset cs ts) : ∀ t ∈ ts, ∀ stop, Ends stop →
    lexeme? (t.text.toList ++ stop) = some (some t.kind, t.text.toList.length) := by
  induction h with
  | nil => simp
  | blank front hlexeme hrest ih => exact ih
  | token front hlexeme hrest ih =>
    refine List.forall_mem_cons.2 ⟨fun stop hstop => ?_, ih⟩
    dsimp only
    rw [String.toList_ofList]
    exact lexeme?_ends hlexeme le_rfl hstop

end Laid

end Parametric.Token
