import Parametric.Proofs.Formula.Parser

/-!
# The words of a printed expression

How a text is cut is a relation between characters and words (`Token.Cuts`), which is built lexeme
by lexeme and which `scan` follows (`scan_of_cuts`). The text of a lexical tree is cut into the
words that the tree prints (`Expr.ofText_text`): nothing runs together, since every word that could
go on is before a blank, a parenthesis or a comma.
-/

namespace Parametric

namespace Token

/-! ## Cutting a text -/

/-- A lexeme without its place. -/
abbrev Word := Kind × String

def word (t : Token) : Word := (t.kind, t.text)

/-- How characters are cut into words, with blanks between them. -/
inductive Cuts : List Char → List Word → Prop
  | nil : Cuts [] []
  | blank (front : List Char) {rest : List Char} {words : List Word}
      (hlexeme : lexeme? (front ++ rest) = some (none, front.length)) (hrest : Cuts rest words) :
      Cuts (front ++ rest) words
  | word (s : String) {rest : List Char} {kind : Kind} {words : List Word}
      (hlexeme : lexeme? (s.toList ++ rest) = some (some kind, s.toList.length))
      (hrest : Cuts rest words) : Cuts (s.toList ++ rest) ((kind, s) :: words)

/-- A text is cut into tokens with these words, wherever it stands. -/
def CutInto (cs : List Char) (words : List Word) : Prop :=
  ∀ fuel offset, cs.length ≤ fuel → ∃ ts, scan fuel offset cs = .ok ts ∧ ts.map Token.word = words

theorem cutInto_step {front rest : List Char} {kind : Option Kind} {words : List Word}
    (hlexeme : lexeme? (front ++ rest) = some (kind, front.length)) (hrest : CutInto rest words) :
    CutInto (front ++ rest) (kind.elim words fun kind => (kind, String.ofList front) :: words) := by
  intro fuel offset hfuel
  obtain ⟨_, _, _, hlength, hne⟩ := lexeme?_spec hlexeme
  rw [hlength] at hne
  obtain ⟨c, front, rfl⟩ := List.exists_cons_of_length_pos (Nat.pos_of_ne_zero hne)
  rw [List.length_append, List.length_cons] at hfuel
  obtain ⟨less, rfl⟩ : ∃ less, fuel = less + 1 := ⟨fuel - 1, by omega⟩
  obtain ⟨ts, hscan, hts⟩ := hrest less (offset + byteLength (c :: front)) (by omega)
  refine ⟨kind.elim ts fun kind => ⟨kind, String.ofList (c :: front), offset⟩ :: ts, ?_, ?_⟩
  · rw [List.cons_append] at hlexeme ⊢
    rw [scan, hlexeme]
    dsimp only
    rw [← List.cons_append, List.take_left, List.drop_left, hscan]
    cases kind <;> rfl
  · cases kind <;> simp [Token.word, hts]

theorem scan_of_cuts {cs : List Char} {words : List Word} (h : Cuts cs words) :
    CutInto cs words := by
  induction h with
  | nil =>
    intro fuel offset _
    exact ⟨[], by cases fuel <;> rfl, rfl⟩
  | blank _ hlexeme _ ih => exact cutInto_step hlexeme ih
  | word _ hlexeme _ ih => simpa using cutInto_step hlexeme ih

theorem ofText_of_cuts {text : String} {words : List Word}
    (h : Cuts text.toList words) : ∃ ts, ofText text = .ok ts ∧ ts.map Token.word = words :=
  scan_of_cuts h _ _ (Nat.le_refl _)

theorem lexeme?_of_blanks (h : blanks cs ≠ 0) : lexeme? cs = some (none, blanks cs) :=
  lexeme?_of_classes [] rfl (by simp) h

theorem blanks_of_lexeme? {kind : Option Kind} {n : Nat} (h : lexeme? cs = some (kind, n)) :
    blanks cs = kind.elim n fun _ => 0 := by
  by_cases hblanks : blanks cs = 0
  · cases kind with
    | some kind => exact hblanks
    | none =>
      obtain ⟨c, hc, hkind, hlength, hne⟩ := lexeme?_spec h
      simp only [classes, List.mem_cons, List.not_mem_nil, or_false] at hc
      obtain rfl | rfl | rfl | rfl | rfl | rfl | rfl | rfl := hc <;> cases hkind
      exact hlength
  · rw [lexeme?_of_blanks hblanks] at h
    cases h
    rfl

/-- A blank before a text changes none of its words. -/
theorem Cuts.space {rest : List Char} {words : List Word} (h : Cuts rest words) :
    Cuts (' ' :: rest) words := by
  have hblanks : blanks (' ' :: rest) = blanks rest + 1 := rfl
  have hlexeme : lexeme? (' ' :: rest) = some (none, blanks rest + 1) :=
    lexeme?_of_blanks (by rw [hblanks]; omega)
  cases h with
  | nil => exact .blank [' '] hlexeme .nil
  | blank front hfront hrest =>
    rw [blanks_of_lexeme? hfront] at hlexeme
    exact .blank (' ' :: front) hlexeme hrest
  | word s hfront hrest =>
    rw [blanks_of_lexeme? hfront] at hlexeme
    exact .blank [' '] hlexeme (.word s hfront hrest)

end Token

namespace Expr

open Token

/-! ## Words of a tree -/

mutual

/-- The words that a lexical tree prints. -/
def lexemes : Expr → List Word
  | literal (.number n) => [(if n.Finite then .number else .identifier, n.text)]
  | literal (.string s) => [(.string, literalText s)]
  | literal (.bool b) => [(.identifier, Value.text (.bool b))]
  | var name => [(.variable, "$" ++ name)]
  | reference object path => [(.reference, object ++ "." ++ path.text)]
  | call function [] => [(.identifier, function), (.punctuation, "("), (.punctuation, ")")]
  | call function (arg :: args) =>
    (.identifier, function) :: (.punctuation, "(") ::
      (lexemes arg ++ (lexemesOfRest args ++ [(.punctuation, ")")]))
  | binary op left right =>
    (.punctuation, "(") :: (lexemes left ++ (.operator, op.symbol) ::
      (lexemes right ++ [(.punctuation, ")")]))
  | unary op operand =>
    (.operator, op.symbol) :: (.punctuation, "(") :: (lexemes operand ++ [(.punctuation, ")")])
  | conditional c t e =>
    (.punctuation, "(") :: (lexemes c ++ (.punctuation, "?") ::
      (lexemes t ++ (.punctuation, ":") :: (lexemes e ++ [(.punctuation, ")")])))

/-- The words of arguments with a comma before each. -/
def lexemesOfRest : List Expr → List Word
  | [] => []
  | e :: es => (.punctuation, ",") :: (lexemes e ++ lexemesOfRest es)

end

end Expr

namespace Token

/-! ## Marks and operators -/

variable {rest : List Char} {words : List Word}

theorem delimited_cons {c : Char} (hc : c ∈ [' ', '(', ')', ',']) : Delimited (c :: rest) := by
  intro d hd
  cases hd
  exact hc

theorem lexeme?_mark {s : String} (hs : s ∈ marks) :
    lexeme? (s.toList ++ rest) = some (some .punctuation, s.toList.length) := by
  simp only [marks, List.mem_cons, List.not_mem_nil, or_false] at hs
  obtain rfl | rfl | rfl | rfl | rfl := hs <;> rfl

/-- An operator ends at the blank after it. -/
theorem lexeme?_binary (op : BinaryOp) :
    lexeme? (op.symbol.toList ++ ' ' :: rest) = some (some .operator, op.symbol.toList.length) := by
  cases op <;> rfl

theorem lexeme?_unary (op : UnaryOp) :
    lexeme? (op.symbol.toList ++ '(' :: rest) = some (some .operator, op.symbol.toList.length) := by
  cases op <;> rfl

theorem Cuts.mark {s : String} (hs : s ∈ marks) (h : Cuts rest words) :
    Cuts (s.toList ++ rest) ((.punctuation, s) :: words) :=
  .word s (lexeme?_mark hs) h

theorem Cuts.opening (h : Cuts rest words) : Cuts ('(' :: rest) ((.punctuation, "(") :: words) :=
  mark (s := "(") (by decide) h

theorem Cuts.closing (h : Cuts rest words) : Cuts (')' :: rest) ((.punctuation, ")") :: words) :=
  mark (s := ")") (by decide) h

end Token

namespace Expr

open Token

/-! ## Cutting the printed text -/

theorem cuts_number {n : Number} (h : n.Unsigned) {rest : List Char} {words : List Word}
    (hrest : Delimited rest) (hcuts : Cuts rest words) :
    Cuts (n.text.toList ++ rest)
      ((if n.Finite then .number else .identifier, n.text) :: words) := by
  refine .word _ ?_ hcuts
  by_cases hfinite : n.Finite
  · obtain ⟨whole, fraction, htext, hne, hwhole, hfraction, -⟩ := h.text_spec hfinite
    rw [if_pos hfinite, htext]
    exact lexeme?_numeral hne hwhole hfraction hrest
  · rw [if_neg hfinite, h.text_of_not_finite hfinite]
    exact lexeme?_name (by decide) hrest

theorem cuts_literal {v : Value} (h : IsLexical (.literal v)) {rest : List Char}
    {words : List Word} (hrest : Delimited rest) (hcuts : Cuts rest words) :
    Cuts ((text (.literal v)).toList ++ rest) (lexemes (.literal v) ++ words) := by
  cases v with
  | number n =>
    have hsign : n.isNegative = false := Number.Unsigned.isNegative h
    rw [text, valueText, hsign, if_neg Bool.false_ne_true]
    exact cuts_number h hrest hcuts
  | string s => exact .word _ (lexeme?_literalText s rest) hcuts
  | bool b =>
    refine .word _ ?_ hcuts
    cases b
    · exact lexeme?_name (by decide) hrest
    · exact lexeme?_name (by decide) hrest

/-- Arguments with a comma and a blank before each. -/
def textOfRest (args : List Expr) : List Char := args.flatMap fun e => ',' :: ' ' :: e.text.toList

theorem intercalate_texts (arg : Expr) (args : List Expr) :
    [',', ' '].intercalate ((texts (arg :: args)).map String.toList) =
      arg.text.toList ++ textOfRest args := by
  induction args generalizing arg with
  | nil => simp [texts, textOfRest]
  | cons next args ih =>
    have hnext := ih next
    simp only [texts, List.map_cons] at hnext ⊢
    rw [List.intercalate_cons_cons, hnext]
    simp [textOfRest]

mutual

/-- A lexical tree prints its words, whatever is printed after it. -/
theorem cuts_text : ∀ {e : Expr}, e.Lexical → ∀ {rest : List Char} {words : List Word},
    Delimited rest → Cuts rest words → Cuts (e.text.toList ++ rest) (e.lexemes ++ words)
  | .literal v, h, rest, words, hrest, hcuts => cuts_literal (all_literal.1 h) hrest hcuts
  | .var name, h, rest, words, hrest, hcuts => by
    have hword := lexeme?_variable (all_var.1 h) hrest
    refine .word _ ?_ hcuts
    simpa [text] using hword
  | .reference object path, h, rest, words, hrest, hcuts => by
    obtain ⟨hobject, hne, hpath⟩ := all_reference.1 h
    have hword := lexeme?_reference hobject hne hpath hrest
    rw [← toList_reference object hne] at hword
    exact .word _ hword hcuts
  | .call function [], h, rest, words, hrest, hcuts => by
    have hname := (all_call.1 h).1
    have hopen := hcuts.closing.opening
    have hword := Cuts.word _ (lexeme?_name hname (delimited_cons (by decide))) hopen
    simpa [text, texts, lexemes] using hword
  | .call function (arg :: args), h, rest, words, hrest, hcuts => by
    obtain ⟨hname, hargs⟩ := all_call.1 h
    obtain ⟨harg, hargs⟩ := List.forall_mem_cons.1 hargs
    obtain ⟨hstop, hmore⟩ := cuts_textOfRest hargs (delimited_cons (by decide)) hcuts.closing
    have hopen := (cuts_text harg hstop hmore).opening
    have hword := Cuts.word _ (lexeme?_name hname (delimited_cons (by decide))) hopen
    simpa [text, intercalate_texts, lexemes] using hword
  | .binary op l r, h, rest, words, hrest, hcuts => by
    obtain ⟨-, hl, hr⟩ := all_binary.1 h
    have hright := (cuts_text hr (delimited_cons (by decide)) hcuts.closing).space
    have hop := (Cuts.word _ (lexeme?_binary op) hright).space
    have hopen := (cuts_text hl (delimited_cons (by decide)) hop).opening
    simpa [text, lexemes] using hopen
  | .unary op x, h, rest, words, hrest, hcuts => by
    obtain ⟨-, hx⟩ := all_unary.1 h
    have hopen := (cuts_text hx (delimited_cons (by decide)) hcuts.closing).opening
    have hop := Cuts.word _ (lexeme?_unary op) hopen
    simpa [text, lexemes] using hop
  | .conditional c t e, h, rest, words, hrest, hcuts => by
    obtain ⟨-, hc, ht, he⟩ := all_conditional.1 h
    have helse := (cuts_text he (delimited_cons (by decide)) hcuts.closing).space
    have hcolon := (Cuts.mark (s := ":") (by decide) helse).space
    have hthen := (cuts_text ht (delimited_cons (by decide)) hcolon).space
    have hquestion := (Cuts.mark (s := "?") (by decide) hthen).space
    have hopen := (cuts_text hc (delimited_cons (by decide)) hquestion).opening
    simpa [text, lexemes] using hopen

theorem cuts_textOfRest : ∀ {es : List Expr}, (∀ e ∈ es, e.Lexical) →
    ∀ {rest : List Char} {words : List Word}, Delimited rest → Cuts rest words →
      Delimited (textOfRest es ++ rest) ∧
        Cuts (textOfRest es ++ rest) (lexemesOfRest es ++ words)
  | [], h, rest, words, hrest, hcuts => ⟨hrest, hcuts⟩
  | e :: es, h, rest, words, hrest, hcuts => by
    obtain ⟨he, hes⟩ := List.forall_mem_cons.1 h
    obtain ⟨hstop, hmore⟩ := cuts_textOfRest hes hrest hcuts
    have hcomma := Cuts.mark (s := ",") (by decide) (cuts_text he hstop hmore).space
    refine ⟨delimited_cons (by decide), ?_⟩
    simpa [textOfRest, lexemesOfRest] using hcomma

end

/-- The text of a lexical tree is cut into the words that the tree prints. -/
theorem ofText_text {e : Expr} (h : e.Lexical) :
    ∃ ts, Token.ofText e.text = .ok ts ∧ ts.map Token.word = e.lexemes := by
  have hcuts : Cuts (e.text.toList ++ []) (e.lexemes ++ []) :=
    cuts_text h (by simp [Delimited]) .nil
  rw [List.append_nil, List.append_nil] at hcuts
  exact ofText_of_cuts hcuts

end Expr

end Parametric
