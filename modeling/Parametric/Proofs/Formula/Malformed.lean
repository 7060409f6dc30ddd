import Parametric.Proofs.Formula.Bytes
import Parametric.Proofs.Formula.Parser
import Parametric.Proofs.Formula.Readable

/-!
# No token is malformed

A parser that reads tokens has to say what it does with one that cannot be read
(`Token.malformed`). Put a trap in the place of that: the grammar is the same, but where an operand
starts with such a token the trap takes over (`Expr.ofSourceTrapped`). The tokens of a text can be
read (`Token.Readable`), each parser leaves tokens of the text, and so no trap is run into and no
error asks for a number or a string literal (`Expr.tokens_readable`).
-/

namespace Parametric

namespace Token

/-- Whether reading a token fails: its text is no number, the quotes cannot be cut off or what they
enclose cannot be decoded, there is no name in a reference, or the dollar sign of a variable cannot
be cut off. -/
def malformed (t : Token) : Bool :=
  match t.kind with
  | .number => (Number.read? t.text).isNone
  | .string => !decide (Unquotable t.text) || t.decode?.isNone
  | .reference => (Path.ofString t.text).isEmpty
  | .variable => !decide ((⟨1⟩ : String.Pos.Raw).IsValid t.text)
  | _ => false

theorem Readable.malformed_eq_false {t : Token} (h : t.Readable) : t.malformed = false := by
  unfold malformed
  split
  next hkind =>
    obtain ⟨n, hn⟩ := h.ofNumber hkind
    rw [hn, Option.isNone_some]
  next hkind =>
    obtain ⟨hquotes, s, hs⟩ := h.ofString hkind
    rw [hs, decide_eq_true hquotes]
    rfl
  next hkind =>
    have hlength := (h.ofReference hkind).1
    exact List.isEmpty_eq_false_iff.2 (List.ne_nil_of_length_pos (by omega))
  next hkind =>
    obtain ⟨name, htext, -⟩ := h.ofVariable hkind
    have hvalid : (⟨1⟩ : String.Pos.Raw).IsValid t.text :=
      String.Pos.Raw.isValid_iff_exists_append.2 ⟨"$", name, htext, rfl⟩
    rw [decide_eq_true hvalid]
    rfl
  next => rfl

end Token

namespace Parser

/-! ## Traps -/

/-- The parser `p`, and `trap` in its place where a malformed token comes first. -/
def trapped (trap p : Parse Expr) : Parse Expr
  | [] => p []
  | t :: ts => if t.malformed then trap (t :: ts) else p (t :: ts)

/-- A level with a trap at the operands. -/
def Level.trapped (trap : Parse Expr) (l : Level) : Level :=
  { l with signed := Parser.trapped trap l.signed }

/-- The level with `n` levels below it, each with a trap. -/
def Level.ofDepthTrapped (trap : Parse Expr) (stop : End) : Nat → Level
  | 0 => (Level.bottom stop).trapped trap
  | n + 1 => ((Level.ofDepthTrapped trap stop n).above stop).trapped trap

end Parser

namespace Expr

open Parametric.Parser

/-- Parse all tokens as one expression, with a trap at malformed tokens. -/
def ofTokensTrapped (trap : Parse Expr) (tokens : List Token) (stop : Nat) :
    Except ParseError Expr := do
  let (e, rest) ← (Level.ofDepthTrapped trap stop maxNesting).expression tokens
  match rest with
  | [] => return e
  | _ :: _ => (·.1) <$> refuse stop .endOfInput rest

/-- Parse a text, with a trap at malformed tokens. -/
def ofSourceTrapped (trap : Parse Expr) (source : String) : Except CompileError Expr :=
  match Token.ofText source with
  | .error e => .error (.lex e)
  | .ok tokens =>
    match ofTokensTrapped trap tokens source.utf8ByteSize with
    | .error e => .error (.parse e)
    | .ok e => .ok e

end Expr

namespace Parser

/-! ## Outcomes -/

def WellFormed (ts : List Token) : Prop := ∀ t ∈ ts, t.malformed = false

/-- An error that is not about a token that cannot be read. -/
def Regular (e : ParseError) : Prop := e.wanted ≠ .number ∧ e.wanted ≠ .stringLiteral

variable {α β : Type}

/-- What a parser does without running into a malformed token: it leaves tokens that are
well-formed, or fails for another reason. -/
def Handled : Except ParseError (α × List Token) → Prop
  | .ok (_, rest) => WellFormed rest
  | .error e => Regular e

/-- An outcome that is handled and the same with and without a trap. -/
def Agree (r r' : Except ParseError (α × List Token)) : Prop := r = r' ∧ Handled r'

/-- Parsers that agree on well-formed tokens. -/
def Alike (p q : Parse α) : Prop := ∀ ts, WellFormed ts → Agree (p ts) (q ts)

theorem Agree.ok {ts : List Token} (hts : WellFormed ts) (a : α) :
    Agree (.ok (a, ts)) (.ok (a, ts)) := ⟨rfl, hts⟩

theorem Agree.bind {r r' : Except ParseError (α × List Token)}
    {k k' : α × List Token → Except ParseError (β × List Token)} (hr : Agree r r')
    (hk : ∀ a ts, WellFormed ts → Agree (k (a, ts)) (k' (a, ts))) :
    Agree (r >>= k) (r' >>= k') := by
  obtain ⟨rfl, hhandled⟩ := hr
  cases r with
  | error e => exact ⟨rfl, hhandled⟩
  | ok r => exact hk r.1 r.2 hhandled

variable {stop : End} {expression expression' deeper deeper' next next' : Parse Expr}

theorem alike_refuse (wanted : Wanted) (hnumber : wanted ≠ .number)
    (hstring : wanted ≠ .stringLiteral) :
    Alike (refuse stop wanted : Parse α) (refuse stop wanted) := by
  rintro (_ | ⟨t, ts⟩) - <;> exact ⟨rfl, hnumber, hstring⟩

theorem alike_expect (symbol : String) : Alike (expect stop symbol) (expect stop symbol) := by
  intro ts hts
  unfold expect
  split
  next heat => exact .ok (eat?_spec heat hts) ()
  next => exact alike_refuse (.symbol symbol) nofun nofun ts hts

theorem alike_furtherArguments (hexpression : Alike expression expression') (fuel : Nat) :
    Alike (furtherArguments stop expression fuel) (furtherArguments stop expression' fuel) := by
  induction fuel with
  | zero => exact alike_refuse _ nofun nofun
  | succ fuel ih =>
    intro ts hts
    rw [furtherArguments, furtherArguments]
    split
    next heat => exact .ok (eat?_spec heat hts) []
    next =>
      exact (alike_expect "," ts hts).bind fun _ ts₁ h₁ => (hexpression ts₁ h₁).bind
        fun arg ts₂ h₂ => (ih ts₂ h₂).bind fun args ts₃ h₃ => .ok h₃ (arg :: args)

theorem alike_arguments (hexpression : Alike expression expression') :
    Alike (arguments stop expression) (arguments stop expression') := by
  intro ts hts
  unfold arguments
  split
  next heat => exact .ok (eat?_spec heat hts) []
  next =>
    exact (hexpression ts hts).bind fun arg ts₁ h₁ =>
      (alike_furtherArguments hexpression _ ts₁ h₁).bind fun args ts₂ h₂ => .ok h₂ (arg :: args)

theorem alike_named (hexpression : Alike expression expression') (t : Token) :
    Alike (named stop expression t) (named stop expression' t) := by
  intro ts hts
  unfold named
  split
  next heat =>
    exact (alike_arguments hexpression _ (eat?_spec heat hts)).bind fun args ts₁ h₁ =>
      .ok h₁ (Expr.call t.text args)
  next =>
    split
    · exact .ok hts _
    · split
      · exact .ok hts _
      · exact ⟨rfl, nofun, nofun⟩

/-- An operand that starts with a token that can be read asks for no other one in its place. -/
theorem alike_operand (hexpression : Alike expression expression') :
    Alike (operand stop expression) (operand stop expression') := by
  intro ts hts
  cases ts with
  | nil => exact ⟨rfl, nofun, nofun⟩
  | cons t ts =>
    obtain ⟨ht, hts'⟩ := List.forall_mem_cons.1 hts
    have hrefuse : Alike (refuse stop .expression : Parse Expr) (refuse stop .expression) :=
      alike_refuse _ nofun nofun
    rw [operand, operand]
    cases hkind : t.kind with
    | number =>
      cases hread : Number.read? t.text with
      | none => simp [Token.malformed, hkind, hread] at ht
      | some n => exact .ok hts' _
    | string =>
      cases hread : t.decode? with
      | none => simp [Token.malformed, hkind, hread] at ht
      | some s => exact .ok hts' _
    | «variable» | reference => exact .ok hts' _
    | identifier => exact alike_named hexpression t ts hts'
    | operator => exact hrefuse (t :: ts) hts
    | punctuation =>
      dsimp only
      split
      · exact (hexpression ts hts').bind fun e ts₁ h₁ => (alike_expect ")" ts₁ h₁).bind
          fun _ ts₂ h₂ => .ok h₂ e
      · exact hrefuse (t :: ts) hts

theorem alike_signed (hdeeper : Alike deeper deeper') (hexpression : Alike expression expression') :
    Alike (signed stop deeper expression) (signed stop deeper' expression') := by
  intro ts hts
  unfold signed
  split
  next heat => exact (hdeeper _ (eat?_spec heat hts)).bind fun e ts₁ h₁ => .ok h₁ _
  next =>
    split
    next heat => exact (hdeeper _ (eat?_spec heat hts)).bind fun e ts₁ h₁ => .ok h₁ _
    next => exact alike_operand hexpression ts hts

theorem alike_chainFrom (group : List BinaryOp) (hnext : Alike next next') (fuel : Nat)
    (left : Expr) : Alike (chainFrom group next fuel left) (chainFrom group next' fuel left) := by
  induction fuel generalizing left with
  | zero => exact fun ts hts => .ok hts left
  | succ fuel ih =>
    intro ts hts
    rw [chainFrom, chainFrom]
    split
    next => exact .ok hts left
    next op ts₁ hop => exact (hnext ts₁ (operator?_spec hop hts)).bind fun right => ih _

theorem alike_operators (hnext : Alike next next') : Alike (operators next) (operators next') := by
  unfold operators
  induction groups generalizing next next' with
  | nil => exact hnext
  | cons group groups ih =>
    exact ih fun ts hts => (hnext ts hts).bind fun left ts₁ =>
      alike_chainFrom group hnext _ left ts₁

theorem alike_choice (hexpression : Alike expression expression') (hnext : Alike next next') :
    Alike (choice stop expression next) (choice stop expression' next') := by
  intro ts hts
  refine (alike_operators hnext ts hts).bind fun c ts₁ h₁ => ?_
  dsimp only
  split
  next => exact .ok h₁ c
  next ts₂ heat =>
    exact (hexpression ts₂ (eat?_spec heat h₁)).bind fun t ts₃ h₃ => (alike_expect ":" ts₃ h₃).bind
      fun _ ts₄ h₄ => (hexpression ts₄ h₄).bind fun e ts₅ h₅ => .ok h₅ _

/-- A trap is not run into while the tokens are well-formed. -/
theorem alike_trapped (trap : Parse Expr) (h : Alike next next') :
    Alike (trapped trap next) next' := by
  intro ts hts
  cases ts with
  | nil => exact h [] hts
  | cons t ts =>
    rw [trapped, (List.forall_mem_cons.1 hts).1]
    exact h (t :: ts) hts

/-- The levels agree with and without traps, from the bottom. -/
theorem alike_ofDepth (trap : Parse Expr) (stop : End) (n : Nat) :
    Alike (Level.ofDepthTrapped trap stop n).expression (Level.ofDepth stop n).expression ∧
      Alike (Level.ofDepthTrapped trap stop n).signed (Level.ofDepth stop n).signed := by
  induction n with
  | zero =>
    have hnone : Alike (refuse stop .shallower : Parse Expr) (refuse stop .shallower) :=
      alike_refuse _ nofun nofun
    exact ⟨hnone, alike_trapped trap (alike_signed hnone hnone)⟩
  | succ n ih =>
    have hexpression : Alike (Level.ofDepthTrapped trap stop (n + 1)).expression
        (Level.ofDepth stop (n + 1)).expression := alike_choice ih.1 ih.2
    exact ⟨hexpression, alike_trapped trap (alike_signed ih.2 hexpression)⟩

end Parser

namespace Expr

open Parametric.Parser

theorem ofTokensTrapped_eq (trap : Parse Expr) {tokens : List Token} (htokens : WellFormed tokens)
    (stop : Nat) : ofTokensTrapped trap tokens stop = ofTokens tokens stop ∧
      ∀ e, ofTokens tokens stop = .error e → Regular e := by
  obtain ⟨heq, hhandled⟩ := (alike_ofDepth trap stop maxNesting).1 tokens htokens
  rw [ofTokensTrapped, ofTokens, heq]
  refine ⟨rfl, fun e he => ?_⟩
  cases hparse : (Level.ofDepth stop maxNesting).expression tokens with
  | error e' =>
    rw [hparse] at he hhandled
    cases he
    exact hhandled
  | ok parsed =>
    obtain ⟨e', rest⟩ := parsed
    rw [hparse] at he
    cases rest with
    | nil => cases he
    | cons t rest =>
      cases he
      exact ⟨nofun, nofun⟩

/-- Every token of a text can be read, and is the literal that the bytes of the text have there if
it is a string. So no malformed token is ever parsed: whatever is put in the place of that, a text
is parsed as it is, and when that fails no number and no string literal is asked for. -/
theorem tokens_readable {source : String} {tokens : List Token}
    (h : Token.ofText source = .ok tokens) :
    (∀ t ∈ tokens, t.Readable) ∧
    (∀ t ∈ tokens, t.kind = .string →
      Token.literalBytes ((Token.bytes source.toList).drop t.offset) = t.text.utf8ByteSize) ∧
    (∀ trap, ofSourceTrapped trap source = ofSource source) ∧
    ∀ e, ofSource source = .error (.parse e) → e.wanted ≠ .number ∧ e.wanted ≠ .stringLiteral := by
  have hreadable : ∀ t ∈ tokens, t.Readable := Token.forall_of_scan Token.readable_lexeme h
  have hlaid : Token.Laid 0 source.toList tokens := by
    have hscanned := Token.scanned source.toList.length 0 source.toList le_rfl
    rwa [show Token.scan source.toList.length 0 source.toList = .ok tokens from h] at hscanned
  have hwell : WellFormed tokens := fun t ht => (hreadable t ht).malformed_eq_false
  refine ⟨hreadable, hlaid.literalBytes_drop, fun trap => ?_, fun e he => ?_⟩
  · have hparse := (ofTokensTrapped_eq trap hwell source.utf8ByteSize).1
    unfold ofSourceTrapped ofSource
    rw [h]
    dsimp only
    generalize ofTokensTrapped trap tokens source.utf8ByteSize = result at hparse ⊢
    subst hparse
    rfl
  · unfold ofSource at he
    rw [h] at he
    dsimp only at he
    split at he
    next e' hparse =>
      cases he
      exact (ofTokensTrapped_eq (refuse 0 .expression) hwell _).2 e hparse
    next => cases he

/-- Backslashes before a longer character and before each other, a number without a digit before its
point, and a sign at the end. -/
theorem escapes_readable :
    Token.ofText "'\\é\\\\' + .5e+3 * a.b.c / $x -" = .ok
      [⟨.string, "'\\é\\\\'", 0⟩, ⟨.operator, "+", 8⟩, ⟨.number, ".5e+3", 10⟩,
        ⟨.operator, "*", 16⟩, ⟨.reference, "a.b.c", 18⟩, ⟨.operator, "/", 24⟩,
        ⟨.variable, "$x", 26⟩, ⟨.operator, "-", 29⟩] ∧
    Token.Readable ⟨.string, "'\\é\\\\'", 0⟩ ∧ Token.Readable ⟨.number, ".5e+3", 10⟩ ∧
    Token.Readable ⟨.reference, "a.b.c", 18⟩ ∧ Token.Readable ⟨.variable, "$x", 26⟩ ∧
    Token.literalBytes (Token.bytes "'\\é\\\\' + .5e+3 * a.b.c / $x -".toList) = 7 ∧
    ∃ e, ofSourceTrapped (refuse 0 .number) "'\\é\\\\' + .5e+3 * a.b.c / $x -" = .error (.parse e) ∧
      e.wanted ≠ .number ∧ e.wanted ≠ .stringLiteral := by
  have h : Token.ofText "'\\é\\\\' + .5e+3 * a.b.c / $x -" = .ok
      [⟨.string, "'\\é\\\\'", 0⟩, ⟨.operator, "+", 8⟩, ⟨.number, ".5e+3", 10⟩,
        ⟨.operator, "*", 16⟩, ⟨.reference, "a.b.c", 18⟩, ⟨.operator, "/", 24⟩,
        ⟨.variable, "$x", 26⟩, ⟨.operator, "-", 29⟩] := by decide +kernel
  obtain ⟨e, he⟩ : ∃ e, ofSource "'\\é\\\\' + .5e+3 * a.b.c / $x -" = .error (.parse e) := by
    have hfails : (match ofSource "'\\é\\\\' + .5e+3 * a.b.c / $x -" with
      | .error (.parse _) => true
      | _ => false) = true := by decide +kernel
    split at hfails
    next e he => exact ⟨e, he⟩
    next => cases hfails
  obtain ⟨hreadable, hbytes, htrap, hwanted⟩ := tokens_readable h
  exact ⟨h, hreadable _ (by simp), hreadable _ (by simp), hreadable _ (by simp),
    hreadable _ (by simp), hbytes ⟨.string, "'\\é\\\\'", 0⟩ (by simp) rfl, e,
    (htrap _).trans he, hwanted e he⟩

end Expr

end Parametric
