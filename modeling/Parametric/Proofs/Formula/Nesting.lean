import Parametric.Proofs.Formula.Printing

/-!
# How deep a printed expression nests

The text of a tree nests by its operators, since each is printed in parentheses, by its signs and by
its calls (`Expr.need`). The parser of a level reads a printed tree back if that many levels are
left and its numbers are finite, and fails otherwise (`Parser.Verdict`); so a lexical tree with
finite numbers is read back exactly within the nesting limit (`Expr.ofSource_text_eq_iff_need`).
-/

namespace Parametric

namespace Expr

mutual

/-- The levels of nesting below the first one that the text of an expression needs. -/
def need : Expr → Nat
  | literal _ => 0
  | var _ => 0
  | reference _ _ => 0
  | call _ [] => 0
  | call _ (arg :: args) => 1 + max (need arg) (needOfAll args)
  | binary _ left right => 1 + max (need left) (need right)
  | unary _ operand => 2 + need operand
  | conditional c t e => max (1 + need c) (2 + max (need t) (need e))

def needOfAll : List Expr → Nat
  | [] => 0
  | e :: es => max (need e) (needOfAll es)

end

theorem needOfAll_le {es : List Expr} {n : Nat} : needOfAll es ≤ n ↔ ∀ e ∈ es, e.need ≤ n := by
  induction es with
  | nil => simp [needOfAll]
  | cons e es ih => simp [needOfAll, ih]

theorem finite_literal {v : Value} : (literal v).Finite ↔ (literal v).IsFinite := all_literal

theorem finite_call {function : String} {args : List Expr} :
    (call function args).Finite ↔ ∀ e ∈ args, e.Finite :=
  all_call.trans (and_iff_right trivial)

theorem finite_binary {op : BinaryOp} {l r : Expr} :
    (binary op l r).Finite ↔ l.Finite ∧ r.Finite :=
  all_binary.trans (and_iff_right trivial)

theorem finite_unary {op : UnaryOp} {x : Expr} : (unary op x).Finite ↔ x.Finite :=
  all_unary.trans (and_iff_right trivial)

theorem finite_conditional {c t e : Expr} :
    (conditional c t e).Finite ↔ c.Finite ∧ t.Finite ∧ e.Finite :=
  all_conditional.trans (and_iff_right trivial)

end Expr

namespace Parser

/-! ## Runs that end as they must -/

/-- A run gives `a` if there are levels enough for it and its numbers are finite, and fails
otherwise, for want of levels if the numbers are finite. -/
structure Verdict {α : Type} (r : Except ParseError α) (fits finite : Prop) (a : α) : Prop where
  ok : fits → finite → r = .ok a
  error : ¬(fits ∧ finite) → ∃ e, r = .error e ∧ (finite → e.wanted = .shallower)

variable {α β : Type} {fits fits' finite finite' : Prop} {a : α} {b : β}

theorem Verdict.pure : Verdict (.ok a) True True a :=
  ⟨fun _ _ => rfl, fun h => absurd ⟨trivial, trivial⟩ h⟩

theorem Verdict.bind {r : Except ParseError α} {k : α → Except ParseError β}
    (hr : Verdict r fits finite a) (hk : Verdict (k a) fits' finite' b) :
    Verdict (r >>= k) (fits ∧ fits') (finite ∧ finite') b := by
  refine ⟨fun hfits hfinite => ?_, fun hnot => ?_⟩
  · rw [hr.ok hfits.1 hfinite.1]
    exact hk.ok hfits.2 hfinite.2
  · by_cases h : fits ∧ finite
    · obtain ⟨e, herror, hwanted⟩ := hk.error fun h' => hnot ⟨⟨h.1, h'.1⟩, h.2, h'.2⟩
      rw [hr.ok h.1 h.2]
      exact ⟨e, herror, fun hfinite => hwanted hfinite.2⟩
    · obtain ⟨e, herror, hwanted⟩ := hr.error h
      rw [herror]
      exact ⟨e, rfl, fun hfinite => hwanted hfinite.1⟩

theorem Verdict.congr {r : Except ParseError α} (h : Verdict r fits finite a)
    (hfits : fits ↔ fits') (hfinite : finite ↔ finite') : Verdict r fits' finite' a := by
  rwa [← propext hfits, ← propext hfinite]

/-- What follows a run that always succeeds decides alone. -/
theorem Verdict.after {r : Except ParseError α} {k : α → Except ParseError β} (hr : r = .ok a)
    (hk : Verdict (k a) fits finite b) : Verdict (r >>= k) fits finite b := by
  rw [hr]
  exact hk

/-- What always succeeds after a run leaves its verdict. -/
theorem Verdict.map {r : Except ParseError α} {k : α → Except ParseError β}
    (hr : Verdict r fits finite a) (hk : k a = .ok b) : Verdict (r >>= k) fits finite b := by
  have hpure : Verdict (k a) True True b := hk ▸ .pure
  exact (hr.bind hpure).congr (by simp) (by simp)

theorem verdict_refuse {stop : End} {ts : List Token} {x : α × List Token} (hfits : ¬fits) :
    Verdict (refuse stop .shallower ts) fits finite x := by
  refine ⟨fun h => absurd h hfits, fun _ => ?_⟩
  cases ts <;> exact ⟨_, rfl, fun _ => rfl⟩

/-! ## Operators -/

variable {next : Parse Expr} {group : List BinaryOp} {ts rest : List Token} {e l r : Expr}

theorem verdict_chain (h : Verdict (next ts) fits finite (e, rest))
    (hrest : operator? group rest = none) :
    Verdict (chain group next ts) fits finite (e, rest) := by
  refine h.map (k := fun x => chainFrom group next x.2.length x.1 x.2) ?_
  dsimp only
  cases rest.length with
  | zero => rfl
  | succ fuel => rw [chainFrom, hrest]

theorem verdict_chains {groups : List (List BinaryOp)} (h : Verdict (next ts) fits finite (e, rest))
    (hrest : ∀ group ∈ groups, operator? group rest = none) :
    Verdict (groups.foldl (fun next group => chain group next) next ts) fits finite (e, rest) := by
  induction groups generalizing next with
  | nil => exact h
  | cons group groups ih =>
    obtain ⟨hgroup, hgroups⟩ := List.forall_mem_cons.1 hrest
    exact ih (verdict_chain h hgroup) hgroups

theorem symbol_injective {op op' : BinaryOp} (h : op.symbol = op'.symbol) : op = op' := by
  cases op <;> cases op' <;> first | rfl | exact absurd h (by decide)

/-- The token of an operator is taken by the groups that have it. -/
theorem operator?_symbol {t : Token} {op : BinaryOp} (ht : t.word = (.operator, op.symbol)) :
    operator? group (t :: rest) = if op ∈ group then some (op, rest) else none := by
  obtain ⟨hkind, htext⟩ := Prod.mk.inj ht
  rw [operator?, if_pos hkind, htext]
  induction group with
  | nil => rfl
  | cons op' group ih =>
    by_cases h : op' = op
    · subst h
      simp
    · rw [List.find?_cons_of_neg (by simpa using fun hsymbol => h (symbol_injective hsymbol)), ih]
      simp [Ne.symm h]

/-- Every operator is in one of the groups. -/
theorem exists_group (op : BinaryOp) : ∃ before group after, groups = before ++ group :: after ∧
    op ∈ group ∧ ∀ g ∈ before, op ∉ g := by
  have hfind : ∃ group, groups.find? (op ∈ ·) = some group := by
    refine Option.isSome_iff_exists.1 ?_
    cases op <;> rfl
  obtain ⟨group, hgroup⟩ := hfind
  obtain ⟨hmem, before, after, hsplit, hbefore⟩ := List.find?_eq_some_iff_append.1 hgroup
  exact ⟨before, group, after, hsplit, by simpa using hmem, by simpa using hbefore⟩

/-- An operator between two operands. -/
theorem verdict_binary {t : Token} {op : BinaryOp} {ts' : List Token}
    (ht : t.word = (.operator, op.symbol))
    (hl : Verdict (next ts) fits finite (l, t :: ts'))
    (hr : Verdict (next ts') fits' finite' (r, rest))
    (hrest : ∀ group ∈ groups, operator? group rest = none) :
    Verdict (operators next ts) (fits ∧ fits') (finite ∧ finite') (.binary op l r, rest) := by
  obtain ⟨before, group, after, hgroups, hgroup, hbefore⟩ := exists_group op
  rw [hgroups] at hrest
  simp only [List.forall_mem_append, List.forall_mem_cons] at hrest
  obtain ⟨hrest₁, hrest₂, hrest₃⟩ := hrest
  have hnone : ∀ g ∈ before, operator? g (t :: ts') = none := fun g hg => by
    rw [operator?_symbol ht, if_neg (hbefore g hg)]
  have hl' := verdict_chains hl hnone
  have hr' := verdict_chains hr hrest₁
  unfold operators
  rw [hgroups, List.foldl_append, List.foldl_cons]
  generalize before.foldl (fun next group => chain group next) next = next at hl' hr' ⊢
  refine verdict_chains ?_ hrest₃
  refine hl'.bind (k := fun x => chainFrom group next x.2.length x.1 x.2) ?_
  dsimp only
  rw [List.length_cons, chainFrom, operator?_symbol ht, if_pos hgroup]
  refine hr'.map (k := fun x => chainFrom group next ts'.length (.binary op l x.1) x.2) ?_
  dsimp only
  cases ts'.length with
  | zero => rfl
  | succ fuel => rw [chainFrom, hrest₂]

/-! ## Levels -/

variable {stop : End} {n m : Nat} {t t' : Token}

/-- What follows an expression: nothing, or a mark that ends it. -/
def Closed (rest : List Token) : Prop :=
  ∀ t ∈ rest.head?, t.kind = .punctuation ∧ t.text ∈ [")", ",", ":"]

theorem closed_cons {s : String} (ht : t.word = (.punctuation, s)) (hs : s ∈ [")", ",", ":"]) :
    Closed (t :: rest) := by
  rintro _ ⟨⟩
  obtain ⟨hkind, rfl⟩ := Prod.mk.inj ht
  exact ⟨hkind, hs⟩

theorem Closed.eat? (h : Closed rest) {symbol : String} (hsymbol : symbol ∉ [")", ",", ":"]) :
    eat? symbol rest = none := by
  cases rest with
  | nil => rfl
  | cons t rest =>
    rw [Parser.eat?, if_neg]
    intro his
    have htext : t.text = symbol := by simpa using (Bool.and_eq_true_iff.1 his).2
    exact hsymbol (htext ▸ (h t rfl).2)

theorem operator?_eq_none (h : ∀ t ∈ rest.head?, t.kind ≠ .operator) :
    operator? group rest = none := by
  cases rest with
  | nil => rfl
  | cons t rest => exact if_neg (h t rfl)

theorem Closed.operator? (h : Closed rest) : operator? group rest = none :=
  operator?_eq_none fun t ht hkind => by
    have hpunctuation := (h t ht).1
    rw [hkind] at hpunctuation
    cases hpunctuation

theorem is_of_ne {symbol : String} (h : t.text ≠ symbol) : t.is symbol = false := by
  simp [Token.is, h]

theorem is_of_kind (symbol : String) (h : t.kind ≠ .operator) (h' : t.kind ≠ .punctuation) :
    t.is symbol = false := by
  simp [Token.is, h, h']

theorem eat?_eq_none {symbol : String} (h : t.is symbol = false) :
    eat? symbol (t :: rest) = none := by
  rw [eat?, h]
  rfl

theorem eat?_of_ne {symbol : String} (h : t.text ≠ symbol) : eat? symbol (t :: rest) = none :=
  eat?_eq_none (is_of_ne h)

theorem eat?_word {kind : Token.Kind} {symbol : String} (ht : t.word = (kind, symbol))
    (hkind : kind = .operator ∨ kind = .punctuation) : eat? symbol (t :: rest) = some rest := by
  obtain ⟨rfl, rfl⟩ := Prod.mk.inj ht
  rw [eat?, if_pos]
  simpa [Token.is] using hkind

/-- An operand without a sign. -/
theorem signed_of_operand (hnot : t.is "!" = false) (hneg : t.is "-" = false) :
    (Level.ofDepth stop n).signed (t :: ts) =
      operand stop (Level.ofDepth stop n).expression (t :: ts) := by
  have hsigned : ∀ deeper expression : Parse Expr,
      signed stop deeper expression (t :: ts) = operand stop expression (t :: ts) := by
    intro deeper expression
    rw [signed, eat?_eq_none hnot, eat?_eq_none hneg]
  cases n <;> exact hsigned _ _

theorem signed_of_kind {kind : Token.Kind} {s : String} (ht : t.word = (kind, s))
    (hkind : kind ≠ .operator ∧ kind ≠ .punctuation) :
    (Level.ofDepth stop n).signed (t :: ts) =
      operand stop (Level.ofDepth stop n).expression (t :: ts) := by
  obtain ⟨rfl, rfl⟩ := Prod.mk.inj ht
  exact signed_of_operand (is_of_kind "!" hkind.1 hkind.2) (is_of_kind "-" hkind.1 hkind.2)

theorem signed_of_identifier {name : String} (ht : t.word = (.identifier, name)) :
    (Level.ofDepth stop n).signed (t :: ts) =
      named stop (Level.ofDepth stop n).expression t ts := by
  rw [signed_of_kind ht (by decide), operand]
  simp only [(Prod.mk.inj ht).1]

theorem verdict_parenthesis (ht : t.word = (.punctuation, "("))
    (ht' : t'.word = (.punctuation, ")"))
    (h : Verdict ((Level.ofDepth stop n).expression ts) fits finite (e, t' :: rest)) :
    Verdict ((Level.ofDepth stop n).signed (t :: ts)) fits finite (e, rest) := by
  obtain ⟨hkind, htext⟩ := Prod.mk.inj ht
  have hsign : ∀ symbol, "(" ≠ symbol → t.is symbol = false := fun symbol hne =>
    is_of_ne (htext ▸ hne)
  rw [signed_of_operand (hsign "!" (by decide)) (hsign "-" (by decide)), operand]
  simp only [hkind, if_pos htext]
  refine h.map ?_
  dsimp only
  rw [expect, eat?_word ht' (.inr rfl)]
  rfl

theorem verdict_sign {deeper expression : Parse Expr} {op : UnaryOp}
    (ht : t.word = (.operator, op.symbol)) (h : Verdict (deeper ts) fits finite (e, rest)) :
    Verdict (signed stop deeper expression (t :: ts)) fits finite (.unary op e, rest) := by
  unfold signed
  cases op with
  | not =>
    have heat : eat? "!" (t :: ts) = some ts := eat?_word ht (.inl rfl)
    rw [heat]
    exact h.map rfl
  | neg =>
    have hnot : eat? "!" (t :: ts) = none := eat?_of_ne (by rw [(Prod.mk.inj ht).2]; decide)
    have heat : eat? "-" (t :: ts) = some ts := eat?_word ht (.inl rfl)
    rw [hnot, heat]
    exact h.map rfl

/-- An expression takes one level. -/
theorem verdict_expression {x : Expr × List Token}
    (h : ∀ n, Verdict
      (choice stop (Level.ofDepth stop n).expression (Level.ofDepth stop n).signed ts)
      (m ≤ n) finite x) :
    Verdict ((Level.ofDepth stop n).expression ts) (1 + m ≤ n) finite x := by
  cases n with
  | zero => exact verdict_refuse (by omega)
  | succ n => exact (h n).congr (by omega) Iff.rfl

theorem verdict_choice {expression : Parse Expr}
    (h : Verdict (operators next ts) fits finite (e, rest)) (hrest : eat? "?" rest = none) :
    Verdict (choice stop expression next ts) fits finite (e, rest) := by
  refine h.map ?_
  dsimp only
  rw [hrest]
  rfl

/-! ## Printed trees -/

/-- The words that `e` prints are read back to it, within its levels. -/
def ReadsBack (e : Expr) : Prop :=
  ∀ (stop : End) (n : Nat) {ts rest : List Token}, ts.map Token.word = e.lexemes →
    eat? "(" rest = none →
      Verdict ((Level.ofDepth stop n).signed (ts ++ rest)) (e.need ≤ n) e.Finite (e, rest)

theorem ReadsBack.expression (h : ReadsBack e) (stop : End) (n : Nat)
    (hts : ts.map Token.word = e.lexemes) (hrest : Closed rest) :
    Verdict ((Level.ofDepth stop n).expression (ts ++ rest)) (1 + e.need ≤ n) e.Finite (e, rest) :=
  verdict_expression fun n =>
    have hsigned := h stop n hts (hrest.eat? (by decide))
    verdict_choice (verdict_chains hsigned fun _ _ => hrest.operator?) (hrest.eat? (by decide))

theorem closed_lexemesOfRest {args : List Expr} (hts : ts.map Token.word = Expr.lexemesOfRest args)
    (ht : t.word = (.punctuation, ")")) : Closed (ts ++ t :: rest) := by
  cases args with
  | nil =>
    obtain rfl := List.map_eq_nil_iff.1 hts
    exact closed_cons ht (by decide)
  | cons arg args =>
    obtain ⟨comma, ts, rfl, hcomma, -⟩ := List.map_eq_cons_iff.1 hts
    exact closed_cons hcomma (by decide)

theorem length_le_lexemesOfRest (args : List Expr) :
    args.length ≤ (Expr.lexemesOfRest args).length := by
  induction args with
  | nil => rfl
  | cons arg args ih =>
    rw [Expr.lexemesOfRest, List.length_cons, List.length_cons, List.length_append]
    omega

/-- Arguments with a comma before each, up to the closing parenthesis. -/
theorem verdict_furtherArguments {args : List Expr} (hargs : ∀ e ∈ args, ReadsBack e)
    (ht : t.word = (.punctuation, ")")) {fuel : Nat} (hfuel : args.length < fuel)
    (hts : ts.map Token.word = Expr.lexemesOfRest args) :
    Verdict (furtherArguments stop (Level.ofDepth stop n).expression fuel (ts ++ t :: rest))
      (∀ e ∈ args, 1 + e.need ≤ n) (∀ e ∈ args, e.Finite) (args, rest) := by
  induction args generalizing fuel ts with
  | nil =>
    obtain rfl := List.map_eq_nil_iff.1 hts
    obtain ⟨less, rfl⟩ : ∃ less, fuel = less + 1 := ⟨fuel - 1, by omega⟩
    rw [List.nil_append, furtherArguments, eat?_word ht (.inr rfl)]
    exact Verdict.pure.congr (by simp) (by simp)
  | cons arg args ih =>
    obtain ⟨less, rfl⟩ : ∃ less, fuel = less + 1 := ⟨fuel - 1, by omega⟩
    obtain ⟨harg, hargs⟩ := List.forall_mem_cons.1 hargs
    obtain ⟨comma, ts, rfl, hcomma, hts⟩ := List.map_eq_cons_iff.1 hts
    obtain ⟨ts₁, ts₂, rfl, hts₁, hts₂⟩ := List.map_eq_append_iff.1 hts
    have hnot : eat? ")" (comma :: (ts₁ ++ ts₂) ++ t :: rest) = none :=
      eat?_of_ne (by rw [(Prod.mk.inj hcomma).2]; decide)
    have hexpect : expect stop "," (comma :: (ts₁ ++ ts₂) ++ t :: rest) =
        .ok ((), ts₁ ++ (ts₂ ++ t :: rest)) := by
      rw [expect, List.cons_append, eat?_word hcomma (.inr rfl), List.append_assoc]
    have hclosed : Closed (ts₂ ++ t :: rest) := closed_lexemesOfRest hts₂ ht
    have hfirst := harg.expression stop n hts₁ hclosed
    have hfurther := ih hargs (Nat.lt_of_succ_lt_succ hfuel) hts₂
    rw [furtherArguments, hnot]
    refine Verdict.after hexpect (Verdict.congr (hfirst.bind (hfurther.map rfl)) ?_ ?_)
    · simp
    · simp

/-- The first word of a printed tree closes nothing. -/
theorem eat?_lexemes (hts : ts.map Token.word = e.lexemes) : eat? ")" (ts ++ rest) = none := by
  have hfirst : ∃ kind s words, e.lexemes = (kind, s) :: words ∧
      (kind = .operator ∨ kind = .punctuation → s ≠ ")") := by
    cases e with
    | literal v => cases v <;> exact ⟨_, _, _, rfl, by grind⟩
    | var name => exact ⟨_, _, _, rfl, by simp⟩
    | reference object path => exact ⟨_, _, _, rfl, by simp⟩
    | call function args => cases args <;> exact ⟨_, _, _, rfl, by simp⟩
    | binary op l r => exact ⟨_, _, _, rfl, by simp⟩
    | unary op x => cases op <;> exact ⟨_, _, _, rfl, by decide⟩
    | conditional c l r => exact ⟨_, _, _, rfl, by simp⟩
  obtain ⟨kind, s, words, hwords, hne⟩ := hfirst
  rw [hwords] at hts
  obtain ⟨t, ts, rfl, ht, -⟩ := List.map_eq_cons_iff.1 hts
  obtain ⟨rfl, rfl⟩ := Prod.mk.inj ht
  rw [List.cons_append, eat?, if_neg]
  intro his
  simp only [Token.is, Bool.and_eq_true, Bool.or_eq_true, decide_eq_true_eq] at his
  exact hne his.1 his.2

theorem verdict_arguments {arg : Expr} {args : List Expr} {ts' : List Token}
    (hargs : ∀ e ∈ arg :: args, ReadsBack e) (hts : ts.map Token.word = arg.lexemes)
    (hts' : ts'.map Token.word = Expr.lexemesOfRest args) (ht : t.word = (.punctuation, ")")) :
    Verdict (arguments stop (Level.ofDepth stop n).expression (ts ++ (ts' ++ t :: rest)))
      (1 + max arg.need (Expr.needOfAll args) ≤ n) (∀ e ∈ arg :: args, e.Finite)
      (arg :: args, rest) := by
  obtain ⟨hfirst, hmore⟩ := List.forall_mem_cons.1 hargs
  have hfuel : args.length < (ts' ++ t :: rest).length := by
    have hle := length_le_lexemesOfRest args
    rw [← hts', List.length_map] at hle
    rw [List.length_append, List.length_cons]
    omega
  have hclosed : Closed (ts' ++ t :: rest) := closed_lexemesOfRest hts' ht
  have hfirst := hfirst.expression stop n hts hclosed
  have hfurther : Verdict (furtherArguments stop (Level.ofDepth stop n).expression
      (ts' ++ t :: rest).length (ts' ++ t :: rest)) _ _ (args, rest) :=
    verdict_furtherArguments hmore ht hfuel hts'
  have hfits : (1 + arg.need ≤ n ∧ ∀ e ∈ args, 1 + e.need ≤ n) ↔
      1 + max arg.need (Expr.needOfAll args) ≤ n := by
    cases n with
    | zero => omega
    | succ n =>
      simp only [Nat.add_comm 1, Nat.add_le_add_iff_right, Nat.max_le, Expr.needOfAll_le]
  rw [arguments, eat?_lexemes hts]
  refine Verdict.congr (hfirst.bind (hfurther.map rfl)) hfits ?_
  simp

/-- A tree that is read whatever the level is. -/
theorem verdict_leaf {r : Except ParseError (Expr × List Token)} (hr : r = .ok (e, rest))
    (hneed : e.need = 0) (hfinite : e.Finite) : Verdict r (e.need ≤ n) e.Finite (e, rest) := by
  rw [hr, hneed]
  exact Verdict.pure.congr (iff_of_true trivial (Nat.zero_le _)) (iff_of_true trivial hfinite)

theorem readsBack_number {x : Number} (h : x.Unsigned) : ReadsBack (.literal (.number x)) := by
  intro stop n ts rest hts hrest
  obtain ⟨t, rfl, ht⟩ := List.map_eq_singleton_iff.1 hts
  by_cases hfinite : x.Finite
  · rw [if_pos hfinite] at ht
    obtain ⟨-, -, -, -, -, -, hread⟩ := h.text_spec hfinite
    rw [List.singleton_append, signed_of_kind ht (by decide), operand]
    simp only [(Prod.mk.inj ht).1, (Prod.mk.inj ht).2, hread]
    exact verdict_leaf rfl rfl (Expr.finite_literal.2 hfinite)
  · have hnot : ¬(Expr.literal (.number x)).Finite := fun h => hfinite (Expr.finite_literal.1 h)
    rw [if_neg hfinite, h.text_of_not_finite hfinite] at ht
    rw [List.singleton_append, signed_of_identifier ht, named, hrest, (Prod.mk.inj ht).2]
    -- The word `inf` is no operand, whatever level it stands at.
    exact ⟨fun _ h => absurd h hnot, fun _ => ⟨_, rfl, fun h => absurd h hnot⟩⟩

theorem readsBack_literal {v : Value} (h : (Expr.literal v).IsLexical) :
    ReadsBack (.literal v) := by
  cases v with
  | number x => exact readsBack_number h
  | string s =>
    intro stop n ts rest hts _
    obtain ⟨⟨kind, text, offset⟩, rfl, ht⟩ := List.map_eq_singleton_iff.1 hts
    obtain ⟨rfl, rfl⟩ := Prod.mk.inj ht
    rw [List.singleton_append, signed_of_kind ht (by decide), operand]
    simp only [Token.decode?_literalText]
    exact verdict_leaf rfl rfl (Expr.finite_literal.2 trivial)
  | bool b =>
    intro stop n ts rest hts hrest
    obtain ⟨t, rfl, ht⟩ := List.map_eq_singleton_iff.1 hts
    rw [List.singleton_append, signed_of_identifier ht, named, hrest, (Prod.mk.inj ht).2]
    cases b <;> exact verdict_leaf rfl rfl (Expr.finite_literal.2 trivial)

theorem readsBack_var (name : String) : ReadsBack (.var name) := by
  intro stop n ts rest hts _
  obtain ⟨t, rfl, ht⟩ := List.map_eq_singleton_iff.1 hts
  have hname : String.ofList (("$" ++ name).toList.drop 1) = name := by simp
  rw [List.singleton_append, signed_of_kind ht (by decide), operand]
  simp only [(Prod.mk.inj ht).1, (Prod.mk.inj ht).2, hname]
  exact verdict_leaf rfl rfl (Expr.all_var.2 trivial)

theorem readsBack_reference {object : String} {path : Path}
    (h : (Expr.reference object path).IsLexical) : ReadsBack (.reference object path) := by
  intro stop n ts rest hts _
  obtain ⟨t, rfl, ht⟩ := List.map_eq_singleton_iff.1 hts
  obtain ⟨hobject, hne, hpath⟩ := h
  rw [List.singleton_append, signed_of_kind ht (by decide), operand]
  simp only [(Prod.mk.inj ht).1, (Prod.mk.inj ht).2,
    Token.splitReference_reference hobject hne hpath]
  exact verdict_leaf rfl rfl (Expr.all_reference.2 trivial)

theorem readsBack_call_nil (function : String) : ReadsBack (.call function []) := by
  intro stop n ts rest hts _
  obtain ⟨name, ts, rfl, hfunction, hts⟩ := List.map_eq_cons_iff.1 hts
  obtain ⟨opening, ts, rfl, hopen, hts⟩ := List.map_eq_cons_iff.1 hts
  obtain ⟨closing, rfl, hclose⟩ := List.map_eq_singleton_iff.1 hts
  rw [List.cons_append, signed_of_identifier hfunction, named, List.cons_append,
    eat?_word hopen (.inr rfl)]
  dsimp only
  rw [arguments, List.singleton_append, eat?_word hclose (.inr rfl), (Prod.mk.inj hfunction).2]
  exact verdict_leaf rfl rfl (Expr.finite_call.2 (by simp))

theorem readsBack_call {function : String} {arg : Expr} {args : List Expr}
    (hargs : ∀ e ∈ arg :: args, ReadsBack e) :
    ReadsBack (.call function (arg :: args)) := by
  intro stop n ts rest hts _
  obtain ⟨name, ts, rfl, hfunction, hts⟩ := List.map_eq_cons_iff.1 hts
  obtain ⟨opening, ts, rfl, hopen, hts⟩ := List.map_eq_cons_iff.1 hts
  obtain ⟨ts₁, ts, rfl, hts₁, hts⟩ := List.map_eq_append_iff.1 hts
  obtain ⟨ts₂, ts, rfl, hts₂, hts⟩ := List.map_eq_append_iff.1 hts
  obtain ⟨closing, rfl, hclose⟩ := List.map_eq_singleton_iff.1 hts
  have hlist : name :: opening :: (ts₁ ++ (ts₂ ++ [closing])) ++ rest =
      name :: opening :: (ts₁ ++ (ts₂ ++ closing :: rest)) := by simp
  have harguments : Verdict (arguments stop (Level.ofDepth stop n).expression
      (ts₁ ++ (ts₂ ++ closing :: rest))) _ _ (arg :: args, rest) :=
    verdict_arguments hargs hts₁ hts₂ hclose
  rw [hlist, signed_of_identifier hfunction, named, eat?_word hopen (.inr rfl)]
  refine (harguments.map ?_).congr Iff.rfl Expr.finite_call.symm
  rw [(Prod.mk.inj hfunction).2]
  rfl

theorem readsBack_binary {op : BinaryOp} (hl : ReadsBack l) (hr : ReadsBack r) :
    ReadsBack (.binary op l r) := by
  intro stop n ts rest hts _
  obtain ⟨opening, ts, rfl, hopen, hts⟩ := List.map_eq_cons_iff.1 hts
  obtain ⟨ls, ts, rfl, hls, hts⟩ := List.map_eq_append_iff.1 hts
  obtain ⟨t, ts, rfl, ht, hts⟩ := List.map_eq_cons_iff.1 hts
  obtain ⟨rs, ts, rfl, hrs, hts⟩ := List.map_eq_append_iff.1 hts
  obtain ⟨closing, rfl, hclose⟩ := List.map_eq_singleton_iff.1 hts
  have hstop : Closed (closing :: rest) := closed_cons hclose (by decide)
  have hinner : ∀ n, Verdict
      (choice stop (Level.ofDepth stop n).expression (Level.ofDepth stop n).signed
        (ls ++ t :: (rs ++ closing :: rest)))
      (max l.need r.need ≤ n) (l.Finite ∧ r.Finite) (.binary op l r, closing :: rest) := by
    intro n
    have hnext : eat? "(" (t :: (rs ++ closing :: rest)) = none :=
      eat?_of_ne (by rw [(Prod.mk.inj ht).2]; cases op <;> decide)
    have hleft := hl stop n hls hnext
    have hright := hr stop n hrs (hstop.eat? (by decide))
    have hboth := verdict_binary ht hleft hright fun _ _ => hstop.operator?
    exact (verdict_choice hboth (hstop.eat? (by decide))).congr (by omega) Iff.rfl
  have hlist : opening :: (ls ++ t :: (rs ++ [closing])) ++ rest =
      opening :: (ls ++ t :: (rs ++ closing :: rest)) := by simp
  rw [hlist]
  exact (verdict_parenthesis hopen hclose (verdict_expression hinner)).congr Iff.rfl
    Expr.finite_binary.symm

theorem readsBack_unary {op : UnaryOp} (he : ReadsBack e) : ReadsBack (.unary op e) := by
  intro stop n ts rest hts _
  obtain ⟨t, ts, rfl, ht, hts⟩ := List.map_eq_cons_iff.1 hts
  obtain ⟨opening, ts, rfl, hopen, hts⟩ := List.map_eq_cons_iff.1 hts
  obtain ⟨xs, ts, rfl, hxs, hts⟩ := List.map_eq_append_iff.1 hts
  obtain ⟨closing, rfl, hclose⟩ := List.map_eq_singleton_iff.1 hts
  have hlist : t :: opening :: (xs ++ [closing]) ++ rest =
      t :: opening :: (xs ++ closing :: rest) := by simp
  rw [hlist]
  refine Verdict.congr ?_ Iff.rfl Expr.finite_unary.symm
  rw [Expr.need]
  have hinner : ∀ n, Verdict ((Level.ofDepth stop n).signed (opening :: (xs ++ closing :: rest)))
      (1 + e.need ≤ n) e.Finite (e, rest) := fun n =>
    verdict_parenthesis hopen hclose (he.expression stop n hxs (closed_cons hclose (by decide)))
  cases n with
  | zero => exact verdict_sign ht (verdict_refuse (by omega))
  | succ n => exact (verdict_sign ht (hinner n)).congr (by omega) Iff.rfl

theorem readsBack_conditional {c : Expr} (hc : ReadsBack c) (hl : ReadsBack l) (hr : ReadsBack r) :
    ReadsBack (.conditional c l r) := by
  intro stop n ts rest hts _
  obtain ⟨opening, ts, rfl, hopen, hts⟩ := List.map_eq_cons_iff.1 hts
  obtain ⟨cs, ts, rfl, hcs, hts⟩ := List.map_eq_append_iff.1 hts
  obtain ⟨question, ts, rfl, hquestion, hts⟩ := List.map_eq_cons_iff.1 hts
  obtain ⟨ls, ts, rfl, hls, hts⟩ := List.map_eq_append_iff.1 hts
  obtain ⟨colon, ts, rfl, hcolon, hts⟩ := List.map_eq_cons_iff.1 hts
  obtain ⟨rs, ts, rfl, hrs, hts⟩ := List.map_eq_append_iff.1 hts
  obtain ⟨closing, rfl, hclose⟩ := List.map_eq_singleton_iff.1 hts
  have hstop : Closed (closing :: rest) := closed_cons hclose (by decide)
  have hstop' : Closed (colon :: (rs ++ closing :: rest)) := closed_cons hcolon (by decide)
  have hinner : ∀ n, Verdict
      (choice stop (Level.ofDepth stop n).expression (Level.ofDepth stop n).signed
        (cs ++ question :: (ls ++ colon :: (rs ++ closing :: rest))))
      (max c.need (1 + max l.need r.need) ≤ n) (c.Finite ∧ l.Finite ∧ r.Finite)
      (.conditional c l r, closing :: rest) := by
    intro n
    have hnext : eat? "(" (question :: (ls ++ colon :: (rs ++ closing :: rest))) = none :=
      eat?_of_ne (by rw [(Prod.mk.inj hquestion).2]; decide)
    have hoperator : ∀ group ∈ groups,
        operator? group (question :: (ls ++ colon :: (rs ++ closing :: rest))) = none :=
      fun _ _ => if_neg (by rw [(Prod.mk.inj hquestion).1]; decide)
    have hcolon' : expect stop ":" (colon :: (rs ++ closing :: rest)) =
        .ok ((), rs ++ closing :: rest) := by
      rw [expect, eat?_word hcolon (.inr rfl)]
    have hcondition := verdict_chains (hc stop n hcs hnext) hoperator
    have hthen := hl.expression stop n hls hstop'
    have helse := hr.expression stop n hrs hstop
    have hfits : c.need ≤ n ∧ (1 + l.need ≤ n ∧ 1 + r.need ≤ n) ↔
        max c.need (1 + max l.need r.need) ≤ n := by omega
    refine Verdict.congr (hcondition.bind ?_) hfits Iff.rfl
    dsimp only
    rw [eat?_word hquestion (.inr rfl)]
    exact hthen.bind (Verdict.after hcolon' (helse.map rfl))
  have hlist : opening :: (cs ++ question :: (ls ++ colon :: (rs ++ [closing]))) ++ rest =
      opening :: (cs ++ question :: (ls ++ colon :: (rs ++ closing :: rest))) := by simp
  rw [hlist]
  exact (verdict_parenthesis hopen hclose (verdict_expression hinner)).congr
    (by rw [Expr.need]; omega) Expr.finite_conditional.symm

mutual

/-- Lexical trees are read back, within their levels. -/
theorem readsBack : ∀ {e : Expr}, e.Lexical → ReadsBack e
  | .literal _, h => readsBack_literal (Expr.all_literal.1 h)
  | .var name, _ => readsBack_var name
  | .reference _ _, h => readsBack_reference (Expr.all_reference.1 h)
  | .call function [], _ => readsBack_call_nil function
  | .call _ (_ :: _), h => readsBack_call (readsBack_all (Expr.all_call.1 h).2)
  | .binary _ _ _, h =>
    have ⟨_, hl, hr⟩ := Expr.all_binary.1 h
    readsBack_binary (readsBack hl) (readsBack hr)
  | .unary _ _, h => readsBack_unary (readsBack (Expr.all_unary.1 h).2)
  | .conditional _ _ _, h =>
    have ⟨_, hc, hl, hr⟩ := Expr.all_conditional.1 h
    readsBack_conditional (readsBack hc) (readsBack hl) (readsBack hr)

theorem readsBack_all : ∀ {es : List Expr}, (∀ e ∈ es, e.Lexical) → ∀ e ∈ es, ReadsBack e
  | [], _ => by simp
  | _ :: _, h =>
    have ⟨he, hes⟩ := List.forall_mem_cons.1 h
    List.forall_mem_cons.2 ⟨readsBack he, readsBack_all hes⟩

end

end Parser

namespace Expr

open Parametric.Parser

/-- A lexical tree is read back from its text if that nests within the limit and the numbers of the
tree are finite, and is refused otherwise. -/
theorem ofSource_text {e : Expr} (h : e.Lexical) :
    (1 + e.need ≤ maxNesting → e.Finite → ofSource e.text = .ok e) ∧
      (¬(1 + e.need ≤ maxNesting ∧ e.Finite) → ∃ error, ofSource e.text = .error (.parse error) ∧
        (e.Finite → error.wanted = .shallower)) := by
  obtain ⟨ts, htext, hts⟩ := ofText_text h
  have hverdict :
      Verdict (ofTokens ts e.text.utf8ByteSize) (1 + e.need ≤ maxNesting) e.Finite e := by
    have hclosed : Closed ([] : List Token) := by simp [Closed]
    have hread := (readsBack h).expression e.text.utf8ByteSize maxNesting hts hclosed
    rw [List.append_nil] at hread
    exact hread.map rfl
  unfold ofSource
  rw [htext]
  dsimp only
  refine ⟨fun hfits hfinite => by rw [hverdict.ok hfits hfinite], fun hnot => ?_⟩
  obtain ⟨error, herror, hwanted⟩ := hverdict.error hnot
  exact ⟨error, by rw [herror], hwanted⟩

/-- A lexical tree with finite numbers is read back from its text if and only if that nests within
the limit, and the limit is what refuses it otherwise. -/
theorem ofSource_text_eq_iff_need {e : Expr} (hlexical : e.Lexical) (hfinite : e.Finite) :
    (ofSource e.text = .ok e ↔ 1 + e.need ≤ maxNesting) ∧
      (maxNesting < 1 + e.need → ∃ offset found,
        ofSource e.text = .error (.parse ⟨offset, .shallower, found⟩)) := by
  obtain ⟨hok, herror⟩ := ofSource_text hlexical
  have hdeep : maxNesting < 1 + e.need → ∃ offset found,
      ofSource e.text = .error (.parse ⟨offset, .shallower, found⟩) := by
    intro hlt
    obtain ⟨⟨offset, wanted, found⟩, hsource, hwanted⟩ := herror fun h => Nat.not_le.2 hlt h.1
    obtain rfl : wanted = .shallower := hwanted hfinite
    exact ⟨offset, found, hsource⟩
  refine ⟨⟨fun hread => Nat.not_lt.1 fun hlt => ?_, fun hfits => hok hfits hfinite⟩, hdeep⟩
  obtain ⟨offset, found, hrefused⟩ := hdeep hlt
  rw [hread] at hrefused
  cases hrefused

/-- Forty-nine signs before a call take all levels, and an operator after them is one too many. -/
theorem signs_fill_nesting :
    let call := call "max" [literal (.number (.double 1.5)), reference "door" ["size", "width"]]
    let signs := (unary .neg)^[49] call
    let sum := binary .add signs (literal (.string "\"\\\n"))
    ofSource signs.text = .ok signs ∧
      ∃ offset found, ofSource sum.text = .error (.parse ⟨offset, .shallower, found⟩) := by
  intro call signs sum
  have hsigns : signs.Lexical ∧ signs.Finite ∧ 1 + signs.need ≤ maxNesting := by decide
  have hsum : sum.Lexical ∧ sum.Finite ∧ maxNesting < 1 + sum.need := by decide
  exact ⟨(ofSource_text_eq_iff_need hsigns.1 hsigns.2.1).1.2 hsigns.2.2,
    (ofSource_text_eq_iff_need hsum.1 hsum.2.1).2 hsum.2.2⟩

end Expr

end Parametric
