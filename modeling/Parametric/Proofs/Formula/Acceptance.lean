import Parametric.Proofs.Formula.Grammar

/-!
# What the parser accepts

The parser accepts what the grammar derives from all tokens within the levels of nesting and nothing
else, with the tree that is derived, which is the only one (`Expr.ofTokens_iff_derives`).

What is derived is read whatever follows, unless that goes on with the same part (`Parser.Ends`).
The induction is on the derivation. It takes a chain of operators apart from its right end while the
parser goes through it from the left; so what `Parser.Reads` says of a chain is about all the links
that may follow it.
-/

namespace Parametric

namespace Parser

open Grammar

variable {stop : End} {n : Nat} {group : List BinaryOp} {symbol : String} {t : Token}
  {ts rest : List Token} {e : Expr} {expression : Parse Expr}

/-! ## What ends a part -/

/-- The texts of the tokens that can go on with a part. -/
def continuations : Part → List String
  | .expression => "?" :: (precedence.flatten.map BinaryOp.symbol ++ ["("])
  | .chain groups => groups.flatten.map BinaryOp.symbol ++ ["("]
  | .signed | .operand => ["("]

/-- A part does not go on with these tokens. -/
def Ends (part : Part) (rest : List Token) : Prop :=
  ∀ t ∈ rest.head?, t.text ∉ continuations part

variable {part : Part} {groups : List (List BinaryOp)}

theorem ends_cons : Ends part (t :: rest) ↔ t.text ∉ continuations part := by
  simp [Ends]

theorem Ends.of_subset {part' : Part} (h : Ends part rest)
    (hsub : continuations part' ⊆ continuations part) : Ends part' rest :=
  fun t ht hmem => h t ht (hsub hmem)

theorem Ends.eat? (h : Ends part rest) (hsymbol : symbol ∈ continuations part) :
    eat? symbol rest = none := by
  cases rest with
  | nil => rfl
  | cons t rest => exact eat?_of_ne fun htext => ends_cons.1 h (htext ▸ hsymbol)

theorem Ends.operator? (h : Ends (.chain (group :: groups)) rest) :
    operator? group rest = none := by
  rw [Option.eq_none_iff_forall_ne_some]
  rintro ⟨op, rest'⟩ hop
  obtain ⟨t, rfl, ht, hmem⟩ := operator?_eq_some hop
  refine ends_cons.1 h ?_
  rw [(Prod.mk.inj ht).2, continuations]
  simp only [List.flatten_cons, List.map_append, List.mem_append, List.mem_map]
  exact .inl (.inl ⟨op, hmem, rfl⟩)

theorem text_of_is (h : t.is symbol) : t.text = symbol := by
  simpa using (Bool.and_eq_true_iff.1 h).2

/-- A mark that closes something ends an expression. -/
theorem ends_expression (h : t.is symbol) (hsymbol : symbol ∈ [")", ",", ":"]) :
    Ends .expression (t :: rest) := by
  rw [ends_cons, text_of_is h]
  clear h
  revert symbol
  decide

theorem symbol_ne_parenthesis (op : BinaryOp) : op.symbol ≠ "(" := by
  cases op <;> decide

/-- An operator ends the chains that bind tighter than it. -/
theorem ends_chain {op : BinaryOp} (hgroups : (group :: groups).flatten.Nodup) (hop : op ∈ group)
    (ht : t.word = (.operator, op.symbol)) : Ends (.chain groups) (t :: rest) := by
  rw [ends_cons, (Prod.mk.inj ht).2, continuations]
  simp only [List.mem_append, List.mem_map, List.mem_singleton, not_or, not_exists, not_and]
  refine ⟨fun op' hop' hsymbol => ?_, symbol_ne_parenthesis op⟩
  rw [symbol_injective hsymbol] at hop'
  exact List.disjoint_of_nodup_append hgroups hop hop'

theorem eat?_of_is (h : t.is symbol) : eat? symbol (t :: rest) = some rest := if_pos h

theorem expect_of_is (h : t.is symbol) : expect stop symbol (t :: rest) = .ok ((), rest) := by
  rw [expect, eat?_of_is h]

/-- The first token of a derivation closes no parenthesis, and is no sign before an operand. -/
theorem exists_front (h : Derives n part ts e) : ∃ t ts', ts = t :: ts' ∧ t.is ")" = false ∧
    (part = .operand → t.is "!" = false ∧ t.is "-" = false) := by
  induction h with
  | expression _ ih | tighter _ ih | signed _ ih | operand _ ih =>
    obtain ⟨t, ts, rfl, ht, -⟩ := ih
    exact ⟨t, ts, rfl, ht, nofun⟩
  | conditional _ _ _ _ _ ih _ _ | binary _ _ _ _ ih _ =>
    obtain ⟨t, ts, rfl, ht, -⟩ := ih
    exact ⟨t, _, rfl, ht, nofun⟩
  | @sign _ op _ _ _ ht =>
    refine ⟨_, _, rfl, is_of_ne ?_, nofun⟩
    rw [text_of_is ht]
    cases op <;> decide
  | number ht _ | string ht _ | var ht | reference ht | constant ht _ _ | call ht _ _ _ _ _ =>
    have his := fun symbol => is_of_kind symbol (by rw [ht]; decide) (by rw [ht]; decide)
    exact ⟨_, _, rfl, his _, fun _ => ⟨his _, his _⟩⟩
  | truth _ ht =>
    have ht := (Prod.mk.inj ht).1
    have his := fun symbol => is_of_kind symbol (by rw [ht]; decide) (by rw [ht]; decide)
    exact ⟨_, _, rfl, his _, fun _ => ⟨his _, his _⟩⟩
  | parentheses ht _ _ =>
    have his : ∀ symbol, "(" ≠ symbol → Token.is _ symbol = false := fun symbol hne =>
      is_of_ne ((Prod.mk.inj ht).2 ▸ hne)
    exact ⟨_, _, rfl, his _ (by decide), fun _ => ⟨his _ (by decide), his _ (by decide)⟩⟩

theorem ends_further {close : Token} (hclose : close.is ")") {further : List Argument}
    (hcomma : ∀ a ∈ further, a.comma.is ",") :
    Ends .expression (tokensOf further ++ close :: rest) := by
  cases further with
  | nil => exact ends_expression hclose (by decide)
  | cons a further => exact ends_expression (List.forall_mem_cons.1 hcomma).1 (by decide)

/-- What the arguments after the first one are derived from is read, with fuel for it. -/
theorem furtherArguments_eq_ok {close : Token} (hclose : close.is ")") {further : List Argument}
    (hcomma : ∀ a ∈ further, a.comma.is ",")
    (hread : ∀ a ∈ further, ∀ {rest}, Ends .expression rest →
      expression (a.tokens ++ rest) = .ok (a.tree, rest))
    {fuel : Nat} (hfuel : (tokensOf further ++ close :: rest).length ≤ fuel) :
    furtherArguments stop expression fuel (tokensOf further ++ close :: rest) =
      .ok (further.map Argument.tree, rest) := by
  induction further generalizing fuel with
  | nil =>
    cases fuel with
    | zero => simp at hfuel
    | succ fuel => rw [furtherArguments, tokensOf, List.flatMap_nil, List.nil_append,
        eat?_of_is hclose, List.map_nil]
  | cons a further ih =>
    obtain ⟨hcomma, hcommas⟩ := List.forall_mem_cons.1 hcomma
    obtain ⟨hread, hreads⟩ := List.forall_mem_cons.1 hread
    have hends : Ends .expression (tokensOf further ++ close :: rest) :=
      ends_further hclose hcommas
    have htokens : tokensOf (a :: further) ++ close :: rest =
        a.comma :: (a.tokens ++ (tokensOf further ++ close :: rest)) := by
      simp [tokensOf]
    rw [htokens] at hfuel ⊢
    cases fuel with
    | zero => simp at hfuel
    | succ fuel =>
      have hnot : a.comma.is ")" = false := is_of_ne (by rw [text_of_is hcomma]; decide)
      have hle : (tokensOf further ++ close :: rest).length ≤ fuel := by
        simp only [List.length_cons, List.length_append] at hfuel ⊢
        omega
      rw [furtherArguments, eat?_eq_none hnot]
      dsimp only
      rw [Run.bind_of_ok (expect_of_is hcomma), Run.bind_of_ok (hread hends),
        Run.bind_of_ok (ih hcommas hreads hle)]
      rfl

/-- The parser of a part with `n` levels below it. -/
def ofPart (stop : End) (n : Nat) : Part → Parse Expr
  | .expression => (Level.ofDepth stop n).expression
  | .chain groups => chains groups (Level.ofDepth stop n).signed
  | .signed => (Level.ofDepth stop n).signed
  | .operand => operand stop (Level.ofDepth stop n).expression

/-- No operator stands in two groups. -/
def Unambiguous : Part → Prop
  | .chain groups => groups.flatten.Nodup
  | _ => True

/-- The tokens are read as the part whatever follows that does not go on with it; for a chain of
operators, it may go on with links that are read to `x`. -/
def Reads (stop : End) (n : Nat) : Part → List Token → Expr → Prop
  | .chain (group :: groups), ts, e => ∀ ⦃rest x⦄, Ends (.chain groups) rest →
      (∀ fuel, rest.length ≤ fuel →
        chainFrom group (ofPart stop n (.chain groups)) fuel e rest = .ok x) →
      ofPart stop n (.chain (group :: groups)) (ts ++ rest) = .ok x
  | part, ts, e => ∀ ⦃rest⦄, Ends part rest → ofPart stop n part (ts ++ rest) = .ok (e, rest)

theorem Reads.ofPart_eq_ok (h : Reads stop n part ts e) (hrest : Ends part rest) :
    ofPart stop n part (ts ++ rest) = .ok (e, rest) := by
  match part, h with
  | .expression, h | .signed, h | .operand, h | .chain [], h => exact h hrest
  | .chain (group :: groups), h =>
    refine h (hrest.of_subset ?_) fun fuel _ => ?_
    · simp only [continuations, List.flatten_cons, List.map_append, List.append_assoc]
      exact List.subset_append_right _ _
    · cases fuel with
      | zero => rfl
      | succ fuel => rw [chainFrom, hrest.operator?]

theorem reads_sign {op : UnaryOp} (ht : t.is op.symbol) (h : Reads stop n .signed ts e) :
    Reads stop (n + 1) .signed (t :: ts) (.unary op e) := by
  intro rest hrest
  have hread : (Level.ofDepth stop n).signed (ts ++ rest) = .ok (e, rest) := h.ofPart_eq_ok hrest
  rw [ofPart, Level.ofDepth, Level.above]
  dsimp only
  rw [List.cons_append, Parser.signed]
  cases op with
  | not =>
    rw [show eat? "!" (t :: (ts ++ rest)) = some _ from eat?_of_is ht]
    exact Run.bind_of_ok hread
  | neg =>
    have hnot : t.is "!" = false := is_of_ne (by rw [text_of_is ht]; decide)
    rw [eat?_eq_none hnot, show eat? "-" (t :: (ts ++ rest)) = some _ from eat?_of_is ht]
    exact Run.bind_of_ok hread

theorem reads_operand (hts : Derives n .operand ts e) (h : Reads stop n .operand ts e) :
    Reads stop n .signed ts e := by
  intro rest hrest
  obtain ⟨t, ts, rfl, -, hsign⟩ := exists_front hts
  obtain ⟨hnot, hneg⟩ := hsign rfl
  rw [ofPart, List.cons_append, signed_of_operand hnot hneg]
  exact h.ofPart_eq_ok hrest

theorem ends_question (h : t.is "?") : Ends (.chain precedence) (t :: rest) := by
  rw [ends_cons, text_of_is h]
  decide

theorem reads_expression (h : Reads stop n (.chain precedence) ts e) :
    Reads stop (n + 1) .expression ts e := by
  intro rest hrest
  have hchain : operators (Level.ofDepth stop n).signed (ts ++ rest) = .ok (e, rest) :=
    h.ofPart_eq_ok (hrest.of_subset (List.subset_cons_self _ _))
  have heat : eat? "?" rest = none := hrest.eat? (List.mem_cons_self ..)
  change choice stop _ _ _ = _
  rw [choice, Run.bind_of_ok hchain]
  dsimp only
  rw [heat]
  rfl

theorem reads_conditional {question colon : Token} {cs xs ys : List Token} {c x y : Expr}
    (hquestion : question.is "?") (hcolon : colon.is ":")
    (hc : Reads stop n (.chain precedence) cs c) (hx : Reads stop n .expression xs x)
    (hy : Reads stop n .expression ys y) :
    Reads stop (n + 1) .expression (cs ++ question :: (xs ++ colon :: ys))
      (.conditional c x y) := by
  intro rest hrest
  have hchain : operators (Level.ofDepth stop n).signed
      (cs ++ question :: (xs ++ colon :: (ys ++ rest))) = .ok (c, _) :=
    hc.ofPart_eq_ok (ends_question hquestion)
  have hthen : (Level.ofDepth stop n).expression (xs ++ colon :: (ys ++ rest)) = .ok (x, _) :=
    hx.ofPart_eq_ok (ends_expression hcolon (by decide))
  have helse : (Level.ofDepth stop n).expression (ys ++ rest) = .ok (y, rest) :=
    hy.ofPart_eq_ok hrest
  change choice stop _ _ _ = _
  simp only [List.append_assoc, List.cons_append]
  rw [choice, Run.bind_of_ok hchain]
  dsimp only
  rw [eat?_of_is hquestion]
  dsimp only
  rw [Run.bind_of_ok hthen, Run.bind_of_ok (expect_of_is hcolon), Run.bind_of_ok helse]
  rfl

theorem reads_tighter (h : Reads stop n (.chain groups) ts e) :
    Reads stop n (.chain (group :: groups)) ts e := by
  intro rest x hrest hfrom
  exact (Run.bind_of_ok (h.ofPart_eq_ok hrest)).trans (hfrom _ le_rfl)

theorem reads_binary {op : BinaryOp} {ls rs : List Token} {l r : Expr}
    (hgroups : (group :: groups).flatten.Nodup) (hop : op ∈ group)
    (ht : t.word = (.operator, op.symbol)) (hl : Reads stop n (.chain (group :: groups)) ls l)
    (hr : Reads stop n (.chain groups) rs r) :
    Reads stop n (.chain (group :: groups)) (ls ++ t :: rs) (.binary op l r) := by
  intro rest x hrest hfrom
  rw [List.append_assoc, List.cons_append]
  refine hl (ends_chain hgroups hop ht) fun fuel hfuel => ?_
  cases fuel with
  | zero => simp at hfuel
  | succ fuel =>
    have hle : rest.length ≤ fuel := by
      simp only [List.length_cons, List.length_append] at hfuel
      omega
    rw [chainFrom, operator?_symbol ht, if_pos hop]
    dsimp only
    rw [Run.bind_of_ok (hr.ofPart_eq_ok hrest)]
    exact hfrom fuel hle

theorem reads_constant {name open' close : Token} (hname : name.kind = .identifier)
    (hopen : open'.is "(") (hclose : close.is ")") :
    Reads stop n .operand [name, open', close] (.call name.text []) := by
  intro rest _
  have harguments : arguments stop (Level.ofDepth stop n).expression (close :: rest) =
      .ok ([], rest) := by
    rw [arguments, eat?_of_is hclose]
  simp only [List.cons_append, List.nil_append]
  rw [ofPart, operand]
  simp only [hname]
  rw [named, eat?_of_is hopen]
  exact Run.bind_of_ok harguments

theorem reads_call {name open' close : Token} {further : List Argument}
    (hname : name.kind = .identifier) (hopen : open'.is "(") (hclose : close.is ")")
    (hts : Derives n .expression ts e) (hcomma : ∀ a ∈ further, a.comma.is ",")
    (h : Reads stop n .expression ts e)
    (hs : ∀ a ∈ further, Reads stop n .expression a.tokens a.tree) :
    Reads stop n .operand (name :: open' :: (ts ++ (tokensOf further ++ [close])))
      (.call name.text (e :: further.map Argument.tree)) := by
  intro rest hrest
  obtain ⟨t, ts', hfront, hparenthesis, -⟩ := exists_front hts
  have hnot : eat? ")" (ts ++ (tokensOf further ++ close :: rest)) = none := by
    rw [hfront]
    exact eat?_eq_none hparenthesis
  have hfirst : (Level.ofDepth stop n).expression (ts ++ (tokensOf further ++ close :: rest)) =
      .ok (e, _) := h.ofPart_eq_ok (ends_further hclose hcomma)
  have hfurther : furtherArguments stop (Level.ofDepth stop n).expression _
      (tokensOf further ++ close :: rest) = .ok (further.map Argument.tree, rest) :=
    furtherArguments_eq_ok hclose hcomma (fun a ha _ hrest => (hs a ha).ofPart_eq_ok hrest) le_rfl
  have harguments : arguments stop (Level.ofDepth stop n).expression
      (ts ++ (tokensOf further ++ close :: rest)) = .ok (e :: further.map Argument.tree, rest) := by
    rw [arguments, hnot]
    dsimp only
    rw [Run.bind_of_ok hfirst]
    exact (Run.bind_of_ok hfurther).trans rfl
  simp only [List.cons_append, List.append_assoc, List.nil_append]
  rw [ofPart, operand]
  simp only [hname]
  rw [named, eat?_of_is hopen]
  exact Run.bind_of_ok harguments

theorem reads_parentheses {open' close : Token} (hopen : open'.word = (.punctuation, "("))
    (hclose : close.is ")") (h : Reads stop n .expression ts e) :
    Reads stop n .operand (open' :: (ts ++ [close])) e := by
  intro rest hrest
  have hread : (Level.ofDepth stop n).expression (ts ++ close :: rest) = .ok (e, _) :=
    h.ofPart_eq_ok (ends_expression hclose (by decide))
  obtain ⟨hkind, htext⟩ := Prod.mk.inj hopen
  rw [ofPart, List.cons_append, operand, List.append_assoc, List.singleton_append]
  simp only [hkind, if_pos htext]
  rw [Run.bind_of_ok hread, Run.bind_of_ok (expect_of_is hclose)]
  rfl

theorem reads_truth (b : Bool) (ht : t.word = (.identifier, if b then "true" else "false")) :
    Reads stop n .operand [t] (.literal (.bool b)) := by
  intro rest hrest
  obtain ⟨hkind, htext⟩ := Prod.mk.inj ht
  have heat : eat? "(" rest = none := hrest.eat? (List.mem_singleton_self _)
  rw [ofPart, List.singleton_append, operand]
  simp only [hkind]
  rw [named, heat, htext]
  cases b <;> rfl

theorem reads_of_derives (h : Derives n part ts e) (hpart : Unambiguous part) :
    Reads stop n part ts e := by
  induction h with
  | expression _ ih => exact reads_expression (ih precedence_nodup)
  | conditional hquestion hcolon _ _ _ ihc iht ihe =>
    exact reads_conditional hquestion hcolon (ihc precedence_nodup) (iht trivial) (ihe trivial)
  | tighter _ ih => exact reads_tighter (ih (List.nodup_append.1 hpart).2.1)
  | binary hop ht _ _ ihl ihr =>
    exact reads_binary hpart hop ht (ihl hpart) (ihr (List.nodup_append.1 hpart).2.1)
  | signed _ ih => exact fun rest hrest => (ih trivial).ofPart_eq_ok hrest
  | sign ht _ ih => exact reads_sign ht (ih trivial)
  | operand hts ih => exact reads_operand hts (ih trivial)
  | number ht hread =>
    intro rest _
    rw [ofPart, List.singleton_append, operand]
    simp only [ht, hread]
  | string ht hdecode =>
    intro rest _
    rw [ofPart, List.singleton_append, operand]
    simp only [ht, hdecode]
  | truth b ht => exact reads_truth b ht
  | var ht | reference ht =>
    intro rest _
    rw [ofPart, List.singleton_append, operand]
    simp only [ht]
  | constant hname hopen hclose => exact reads_constant hname hopen hclose
  | call hname hopen hclose hts hcomma _ ih ihs =>
    exact reads_call hname hopen hclose hts hcomma (ih trivial) fun a ha => ihs a ha trivial
  | parentheses hopen hclose _ ih => exact reads_parentheses hopen hclose (ih trivial)

/-- A level reads all tokens as an expression if and only if they are derived with its levels. -/
theorem expression_eq_ok_iff (stop : End) (n : Nat) (ts : List Token) (e : Expr) :
    (Level.ofDepth stop n).expression ts = .ok (e, []) ↔ Derives n .expression ts e := by
  constructor
  · intro h
    obtain ⟨front, hfront, hderives⟩ := (takes_ofDepth stop n).1 h
    rwa [hfront, List.append_nil]
  · intro h
    have hends : Ends .expression [] := nofun
    have hreads : Reads stop n .expression ts e := reads_of_derives h trivial
    rw [← List.append_nil ts]
    exact hreads.ofPart_eq_ok hends

end Parser

namespace Expr

open Grammar

theorem ofTokens_eq_ok_iff {tokens : List Token} {stop : Nat} {e : Expr} :
    ofTokens tokens stop = .ok e ↔
      (Parser.Level.ofDepth stop maxNesting).expression tokens = .ok (e, []) := by
  constructor
  · intro h
    obtain ⟨⟨x, rest⟩, hx, h⟩ := Run.ok_of_bind h
    cases rest with
    | nil =>
      cases h
      exact hx
    | cons t rest => cases h
  · intro h
    exact Run.bind_of_ok h

/-- A source text compiles to what the grammar derives from its tokens within the levels of
nesting. -/
theorem ofSource_eq_ok_iff {source : String} {e : Expr} :
    ofSource source = .ok e ↔
      ∃ ts, Token.ofText source = .ok ts ∧ Derives maxNesting .expression ts e := by
  unfold ofSource
  cases Token.ofText source with
  | error error => simp
  | ok ts =>
    have hparse : ofTokens ts source.utf8ByteSize = .ok e ↔
        Derives maxNesting .expression ts e :=
      ofTokens_eq_ok_iff.trans (Parser.expression_eq_ok_iff ..)
    simp only [Except.ok.injEq, exists_eq_left', ← hparse]
    cases ofTokens ts source.utf8ByteSize <;> simp

/-- Tokens parse to a tree exactly if the grammar derives it from all of them within the levels of
nesting; and whatever levels a derivation uses, the tokens have no other tree. -/
theorem ofTokens_iff_derives (tokens : List Token) (stop : Nat) :
    (∀ e, ofTokens tokens stop = .ok e ↔ Derives maxNesting .expression tokens e) ∧
      ∀ (n m : Nat) (e e' : Expr), Derives n .expression tokens e →
        Derives m .expression tokens e' → e = e' := by
  refine ⟨fun e => ?_, fun n m e e' h h' => ?_⟩
  · rw [ofTokens_eq_ok_iff]
    exact Parser.expression_eq_ok_iff ..
  · have hread := (Parser.expression_eq_ok_iff stop _ _ _).2 (h.mono (Nat.le_max_left n m))
    have hread' := (Parser.expression_eq_ok_iff stop _ _ _).2 (h'.mono (Nat.le_max_right n m))
    rw [hread] at hread'
    cases hread'
    rfl

end Expr

end Parametric
