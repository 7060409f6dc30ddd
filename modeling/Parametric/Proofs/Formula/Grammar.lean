import Parametric.Proofs.Formula.Nesting

/-!
# The grammar of formulas

The grammar as a relation between tokens and trees (`Grammar.Derives`), with the levels of nesting
that a derivation may use, and apart from how the tokens are gone through. What a parser takes off
the front of the tokens is derived with the tree that it gives (`Parser.takes_ofDepth`), level by
level from the bottom.
-/

namespace Parametric

namespace Grammar

/-! ## Derivations -/

/-- What tokens can be read as. -/
inductive Part
  | expression
  /-- A chain of operators of the first group between chains of the other groups. -/
  | chain (groups : List (List BinaryOp))
  /-- An operand with its signs. -/
  | signed
  | operand

/-- The groups of operators, the weakest binding first. -/
def precedence : List (List BinaryOp) :=
  [[.or], [.and], [.eq, .ne], [.le, .ge, .lt, .gt], [.add, .sub], [.mul, .div, .rem]]

theorem precedence_nodup : precedence.flatten.Nodup := by decide

/-- An argument of a call after the first one, with the comma before it. -/
structure Argument where
  comma : Token
  tokens : List Token
  tree : Expr

/-- The tokens of further arguments. -/
def tokensOf (further : List Argument) : List Token := further.flatMap fun a => a.comma :: a.tokens

/-- The tokens are read as a part with this tree, and at no place more than `n` of the expressions
and signs around it are open. -/
inductive Derives : Nat → Part → List Token → Expr → Prop
  | expression {n ts e} : Derives n (.chain precedence) ts e → Derives (n + 1) .expression ts e
  | conditional {n question colon cs ts es c t e} : question.is "?" → colon.is ":" →
      Derives n (.chain precedence) cs c → Derives n .expression ts t →
      Derives n .expression es e →
      Derives (n + 1) .expression (cs ++ question :: (ts ++ colon :: es)) (.conditional c t e)
  | tighter {n group groups ts e} : Derives n (.chain groups) ts e →
      Derives n (.chain (group :: groups)) ts e
  | binary {n group groups op t ls rs l r} : op ∈ group → t.word = (.operator, op.symbol) →
      Derives n (.chain (group :: groups)) ls l → Derives n (.chain groups) rs r →
      Derives n (.chain (group :: groups)) (ls ++ t :: rs) (.binary op l r)
  | signed {n ts e} : Derives n .signed ts e → Derives n (.chain []) ts e
  | sign {n op t ts e} : t.is op.symbol → Derives n .signed ts e →
      Derives (n + 1) .signed (t :: ts) (.unary op e)
  | operand {n ts e} : Derives n .operand ts e → Derives n .signed ts e
  | number {n t x} : t.kind = .number → Number.read? t.text = some x →
      Derives n .operand [t] (.literal (.number x))
  | string {n t s} : t.kind = .string → t.decode? = some s →
      Derives n .operand [t] (.literal (.string s))
  | truth {n t} (b : Bool) : t.word = (.identifier, if b then "true" else "false") →
      Derives n .operand [t] (.literal (.bool b))
  | var {n t} : t.kind = .variable →
      Derives n .operand [t] (.var (String.ofList (t.text.toList.drop 1)))
  | reference {n t} : t.kind = .reference → Derives n .operand [t] (Parser.splitReference t.text)
  | constant {n name open' close} : name.kind = .identifier → open'.is "(" → close.is ")" →
      Derives n .operand [name, open', close] (.call name.text [])
  | call {n name open' close ts e} {further : List Argument} : name.kind = .identifier →
      open'.is "(" → close.is ")" → Derives n .expression ts e →
      (∀ a ∈ further, a.comma.is ",") → (∀ a ∈ further, Derives n .expression a.tokens a.tree) →
      Derives n .operand (name :: open' :: (ts ++ (tokensOf further ++ [close])))
        (.call name.text (e :: further.map Argument.tree))
  | parentheses {n open' close ts e} : open'.word = (.punctuation, "(") → close.is ")" →
      Derives n .expression ts e → Derives n .operand (open' :: (ts ++ [close])) e

/-- A derivation may leave levels unused. -/
theorem Derives.mono {n m : Nat} {part : Part} {ts : List Token} {e : Expr}
    (h : Derives n part ts e) (hle : n ≤ m) : Derives m part ts e := by
  induction h generalizing m with
  | expression _ ih =>
    cases m with
    | zero => omega
    | succ m => exact .expression (ih (Nat.le_of_succ_le_succ hle))
  | conditional hquestion hcolon _ _ _ ihc iht ihe =>
    cases m with
    | zero => omega
    | succ m =>
      have hle := Nat.le_of_succ_le_succ hle
      exact .conditional hquestion hcolon (ihc hle) (iht hle) (ihe hle)
  | tighter _ ih => exact .tighter (ih hle)
  | binary hop ht _ _ ihl ihr => exact .binary hop ht (ihl hle) (ihr hle)
  | signed _ ih => exact .signed (ih hle)
  | sign ht _ ih =>
    cases m with
    | zero => omega
    | succ m => exact .sign ht (ih (Nat.le_of_succ_le_succ hle))
  | operand _ ih => exact .operand (ih hle)
  | number ht hread => exact .number ht hread
  | string ht hdecode => exact .string ht hdecode
  | truth b ht => exact .truth b ht
  | var ht => exact .var ht
  | reference ht => exact .reference ht
  | constant hname hopen hclose => exact .constant hname hopen hclose
  | call hname hopen hclose _ hcomma _ ih ihs =>
    exact .call hname hopen hclose (ih hle) hcomma fun a ha => ihs a ha hle
  | parentheses hopen hclose _ ih => exact .parentheses hopen hclose (ih hle)

end Grammar

namespace Parser

open Grammar

variable {α : Type} {stop : End} {n : Nat} {group : List BinaryOp} {symbol : String} {t : Token}
  {ts rest : List Token} {e : Expr} {expression next : Parse Expr}

/-! ## What is read is derived -/

/-- What a parser takes off the front of the tokens is in `G` with what it gives. -/
def Takes (G : List Token → α → Prop) (p : Parse α) : Prop :=
  ∀ ⦃ts : List Token⦄ ⦃a : α⦄ ⦃rest : List Token⦄, p ts = .ok (a, rest) →
    ∃ front, ts = front ++ rest ∧ G front a

theorem takes_refuse {G : List Token → α → Prop} (wanted : Wanted) :
    Takes G (refuse stop wanted) := by
  intro ts a rest h
  cases ts <;> cases h

theorem eat?_eq_some (h : eat? symbol ts = some rest) : ∃ t, ts = t :: rest ∧ t.is symbol := by
  cases ts with
  | nil => cases h
  | cons t ts =>
    rw [eat?] at h
    split at h
    next ht =>
      cases h
      exact ⟨t, rfl, ht⟩
    · cases h

theorem expect_eq_ok (h : expect stop symbol ts = .ok ((), rest)) :
    ∃ t, ts = t :: rest ∧ t.is symbol := by
  rw [expect] at h
  split at h
  next heat =>
    cases h
    exact eat?_eq_some heat
  · cases ts <;> cases h

theorem operator?_eq_some {op : BinaryOp} (h : operator? group ts = some (op, rest)) :
    ∃ t, ts = t :: rest ∧ t.word = (.operator, op.symbol) ∧ op ∈ group := by
  cases ts with
  | nil => cases h
  | cons t ts =>
    rw [operator?] at h
    split at h
    next hkind =>
      obtain ⟨op', hfind, hop⟩ := Option.map_eq_some_iff.1 h
      cases hop
      have htext : op.symbol = t.text := by simpa using List.find?_some hfind
      exact ⟨t, rfl, Prod.ext hkind htext.symm, List.mem_of_find?_eq_some hfind⟩
    · cases h

/-- The arguments of a call after the first one, up to its closing parenthesis. -/
def FurtherArguments (n : Nat) (ts : List Token) (args : List Expr) : Prop :=
  ∃ (further : List Argument) (close : Token), ts = tokensOf further ++ [close] ∧
    args = further.map Argument.tree ∧ close.is ")" ∧ (∀ a ∈ further, a.comma.is ",") ∧
      ∀ a ∈ further, Derives n .expression a.tokens a.tree

theorem takes_furtherArguments (hexpression : Takes (Derives n .expression) expression)
    (fuel : Nat) : Takes (FurtherArguments n) (furtherArguments stop expression fuel) := by
  induction fuel with
  | zero => exact takes_refuse _
  | succ fuel ih =>
    intro ts args rest h
    rw [furtherArguments] at h
    split at h
    next heat =>
      cases h
      obtain ⟨close, rfl, hclose⟩ := eat?_eq_some heat
      exact ⟨[close], rfl, [], close, rfl, rfl, hclose, by simp, by simp⟩
    · obtain ⟨⟨⟨⟩, ts₁⟩, hexpect, h⟩ := Run.ok_of_bind h
      obtain ⟨⟨e, ts₂⟩, he, h⟩ := Run.ok_of_bind h
      obtain ⟨⟨es, ts₃⟩, hes, h⟩ := Run.ok_of_bind h
      cases h
      obtain ⟨comma, rfl, hcomma⟩ := expect_eq_ok hexpect
      obtain ⟨front, rfl, hfront⟩ := hexpression he
      obtain ⟨_, rfl, further, close, rfl, rfl, hclose, hcommas, htrees⟩ := ih hes
      refine ⟨comma :: (front ++ (tokensOf further ++ [close])), by simp,
        ⟨comma, front, e⟩ :: further, close, by simp [tokensOf], rfl, hclose, ?_, ?_⟩
      · exact List.forall_mem_cons.2 ⟨hcomma, hcommas⟩
      · exact List.forall_mem_cons.2 ⟨hfront, htrees⟩

theorem takes_named (hexpression : Takes (Derives n .expression) expression)
    (ht : t.kind = .identifier) :
    Takes (fun ts e => Derives n .operand (t :: ts) e) (named stop expression t) := by
  intro ts e rest h
  rw [named] at h
  split at h
  next ts₁ heat =>
    obtain ⟨⟨args, ts₂⟩, hargs, h⟩ := Run.ok_of_bind h
    cases h
    obtain ⟨open', rfl, hopen⟩ := eat?_eq_some heat
    rw [arguments] at hargs
    split at hargs
    next heat =>
      cases hargs
      obtain ⟨close, rfl, hclose⟩ := eat?_eq_some heat
      exact ⟨[open', close], rfl, .constant ht hopen hclose⟩
    · obtain ⟨⟨e, ts₃⟩, he, hargs⟩ := Run.ok_of_bind hargs
      obtain ⟨⟨es, ts₄⟩, hes, hargs⟩ := Run.ok_of_bind hargs
      cases hargs
      obtain ⟨front, rfl, hfront⟩ := hexpression he
      obtain ⟨_, rfl, further, close, rfl, rfl, hclose, hcommas, htrees⟩ :=
        takes_furtherArguments hexpression _ hes
      exact ⟨open' :: (front ++ (tokensOf further ++ [close])), by simp,
        .call ht hopen hclose hfront hcommas htrees⟩
  · split at h
    next htext =>
      cases h
      exact ⟨[], rfl, .truth true (Prod.ext ht htext)⟩
    · split at h
      next htext =>
        cases h
        exact ⟨[], rfl, .truth false (Prod.ext ht htext)⟩
      · cases h

theorem takes_operand (hexpression : Takes (Derives n .expression) expression) :
    Takes (Derives n .operand) (operand stop expression) := by
  intro ts e rest h
  cases ts with
  | nil => cases h
  | cons t ts =>
    rw [operand] at h
    cases hkind : t.kind <;> simp only [hkind] at h
    case number =>
      split at h
      next hread =>
        cases h
        exact ⟨[t], rfl, .number hkind hread⟩
      · cases h
    case string =>
      split at h
      next hdecode =>
        cases h
        exact ⟨[t], rfl, .string hkind hdecode⟩
      · cases h
    case identifier =>
      obtain ⟨front, rfl, hfront⟩ := takes_named hexpression hkind h
      exact ⟨t :: front, rfl, hfront⟩
    case reference =>
      cases h
      exact ⟨[t], rfl, .reference hkind⟩
    case «variable» =>
      cases h
      exact ⟨[t], rfl, .var hkind⟩
    case operator => cases h
    case punctuation =>
      split at h
      next htext =>
        obtain ⟨⟨e, ts₁⟩, he, h⟩ := Run.ok_of_bind h
        obtain ⟨⟨⟨⟩, ts₂⟩, hexpect, h⟩ := Run.ok_of_bind h
        cases h
        obtain ⟨front, rfl, hfront⟩ := hexpression he
        obtain ⟨close, rfl, hclose⟩ := expect_eq_ok hexpect
        exact ⟨t :: (front ++ [close]), by simp,
          .parentheses (Prod.ext hkind htext) hclose hfront⟩
      · cases h

theorem takes_signed {G : List Token → Expr → Prop} {deeper : Parse Expr}
    (hdeeper : Takes G deeper)
    (hG : ∀ {op t ts e}, G ts e → t.is (UnaryOp.symbol op) →
      Derives n .signed (t :: ts) (.unary op e))
    (hexpression : Takes (Derives n .expression) expression) :
    Takes (Derives n .signed) (signed stop deeper expression) := by
  intro ts e rest h
  have hsign : ∀ (op : UnaryOp) {ts₁ : List Token}, eat? op.symbol ts = some ts₁ →
      (deeper ts₁).bind (fun p => .ok (Expr.unary op p.1, p.2)) = .ok (e, rest) →
        ∃ front, ts = front ++ rest ∧ Derives n .signed front e := by
    intro op ts₁ heat h
    obtain ⟨⟨x, ts₂⟩, hx, h⟩ := Run.ok_of_bind h
    cases h
    obtain ⟨t, rfl, ht⟩ := eat?_eq_some heat
    obtain ⟨front, rfl, hfront⟩ := hdeeper hx
    exact ⟨t :: front, rfl, hG hfront ht⟩
  rw [signed] at h
  split at h
  next heat => exact hsign .not heat h
  · split at h
    next heat => exact hsign .neg heat h
    · obtain ⟨front, rfl, hfront⟩ := takes_operand hexpression h
      exact ⟨front, rfl, .operand hfront⟩

/-- A chain that is derived from `ls` goes on as a chain. -/
theorem takes_chainFrom {groups : List (List BinaryOp)}
    (hnext : Takes (Derives n (.chain groups)) next) (fuel : Nat) {ls : List Token} {l : Expr}
    (hl : Derives n (.chain (group :: groups)) ls l) :
    Takes (fun ts e => Derives n (.chain (group :: groups)) (ls ++ ts) e)
      (chainFrom group next fuel l) := by
  induction fuel generalizing ls l with
  | zero =>
    intro ts e rest h
    cases h
    exact ⟨[], rfl, by simpa using hl⟩
  | succ fuel ih =>
    intro ts e rest h
    rw [chainFrom] at h
    split at h
    · cases h
      exact ⟨[], rfl, by simpa using hl⟩
    next op ts₁ hop =>
      obtain ⟨⟨r, ts₂⟩, hr, hfrom⟩ := Run.ok_of_bind h
      obtain ⟨t, rfl, ht, hmem⟩ := operator?_eq_some hop
      obtain ⟨rs, rfl, hrs⟩ := hnext hr
      obtain ⟨front, rfl, hfront⟩ := ih (.binary hmem ht hl hrs) hfrom
      exact ⟨t :: (rs ++ front), by simp, by simpa using hfront⟩

/-- Chains of the operators of all groups, the tightest group last. -/
def chains (groups : List (List BinaryOp)) (next : Parse Expr) : Parse Expr :=
  groups.foldr (fun group next => chain group next) next

theorem operators_eq_chains (next : Parse Expr) : operators next = chains precedence next := rfl

theorem takes_chains (hnext : Takes (Derives n .signed) next) (groups : List (List BinaryOp)) :
    Takes (Derives n (.chain groups)) (chains groups next) := by
  induction groups with
  | nil =>
    intro ts e rest h
    obtain ⟨front, rfl, hfront⟩ := hnext h
    exact ⟨front, rfl, .signed hfront⟩
  | cons group groups ih =>
    intro ts e rest h
    obtain ⟨⟨l, ts₁⟩, hl, hfrom⟩ := Run.ok_of_bind h
    obtain ⟨ls, rfl, hls⟩ := ih hl
    obtain ⟨front, rfl, hfront⟩ := takes_chainFrom ih _ (.tighter hls) hfrom
    exact ⟨ls ++ front, by simp, hfront⟩

theorem takes_choice (hexpression : Takes (Derives n .expression) expression)
    (hnext : Takes (Derives n .signed) next) :
    Takes (Derives (n + 1) .expression) (choice stop expression next) := by
  intro ts e rest h
  obtain ⟨⟨c, ts₁⟩, hc, hchoice⟩ := Run.ok_of_bind h
  rw [operators_eq_chains] at hc
  obtain ⟨cs, rfl, hcs⟩ := takes_chains hnext precedence hc
  dsimp only at hchoice
  split at hchoice
  · cases hchoice
    exact ⟨cs, rfl, .expression hcs⟩
  next heat =>
    obtain ⟨⟨x, ts₂⟩, hx, hchoice⟩ := Run.ok_of_bind hchoice
    obtain ⟨⟨⟨⟩, ts₃⟩, hexpect, hchoice⟩ := Run.ok_of_bind hchoice
    obtain ⟨⟨y, ts₄⟩, hy, hchoice⟩ := Run.ok_of_bind hchoice
    cases hchoice
    obtain ⟨question, rfl, hquestion⟩ := eat?_eq_some heat
    obtain ⟨xs, rfl, hxs⟩ := hexpression hx
    obtain ⟨colon, rfl, hcolon⟩ := expect_eq_ok hexpect
    obtain ⟨ys, rfl, hys⟩ := hexpression hy
    exact ⟨cs ++ question :: (xs ++ colon :: ys), by simp,
      .conditional hquestion hcolon hcs hxs hys⟩

theorem takes_ofDepth (stop : End) (n : Nat) :
    Takes (Derives n .expression) (Level.ofDepth stop n).expression ∧
      Takes (Derives n .signed) (Level.ofDepth stop n).signed := by
  induction n with
  | zero =>
    have hnone : Takes (fun _ _ => False) (refuse stop .shallower : Parse Expr) := takes_refuse _
    exact ⟨takes_refuse _, takes_signed hnone False.elim (takes_refuse _)⟩
  | succ n ih =>
    have hexpression :
        Takes (Derives (n + 1) .expression) (Level.ofDepth stop (n + 1)).expression :=
      takes_choice ih.1 ih.2
    exact ⟨hexpression, takes_signed ih.2 (fun h ht => .sign ht h) hexpression⟩

end Parser

end Parametric
