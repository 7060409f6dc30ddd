import Parametric.Formula.Parser
import Parametric.Proofs.Formula.Lexemes
import Parametric.Proofs.Run

/-!
# What parsing hands on

A formula that parses is lexical: its names are identifiers, its references have a path that is not
empty, and its numbers are unsigned (`Expr.lexical_of_ofSource`); so its names are plain
(`Expr.wellNamed_of_ofSource`). The tokens carry it (`Token.lexical_lexeme`), and a parser hands on
what its tokens say, whatever it builds from them (`Parser.Hands`): what every operand has by its
token, all nodes of the tree have (`Expr.all_of_ofSource`).
-/

namespace Parametric

/-! ## Nodes of a tree -/

namespace Expr

/-- The names that a node itself has are plain, and the path of a reference is not empty. -/
def PlainNames : Expr → Prop
  | .var name => Path.Plain name
  | .reference _ path => path ≠ [] ∧ ∀ name ∈ path, Path.Plain name
  | _ => True

/-- All nodes satisfy `P`. -/
def All (P : Expr → Prop) (e : Expr) : Prop := ∀ n ∈ e.nodes, P n

/-- All nodes have plain names. -/
def WellNamed (e : Expr) : Prop := ∀ n ∈ e.nodes, n.PlainNames

/-- What a node itself has is a lexeme of source text. -/
def IsLexical : Expr → Prop
  | literal (.number n) => n.Unsigned
  | literal _ => True
  | var name => Token.IsName name.toList
  | reference object path =>
    Token.IsName object.toList ∧ path ≠ [] ∧ ∀ name ∈ path, Token.IsName name.toList
  | call function _ => Token.IsName function.toList
  | _ => True

def IsFinite : Expr → Prop
  | literal (.number n) => n.Finite
  | _ => True

def Lexical (e : Expr) : Prop := e.All IsLexical

/-- The numbers in a tree are finite. -/
def Finite (e : Expr) : Prop := e.All IsFinite

instance : DecidablePred IsLexical
  | literal (.number n) => inferInstanceAs (Decidable n.Unsigned)
  | literal (.string _) | literal (.bool _) | binary _ _ _ | unary _ _ | conditional _ _ _ =>
    inferInstanceAs (Decidable True)
  | var _ => inferInstanceAs (Decidable (Token.IsName _))
  | reference _ _ => inferInstanceAs (Decidable (_ ∧ _ ∧ _))
  | call _ _ => inferInstanceAs (Decidable (Token.IsName _))

instance : DecidablePred IsFinite
  | literal (.number n) => inferInstanceAs (Decidable n.Finite)
  | literal (.string _) | literal (.bool _) | var _ | reference _ _ | call _ _ | binary _ _ _
  | unary _ _ | conditional _ _ _ => inferInstanceAs (Decidable True)

instance {P : Expr → Prop} [DecidablePred P] (e : Expr) : Decidable (e.All P) :=
  inferInstanceAs (Decidable (∀ n ∈ e.nodes, P n))

instance (e : Expr) : Decidable e.Lexical := inferInstanceAs (Decidable (e.All IsLexical))

instance (e : Expr) : Decidable e.Finite := inferInstanceAs (Decidable (e.All IsFinite))

theorem IsLexical.plainNames {e : Expr} (h : e.IsLexical) : e.PlainNames := by
  cases e with
  | var name => exact Token.IsName.plain h
  | reference object path => exact ⟨h.2.1, fun name hname => (h.2.2 name hname).plain⟩
  | _ => trivial

variable {P : Expr → Prop}

theorem mem_nodesOfAll {args : List Expr} {n : Expr} :
    n ∈ nodesOfAll args ↔ ∃ e ∈ args, n ∈ e.nodes := by
  induction args with
  | nil => simp [nodesOfAll]
  | cons e args ih => simp [nodesOfAll, ih]

theorem all_literal {v : Value} : (literal v).All P ↔ P (.literal v) := List.forall_mem_singleton

theorem all_var {name : String} : (var name).All P ↔ P (.var name) := List.forall_mem_singleton

theorem all_reference {object : String} {path : Path} :
    (reference object path).All P ↔ P (.reference object path) := List.forall_mem_singleton

theorem all_call {function : String} {args : List Expr} :
    (call function args).All P ↔ P (.call function args) ∧ ∀ e ∈ args, e.All P := by
  change (∀ n ∈ call function args :: nodesOfAll args, P n) ↔ _
  simp only [All, List.forall_mem_cons, mem_nodesOfAll]
  grind

theorem all_binary {op : BinaryOp} {l r : Expr} :
    (binary op l r).All P ↔ P (.binary op l r) ∧ l.All P ∧ r.All P := by
  change (∀ n ∈ binary op l r :: (l.nodes ++ r.nodes), P n) ↔ _
  simp only [All, List.forall_mem_cons, List.forall_mem_append]

theorem all_unary {op : UnaryOp} {x : Expr} : (unary op x).All P ↔ P (.unary op x) ∧ x.All P :=
  List.forall_mem_cons

theorem all_conditional {c t e : Expr} :
    (conditional c t e).All P ↔ P (.conditional c t e) ∧ c.All P ∧ t.All P ∧ e.All P := by
  change (∀ n ∈ conditional c t e :: (c.nodes ++ t.nodes ++ e.nodes), P n) ↔ _
  simp only [All, List.forall_mem_cons, List.forall_mem_append, and_assoc]

end Expr

namespace Token

/-! ## Tokens -/

/-- The operand that a token is read as is lexical. -/
structure Lexical (t : Token) : Prop where
  ofNumber : t.kind = .number → ∀ {n}, Number.read? t.text = some n → n.Unsigned
  ofVariable : t.kind = .variable → IsName (String.ofList (t.text.toList.drop 1)).toList
  ofReference : t.kind = .reference → (Parser.splitReference t.text).IsLexical
  ofIdentifier : t.kind = .identifier → IsName t.text.toList

theorem lexical_lexeme {cs : List Char} {kind : Kind} {n offset : Nat}
    (h : lexeme? cs = some (some kind, n)) :
    Lexical ⟨kind, String.ofList (cs.take n), offset⟩ := by
  obtain ⟨rfl, hne⟩ := lexeme?_some h
  constructor
  · rintro rfl n hread
    obtain ⟨c, rest, htake, hc⟩ := exists_numeral hne
    have htext : (String.ofList (cs.take (numeral cs))).toList = c :: rest := by
      rw [String.toList_ofList, htake]
    exact Number.unsigned_of_read? htext hc hread
  · rintro rfl
    simpa [taken] using isName_variableName hne
  · rintro rfl
    obtain ⟨object, path, htake, hobject, hpath, hnames⟩ := exists_reference hne
    change (Parser.splitReference (String.ofList (cs.take (reference cs)))).IsLexical
    rw [htake, splitReference_dotted hobject hnames]
    exact ⟨by simpa using hobject, hpath, hnames⟩
  · rintro rfl
    simpa [taken] using isName_identifier hne

/-- What every lexeme satisfies, all tokens of a text do. -/
theorem forall_of_scan {T : Token → Prop}
    (hlexeme : ∀ {cs kind n offset}, lexeme? cs = some (some kind, n) →
      T ⟨kind, String.ofList (cs.take n), offset⟩)
    {fuel offset : Nat} {cs : List Char} {ts : List Token} (h : scan fuel offset cs = .ok ts) :
    ∀ t ∈ ts, T t := by
  induction fuel generalizing offset cs ts with
  | zero =>
    cases cs <;> cases h <;> simp
  | succ fuel ih =>
    cases cs with
    | nil =>
      cases h
      simp
    | cons c cs =>
      rw [scan] at h
      split at h
      · cases h
      next kind n hfront =>
        obtain ⟨rest, hscan, h⟩ := Run.ok_of_bind h
        cases kind with
        | none =>
          cases h
          exact ih hscan
        | some kind =>
          cases h
          exact List.forall_mem_cons.2 ⟨hlexeme hfront, ih hscan⟩

end Token

namespace Parser

/-! ## Parsers -/

/-- From tokens that satisfy `T` a parser gives what satisfies `Q`, and leaves such tokens. -/
def Hands {α : Type} (T : Token → Prop) (Q : α → Prop) (p : Parse α) : Prop :=
  ∀ ⦃ts : List Token⦄ ⦃a : α⦄ ⦃rest : List Token⦄, p ts = .ok (a, rest) →
    (∀ t ∈ ts, T t) → Q a ∧ ∀ t ∈ rest, T t

variable {α : Type} {T : Token → Prop} {Q : α → Prop} {stop : End}

theorem hands_refuse (wanted : Wanted) : Hands T Q (refuse stop wanted) := by
  intro ts a rest h
  cases ts <;> cases h

theorem eat?_spec {symbol : String} {ts rest : List Token} (h : eat? symbol ts = some rest)
    (hts : ∀ t ∈ ts, T t) : ∀ t ∈ rest, T t := by
  cases ts with
  | nil => cases h
  | cons t ts =>
    rw [eat?] at h
    split at h
    · cases h
      exact (List.forall_mem_cons.1 hts).2
    · cases h

theorem hands_expect (symbol : String) : Hands T (fun _ => True) (expect stop symbol) := by
  intro ts a rest h hts
  unfold expect at h
  split at h
  next heat =>
    cases h
    exact ⟨trivial, eat?_spec heat hts⟩
  next => exact hands_refuse (Q := fun _ => True) _ h hts

variable {P : Expr → Prop} {expression deeper next : Parse Expr}

theorem hands_furtherArguments (hexpression : Hands T (Expr.All P) expression) (fuel : Nat) :
    Hands T (fun args => ∀ e ∈ args, e.All P) (furtherArguments stop expression fuel) := by
  induction fuel with
  | zero => exact hands_refuse _
  | succ fuel ih =>
    intro ts args rest h hts
    rw [furtherArguments] at h
    split at h
    next heat =>
      cases h
      exact ⟨by simp, eat?_spec heat hts⟩
    next =>
      obtain ⟨⟨⟨⟩, ts₁⟩, hcomma, h⟩ := Run.ok_of_bind h
      obtain ⟨⟨arg, ts₂⟩, harg, h⟩ := Run.ok_of_bind h
      obtain ⟨⟨args, ts₃⟩, hargs, h⟩ := Run.ok_of_bind h
      cases h
      have h₁ := (hands_expect _ hcomma hts).2
      obtain ⟨hfirst, h₂⟩ := hexpression harg h₁
      obtain ⟨hall, h₃⟩ := ih hargs h₂
      exact ⟨List.forall_mem_cons.2 ⟨hfirst, hall⟩, h₃⟩

theorem hands_arguments (hexpression : Hands T (Expr.All P) expression) :
    Hands T (fun args => ∀ e ∈ args, e.All P) (arguments stop expression) := by
  intro ts args rest h hts
  unfold arguments at h
  split at h
  next heat =>
    cases h
    exact ⟨by simp, eat?_spec heat hts⟩
  next =>
    obtain ⟨⟨arg, ts₁⟩, harg, h⟩ := Run.ok_of_bind h
    obtain ⟨⟨args, ts₂⟩, hargs, h⟩ := Run.ok_of_bind h
    cases h
    obtain ⟨hfirst, h₁⟩ := hexpression harg hts
    obtain ⟨hall, h₂⟩ := hands_furtherArguments hexpression _ hargs h₁
    exact ⟨List.forall_mem_cons.2 ⟨hfirst, hall⟩, h₂⟩

/-- Operands that are made from tokens that satisfy `T` satisfy `P`, and what is made of other
expressions does. -/
structure Makes (T : Token → Prop) (P : Expr → Prop) : Prop where
  ofNumber : ∀ {t n}, T t → t.kind = .number → Number.read? t.text = some n →
    P (.literal (.number n))
  ofVariable : ∀ {t}, T t → t.kind = .variable → P (.var (String.ofList (t.text.toList.drop 1)))
  ofReference : ∀ {t}, T t → t.kind = .reference → P (splitReference t.text)
  ofIdentifier : ∀ {t args}, T t → t.kind = .identifier → P (.call t.text args)
  string : ∀ s, P (.literal (.string s))
  bool : ∀ b, P (.literal (.bool b))
  binary : ∀ op l r, P (.binary op l r)
  unary : ∀ op x, P (.unary op x)
  conditional : ∀ c t e, P (.conditional c t e)

section
variable {T : Token → Prop} {P : Expr → Prop} {stop : End} {expression deeper next : Parse Expr}
  (hmakes : Makes T P)
include hmakes

theorem hands_named (hexpression : Hands T (Expr.All P) expression) {t : Token} (ht : T t)
    (hkind : t.kind = .identifier) : Hands T (Expr.All P) (named stop expression t) := by
  intro ts e rest h hts
  unfold named at h
  split at h
  next heat =>
    obtain ⟨⟨args, ts₁⟩, hargs, h⟩ := Run.ok_of_bind h
    cases h
    obtain ⟨hall, h₁⟩ := hands_arguments hexpression hargs (eat?_spec heat hts)
    exact ⟨Expr.all_call.2 ⟨hmakes.ofIdentifier ht hkind, hall⟩, h₁⟩
  next =>
    split at h
    · cases h
      exact ⟨Expr.all_literal.2 (hmakes.bool _), hts⟩
    · split at h
      · cases h
        exact ⟨Expr.all_literal.2 (hmakes.bool _), hts⟩
      · cases h

theorem hands_operand (hexpression : Hands T (Expr.All P) expression) :
    Hands T (Expr.All P) (operand stop expression) := by
  intro ts e rest h hts
  cases ts with
  | nil => cases h
  | cons t ts =>
    obtain ⟨ht, hts'⟩ := List.forall_mem_cons.1 hts
    rw [operand] at h
    cases hkind : t.kind with
    | number =>
      simp only [hkind] at h
      split at h
      next hread =>
        cases h
        exact ⟨Expr.all_literal.2 (hmakes.ofNumber ht hkind hread), hts'⟩
      next => exact hands_refuse _ h hts
    | string =>
      simp only [hkind] at h
      split at h
      · cases h
        exact ⟨Expr.all_literal.2 (hmakes.string _), hts'⟩
      · exact hands_refuse _ h hts
    | «variable» =>
      simp only [hkind] at h
      cases h
      exact ⟨Expr.all_var.2 (hmakes.ofVariable ht hkind), hts'⟩
    | reference =>
      simp only [hkind] at h
      cases h
      have hnode := hmakes.ofReference ht hkind
      refine ⟨?_, hts'⟩
      unfold splitReference at hnode ⊢
      split at hnode <;> exact Expr.all_reference.2 hnode
    | identifier =>
      simp only [hkind] at h
      exact hands_named hmakes hexpression ht hkind h hts'
    | operator =>
      simp only [hkind] at h
      exact hands_refuse _ h hts
    | punctuation =>
      simp only [hkind] at h
      split at h
      · obtain ⟨⟨e, ts₁⟩, hinner, h⟩ := Run.ok_of_bind h
        obtain ⟨⟨⟨⟩, ts₂⟩, hclose, h⟩ := Run.ok_of_bind h
        cases h
        obtain ⟨hall, h₁⟩ := hexpression hinner hts'
        exact ⟨hall, (hands_expect _ hclose h₁).2⟩
      · exact hands_refuse _ h hts

theorem hands_signed (hdeeper : Hands T (Expr.All P) deeper)
    (hexpression : Hands T (Expr.All P) expression) :
    Hands T (Expr.All P) (signed stop deeper expression) := by
  intro ts e rest h hts
  unfold signed at h
  split at h
  next heat =>
    obtain ⟨⟨x, ts₁⟩, hx, h⟩ := Run.ok_of_bind h
    cases h
    obtain ⟨hall, h₁⟩ := hdeeper hx (eat?_spec heat hts)
    exact ⟨Expr.all_unary.2 ⟨hmakes.unary _ _, hall⟩, h₁⟩
  next =>
    split at h
    next heat =>
      obtain ⟨⟨x, ts₁⟩, hx, h⟩ := Run.ok_of_bind h
      cases h
      obtain ⟨hall, h₁⟩ := hdeeper hx (eat?_spec heat hts)
      exact ⟨Expr.all_unary.2 ⟨hmakes.unary _ _, hall⟩, h₁⟩
    next => exact hands_operand hmakes hexpression h hts

omit hmakes in
theorem operator?_spec {group : List BinaryOp} {op : BinaryOp} {ts rest : List Token}
    (h : operator? group ts = some (op, rest)) (hts : ∀ t ∈ ts, T t) : ∀ t ∈ rest, T t := by
  cases ts with
  | nil => cases h
  | cons t ts =>
    rw [operator?] at h
    split at h
    · obtain ⟨_, -, hop⟩ := Option.map_eq_some_iff.1 h
      cases hop
      exact (List.forall_mem_cons.1 hts).2
    · cases h

theorem hands_chainFrom (group : List BinaryOp) (hnext : Hands T (Expr.All P) next) (fuel : Nat) :
    ∀ {left : Expr}, left.All P → Hands T (Expr.All P) (chainFrom group next fuel left) := by
  induction fuel with
  | zero =>
    intro left hleft ts e rest h hts
    cases h
    exact ⟨hleft, hts⟩
  | succ fuel ih =>
    intro left hleft ts e rest h hts
    rw [chainFrom] at h
    split at h
    · cases h
      exact ⟨hleft, hts⟩
    next op ts₁ hop =>
      obtain ⟨⟨right, ts₂⟩, hright, h⟩ := Run.ok_of_bind h
      obtain ⟨hall, h₂⟩ := hnext hright (operator?_spec hop hts)
      exact ih (Expr.all_binary.2 ⟨hmakes.binary _ _ _, hleft, hall⟩) h h₂

theorem hands_chain (group : List BinaryOp) (hnext : Hands T (Expr.All P) next) :
    Hands T (Expr.All P) (chain group next) := by
  intro ts e rest h hts
  obtain ⟨⟨left, ts₁⟩, hleft, h⟩ := Run.ok_of_bind h
  obtain ⟨hall, h₁⟩ := hnext hleft hts
  exact hands_chainFrom hmakes group hnext _ hall h h₁

theorem hands_operators (hnext : Hands T (Expr.All P) next) :
    Hands T (Expr.All P) (operators next) := by
  unfold operators
  induction groups generalizing next with
  | nil => exact hnext
  | cons group groups ih => exact ih (hands_chain hmakes group hnext)

theorem hands_choice (hexpression : Hands T (Expr.All P) expression)
    (hnext : Hands T (Expr.All P) next) :
    Hands T (Expr.All P) (choice stop expression next) := by
  intro ts e rest h hts
  obtain ⟨⟨c, ts₁⟩, hc, h⟩ := Run.ok_of_bind h
  obtain ⟨hcond, h₁⟩ := hands_operators hmakes hnext hc hts
  dsimp only at h
  split at h
  · cases h
    exact ⟨hcond, h₁⟩
  next ts₂ heat =>
    obtain ⟨⟨t, ts₃⟩, ht, h⟩ := Run.ok_of_bind h
    obtain ⟨⟨⟨⟩, ts₄⟩, hcolon, h⟩ := Run.ok_of_bind h
    obtain ⟨⟨e, ts₅⟩, he, h⟩ := Run.ok_of_bind h
    cases h
    obtain ⟨hthen, h₃⟩ := hexpression ht (eat?_spec heat h₁)
    obtain ⟨helse, h₅⟩ := hexpression he (hands_expect _ hcolon h₃).2
    exact ⟨Expr.all_conditional.2 ⟨hmakes.conditional _ _ _, hcond, hthen, helse⟩, h₅⟩

/-- Both parsers of a level hand on what the tokens satisfy, level by level from the bottom. -/
theorem hands_ofDepth (stop : End) (n : Nat) :
    Hands T (Expr.All P) (Level.ofDepth stop n).expression ∧
      Hands T (Expr.All P) (Level.ofDepth stop n).signed := by
  induction n with
  | zero => exact ⟨hands_refuse _, hands_signed hmakes (hands_refuse _) (hands_refuse _)⟩
  | succ n ih =>
    have hexpression : Hands T (Expr.All P) (Level.ofDepth stop (n + 1)).expression :=
      hands_choice hmakes ih.1 ih.2
    exact ⟨hexpression, hands_signed hmakes ih.2 hexpression⟩

end

end Parser

namespace Expr

theorem all_of_ofTokens {T : Token → Prop} {P : Expr → Prop} (hmakes : Parser.Makes T P)
    {tokens : List Token} {stop : Nat} {e : Expr} (h : ofTokens tokens stop = .ok e)
    (htokens : ∀ t ∈ tokens, T t) : e.All P := by
  obtain ⟨⟨e', rest⟩, hparse, h⟩ := Run.ok_of_bind h
  cases rest with
  | nil =>
    cases h
    exact ((Parser.hands_ofDepth hmakes stop maxNesting).1 hparse htokens).1
  | cons t rest => cases h

/-- What every lexeme of a source text says of its operand, the nodes of the formula satisfy. -/
theorem all_of_ofSource {T : Token → Prop} {P : Expr → Prop} (hmakes : Parser.Makes T P)
    (hlexeme : ∀ {cs kind n offset}, Token.lexeme? cs = some (some kind, n) →
      T ⟨kind, String.ofList (cs.take n), offset⟩)
    {source : String} {e : Expr} (h : ofSource source = .ok e) : e.All P := by
  unfold ofSource at h
  split at h
  · cases h
  next tokens htokens =>
    split at h
    · cases h
    next hparse =>
      cases h
      exact all_of_ofTokens hmakes hparse (Token.forall_of_scan hlexeme htokens)

theorem lexical_of_ofSource {source : String} {e : Expr} (h : ofSource source = .ok e) :
    e.Lexical := by
  refine all_of_ofSource (T := Token.Lexical) (P := IsLexical) ?_ Token.lexical_lexeme h
  exact {
    ofNumber := fun ht hkind hread => ht.ofNumber hkind hread
    ofVariable := fun ht hkind => ht.ofVariable hkind
    ofReference := fun ht hkind => ht.ofReference hkind
    ofIdentifier := fun ht hkind => ht.ofIdentifier hkind
    string := fun _ => trivial
    bool := fun _ => trivial
    binary := fun _ _ _ => trivial
    unary := fun _ _ => trivial
    conditional := fun _ _ _ => trivial }

/-- A source text that compiles has plain names throughout. -/
theorem wellNamed_of_ofSource {source : String} {e : Expr} (h : ofSource source = .ok e) :
    e.WellNamed :=
  fun n hn => (lexical_of_ofSource h n hn).plainNames

end Expr

end Parametric
