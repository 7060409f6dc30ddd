import Parametric.Proofs.Formula.Acceptance
import Parametric.Proofs.Formula.Failure

/-!
# The height of a formula

The parser counts nested expressions and signs, and reads operators of one level in a loop. So the
limit on nesting bounds the height of a tree in which a chain of such operators counts as one node
(`Expr.nesting_le_of_ofSource`), but not the height itself, which grows with the chain
(`Expr.height_unbounded`). Chains are all that is between the two (`Expr.height_le`): walking,
printing and evaluating a formula nest no deeper than the limit allows times its longest chain
(`Expr.height_le_of_ofSource`).
-/

namespace Parametric

open Grammar

/-- The place of an operator among the groups, the weakest binding first. -/
def BinaryOp.level (op : BinaryOp) : Nat := precedence.findIdx (op ∈ ·)

namespace Expr

/-! ## Measures of a tree -/

mutual

/-- The number of nodes on the longest way down. -/
def height : Expr → Nat
  | literal _ | var _ | reference _ _ => 1
  | call _ args => 1 + heightOfAll args
  | binary _ left right => 1 + max (height left) (height right)
  | unary _ operand => 1 + height operand
  | conditional c t e => 1 + max (height c) (max (height t) (height e))

def heightOfAll : List Expr → Nat
  | [] => 0
  | e :: es => max (height e) (heightOfAll es)

end

/-- Behind the expression the operator goes on with a chain of its level. Parentheses leave no trace
in a tree, so `(a + b) - c` is a chain as `a + b - c` is. -/
def continues (op : BinaryOp) : Expr → Bool
  | binary op' _ _ => op'.level = op.level
  | _ => false

/-- The number of operators in the chain that the expression ends with; other nodes count as one. -/
def chained : Expr → Nat
  | binary op left _ => if left.continues op then 1 + chained left else 1
  | _ => 1

mutual

/-- The height of an expression when each chain counts as one node. -/
def nesting : Expr → Nat
  | literal _ | var _ | reference _ _ => 1
  | call _ args => 1 + nestingOfAll args
  | binary op left right =>
    if left.continues op then max (nesting left) (1 + nesting right)
    else 1 + max (nesting left) (nesting right)
  | unary _ operand => 1 + nesting operand
  | conditional c t e => 1 + max (nesting c) (max (nesting t) (nesting e))

def nestingOfAll : List Expr → Nat
  | [] => 0
  | e :: es => max (nesting e) (nestingOfAll es)

end

theorem nestingOfAll_le {es : List Expr} {n : Nat} :
    nestingOfAll es ≤ n ↔ ∀ e ∈ es, e.nesting ≤ n := by
  induction es with
  | nil => simp [nestingOfAll]
  | cons e es ih => simp [nestingOfAll, ih]

theorem nesting_splitReference (text : String) : (Parser.splitReference text).nesting = 1 := by
  unfold Parser.splitReference
  split <;> simp [nesting]

/-- What all nodes satisfy, the root does. -/
theorem All.root {P : Expr → Prop} {e : Expr} (h : e.All P) : P e := h e e.mem_nodes_self

/-! ### From nesting to height -/

section
variable {K : Nat}

theorem height_binary_le {op : BinaryOp} {l r : Expr} (hl : l.chained ≤ K)
    (ihl : l.height + K ≤ l.nesting * K + l.chained) (ihr : r.height ≤ r.nesting * K) :
    (binary op l r).height + K ≤ (binary op l r).nesting * K + (binary op l r).chained := by
  simp only [height, nesting, chained]
  split <;> simp only [← Nat.mul_max_mul_right, Nat.add_mul, Nat.one_mul] <;> omega

mutual

/-- When no chain has more than `K` operators, each node counted in the nesting stands for at most
`K` nodes, and for the operators of its chain if it is the topmost one. -/
theorem height_add_le : ∀ {e : Expr}, e.All (·.chained ≤ K) →
    e.height + K ≤ e.nesting * K + e.chained
  | .literal _, _ | .var _, _ | .reference _ _, _ => by
    simp only [height, nesting, chained]
    omega
  | .call _ args, h => by
    have hargs := heightOfAll_le (all_call.1 h).2
    simp only [height, nesting, chained, Nat.add_mul, Nat.one_mul]
    omega
  | .binary op l r, h => by
    obtain ⟨-, hl, hr⟩ := all_binary.1 h
    have ihr := height_add_le hr
    have hroot := hr.root
    exact height_binary_le hl.root (height_add_le hl) (by omega)
  | .unary _ x, h => by
    have hx := (all_unary.1 h).2
    have ih := height_add_le hx
    have hroot := hx.root
    simp only [height, nesting, chained, Nat.add_mul, Nat.one_mul]
    omega
  | .conditional c t e, h => by
    obtain ⟨-, hc, ht, he⟩ := all_conditional.1 h
    have ihc := height_add_le hc
    have iht := height_add_le ht
    have ihe := height_add_le he
    have hc := hc.root
    have ht := ht.root
    have he := he.root
    simp only [height, nesting, chained, ← Nat.mul_max_mul_right, Nat.add_mul, Nat.one_mul]
    omega

theorem heightOfAll_le : ∀ {es : List Expr}, (∀ e ∈ es, e.All (·.chained ≤ K)) →
    heightOfAll es ≤ nestingOfAll es * K
  | [], _ => Nat.zero_le _
  | e :: es, h => by
    obtain ⟨he, hes⟩ := List.forall_mem_cons.1 h
    have ih := height_add_le he
    have ihs := heightOfAll_le hes
    have hroot := he.root
    simp only [heightOfAll, nestingOfAll, ← Nat.mul_max_mul_right]
    omega

end

theorem height_le {e : Expr} (h : e.All (·.chained ≤ K)) : e.height ≤ e.nesting * K := by
  have hheight := height_add_le h
  have hroot := h.root
  omega

end

/-! ### Levels of printing and evaluation -/

mutual

/-- The text of a tree nests at most twice as deep as the tree: a sign takes a level, and so does
its parenthesis. -/
theorem need_le : ∀ e : Expr, e.need ≤ 2 * e.height
  | .literal _ | .var _ | .reference _ _ | .call _ [] => by simp [need]
  | .call _ (arg :: args) => by
    have harg := need_le arg
    have hargs := needOfAll_le_height args
    simp only [need, height, heightOfAll]
    omega
  | .binary _ l r => by
    have hl := need_le l
    have hr := need_le r
    simp only [need, height]
    omega
  | .unary _ x => by
    have hx := need_le x
    simp only [need, height]
    omega
  | .conditional c t e => by
    have hc := need_le c
    have ht := need_le t
    have he := need_le e
    simp only [need, height]
    omega

theorem needOfAll_le_height : ∀ es : List Expr, needOfAll es ≤ 2 * heightOfAll es
  | [] => Nat.zero_le _
  | e :: es => by
    have he := need_le e
    have hes := needOfAll_le_height es
    simp only [needOfAll, heightOfAll]
    omega

end

section
variable {σ : Type} (functions : Registry σ)

mutual

/-- Evaluation takes at most two levels for a node: a choice looks at its branches two levels
down. -/
theorem weight_le : ∀ e : Expr, e.weight functions ≤ 2 * e.height
  | .literal _ | .var _ | .reference _ _ => by simp [weight, height]
  | .call name args => by
    have hargs := greatestWeight_le args
    simp only [weight, height]
    split
    · split <;> omega
    · omega
  | .binary _ l r => by
    have hl := weight_le l
    have hr := weight_le r
    simp only [weight, height]
    omega
  | .unary _ x => by
    have hx := weight_le x
    simp only [weight, height]
    omega
  | .conditional c t e => by
    have hc := weight_le c
    have ht := weight_le t
    have he := weight_le e
    simp only [weight, height]
    omega

theorem greatestWeight_le : ∀ es : List Expr, greatestWeight functions es ≤ 2 * heightOfAll es
  | [] => Nat.zero_le _
  | e :: es => by
    have he := weight_le e
    have hes := greatestWeight_le es
    simp only [greatestWeight, heightOfAll]
    omega

end

end

end Expr

namespace Grammar

/-! ## Nesting of what is derived -/

/-- The nesting that is possible for a part with `n` levels: for each level a choice, an operator of
each group, and the call or the sign that goes a level down. -/
def Part.reach (n : Nat) : Part → Nat
  | expression => 8 * n
  | chain groups => groups.length + (8 * n + 1)
  | signed | operand => 8 * n + 1

/-- Each group of a chain has operators of one level. -/
def Part.Levelled : Part → Prop
  | chain groups => ∀ group ∈ groups, ∀ op ∈ group, ∀ op' ∈ group, op.level = op'.level
  | _ => True

theorem levelled_precedence : (Part.chain precedence).Levelled := by
  unfold Part.Levelled
  decide

theorem length_precedence : precedence.length = 6 := rfl

/-- What is read as a part nests within its reach; and what is read as a chain is a chain of its
first group, or nests within the reach of the others. -/
def Within (n : Nat) (part : Part) (e : Expr) : Prop :=
  e.nesting ≤ part.reach n ∧ ∀ group groups, part = .chain (group :: groups) →
    ∀ op ∈ group, e.continues op = true ∨ e.nesting ≤ Part.reach n (.chain groups)

variable {n : Nat} {part : Part} {groups : List (List BinaryOp)} {group : List BinaryOp}
  {e l r : Expr}

theorem Within.tighter (h : Within n (.chain groups) e) :
    Within n (.chain (group :: groups)) e := by
  have hle := h.1
  refine ⟨?_, fun group' groups' heq op _ => ?_⟩
  · simp only [Part.reach, List.length_cons] at hle ⊢
    omega
  · cases heq
    exact .inr hle

/-- An operator goes on with the chain at its left, or starts a chain of what binds tighter. -/
theorem Within.binary {op : BinaryOp} (hlevel : (Part.chain (group :: groups)).Levelled)
    (hop : op ∈ group) (hl : Within n (.chain (group :: groups)) l)
    (hr : Within n (.chain groups) r) : Within n (.chain (group :: groups)) (.binary op l r) := by
  have hleft := hl.1
  have hright := hr.1
  refine ⟨?_, fun group' groups' heq op' hop' => ?_⟩
  · simp only [Part.reach, List.length_cons, Expr.nesting] at hleft hright ⊢
    split
    · omega
    next hstarts =>
      have htighter := (hl.2 group groups rfl op hop).resolve_left hstarts
      simp only [Part.reach] at htighter
      omega
  · cases heq
    have hsame := hlevel group List.mem_cons_self op hop op' hop'
    exact .inl (by simpa [Expr.continues] using hsame)

theorem Within.of_le (hpart : ∀ groups, part ≠ .chain groups) (h : e.nesting ≤ part.reach n) :
    Within n part e :=
  ⟨h, fun _ _ heq => absurd heq (hpart _)⟩

theorem within_of_derives {ts : List Token} (h : Derives n part ts e) (hpart : part.Levelled) :
    Within n part e := by
  induction h with
  | expression _ ih =>
    have hchain := (ih levelled_precedence).1
    refine .of_le (by simp) ?_
    simp only [Part.reach, length_precedence] at hchain ⊢
    omega
  | conditional _ _ _ _ _ ihc iht ihe =>
    have hc := (ihc levelled_precedence).1
    have ht := (iht trivial).1
    have he := (ihe trivial).1
    refine .of_le (by simp) ?_
    simp only [Part.reach, length_precedence, Expr.nesting] at hc ht he ⊢
    omega
  | tighter _ ih => exact (ih fun g hg => hpart g (List.mem_cons_of_mem _ hg)).tighter
  | binary hop _ _ _ ihl ihr =>
    exact .binary hpart hop (ihl hpart) (ihr fun g hg => hpart g (List.mem_cons_of_mem _ hg))
  | signed _ ih =>
    have hsigned := (ih trivial).1
    simp only [Part.reach] at hsigned
    exact ⟨by simpa [Part.reach] using hsigned, by simp⟩
  | sign _ _ ih =>
    have hoperand := (ih trivial).1
    refine .of_le (by simp) ?_
    simp only [Part.reach, Expr.nesting] at hoperand ⊢
    omega
  | operand _ ih => exact .of_le (by simp) (ih trivial).1
  | number | string | truth | var =>
    exact .of_le (by simp) (by simp [Part.reach, Expr.nesting])
  | reference => exact .of_le (by simp) (by simp [Part.reach, Expr.nesting_splitReference])
  | constant => exact .of_le (by simp) (by simp [Part.reach, Expr.nesting, Expr.nestingOfAll])
  | @call n _ _ _ _ e further _ _ _ _ _ _ ih ihs =>
    have hargs : Expr.nestingOfAll (e :: further.map Argument.tree) ≤ 8 * n := by
      refine Expr.nestingOfAll_le.2 (List.forall_mem_cons.2 ⟨(ih trivial).1, ?_⟩)
      exact List.forall_mem_map.2 fun a ha => (ihs a ha trivial).1
    refine .of_le (by simp) ?_
    simp only [Part.reach, Expr.nesting]
    omega
  | parentheses _ _ _ ih =>
    have hinner := (ih trivial).1
    refine .of_le (by simp) ?_
    simp only [Part.reach] at hinner ⊢
    omega

end Grammar

namespace Expr

/-- What compiles nests within the limit, whatever its length. -/
theorem nesting_le_of_ofSource {source : String} {e : Expr} (h : ofSource source = .ok e) :
    e.nesting ≤ 8 * maxNesting := by
  obtain ⟨ts, -, hts⟩ := ofSource_eq_ok_iff.1 h
  exact (within_of_derives hts trivial).1

/-- A source text of any length compiles to a tree that nests within the limit. When no chain of it
has more than `K` operators, it is at most `K` times as high, its text takes at most two levels for
each level of its height, and it is never too deep for an evaluator with as many. -/
theorem height_le_of_ofSource {source : String} {e : Expr} (h : ofSource source = .ok e) :
    e.nesting ≤ 8 * maxNesting ∧
      ∀ K, e.All (·.chained ≤ K) →
        e.height ≤ 8 * maxNesting * K ∧
        e.need ≤ 2 * (8 * maxNesting * K) ∧
        ∀ {σ : Type} (ev : Evaluator σ), 2 * (8 * maxNesting * K) ≤ ev.maxDepth →
          ∀ answers host n, (ev.evaluate e answers host).1 ≠ .error (.tooDeep n) := by
  have hnesting := nesting_le_of_ofSource h
  refine ⟨hnesting, fun K hK => ?_⟩
  have hheight : e.height ≤ 8 * maxNesting * K :=
    (height_le hK).trans (Nat.mul_le_mul_right K hnesting)
  have hneed := need_le e
  refine ⟨hheight, by omega, fun ev hlimit answers host n => ?_⟩
  have hweight := weight_le ev.functions e
  exact ev.evaluate_ne_tooDeep (by omega) answers host n

/-- Three chained operators count as one node in the nesting and as three in the height. -/
theorem three_summands_below_limit :
    ∃ e, ofSource "1 + 2 - if(true, $a, -4) + 5" = .ok e ∧ e.nesting = 4 ∧ e.height = 5 ∧
      e.nesting ≤ 8 * maxNesting ∧ e.height ≤ 8 * maxNesting * 3 ∧
      e.need ≤ 2 * (8 * maxNesting * 3) ∧
      ∀ ev : Evaluator Unit, 4800 ≤ ev.maxDepth → ∀ answers n,
        (ev.evaluate e answers ()).1 ≠ .error (.tooDeep n) := by
  have hmeasures : (ofSource "1 + 2 - if(true, $a, -4) + 5").toOption.any
      fun e => decide (e.nesting = 4 ∧ e.height = 5 ∧ e.All (·.chained ≤ 3)) := by decide +kernel
  cases hsource : ofSource "1 + 2 - if(true, $a, -4) + 5" with
  | error e =>
    rw [hsource] at hmeasures
    cases hmeasures
  | ok e =>
    rw [hsource] at hmeasures
    obtain ⟨hnesting, hheight, hchains⟩ := of_decide_eq_true hmeasures
    obtain ⟨hlimit, hbounds⟩ := height_le_of_ofSource hsource
    obtain ⟨hhigh, hneed, hdeep⟩ := hbounds 3 hchains
    exact ⟨e, rfl, hnesting, hheight, hlimit, hhigh, hneed,
      fun ev hev answers n => hdeep ev hev answers () n⟩

/-! ## Chains of any length -/

/-- The text of `n` summands after a first one. -/
def summands : Nat → List Char
  | 0 => []
  | n + 1 => ' ' :: ("+".toList ++ ' ' :: ("$a".toList ++ summands n))

/-- The words of `n` summands. -/
def summandWords : Nat → List Token.Word
  | 0 => []
  | n + 1 => (.operator, "+") :: (.variable, "$a") :: summandWords n

theorem cuts_variable {rest : List Char} {words : List Token.Word} (hrest : Token.Delimited rest)
    (h : Token.Cuts rest words) :
    Token.Cuts ("$a".toList ++ rest) ((.variable, "$a") :: words) := by
  have hname : Token.IsName ['a'] := by decide
  exact .word "$a" (Token.lexeme?_variable hname hrest) h

theorem cuts_summands (n : Nat) :
    Token.Delimited (summands n) ∧ Token.Cuts (summands n) (summandWords n) := by
  induction n with
  | zero => exact ⟨nofun, .nil⟩
  | succ n ih =>
    refine ⟨Token.delimited_cons (by decide), Token.Cuts.space ?_⟩
    exact .word "+" (Token.lexeme?_binary .add) (cuts_variable ih.1 ih.2).space

theorem derives_variable {m : Nat} {t : Token} (ht : t.word = (.variable, "$a")) :
    Derives m .signed [t] (.var "a") := by
  obtain ⟨hkind, htext⟩ := Prod.mk.inj ht
  have hvar : Derives m .operand [t] (.var (String.ofList (t.text.toList.drop 1))) := .var hkind
  rw [htext] at hvar
  exact .operand hvar

/-- Summands go on with a chain, and each makes the tree higher. -/
theorem exists_derives_summands {m n : Nat} {ts ls : List Token} {l : Expr}
    (hts : ts.map Token.word = summandWords n)
    (hl : Derives m (.chain [[.add, .sub], [.mul, .div, .rem]]) ls l) :
    ∃ e, Derives m (.chain [[.add, .sub], [.mul, .div, .rem]]) (ls ++ ts) e ∧
      n + l.height ≤ e.height := by
  induction n generalizing ts ls l with
  | zero =>
    obtain rfl : ts = [] := List.map_eq_nil_iff.1 hts
    exact ⟨l, by rwa [List.append_nil], by omega⟩
  | succ n ih =>
    obtain ⟨plus, _, rfl, hplus, hrest⟩ := List.map_eq_cons_iff.1 hts
    obtain ⟨a, ts, rfl, ha, hts⟩ := List.map_eq_cons_iff.1 hrest
    have hright : Derives m (.chain [[.mul, .div, .rem]]) [a] (.var "a") :=
      .tighter (.signed (derives_variable ha))
    have hsum : Derives m (.chain [[.add, .sub], [.mul, .div, .rem]]) (ls ++ plus :: [a])
        (.binary .add l (.var "a")) := .binary (by decide) hplus hl hright
    obtain ⟨e, he, hheight⟩ := ih hts hsum
    refine ⟨e, by simpa using he, ?_⟩
    simp only [height] at hheight
    omega

/-- Some source text compiles to a tree of more than any height. -/
theorem exists_lt_height (n : Nat) :
    ∃ (source : String) (e : Expr), ofSource source = .ok e ∧ n < e.height := by
  obtain ⟨hrest, hcuts⟩ := cuts_summands n
  have htext : Token.Cuts (String.ofList ("$a".toList ++ summands n)).toList
      ((.variable, "$a") :: summandWords n) := by
    rw [String.toList_ofList]
    exact cuts_variable hrest hcuts
  obtain ⟨ts, htext, hts⟩ := Token.ofText_of_cuts htext
  obtain ⟨a, ts, rfl, ha, hts⟩ := List.map_eq_cons_iff.1 hts
  have hfirst : Derives 99 (.chain [[.add, .sub], [.mul, .div, .rem]]) [a] (.var "a") :=
    .tighter (.tighter (.signed (derives_variable ha)))
  obtain ⟨e, he, hheight⟩ := exists_derives_summands hts hfirst
  refine ⟨_, e, ofSource_eq_ok_iff.2 ⟨_, htext, ?_⟩, ?_⟩
  · exact .expression (.tighter (.tighter (.tighter (.tighter he))))
  · simp only [height] at hheight
    omega

/-- No height bounds the trees of all source texts that compile. -/
theorem height_unbounded :
    ¬∃ bound : Nat, ∀ (source : String) (e : Expr), ofSource source = .ok e → e.height ≤ bound := by
  rintro ⟨bound, hbound⟩
  obtain ⟨source, e, hsource, hlt⟩ := exists_lt_height bound
  have hle := hbound source e hsource
  omega

end Expr

end Parametric
