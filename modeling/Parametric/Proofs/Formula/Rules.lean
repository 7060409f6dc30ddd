import Parametric.Proofs.Formula.Failure
import Parametric.Proofs.Formula.Meaning

/-!
# The rules of evaluation

What an expression evaluates to, said by rules and without a memo or a clock. A rule tells which
events an evaluation causes, what its result is and what it does to the world of the host
functions. Operands and arguments are evaluated from left to right, an error ends the evaluation,
and what is not needed has no part in it: the right side of `&&` and `||` when the left one decides,
and one branch of a choice.

A relation of this kind is a `Behaviour`. The rules for each kind of node come to one behaviour
after another (`Behaviour.AndThen`), where the next one goes by what the last one gave; the
equations at the end say so.
-/

namespace Parametric

/-- What an evaluation does for others to see. -/
inductive Event
  /-- The stores are asked what a name stands for. -/
  | asked (r : Reading)
  /-- The body of a function is run on arguments. -/
  | ran (name : String) (args : List Value)
deriving DecidableEq

/-- What host functions see change: the time that has passed, and their state. -/
structure World (σ : Type) where
  spent : Nat
  host : σ

/-- In a world a computation causes events, gives a result and leaves a world. -/
abbrev Behaviour (σ α : Type) := World σ → List Event → Except EvalError α → World σ → Prop

/-- The value of the left side that decides a connective. -/
def BinaryOp.decisive? : BinaryOp → Option Bool
  | .and => some false
  | .or => some true
  | _ => none

namespace Evaluator

variable {σ : Type} (ev : Evaluator σ)

/-! ## Rules -/

/-- A name applies to values. -/
inductive Applies (name : String) (vs : List Value) : Behaviour σ Value
  | unknownFunction (w : World σ) (hf : ev.functions[name]? = none) :
    Applies name vs w [] (.error (.unknownFunction name)) w
  | arity {f : Function σ} (w : World σ) (hf : ev.functions[name]? = some f)
    (haccepts : f.accepts vs.length = false) :
    Applies name vs w [] (.error (.arity name f.minArgs f.maxArgs vs.length)) w
  | run {f : Function σ} {w : World σ} {reply : HostReply σ} (hf : ev.functions[name]? = some f)
    (haccepts : f.accepts vs.length = true)
    (hrun : f.run? (ev.call w.spent) vs w.host = some reply) :
    Applies name vs w [.ran name vs] (returned name reply.result)
      ⟨w.spent + reply.spent, reply.state⟩

mutual

/-- An expression evaluates at a depth. -/
inductive Evaluates : Expr → Nat → Behaviour σ Value
  | tooDeep {e : Expr} {depth : Nat} (w : World σ) (h : ev.maxDepth < depth) :
    Evaluates e depth w [] (.error (.tooDeep ev.maxDepth)) w
  | entered {e : Expr} {depth : Nat} {w w' : World σ} {t : List Event} {r : Except EvalError Value}
    (h : ¬ ev.maxDepth < depth) (hcomputes : Computes e depth w t r w') : Evaluates e depth w t r w'

/-- An expression evaluates at a depth that is not too deep. -/
inductive Computes : Expr → Nat → Behaviour σ Value
  | literal (v : Value) (depth : Nat) (w : World σ) : Computes (.literal v) depth w [] (.ok v) w
  | var (name : String) (depth : Nat) (w : World σ) :
    Computes (.var name) depth w [.asked (.variableNamed name)] (ev.lookup (.variableNamed name)) w
  | reference (object : String) (path : Path) (depth : Nat) (w : World σ) :
    Computes (.reference object path) depth w [.asked (.propertyOf object path)]
      (ev.lookup (.propertyOf object path)) w
  | unary (op : UnaryOp) {operand : Expr} {depth : Nat} {w w' : World σ} {t : List Event}
    {v : Value} (h : Evaluates operand (depth + 1) w t (.ok v) w') :
    Computes (.unary op operand) depth w t (op.apply v) w'
  | unaryError (op : UnaryOp) {operand : Expr} {depth : Nat} {w w' : World σ} {t : List Event}
    {er : EvalError} (h : Evaluates operand (depth + 1) w t (.error er) w') :
    Computes (.unary op operand) depth w t (.error er) w'
  | strict {op : BinaryOp} {left right : Expr} {depth : Nat} {w w' w'' : World σ}
    {s t : List Event} {l r : Value} (hop : op.decisive? = none)
    (hl : Evaluates left (depth + 1) w s (.ok l) w')
    (hr : Evaluates right (depth + 1) w' t (.ok r) w'') :
    Computes (.binary op left right) depth w (s ++ t) (op.apply l r) w''
  | leftError {op : BinaryOp} {left : Expr} (right : Expr) {depth : Nat} {w w' : World σ}
    {s : List Event} {er : EvalError} (hop : op.decisive? = none)
    (hl : Evaluates left (depth + 1) w s (.error er) w') :
    Computes (.binary op left right) depth w s (.error er) w'
  | rightError {op : BinaryOp} {left right : Expr} {depth : Nat} {w w' w'' : World σ}
    {s t : List Event} {l : Value} {er : EvalError} (hop : op.decisive? = none)
    (hl : Evaluates left (depth + 1) w s (.ok l) w')
    (hr : Evaluates right (depth + 1) w' t (.error er) w'') :
    Computes (.binary op left right) depth w (s ++ t) (.error er) w''
  | decided {op : BinaryOp} {left : Expr} (right : Expr) {depth : Nat} {w w' : World σ}
    {s : List Event} {b : Bool} (hop : op.decisive? = some b)
    (hl : Decides left (depth + 1) w s (.ok b) w') :
    Computes (.binary op left right) depth w s (.ok (.bool b)) w'
  | undecided {op : BinaryOp} {left right : Expr} {depth : Nat} {w w' w'' : World σ}
    {s t : List Event} {b : Bool} {r : Except EvalError Bool} (hop : op.decisive? = some b)
    (hl : Decides left (depth + 1) w s (.ok !b) w') (hr : Decides right (depth + 1) w' t r w'') :
    Computes (.binary op left right) depth w (s ++ t) (r.map .bool) w''
  | undecidable {op : BinaryOp} {left : Expr} (right : Expr) {depth : Nat} {w w' : World σ}
    {s : List Event} {b : Bool} {er : EvalError} (hop : op.decisive? = some b)
    (hl : Decides left (depth + 1) w s (.error er) w') :
    Computes (.binary op left right) depth w s (.error er) w'
  | conditional {c x y : Expr} {depth : Nat} {w w' : World σ} {t : List Event}
    {r : Except EvalError Value} (h : Chooses c x y (depth + 1) w t r w') :
    Computes (.conditional c x y) depth w t r w'
  | select {name : String} {f : Function σ} {c x y : Expr} {depth : Nat} {w w' : World σ}
    {t : List Event} {r : Except EvalError Value} (hf : ev.functions[name]? = some f)
    (hselect : f.isSelect = true) (h : Chooses c x y (depth + 2) w t r w') :
    Computes (.call name [c, x, y]) depth w t r w'
  | selectArity {name : String} {f : Function σ} {args : List Expr} (depth : Nat) (w : World σ)
    (hf : ev.functions[name]? = some f) (hselect : f.isSelect = true) (hargs : args.length ≠ 3) :
    Computes (.call name args) depth w [] (.error (.arity name f.minArgs f.maxArgs args.length)) w
  | argumentError {name : String} {args : List Expr} {depth : Nat} {w w' : World σ}
    {t : List Event} {er : EvalError} (heager : Expr.selects ev.functions name = false)
    (hargs : EvaluatesAll args (depth + 1) w t (.error er) w') :
    Computes (.call name args) depth w t (.error er) w'
  | call {name : String} {args : List Expr} {depth : Nat} {w w' w'' : World σ} {s t : List Event}
    {vs : List Value} {r : Except EvalError Value} (heager : Expr.selects ev.functions name = false)
    (hargs : EvaluatesAll args (depth + 1) w s (.ok vs) w')
    (happlies : ev.Applies name vs w' t r w'') : Computes (.call name args) depth w (s ++ t) r w''

/-- An expression evaluates to a truth value. -/
inductive Decides : Expr → Nat → Behaviour σ Bool
  | condition {e : Expr} {depth : Nat} {w w' : World σ} {t : List Event} {v : Value}
    (h : Evaluates e depth w t (.ok v) w') : Decides e depth w t v.condition w'
  | error {e : Expr} {depth : Nat} {w w' : World σ} {t : List Event} {er : EvalError}
    (h : Evaluates e depth w t (.error er) w') : Decides e depth w t (.error er) w'

/-- A condition and one of two branches evaluate. -/
inductive Chooses : Expr → Expr → Expr → Nat → Behaviour σ Value
  | branch {c x y : Expr} {depth : Nat} {w w' w'' : World σ} {s t : List Event} {b : Bool}
    {r : Except EvalError Value} (hc : Decides c depth w s (.ok b) w')
    (hbranch : Evaluates (if b then x else y) depth w' t r w'') :
    Chooses c x y depth w (s ++ t) r w''
  | error {c : Expr} (x y : Expr) {depth : Nat} {w w' : World σ} {s : List Event} {er : EvalError}
    (hc : Decides c depth w s (.error er) w') : Chooses c x y depth w s (.error er) w'

/-- Expressions evaluate from left to right, up to the first error. -/
inductive EvaluatesAll : List Expr → Nat → Behaviour σ (List Value)
  | nil (depth : Nat) (w : World σ) : EvaluatesAll [] depth w [] (.ok []) w
  | cons {e : Expr} {es : List Expr} {depth : Nat} {w w' w'' : World σ} {s t : List Event}
    {v : Value} {r : Except EvalError (List Value)} (h : Evaluates e depth w s (.ok v) w')
    (hrest : EvaluatesAll es depth w' t r w'') :
    EvaluatesAll (e :: es) depth w (s ++ t) (r.map (v :: ·)) w''
  | error {e : Expr} (es : List Expr) {depth : Nat} {w w' : World σ} {t : List Event}
    {er : EvalError} (h : Evaluates e depth w t (.error er) w') :
    EvaluatesAll (e :: es) depth w t (.error er) w'

end

end Evaluator

/-! ## Behaviours -/

namespace Behaviour

variable {σ α β : Type}

/-- Give a result and do nothing. -/
inductive Give (r : Except EvalError α) (w : World σ) :
    List Event → Except EvalError α → World σ → Prop
  | intro : Give r w [] r w

/-- One behaviour and then another one, which goes by what the first one gave. -/
inductive AndThen (B : Behaviour σ α) (K : α → Behaviour σ β) : Behaviour σ β
  | next {w w' w'' : World σ} {s t : List Event} {a : α} {r : Except EvalError β}
    (h : B w s (.ok a) w') (hnext : K a w' t r w'') : AndThen B K w (s ++ t) r w''
  | error {w w' : World σ} {t : List Event} {er : EvalError} (h : B w t (.error er) w') :
    AndThen B K w t (.error er) w'

/-- Ask what a name stands for, which is a given result. -/
inductive Ask (r : Reading) (result : Except EvalError Value) (w : World σ) :
    List Event → Except EvalError Value → World σ → Prop
  | intro : Ask r result w [.asked r] result w

/-- In a world a behaviour does one thing, and this is it. -/
def Only (B : Behaviour σ α) (w : World σ) (t : List Event) (r : Except EvalError α)
    (w' : World σ) : Prop := ∀ s q u, B w s q u ↔ s = t ∧ q = r ∧ u = w'

variable {B : Behaviour σ α} {K : α → Behaviour σ β} {w w' w'' : World σ} {s t : List Event}

theorem ext {B C : Behaviour σ α} (h : ∀ w t r w', B w t r w' ↔ C w t r w') : B = C :=
  funext fun w => funext fun t => funext fun r => funext fun w' => propext (h w t r w')

theorem Only.intro {r : Except EvalError α} (h : B w t r w')
    (hone : ∀ s q u, B w s q u → s = t ∧ q = r ∧ u = w') : Only B w t r w' := by
  refine fun s q u => ⟨hone s q u, fun ⟨hs, hq, hu⟩ => ?_⟩
  subst hs hq hu
  exact h

theorem Only.holds {r : Except EvalError α} (h : Only B w t r w') : B w t r w' :=
  (h t r w').2 ⟨rfl, rfl, rfl⟩

theorem only_give (r : Except EvalError α) (w : World σ) : Only (Give r) w [] r w := by
  refine .intro .intro fun s q u h => ?_
  cases h
  exact ⟨rfl, rfl, rfl⟩

theorem only_ask (r : Reading) (result : Except EvalError Value) (w : World σ) :
    Only (Ask r result) w [.asked r] result w := by
  refine .intro .intro fun s q u h => ?_
  cases h
  exact ⟨rfl, rfl, rfl⟩

theorem Only.error {er : EvalError} (h : Only B w t (.error er) w') :
    Only (AndThen B K) w t (.error er) w' := by
  refine .intro (.error h.holds) fun s q u hs => ?_
  cases hs with
  | next hb => cases ((h _ _ _).1 hb).2.1
  | error hb =>
    obtain ⟨rfl, herror, rfl⟩ := (h _ _ _).1 hb
    cases herror
    exact ⟨rfl, rfl, rfl⟩

theorem Only.next {a : α} {r : Except EvalError β} (h : Only B w s (.ok a) w')
    (hnext : Only (K a) w' t r w'') : Only (AndThen B K) w (s ++ t) r w'' := by
  refine .intro (.next h.holds hnext.holds) fun s' q u hs => ?_
  cases hs with
  | next hb hk =>
    obtain ⟨rfl, hok, rfl⟩ := (h _ _ _).1 hb
    cases hok
    obtain ⟨rfl, rfl, rfl⟩ := (hnext _ _ _).1 hk
    exact ⟨rfl, rfl, rfl⟩
  | error hb => cases ((h _ _ _).1 hb).2.1

/-- What follows only gives a result. -/
theorem AndThen.give {a : α} {r : Except EvalError β} (h : B w t (.ok a) w') (hk : K a = Give r) :
    AndThen B K w t r w' := by
  have hnext : AndThen B K w (t ++ []) r w' := by
    refine .next h ?_
    rw [hk]
    exact .intro
  rwa [List.append_nil] at hnext

end Behaviour

/-! ## Rules as behaviours -/

namespace Evaluator

variable {σ : Type} {ev : Evaluator σ} {depth : Nat}

open Behaviour

/-- The body of a function runs on values. -/
inductive Runs (ev : Evaluator σ) (name : String) (f : Function σ) (vs : List Value) (w : World σ) :
    List Event → Except EvalError (Except FunctionFault Value) → World σ → Prop
  | intro {reply : HostReply σ} (hrun : f.run? (ev.call w.spent) vs w.host = some reply) :
    Runs ev name f vs w [.ran name vs] (.ok reply.result) ⟨w.spent + reply.spent, reply.state⟩

theorem only_runs {name : String} {f : Function σ} {vs : List Value} {w : World σ}
    {reply : HostReply σ} (hrun : f.run? (ev.call w.spent) vs w.host = some reply) :
    Only (ev.Runs name f vs) w [.ran name vs] (.ok reply.result)
      ⟨w.spent + reply.spent, reply.state⟩ := by
  refine .intro (.intro hrun) fun s q u h => ?_
  cases h with
  | intro h =>
    cases hrun.symm.trans h
    exact ⟨rfl, rfl, rfl⟩

theorem evaluates_tooDeep (hdepth : ev.maxDepth < depth) (e : Expr) :
    ev.Evaluates e depth = Give (.error (.tooDeep ev.maxDepth)) := by
  refine Behaviour.ext fun w t r w' => ⟨fun h => ?_, fun h => ?_⟩
  · cases h with
    | tooDeep => exact .intro
    | entered h => exact absurd hdepth h
  · cases h
    exact .tooDeep w hdepth

theorem evaluates_entered (hdepth : ¬ ev.maxDepth < depth) (e : Expr) :
    ev.Evaluates e depth = ev.Computes e depth := by
  refine Behaviour.ext fun w t r w' => ⟨fun h => ?_, .entered hdepth⟩
  cases h with
  | tooDeep _ h => exact absurd h hdepth
  | entered _ hcomputes => exact hcomputes

theorem computes_literal (v : Value) : ev.Computes (.literal v) depth = Give (.ok v) := by
  refine Behaviour.ext fun w t r w' => ⟨fun h => ?_, fun h => ?_⟩ <;> cases h <;> constructor

theorem computes_var (name : String) : ev.Computes (.var name) depth =
    Ask (.variableNamed name) (ev.lookup (.variableNamed name)) := by
  refine Behaviour.ext fun w t r w' => ⟨fun h => ?_, fun h => ?_⟩ <;> cases h <;> constructor

theorem computes_reference (object : String) (path : Path) :
    ev.Computes (.reference object path) depth =
      Ask (.propertyOf object path) (ev.lookup (.propertyOf object path)) := by
  refine Behaviour.ext fun w t r w' => ⟨fun h => ?_, fun h => ?_⟩ <;> cases h <;> constructor

theorem computes_unary (op : UnaryOp) (operand : Expr) : ev.Computes (.unary op operand) depth =
    AndThen (ev.Evaluates operand (depth + 1)) fun v => Give (op.apply v) := by
  refine Behaviour.ext fun w t r w' => ⟨fun h => ?_, fun h => ?_⟩
  · cases h with
    | unary _ h => exact .give h rfl
    | unaryError _ h => exact .error h
  · cases h with
    | next h hgive =>
      cases hgive
      rw [List.append_nil]
      exact .unary op h
    | error h => exact .unaryError op h

/-- The operands of an operator are evaluated from left to right, up to an error. -/
theorem computes_strict {op : BinaryOp} (hop : op.decisive? = none) (left right : Expr) :
    ev.Computes (.binary op left right) depth = AndThen (ev.Evaluates left (depth + 1)) fun l =>
      AndThen (ev.Evaluates right (depth + 1)) fun r => Give (op.apply l r) := by
  refine Behaviour.ext fun w t r w' => ⟨fun h => ?_, fun h => ?_⟩
  · cases h with
    | strict _ hl hr => exact .next hl (.give hr rfl)
    | leftError _ _ hl => exact .error hl
    | rightError _ hl hr => exact .next hl (.error hr)
    | decided _ h | undecided h | undecidable _ h => cases hop.symm.trans h
  · cases h with
    | next hl h =>
      cases h with
      | next hr hgive =>
        cases hgive
        rw [List.append_nil]
        exact .strict hop hl hr
      | error hr => exact .rightError hop hl hr
    | error hl => exact .leftError right hop hl

theorem decides_eq (e : Expr) (depth : Nat) :
    ev.Decides e depth = AndThen (ev.Evaluates e depth) fun v => Give v.condition := by
  refine Behaviour.ext fun w t r w' => ⟨fun h => ?_, fun h => ?_⟩
  · cases h with
    | condition h => exact .give h rfl
    | error h => exact .error h
  · cases h with
    | next h hgive =>
      cases hgive
      rw [List.append_nil]
      exact .condition h
    | error h => exact .error h

/-- The right side of a connective is evaluated when the left side does not decide. -/
theorem computes_connective {op : BinaryOp} {b : Bool} (hop : op.decisive? = some b)
    (left right : Expr) : ev.Computes (.binary op left right) depth =
      AndThen (ev.Decides left (depth + 1)) fun c => if c = b then Give (.ok (.bool b))
        else AndThen (ev.Decides right (depth + 1)) fun c' => Give (.ok (.bool c')) := by
  refine Behaviour.ext fun w t r w' => ⟨fun h => ?_, fun h => ?_⟩
  · cases h with
    | strict h | leftError _ h | rightError h => cases hop.symm.trans h
    | decided _ h hl =>
      cases hop.symm.trans h
      exact .give hl (if_pos rfl)
    | @undecided _ _ _ _ _ _ _ _ _ _ r h hl hr =>
      cases hop.symm.trans h
      refine .next hl ?_
      rw [if_neg (by simp)]
      cases r with
      | ok c => exact .give hr rfl
      | error er => exact .error hr
    | undecidable _ h hl => exact .error hl
  · cases h with
    | @next _ _ _ _ _ c _ hl h =>
      by_cases hc : c = b
      · rw [if_pos hc] at h
        cases h
        rw [List.append_nil]
        exact .decided right hop (hc ▸ hl)
      · obtain rfl := Bool.eq_not.2 hc
        rw [if_neg hc] at h
        cases h with
        | next hr hgive =>
          cases hgive
          rw [List.append_nil]
          exact .undecided hop hl hr
        | error hr => exact .undecided hop hl hr
    | error hl => exact .undecidable right hop hl

theorem chooses_eq (c x y : Expr) (depth : Nat) : ev.Chooses c x y depth =
    AndThen (ev.Decides c depth) fun b => ev.Evaluates (if b then x else y) depth := by
  refine Behaviour.ext fun w t r w' => ⟨fun h => ?_, fun h => ?_⟩
  · cases h with
    | branch hc hbranch => exact .next hc hbranch
    | error _ _ hc => exact .error hc
  · cases h with
    | next hc hbranch => exact .branch hc hbranch
    | error hc => exact .error x y hc

theorem computes_conditional (c x y : Expr) :
    ev.Computes (.conditional c x y) depth = ev.Chooses c x y (depth + 1) := by
  refine Behaviour.ext fun w t r w' => ⟨fun h => ?_, .conditional⟩
  cases h with
  | conditional h => exact h

section

variable {name : String} {f : Function σ}

/-- The arguments of a choice are one level deeper than those of other functions. -/
theorem computes_select (hf : ev.functions[name]? = some f) (hselect : f.isSelect = true)
    (c x y : Expr) : ev.Computes (.call name [c, x, y]) depth = ev.Chooses c x y (depth + 2) := by
  have hselects : Expr.selects ev.functions name ≠ false := by
    rw [Expr.selects_of_some hf, hselect]
    decide
  refine Behaviour.ext fun w t r w' => ⟨fun h => ?_, .select hf hselect⟩
  cases h with
  | select _ _ h => exact h
  | selectArity _ _ _ _ hargs => exact absurd rfl hargs
  | argumentError heager | call heager => exact absurd heager hselects

/-- A choice that has not three arguments evaluates none of them. -/
theorem computes_selectArity (hf : ev.functions[name]? = some f) (hselect : f.isSelect = true)
    {args : List Expr} (hargs : args.length ≠ 3) : ev.Computes (.call name args) depth =
      Give (.error (.arity name f.minArgs f.maxArgs args.length)) := by
  have hselects : Expr.selects ev.functions name ≠ false := by
    rw [Expr.selects_of_some hf, hselect]
    decide
  refine Behaviour.ext fun w t r w' => ⟨fun h => ?_, fun h => ?_⟩
  · cases h with
    | select => exact absurd rfl hargs
    | selectArity _ _ hg =>
      cases hf.symm.trans hg
      exact .intro
    | argumentError heager | call heager => exact absurd heager hselects
  · cases h
    exact .selectArity depth w hf hselect hargs

/-- A function that does not choose is looked for when its arguments are evaluated. -/
theorem computes_call (heager : Expr.selects ev.functions name = false) (args : List Expr) :
    ev.Computes (.call name args) depth =
      AndThen (ev.EvaluatesAll args (depth + 1)) (ev.Applies name) := by
  refine Behaviour.ext fun w t r w' => ⟨fun h => ?_, fun h => ?_⟩
  · cases h with
    | select hg hselect | selectArity _ _ hg hselect =>
      rw [Expr.selects_of_some hg, hselect] at heager
      cases heager
    | argumentError _ hargs => exact .error hargs
    | call _ hargs happlies => exact .next hargs happlies
  · cases h with
    | next hargs happlies => exact .call heager hargs happlies
    | error hargs => exact .argumentError heager hargs

variable {vs : List Value}

theorem applies_unknownFunction (hf : ev.functions[name]? = none) :
    ev.Applies name vs = Give (.error (.unknownFunction name)) := by
  refine Behaviour.ext fun w t r w' => ⟨fun h => ?_, fun h => ?_⟩
  · cases h with
    | unknownFunction => exact .intro
    | arity _ hg | run hg => cases hf.symm.trans hg
  · cases h
    exact .unknownFunction w hf

theorem applies_arity (hf : ev.functions[name]? = some f) (haccepts : f.accepts vs.length = false) :
    ev.Applies name vs = Give (.error (.arity name f.minArgs f.maxArgs vs.length)) := by
  refine Behaviour.ext fun w t r w' => ⟨fun h => ?_, fun h => ?_⟩
  · cases h with
    | unknownFunction _ hg => cases hf.symm.trans hg
    | arity _ hg =>
      cases hf.symm.trans hg
      exact .intro
    | run hg hg' =>
      cases hf.symm.trans hg
      cases haccepts.symm.trans hg'
  · cases h
    exact .arity w hf haccepts

theorem applies_run (hf : ev.functions[name]? = some f) (haccepts : f.accepts vs.length = true) :
    ev.Applies name vs = AndThen (ev.Runs name f vs) fun result => Give (returned name result) := by
  refine Behaviour.ext fun w t r w' => ⟨fun h => ?_, fun h => ?_⟩
  · cases h with
    | unknownFunction _ hg => cases hf.symm.trans hg
    | arity _ hg hg' =>
      cases hf.symm.trans hg
      cases haccepts.symm.trans hg'
    | run hg _ hrun =>
      cases hf.symm.trans hg
      exact .give (.intro hrun) rfl
  · cases h with
    | next hruns hgive =>
      cases hgive
      cases hruns with
      | intro hrun => exact .run hf haccepts hrun
    | error hruns => cases hruns

end

theorem evaluatesAll_nil : ev.EvaluatesAll [] depth = Give (.ok []) := by
  refine Behaviour.ext fun w t r w' => ⟨fun h => ?_, fun h => ?_⟩ <;> cases h <;> constructor

theorem evaluatesAll_cons (e : Expr) (es : List Expr) : ev.EvaluatesAll (e :: es) depth =
    AndThen (ev.Evaluates e depth) fun v =>
      AndThen (ev.EvaluatesAll es depth) fun vs => Give (.ok (v :: vs)) := by
  refine Behaviour.ext fun w t r w' => ⟨fun h => ?_, fun h => ?_⟩
  · cases h with
    | @cons _ _ _ _ _ _ _ _ _ r h hrest =>
      refine .next h ?_
      cases r with
      | ok vs => exact .give hrest rfl
      | error er => exact .error hrest
    | error _ h => exact .error h
  · cases h with
    | next h hnext =>
      cases hnext with
      | next hrest hgive =>
        cases hgive
        rw [List.append_nil]
        exact .cons h hrest
      | error hrest => exact .cons h hrest
    | error h => exact .error es h

end Evaluator

end Parametric
