import Parametric.Formula.Eval
import Parametric.Proofs.Formula.Parser

/-!
# The numbers that an evaluation gives

Operators and calls give finite numbers only, whatever functions there are, and finite stores are
read as they are. So a number that is not finite can only come from a literal that is too great, by
way of signs and of the branches that are taken (`Expr.Delivers`): such a literal is not looked at.

A step of a pass `Gives` results with a property, from every pass that has read finite numbers only,
and the pass that it leaves has read such numbers as well. What an evaluation gives is `Tame`: finite
or delivered by a literal (`eval_gives`).
-/

namespace Parametric

namespace Number

/-- What a numeral that is too great reads as. -/
def infinity : Number := double (Decimal.ofCode false Decimal.infinityCode)

theorem finite_iff (n : Number) : n.Finite ↔ n.toFloat.isFinite = true :=
  (Decimal.isFinite_iff _).symm

theorem Finite.neg {n : Number} (h : n.Finite) : n.neg.Finite := by
  cases n with
  | negativeNaN => exact absurd h (by decide)
  | double x =>
    have hnumber : x.isNaN = false := by
      rw [Float.isNaN_eq_decide_eq_nan, decide_eq_false_iff_not]
      rintro rfl
      exact absurd h (by decide)
    rw [Number.neg, hnumber]
    exact (Decimal.codeOf_neg x).trans_lt h

theorem Unsigned.eq_infinity {n : Number} (h : n.Unsigned) (hfinite : ¬n.Finite) : n = infinity := by
  obtain ⟨x, rfl, hsign⟩ := h.exists_double
  have hcode : Decimal.codeOf x = Decimal.infinityCode :=
    Nat.le_antisymm h.2 (Nat.not_lt.1 hfinite)
  rw [infinity, ← hcode, Decimal.ofCode_codeOf hsign]

/-- Infinity with a sign keeps to itself. -/
theorem neg_neg_infinity : infinity.neg.neg = infinity := by decide

end Number

/-- A value that is a number is a finite one. -/
def Value.Finite (v : Value) : Prop := ∀ n, v = .number n → n.Finite

/-- All numbers in the stores are finite. -/
structure Stores.Finite (s : Stores) : Prop where
  objects : ∀ id (o : Object) path v,
    s.objects.get? id = some o → o.value? path = some v → v.Finite
  vars : ∀ (slot : Slot) (v : Value), s.vars[slot]? = some v → v.Finite

namespace Stores.Finite

variable {s : Stores} (h : s.Finite) {view : Viewpoint} {v : Value}
include h

theorem variableOf {name : String} (hv : s.variableOf view name = .ok v) : v.Finite := by
  unfold Stores.variableOf at hv
  split at hv
  next w hw =>
    obtain rfl := Except.ok.inj hv
    obtain ⟨scope, -, hscope⟩ := List.exists_of_findSome?_eq_some hw
    unfold variableIn? at hscope
    split at hscope
    · exact h.vars _ _ hscope
    · cases hscope
  next => cases hv

theorem propertyOf {reference : String} {path : Path}
    (hv : s.propertyOf view reference path = .ok v) : v.Finite := by
  obtain ⟨o, ho, hv⟩ := Run.ok_of_bind hv
  split at hv
  next w hw =>
    obtain rfl := Except.ok.inj hv
    unfold objectOf at ho
    split at ho
    next o' ho' =>
      obtain rfl := Except.ok.inj ho
      obtain ⟨id, -, hget⟩ := Option.bind_eq_some_iff.1 ho'
      exact h.objects id o' path w hget hw
    next => cases ho
  next => cases hv

end Stores.Finite

/-! ## Operators and calls -/

namespace BinaryOp

theorem finite_of_finite {op : BinaryOp} {x : Float} {v : Value} (h : op.finite x = .ok v) :
    v.Finite := by
  unfold finite at h
  split at h
  next hx =>
    obtain rfl := Except.ok.inj h
    rintro n ⟨⟩
    exact (Number.finite_iff _).2 hx
  next => cases h

theorem finite_of_arithmetic {op : BinaryOp} {f : Float → Float → Float} {v w r : Value}
    (h : op.arithmetic f v w = .ok r) : r.Finite := by
  unfold arithmetic at h
  split at h
  · exact finite_of_finite h
  · cases h

theorem finite_of_division {op : BinaryOp} {f : Float → Float → Float} {v w r : Value}
    (h : op.division f v w = .ok r) : r.Finite := by
  unfold division at h
  split at h
  · split at h
    · cases h
    · exact finite_of_finite h
  · cases h

theorem finite_of_connective {op : BinaryOp} {f : Bool → Bool → Bool} {v w r : Value}
    (h : op.connective f v w = .ok r) : r.Finite := by
  unfold connective at h
  split at h
  · obtain rfl := Except.ok.inj h
    rintro n ⟨⟩
  · cases h

theorem finite_of_equality {op : BinaryOp} {wanted : Bool} {v w r : Value}
    (h : op.equality wanted v w = .ok r) : r.Finite := by
  unfold equality at h
  split at h
  · obtain rfl := Except.ok.inj h
    rintro n ⟨⟩
  · cases h

theorem finite_of_order {op : BinaryOp} {v w r : Value} (h : op.order v w = .ok r) : r.Finite := by
  unfold order at h
  split at h <;> cases h <;> rintro n ⟨⟩

theorem finite_of_addition {v w r : Value} (h : addition v w = .ok r) : r.Finite := by
  unfold addition at h
  split at h
  · obtain rfl := Except.ok.inj h
    rintro n ⟨⟩
  · exact finite_of_arithmetic h

/-- An operator gives finite numbers, also on operands that are not finite. -/
theorem finite_of_apply {op : BinaryOp} {v w r : Value} (h : op.apply v w = .ok r) : r.Finite := by
  cases op with
  | or | and => exact finite_of_connective h
  | eq | ne => exact finite_of_equality h
  | lt | gt | le | ge => exact finite_of_order h
  | add => exact finite_of_addition h
  | sub | mul => exact finite_of_arithmetic h
  | div | rem => exact finite_of_division h

end BinaryOp

/-! ## Literals that are handed on -/

/-- The value of an expression may be a number that is one of its literals: the expression is that
literal, gives it another sign, or chooses between expressions of which one does so. -/
inductive Expr.Delivers {σ : Type} (functions : Registry σ) : Number → Expr → Prop
  | literal (n : Number) : Delivers functions n (.literal (.number n))
  | neg {n : Number} {x : Expr} (h : Delivers functions n x) :
    Delivers functions n.neg (.unary .neg x)
  | thenBranch {n : Number} {t : Expr} (c e : Expr) (h : Delivers functions n t) :
    Delivers functions n (.conditional c t e)
  | elseBranch {n : Number} {e : Expr} (c t : Expr) (h : Delivers functions n e) :
    Delivers functions n (.conditional c t e)
  | selectThen {n : Number} {t : Expr} {name : String} {f : Function σ} (c e : Expr)
    (hf : functions[name]? = some f) (hselect : f.isSelect = true) (h : Delivers functions n t) :
    Delivers functions n (.call name [c, t, e])
  | selectElse {n : Number} {e : Expr} {name : String} {f : Function σ} (c t : Expr)
    (hf : functions[name]? = some f) (hselect : f.isSelect = true) (h : Delivers functions n e) :
    Delivers functions n (.call name [c, t, e])

namespace Expr

variable {σ : Type} {functions : Registry σ}

/-- What a lexical tree hands on is a finite literal or, with a sign, one that is too great. -/
theorem Delivers.finite_or {n : Number} {e : Expr} (h : e.Delivers functions n)
    (hlexical : e.Lexical) :
    n.Finite ∨ ¬e.Finite ∧ (n = .infinity ∨ n = Number.infinity.neg) := by
  induction h with
  | literal n =>
    by_cases hfinite : n.Finite
    · exact .inl hfinite
    · exact .inr ⟨fun h => hfinite (all_literal.1 h),
        .inl (Number.Unsigned.eq_infinity (all_literal.1 hlexical) hfinite)⟩
  | neg h ih =>
    obtain hfinite | ⟨hnot, rfl | rfl⟩ := ih (all_unary.1 hlexical).2
    · exact .inl hfinite.neg
    · exact .inr ⟨fun h => hnot (all_unary.1 h).2, .inr rfl⟩
    · exact .inr ⟨fun h => hnot (all_unary.1 h).2, .inl Number.neg_neg_infinity⟩
  | thenBranch c e h ih =>
    exact (ih (all_conditional.1 hlexical).2.2.1).imp_right
      (And.imp_left fun hnot h => hnot (all_conditional.1 h).2.2.1)
  | elseBranch c t h ih =>
    exact (ih (all_conditional.1 hlexical).2.2.2).imp_right
      (And.imp_left fun hnot h => hnot (all_conditional.1 h).2.2.2)
  | selectThen c e hf hselect h ih =>
    exact (ih ((all_call.1 hlexical).2 _ (by simp))).imp_right
      (And.imp_left fun hnot h => hnot ((all_call.1 h).2 _ (by simp)))
  | selectElse c t hf hselect h ih =>
    exact (ih ((all_call.1 hlexical).2 _ (by simp))).imp_right
      (And.imp_left fun hnot h => hnot ((all_call.1 h).2 _ (by simp)))

end Expr

/-! ## Passes -/

namespace Evaluator

variable {σ : Type} {ev : Evaluator σ}

/-- The numbers that a pass has read are finite. -/
def HasRead (p : Pass σ) : Prop := ∀ r v, p.memo.lookup r = some v → v.Finite

/-- A step of a pass gives results with a property from every pass that has read finite numbers, and
leaves such a pass. -/
def Gives {α : Type} (P : α → Prop) (m : EvalM σ α) : Prop :=
  ∀ p : Pass σ, HasRead p → (∀ a, (m.run p).1 = .ok a → P a) ∧ HasRead (m.run p).2

namespace Gives

variable {α β : Type} {P : α → Prop} {Q : β → Prop}

/-- A step that leaves the memo. -/
theorem of_memo {m : EvalM σ α} (hmemo : ∀ p : Pass σ, (m.run p).2.memo = p.memo)
    (h : ∀ p a, (m.run p).1 = .ok a → P a) : Gives P m :=
  fun p hp => ⟨h p, fun r v hv => hp r v (hmemo p ▸ hv)⟩

theorem pure {a : α} (h : P a) : Gives P (pure a : EvalM σ α) :=
  .of_memo (fun _ => rfl) fun _ _ ha => Except.ok.inj ha ▸ h

theorem mono {P' : α → Prop} {m : EvalM σ α} (hm : Gives P m) (h : ∀ a, P a → P' a) : Gives P' m :=
  fun p hp => ⟨fun a ha => h a ((hm p hp).1 a ha), (hm p hp).2⟩

theorem throw (e : EvalError) : Gives P (throw e : EvalM σ α) :=
  .of_memo (fun _ => rfl) fun _ _ ha => nomatch ha

theorem lift {result : Except EvalError α} (h : ∀ a, result = .ok a → P a) :
    Gives P (liftM result : EvalM σ α) := by
  cases result with
  | ok a => exact .pure (h a rfl)
  | error e => exact .throw e

theorem bind {m : EvalM σ α} {k : α → EvalM σ β} (hm : Gives P m) (hk : ∀ a, P a → Gives Q (k a)) :
    Gives Q (m >>= k) := by
  intro p hp
  obtain ⟨hresult, hmemo⟩ := hm p hp
  rw [Run.run_bind]
  cases hrun : m.run p with
  | mk result p' =>
    rw [hrun] at hresult hmemo
    cases result with
    | error e => exact ⟨fun _ h => (nomatch h), hmemo⟩
    | ok a => exact hk a (hresult a rfl) p' hmemo

theorem ite {c : Prop} [Decidable c] {m n : EvalM σ α} (hm : Gives P m) (hn : Gives P n) :
    Gives P (if c then m else n) := by
  split
  · exact hm
  · exact hn

end Gives

theorem checkTime_gives : Gives (fun _ => True) ev.checkTime := by
  refine .of_memo (fun p => ?_) fun _ _ _ => trivial
  unfold checkTime
  rw [Run.run_bind, Run.run_get]
  dsimp only
  split <;> rfl

theorem enter_gives (depth : Nat) : Gives (fun _ => True) (ev.enter depth) := by
  unfold enter
  split
  · exact (Gives.throw (P := fun _ => True) _).bind fun _ _ => checkTime_gives
  · exact checkTime_gives

theorem read_gives (hstores : ev.stores.Finite) (r : Reading) :
    Gives Value.Finite (ev.read r) := by
  intro p hp
  unfold read
  rw [Run.run_bind, Run.run_get]
  dsimp only
  cases hmemo : p.memo.lookup r with
  | some v =>
    refine ⟨fun w hw => ?_, hp⟩
    obtain rfl : v = w := Except.ok.inj hw
    exact hp r v hmemo
  | none =>
    cases hresolve : ev.resolve r with
    | error e => exact ⟨fun _ h => (nomatch h), hp⟩
    | ok v =>
      have hv : v.Finite := by
        cases r with
        | variableNamed name => exact hstores.variableOf hresolve
        | propertyOf reference path => exact hstores.propertyOf hresolve
      refine ⟨fun w hw => ?_, fun s w hw => ?_⟩
      · obtain rfl : v = w := Except.ok.inj hw
        exact hv
      change List.lookup s ((r, v) :: p.memo) = some w at hw
      rw [List.lookup_cons] at hw
      split at hw
      · exact Option.some.inj hw ▸ hv
      · exact hp s w hw

/-- What a function returned is looked at, whatever function it is. -/
theorem finite_of_returned {name : String} {result : Except FunctionFault Value} {v : Value}
    (h : returned name result = .ok v) : v.Finite := by
  unfold returned at h
  split at h
  · cases h
  · split at h
    next hn =>
      obtain rfl := Except.ok.inj h
      rintro n ⟨⟩
      exact (Number.finite_iff _).2 hn
    next => cases h
  next hv =>
    obtain rfl := Except.ok.inj h
    rintro n rfl
    exact absurd rfl (hv n)

theorem answer_gives (query : Query) : Gives (fun _ => True) (ev.answer query) := by
  refine .of_memo (fun p => ?_) fun _ _ _ => trivial
  unfold answer
  rw [Run.run_bind, Run.run_get]
  dsimp only
  cases query.key (ev.call p.spent) with
  | error fault => rfl
  | ok key =>
    cases p.answers with
    | none => rfl
    | some cache =>
      dsimp only
      split
      · rfl
      · cases Query.answer (ev.call p.spent) key <;> rfl

theorem runBody_gives (f : Function σ) (args : List Value) :
    Gives (fun _ => True) (ev.runBody f args) := by
  unfold runBody
  cases f.body with
  | compute run => exact .of_memo (fun _ => rfl) fun _ _ _ => trivial
  | ask query => exact answer_gives query
  | host run => exact .of_memo (fun _ => rfl) fun _ _ _ => trivial
  | select => exact .pure trivial

theorem apply_gives (name : String) (args : List Value) :
    Gives Value.Finite (ev.apply name args) := by
  unfold apply
  cases ev.functions[name]? with
  | none => exact .throw _
  | some f =>
    exact .ite ((runBody_gives f args).bind fun _ _ => checkTime_gives.bind fun _ _ =>
      .lift fun _ h => finite_of_returned h) (.throw _)

/-! ## Expressions -/

/-- A value that an expression may have: a number is finite, or one of its literals. -/
def Tame (ev : Evaluator σ) (e : Expr) (v : Value) : Prop :=
  ∀ n, v = .number n → n.Finite ∨ e.Delivers ev.functions n

theorem Tame.of_finite {e : Expr} {v : Value} (h : v.Finite) : ev.Tame e v :=
  fun n hn => .inl (h n hn)

/-- An expression hands on what another one hands on. -/
theorem Tame.imp {e e' : Expr} {v : Value} (h : ev.Tame e v)
    (himp : ∀ n, e.Delivers ev.functions n → e'.Delivers ev.functions n) : ev.Tame e' v :=
  fun n hn => (h n hn).imp_right (himp n)

theorem Tame.unary {op : UnaryOp} {e : Expr} {v w : Value} (h : ev.Tame e v)
    (happly : op.apply v = .ok w) : ev.Tame (.unary op e) w := by
  unfold UnaryOp.apply at happly
  split at happly
  · obtain rfl := Except.ok.inj happly
    rintro n ⟨⟩
  next m =>
    obtain rfl := Except.ok.inj happly
    rintro n ⟨⟩
    exact (h m rfl).imp Number.Finite.neg .neg
  · cases happly
  · cases happly

theorem condition_gives (v : Value) : Gives (fun _ => True) (liftM v.condition : EvalM σ Bool) :=
  .lift fun _ _ => trivial

theorem tame_bool (e : Expr) (b : Bool) : ev.Tame e (.bool b) := fun _ h => nomatch h

mutual

/-- The value of an expression is finite or one of its literals. -/
theorem eval_gives (hstores : ev.stores.Finite) (e : Expr) (depth : Nat) :
    Gives (ev.Tame e) (ev.eval e depth) := by
  match e with
  | .literal v =>
    rw [eval]
    refine (enter_gives depth).bind fun _ _ => .pure ?_
    rintro n rfl
    exact .inr (.literal n)
  | .var name | .reference object path =>
    rw [eval]
    exact (enter_gives depth).bind fun _ _ => (read_gives hstores _).mono fun _ => .of_finite
  | .unary op operand =>
    rw [eval]
    exact (enter_gives depth).bind fun _ _ => (eval_gives hstores operand (depth + 1)).bind
      fun _ hv => .lift fun _ => hv.unary
  | .binary op left right =>
    have hl := eval_gives hstores left (depth + 1)
    have hr := eval_gives hstores right (depth + 1)
    cases op with
    | and =>
      rw [eval]
      refine (enter_gives depth).bind fun _ _ => hl.bind fun _ _ =>
        (condition_gives _).bind fun _ _ => .ite ?_ (.pure (tame_bool _ _))
      exact hr.bind fun _ _ => (condition_gives _).bind fun _ _ => .pure (tame_bool _ _)
    | or =>
      rw [eval]
      refine (enter_gives depth).bind fun _ _ => hl.bind fun _ _ =>
        (condition_gives _).bind fun _ _ => .ite (.pure (tame_bool _ _)) ?_
      exact hr.bind fun _ _ => (condition_gives _).bind fun _ _ => .pure (tame_bool _ _)
    | _ =>
      simp only [eval]
      exact (enter_gives depth).bind fun _ _ => hl.bind fun _ _ => hr.bind fun _ _ =>
        .lift fun _ h => .of_finite (BinaryOp.finite_of_apply h)
  | .conditional c t e =>
    rw [eval]
    refine (enter_gives depth).bind fun _ _ => (eval_gives hstores c (depth + 1)).bind fun _ _ =>
      (condition_gives _).bind fun _ _ => .ite ?_ ?_
    · exact (eval_gives hstores t (depth + 1)).mono fun _ h => h.imp fun _ => .thenBranch c e
    · exact (eval_gives hstores e (depth + 1)).mono fun _ h => h.imp fun _ => .elseBranch c t
  | .call name args =>
    have hcall : Gives (ev.Tame (.call name args)) (ev.evalAll args (depth + 1) >>= ev.apply name) :=
      (evalAll_gives hstores args (depth + 1)).bind fun vs _ =>
        (apply_gives name vs).mono fun _ => .of_finite
    rw [eval]
    refine (enter_gives depth).bind fun _ _ => ?_
    cases hf : ev.functions[name]? with
    | none => exact hcall
    | some f =>
      dsimp only
      split
      next hselect =>
        -- A selection hands on the value of the branch taken as it is.
        match args with
        | [c, t, e] =>
          refine (eval_gives hstores c (depth + 2)).bind fun _ _ =>
            (condition_gives _).bind fun _ _ => .ite ?_ ?_
          · exact (eval_gives hstores t (depth + 2)).mono fun _ h =>
              h.imp fun _ => .selectThen c e hf hselect
          · exact (eval_gives hstores e (depth + 2)).mono fun _ h =>
              h.imp fun _ => .selectElse c t hf hselect
        | [] | [_] | [_, _] | _ :: _ :: _ :: _ :: _ => exact .throw _
      next => exact hcall

theorem evalAll_gives (hstores : ev.stores.Finite) (es : List Expr) (depth : Nat) :
    Gives (fun _ => True) (ev.evalAll es depth) := by
  match es with
  | [] =>
    unfold evalAll
    exact .pure trivial
  | e :: es =>
    unfold evalAll
    exact (eval_gives hstores e depth).bind fun _ _ =>
      (evalAll_gives hstores es depth).bind fun _ _ => .pure trivial

end

/-- A pass over an expression gives a finite number or one of its literals. -/
theorem evaluate_tame (hstores : ev.stores.Finite) (e : Expr)
    (answers : Option (Cache QueryKey Value)) (host : σ) {v : Value}
    (h : (ev.evaluate e answers host).1 = .ok v) : ev.Tame e v :=
  (eval_gives hstores e 1 ⟨[], 0, answers, host⟩ fun _ _ hv => nomatch hv).1 v h

/-- The number that a formula gives in finite stores is finite unless one of its literals is too
great. Otherwise it is that literal, infinite, which the formula hands on through signs and branches;
it is never `NaN`. -/
theorem evaluate_finite_or_delivered {source : String} {e : Expr}
    (hsource : Expr.ofSource source = .ok e) (ev : Evaluator σ) (hstores : ev.stores.Finite)
    (answers : Option (Cache QueryKey Value)) (host : σ) {n : Number}
    (h : (ev.evaluate e answers host).1 = .ok (.number n)) :
    n.toFloat.isFinite = true ∨
      ¬e.Finite ∧ (n = .infinity ∨ n = Number.infinity.neg) ∧ e.Delivers ev.functions n := by
  obtain hfinite | hdelivers := evaluate_tame hstores e answers host h n rfl
  · exact .inl (n.finite_iff.1 hfinite)
  · obtain hfinite | ⟨hnot, hinfinite⟩ := hdelivers.finite_or (Expr.lexical_of_ofSource hsource)
    · exact .inl (n.finite_iff.1 hfinite)
    · exact .inr ⟨hnot, hinfinite, hdelivers⟩

/-- A numeral that is too great compiles, and its value in empty stores is infinite. -/
theorem numeral_delivered :
    let ev : Evaluator Unit := ⟨∅, 100, 1000, 1000, ⟨{}, ∅⟩, ⟨"a", none, none⟩, 0⟩
    ∃ e, Expr.ofSource "1e400" = .ok e ∧ ev.stores.Finite ∧
      (ev.evaluate e none ()).1 = .ok (.number .infinity) ∧
      Number.infinity.toFloat.isFinite = false ∧ ¬e.Finite ∧
      e.Delivers ev.functions .infinity := by
  intro ev
  have hvalue : (Expr.ofSource "1e400").toOption.any
      fun e => decide ((ev.evaluate e none ()).1 = .ok (.number .infinity)) := by decide +kernel
  have hinfinite : Number.infinity.toFloat.isFinite = false := by decide
  have hstores : ev.stores.Finite := by
    constructor
    · intro id o path v ho
      exact absurd ho (by simp [ev, ObjectTable.get?])
    · intro slot v hv
      exact absurd hv (by simp [ev])
  cases hsource : Expr.ofSource "1e400" with
  | error e =>
    rw [hsource] at hvalue
    cases hvalue
  | ok e =>
    rw [hsource] at hvalue
    have hvalue := of_decide_eq_true hvalue
    obtain hfinite | ⟨hnot, -, hdelivers⟩ :=
      evaluate_finite_or_delivered hsource ev hstores none () hvalue
    · exact absurd (hinfinite.symm.trans hfinite) Bool.false_ne_true
    · exact ⟨e, rfl, hstores, hvalue, hinfinite, hnot, hdelivers⟩

end Evaluator

end Parametric
