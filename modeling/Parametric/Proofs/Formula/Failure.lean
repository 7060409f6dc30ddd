import Parametric.Formula.Eval
import Parametric.Proofs.Run

/-!
# What evaluations fail with

An evaluation fails because it runs out of time, because it gets too deep, or because of what one of
the nodes of the expression fails with by itself (`Evaluator.RaisedAt`). It gets too deep only when
its limit is less than the weight of the expression (`Expr.weight`), which is the number of nested
nodes, where a choice by a function counts for two.

A step of a pass `Throws` errors with a property when it fails with such errors only, from every
pass. What a step fails with is read off the steps that it is made of; `eval_throws` does so for
expressions and `error_of_evaluate` for whole passes.
-/

namespace Parametric

/-! ## Operands -/

/-- An error about the values of operands. -/
inductive EvalError.OfOperands : EvalError → Prop
  | divisionByZero : OfOperands .divisionByZero
  | mismatch (op : BinaryOp) (left right : Kind) : OfOperands (.mismatch op left right)
  | unexpectedKind (expected got : Kind) : OfOperands (.unexpectedKind expected got)
  | nonFinite (op : BinaryOp) : OfOperands (.nonFinite op)

namespace BinaryOp

variable {op : BinaryOp} {v w : Value} {e : EvalError}

theorem ofOperands_of_finite {x : Float} (h : op.finite x = .error e) : e.OfOperands := by
  unfold finite at h
  split at h <;> cases h
  exact .nonFinite op

theorem ofOperands_of_arithmetic {f : Float → Float → Float} (h : op.arithmetic f v w = .error e) :
    e.OfOperands := by
  unfold arithmetic at h
  split at h
  · exact ofOperands_of_finite h
  · cases h
    exact .mismatch ..

theorem ofOperands_of_division {f : Float → Float → Float} (h : op.division f v w = .error e) :
    e.OfOperands := by
  unfold division at h
  split at h
  · split at h
    · cases h
      exact .divisionByZero
    · exact ofOperands_of_finite h
  · cases h
    exact .mismatch ..

theorem ofOperands_of_connective {f : Bool → Bool → Bool} (h : op.connective f v w = .error e) :
    e.OfOperands := by
  unfold connective at h
  split at h <;> cases h
  exact .mismatch ..

theorem ofOperands_of_equality {wanted : Bool} (h : op.equality wanted v w = .error e) :
    e.OfOperands := by
  unfold equality at h
  split at h <;> cases h
  exact .mismatch ..

theorem ofOperands_of_order (h : op.order v w = .error e) : e.OfOperands := by
  unfold order at h
  split at h <;> cases h
  exact .mismatch ..

theorem ofOperands_of_addition (h : addition v w = .error e) : e.OfOperands := by
  unfold addition at h
  split at h
  · cases h
  · exact ofOperands_of_arithmetic h

/-- An operator fails because of its operands. -/
theorem ofOperands_of_apply (h : op.apply v w = .error e) : e.OfOperands := by
  cases op with
  | or | and => exact ofOperands_of_connective h
  | eq | ne => exact ofOperands_of_equality h
  | lt | gt | le | ge => exact ofOperands_of_order h
  | add => exact ofOperands_of_addition h
  | sub | mul => exact ofOperands_of_arithmetic h
  | div | rem => exact ofOperands_of_division h

end BinaryOp

theorem UnaryOp.ofOperands_of_apply {op : UnaryOp} {v : Value} {e : EvalError}
    (h : op.apply v = .error e) : e.OfOperands := by
  unfold UnaryOp.apply at h
  split at h <;> cases h <;> exact .unexpectedKind ..

theorem Value.ofOperands_of_condition {v : Value} {e : EvalError} (h : v.condition = .error e) :
    e.OfOperands := by
  unfold Value.condition at h
  split at h <;> cases h
  exact .unexpectedKind ..

namespace Expr

theorem mem_nodes_self (e : Expr) : e ∈ e.nodes := by
  cases e <;> simp [nodes]

/-! ## Weight -/

variable {σ : Type} (functions : Registry σ)

/-- The function of a name chooses between branches. -/
def selects (name : String) : Bool := functions[name]?.any Function.isSelect

mutual

/-- The number of levels that the evaluation of an expression may take. -/
def weight : Expr → Nat
  | literal _ | var _ | reference _ _ => 1
  | unary _ operand => 1 + weight operand
  | binary _ left right => 1 + max (weight left) (weight right)
  | conditional c t e => 1 + max (weight c) (max (weight t) (weight e))
  | call name args =>
    if selects functions name then if args.length = 3 then 2 + greatestWeight args else 1
    else 1 + greatestWeight args

/-- The greatest weight of some expressions. -/
def greatestWeight : List Expr → Nat
  | [] => 0
  | e :: es => max (weight e) (greatestWeight es)

end

theorem weight_pos (e : Expr) : 0 < e.weight functions := by
  cases e with
  | call name args =>
    unfold weight
    split
    · split <;> omega
    · omega
  | _ =>
    unfold weight
    omega

variable {functions}

theorem selects_of_some {name : String} {f : Function σ} (hf : functions[name]? = some f) :
    selects functions name = f.isSelect := by
  rw [selects, hf, Option.any_some]

theorem weight_eager {name : String} (h : ∀ f, functions[name]? = some f → f.isSelect = false)
    (args : List Expr) : (call name args).weight functions = 1 + greatestWeight functions args := by
  have hselects : selects functions name = false := by
    cases hf : functions[name]? with
    | none => rw [selects, hf, Option.any_none]
    | some f => rw [selects_of_some hf, h f hf]
  rw [weight, hselects]
  rfl

theorem weight_select {name : String} {f : Function σ} (hf : functions[name]? = some f)
    (hselect : f.isSelect = true) (c t e : Expr) :
    (call name [c, t, e]).weight functions =
      2 + max (c.weight functions) (max (t.weight functions) (e.weight functions)) := by
  rw [weight, selects_of_some hf, hselect]
  simp [greatestWeight]

end Expr

namespace Evaluator

variable {σ : Type} {ev : Evaluator σ}

/-! ## Steps that fail -/

/-- A step of a pass fails with errors that have a property, from whatever pass it is run. -/
def Throws {α : Type} (E : EvalError → Prop) (m : EvalM σ α) : Prop :=
  ∀ (p : Pass σ) (e : EvalError), (m.run p).1 = .error e → E e

namespace Throws

variable {α β : Type} {E : EvalError → Prop}

theorem pure (a : α) : Throws E (pure a : EvalM σ α) := fun _ _ h => nomatch h

theorem throw {e : EvalError} (h : E e) : Throws E (throw e : EvalM σ α) :=
  fun _ _ he => Except.error.inj he ▸ h

theorem lift {result : Except EvalError α} (h : ∀ e, result = .error e → E e) :
    Throws E (liftM result : EvalM σ α) := by
  cases result with
  | ok a => exact .pure a
  | error e => exact .throw (h e rfl)

/-- What comes after a step is only run on what the step gives. -/
theorem bind_of_gives {m : EvalM σ α} {k : α → EvalM σ β} (hm : Throws E m)
    (hk : ∀ (p : Pass σ) (a : α), (m.run p).1 = .ok a → Throws E (k a)) :
    Throws E (m >>= k) := by
  intro p e h
  have hfails := hm p
  have hgives := hk p
  rw [Run.run_bind] at h
  cases hrun : m.run p with
  | mk result p' =>
    rw [hrun] at h hfails hgives
    cases result with
    | error e' =>
      cases h
      exact hfails e rfl
    | ok a => exact hgives a rfl p' e h

theorem bind {m : EvalM σ α} {k : α → EvalM σ β} (hm : Throws E m) (hk : ∀ a, Throws E (k a)) :
    Throws E (m >>= k) := hm.bind_of_gives fun _ a _ => hk a

theorem ite {c : Prop} [Decidable c] {m n : EvalM σ α} (hm : Throws E m) (hn : Throws E n) :
    Throws E (if c then m else n) := by
  split
  · exact hm
  · exact hn

end Throws

variable {E : EvalError → Prop}

theorem run_checkTime (p : Pass σ) : ev.checkTime.run p =
    (if ev.budget ≤ p.spent then .error (.timeout ev.budget) else .ok (), p) := by
  unfold checkTime
  rw [Run.run_bind, Run.run_get]
  dsimp only
  split <;> rfl

theorem checkTime_throws (htime : E (.timeout ev.budget)) : Throws E ev.checkTime := by
  intro p e h
  rw [run_checkTime] at h
  dsimp only at h
  split at h <;> cases h
  exact htime

theorem enter_throws (htime : E (.timeout ev.budget)) {depth : Nat}
    (hdeep : ev.maxDepth < depth → E (.tooDeep ev.maxDepth)) : Throws E (ev.enter depth) := by
  unfold enter
  split
  next h => exact (Throws.throw (hdeep h)).bind fun _ => checkTime_throws htime
  next => exact checkTime_throws htime

theorem read_throws {r : Reading} (h : ∀ e, ev.resolve r = .error e → E (.lookup e)) :
    Throws E (ev.read r) := by
  intro p e he
  unfold read at he
  rw [Run.run_bind, Run.run_get] at he
  dsimp only at he
  split at he
  · cases he
  · split at he
    next hresolve =>
      cases he
      exact h _ hresolve
    next => cases he

/-- The body of a function gives its fault as a result. -/
theorem runBody_throws (f : Function σ) (args : List Value) : Throws E (ev.runBody f args) := by
  intro p e h
  unfold runBody at h
  cases hbody : f.body with
  | compute run =>
    rw [hbody] at h
    cases h
  | host run =>
    rw [hbody] at h
    cases h
  | select =>
    rw [hbody] at h
    cases h
  | ask query =>
    rw [hbody] at h
    dsimp only at h
    unfold answer at h
    rw [Run.run_bind, Run.run_get] at h
    dsimp only at h
    cases hkey : query.key (ev.call p.spent) with
    | error fault =>
      rw [hkey] at h
      cases h
    | ok key =>
      rw [hkey] at h
      cases hanswers : p.answers with
      | none =>
        rw [hanswers] at h
        cases h
      | some cache =>
        rw [hanswers] at h
        dsimp only at h
        split at h
        · cases h
        · cases hanswer : Query.answer (ev.call p.spent) key <;> rw [hanswer] at h <;> cases h

theorem error_of_returned {name : String} {result : Except FunctionFault Value} {e : EvalError}
    (h : returned name result = .error e) : ∃ fault, e = .functionFailed name fault := by
  unfold returned at h
  split at h
  · cases h
    exact ⟨_, rfl⟩
  · split at h <;> cases h
    exact ⟨_, rfl⟩
  · cases h

/-! ## Nodes -/

/-- What a node of an expression can fail with by itself. -/
inductive RaisedAt (ev : Evaluator σ) : Expr → EvalError → Prop
  | var {name : String} {e : LookupError} (h : ev.resolve (.variableNamed name) = .error e) :
    RaisedAt ev (.var name) (.lookup e)
  | reference {object : String} {path : Path} {e : LookupError}
    (h : ev.resolve (.propertyOf object path) = .error e) :
    RaisedAt ev (.reference object path) (.lookup e)
  | operands (n : Expr) {e : EvalError} (h : e.OfOperands) : RaisedAt ev n e
  | unknownFunction {name : String} (args : List Expr) (h : ev.functions[name]? = none) :
    RaisedAt ev (.call name args) (.unknownFunction name)
  | arity {name : String} {args : List Expr} {f : Function σ} (hf : ev.functions[name]? = some f)
    (h : if f.isSelect then args.length ≠ 3 else f.accepts args.length = false) :
    RaisedAt ev (.call name args) (.arity name f.minArgs f.maxArgs args.length)
  | failed {name : String} {args : List Expr} {f : Function σ} (hf : ev.functions[name]? = some f)
    (fault : FunctionFault) : RaisedAt ev (.call name args) (.functionFailed name fault)

theorem evalAll_length (es : List Expr) (depth : Nat) (p : Pass σ) {vs : List Value}
    (h : ((ev.evalAll es depth).run p).1 = .ok vs) : vs.length = es.length := by
  induction es generalizing p vs with
  | nil =>
    unfold evalAll at h
    cases h
    rfl
  | cons e es ih =>
    unfold evalAll at h
    rw [Run.run_bind] at h
    cases hfirst : (ev.eval e depth).run p with
    | mk result p' =>
      rw [hfirst] at h
      cases result with
      | error e => cases h
      | ok v =>
        dsimp only at h
        rw [Run.run_bind] at h
        cases hrest : (ev.evalAll es depth).run p' with
        | mk result p'' =>
          rw [hrest] at h
          cases result with
          | error e => cases h
          | ok vs' =>
            cases h
            rw [List.length_cons, List.length_cons, ih p' (by rw [hrest])]

/-- A function that does not choose is called with as many values as there are arguments. -/
theorem apply_throws (htime : E (.timeout ev.budget)) {name : String} {args : List Expr}
    (hnode : ∀ e, ev.RaisedAt (.call name args) e → E e)
    (heager : ∀ f, ev.functions[name]? = some f → f.isSelect = false) {vs : List Value}
    (hlength : vs.length = args.length) : Throws E (ev.apply name vs) := by
  unfold apply
  cases hf : ev.functions[name]? with
  | none => exact .throw (hnode _ (.unknownFunction args hf))
  | some f =>
    dsimp only
    split
    · refine (runBody_throws f vs).bind fun _ => (checkTime_throws htime).bind fun _ =>
        .lift fun e he => ?_
      obtain ⟨fault, rfl⟩ := error_of_returned he
      exact hnode _ (.failed hf fault)
    next haccepts =>
      rw [hlength] at haccepts ⊢
      refine .throw (hnode _ (.arity hf ?_))
      rw [heager f hf]
      simpa using haccepts

/-- A node fails with errors that have a property, be it by itself or in the call of a function that
does not choose with the values of its arguments. -/
structure NodeThrows (ev : Evaluator σ) (E : EvalError → Prop) (n : Expr) : Prop where
  raised : ∀ e, ev.RaisedAt n e → (∀ name fault, e ≠ .functionFailed name fault) → E e
  called : ∀ name args, n = .call name args →
    (∀ f, ev.functions[name]? = some f → f.isSelect = false) →
    ∀ depth p vs, ((ev.evalAll args depth).run p).1 = .ok vs → Throws E (ev.apply name vs)

theorem NodeThrows.of_raisedAt (htime : E (.timeout ev.budget)) {n : Expr}
    (h : ∀ e, ev.RaisedAt n e → E e) : ev.NodeThrows E n where
  raised e he _ := h e he
  called name args hn heager depth p vs hvs := by
    subst hn
    exact apply_throws htime h heager (evalAll_length args depth p hvs)

mutual

/-- An evaluation fails because it runs out of time, because it gets too deep, or because of one of
its nodes. -/
theorem eval_throws (htime : E (.timeout ev.budget)) (e : Expr) (depth : Nat)
    (hdeep : ev.maxDepth + 1 < depth + e.weight ev.functions → E (.tooDeep ev.maxDepth))
    (hnodes : ∀ n ∈ e.nodes, ev.NodeThrows E n) : Throws E (ev.eval e depth) := by
  have henter : Throws E (ev.enter depth) := enter_throws htime fun h => hdeep (by
    have := Expr.weight_pos ev.functions e
    omega)
  have hself : ∀ er, er.OfOperands → E er := fun er h =>
    (hnodes e e.mem_nodes_self).raised er (.operands e h) (by rintro _ _ rfl; cases h)
  match e with
  | .literal v =>
    rw [eval]
    exact henter.bind fun _ => .pure v
  | .var name =>
    rw [eval]
    exact henter.bind fun _ => read_throws fun er h =>
      (hnodes _ (by simp [Expr.nodes])).raised _ (.var h) nofun
  | .reference object path =>
    rw [eval]
    exact henter.bind fun _ => read_throws fun er h =>
      (hnodes _ (by simp [Expr.nodes])).raised _ (.reference h) nofun
  | .unary op operand =>
    have hoperand := eval_throws htime operand (depth + 1)
      (fun h => hdeep (by rw [Expr.weight]; omega))
      (fun n hn => hnodes n (by simp [Expr.nodes, hn]))
    rw [eval]
    exact henter.bind fun _ => hoperand.bind fun v =>
      .lift fun er h => hself er (UnaryOp.ofOperands_of_apply h)
  | .binary op left right =>
    have hl := eval_throws htime left (depth + 1)
      (fun h => hdeep (by rw [Expr.weight]; omega))
      (fun n hn => hnodes n (by simp [Expr.nodes, hn]))
    have hr := eval_throws htime right (depth + 1)
      (fun h => hdeep (by rw [Expr.weight]; omega))
      (fun n hn => hnodes n (by simp [Expr.nodes, hn]))
    have hcondition : ∀ v : Value, Throws E (liftM v.condition : EvalM σ Bool) := fun v =>
      .lift fun er h => hself er (Value.ofOperands_of_condition h)
    cases op with
    | and =>
      rw [eval]
      exact henter.bind fun _ => hl.bind fun v => (hcondition v).bind fun _ =>
        .ite (hr.bind fun w => (hcondition w).bind fun _ => .pure _) (.pure _)
    | or =>
      rw [eval]
      exact henter.bind fun _ => hl.bind fun v => (hcondition v).bind fun _ =>
        .ite (.pure _) (hr.bind fun w => (hcondition w).bind fun _ => .pure _)
    | _ =>
      simp only [eval]
      exact henter.bind fun _ => hl.bind fun v => hr.bind fun w =>
        .lift fun er h => hself er (BinaryOp.ofOperands_of_apply h)
  | .conditional c t e =>
    have hc := eval_throws htime c (depth + 1)
      (fun h => hdeep (by rw [Expr.weight]; omega))
      (fun n hn => hnodes n (by simp [Expr.nodes, hn]))
    have ht := eval_throws htime t (depth + 1)
      (fun h => hdeep (by rw [Expr.weight]; omega))
      (fun n hn => hnodes n (by simp [Expr.nodes, hn]))
    have he := eval_throws htime e (depth + 1)
      (fun h => hdeep (by rw [Expr.weight]; omega))
      (fun n hn => hnodes n (by simp [Expr.nodes, hn]))
    rw [eval]
    exact henter.bind fun _ => hc.bind fun v =>
      (Throws.lift fun er h => hself er (Value.ofOperands_of_condition h)).bind fun _ => .ite ht he
  | .call name args =>
    have hnode := hnodes (.call name args) (by simp [Expr.nodes])
    rw [eval]
    refine henter.bind fun _ => ?_
    have hcall (heager : ∀ f, ev.functions[name]? = some f → f.isSelect = false) :
        Throws E (ev.evalAll args (depth + 1) >>= ev.apply name) := by
      have hargs := evalAll_throws htime args (depth + 1)
        (fun h => hdeep (by rw [Expr.weight_eager heager]; omega))
        (fun n hn => hnodes n (by simp [Expr.nodes, hn]))
      exact hargs.bind_of_gives fun p vs hvs => hnode.called name args rfl heager _ p vs hvs
    cases hf : ev.functions[name]? with
    | none => exact hcall fun f h => by simp [hf] at h
    | some f =>
      dsimp only
      split
      next hselect =>
        match args with
        | [c, t, e] =>
          have hweight := Expr.weight_select hf hselect c t e
          have hc := eval_throws htime c (depth + 2) (fun h => hdeep (by omega))
            (fun n hn => hnodes n (by simp [Expr.nodes, Expr.nodesOfAll, hn]))
          have ht := eval_throws htime t (depth + 2) (fun h => hdeep (by omega))
            (fun n hn => hnodes n (by simp [Expr.nodes, Expr.nodesOfAll, hn]))
          have he := eval_throws htime e (depth + 2) (fun h => hdeep (by omega))
            (fun n hn => hnodes n (by simp [Expr.nodes, Expr.nodesOfAll, hn]))
          exact hc.bind fun v => (Throws.lift fun er h =>
            hself er (Value.ofOperands_of_condition h)).bind fun _ => .ite ht he
        | [] | [_] | [_, _] | _ :: _ :: _ :: _ :: _ =>
          exact .throw (hnode.raised _ (.arity hf (by simp [hselect])) nofun)
      next hselect =>
        refine hcall fun g hg => ?_
        obtain rfl := Option.some.inj (hf.symm.trans hg)
        simpa using hselect

theorem evalAll_throws (htime : E (.timeout ev.budget)) (es : List Expr) (depth : Nat)
    (hdeep : ev.maxDepth + 1 < depth + Expr.greatestWeight ev.functions es →
      E (.tooDeep ev.maxDepth))
    (hnodes : ∀ n ∈ Expr.nodesOfAll es, ev.NodeThrows E n) :
    Throws E (ev.evalAll es depth) := by
  match es with
  | [] =>
    unfold evalAll
    exact .pure _
  | e :: es =>
    have he := eval_throws htime e depth
      (fun h => hdeep (by rw [Expr.greatestWeight]; omega))
      (fun n hn => hnodes n (by simp [Expr.nodesOfAll, hn]))
    have hes := evalAll_throws htime es depth
      (fun h => hdeep (by rw [Expr.greatestWeight]; omega))
      (fun n hn => hnodes n (by simp [Expr.nodesOfAll, hn]))
    unfold evalAll
    exact he.bind fun _ => hes.bind fun _ => .pure _

end

/-- A pass fails because it runs out of time, because the limit is less than the weight of the
expression, or because of one of the nodes. -/
theorem error_of_evaluate {e : Expr} {answers : Option (Cache QueryKey Value)} {host : σ}
    {er : EvalError} (h : (ev.evaluate e answers host).1 = .error er) :
    er = .timeout ev.budget ∨
      ev.maxDepth < e.weight ev.functions ∧ er = .tooDeep ev.maxDepth ∨
      ∃ n ∈ e.nodes, ev.RaisedAt n er := by
  have hthrows : Throws (fun er => er = .timeout ev.budget ∨
      ev.maxDepth < e.weight ev.functions ∧ er = .tooDeep ev.maxDepth ∨
      ∃ n ∈ e.nodes, ev.RaisedAt n er) (ev.eval e 1) :=
    eval_throws (.inl rfl) e 1 (fun hdeep => .inr (.inl ⟨by omega, rfl⟩))
      fun n hn => .of_raisedAt (.inl rfl) fun er hraised => .inr (.inr ⟨n, hn, hraised⟩)
  exact hthrows _ er h

/-- Under a limit of at least its weight no expression gets too deep. -/
theorem evaluate_ne_tooDeep {e : Expr} (h : e.weight ev.functions ≤ ev.maxDepth)
    (answers : Option (Cache QueryKey Value)) (host : σ) (n : Nat) :
    (ev.evaluate e answers host).1 ≠ .error (.tooDeep n) := by
  intro hdeep
  obtain htime | ⟨hlimit, -⟩ | ⟨node, -, hraised⟩ := error_of_evaluate hdeep
  · cases htime
  · omega
  · cases hraised with
    | operands _ hoperands => cases hoperands

end Evaluator

end Parametric
