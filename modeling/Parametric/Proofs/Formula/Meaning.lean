import Parametric.Formula.Eval
import Parametric.Proofs.Cache
import Parametric.Proofs.Formula.Local
import Parametric.Proofs.Run

/-!
# The meaning of an expression

`Evaluator.value` is the value of an expression as a function of what the evaluator sees, without a
memo, a clock and caches. As long as no host function runs, a pass computes exactly this value
(`eval_means`): the memo and the cache of answers only ever hold what would be read or asked again
(`Right`), and no time passes. A step of a pass `Means` a result when it computes it from every
such state and leaves one. The cache of answers may be wrong about what the expression does not ask
(`AsksAt`).
-/

namespace Parametric.Evaluator

variable {σ : Type} (ev : Evaluator σ)

/-! ## Values -/

/-- What a name stands for. -/
def lookup (r : Reading) : Except EvalError Value := (ev.resolve r).mapError .lookup

/-- What a function that is no host function returns. -/
def returns (f : Function σ) (args : List Value) : Except FunctionFault Value :=
  match f.body with
  | .compute run => run (ev.call 0) args
  | .ask query => (query.key (ev.call 0)).bind (Query.answer (ev.call 0))
  | .host _ | .select => .error .undefined

/-- The value of a call. -/
def called (name : String) (args : List Value) : Except EvalError Value :=
  match ev.functions[name]? with
  | none => .error (.unknownFunction name)
  | some f =>
    if f.accepts args.length then returned name (ev.returns f args)
    else .error (.arity name f.minArgs f.maxArgs args.length)

mutual

/-- The value of an expression at a depth. -/
def value (e : Expr) (depth : Nat) : Except EvalError Value :=
  if ev.maxDepth < depth then .error (.tooDeep ev.maxDepth)
  else match e with
  | .literal v => .ok v
  | .var name => ev.lookup (.variableNamed name)
  | .reference object path => ev.lookup (.propertyOf object path)
  | .unary op operand => do op.apply (← value operand (depth + 1))
  | .binary .and left right => do
    if ← (← value left (depth + 1)).condition then
      return .bool (← (← value right (depth + 1)).condition)
    else return .bool false
  | .binary .or left right => do
    if ← (← value left (depth + 1)).condition then return .bool true
    else return .bool (← (← value right (depth + 1)).condition)
  | .binary op left right => do
    let l ← value left (depth + 1)
    let r ← value right (depth + 1)
    op.apply l r
  | .conditional c t e => do
    if ← (← value c (depth + 1)).condition then value t (depth + 1) else value e (depth + 1)
  | .call name args =>
    match ev.functions[name]? with
    | some f =>
      if f.isSelect then
        match args with
        | [c, t, e] => do
          if ← (← value c (depth + 2)).condition then value t (depth + 2) else value e (depth + 2)
        | args => .error (.arity name f.minArgs f.maxArgs args.length)
      else do ev.called name (← values args (depth + 1))
    | none => do ev.called name (← values args (depth + 1))

/-- The values of expressions from left to right. -/
def values (es : List Expr) (depth : Nat) : Except EvalError (List Value) :=
  match es with
  | [] => .ok []
  | e :: es => do
    let v ← value e depth
    return v :: (← values es depth)

end

/-! ## Passes -/

/-- No function is a host function. -/
def HostFree (functions : Registry σ) : Prop :=
  ∀ (name : String) (f : Function σ), functions[name]? = some f → ∀ run, f.body ≠ .host run

/-- The answer to a question is what the evaluator would be told, whatever object it asked for. -/
def Answers (key : QueryKey) (v : Value) : Prop :=
  ∀ object, Query.answer { ev.call 0 with object } key = .ok v

/-- The answers to what is `asked` are right. -/
def Answered (asked : QueryKey → Prop) (key : QueryKey) (v : Value) : Prop :=
  asked key → ev.Answers key v

/-- What a pass carries along is right, as far as it is `asked`. -/
structure Right (asked : QueryKey → Prop) (p : Pass σ) : Prop where
  memo : ∀ r v, p.memo.lookup r = some v → ev.resolve r = .ok v
  spent : p.spent = 0
  answers : ∀ cache, p.answers = some cache → cache.Holds (ev.Answered asked)

/-- A step of a pass computes a result from every state that is right, and leaves such a state. -/
def Means (asked : QueryKey → Prop) {α : Type} (m : EvalM σ α) (result : Except EvalError α) :
    Prop :=
  ∀ p : Pass σ, ev.Right asked p → ∃ p', m.run p = (result, p') ∧ ev.Right asked p'

/-- A question that is asked at a node is `asked`. -/
def AsksAt (asked : QueryKey → Prop) : Expr → Prop
  | .call name _ => ∀ (f : Function σ) (query : Query) (key : QueryKey),
    ev.functions[name]? = some f → f.body = .ask query → query.key (ev.call 0) = .ok key → asked key
  | _ => True

theorem asksAt_true (n : Expr) : ev.AsksAt (fun _ => True) n := by
  cases n with
  | call name args => exact fun _ _ _ _ _ _ => trivial
  | _ => trivial

variable {asked : QueryKey → Prop}

namespace Means

variable {ev} {α β : Type}

theorem pure (a : α) : Means ev asked (pure a : EvalM σ α) (.ok a) := fun p hp => ⟨p, rfl, hp⟩

theorem throw (e : EvalError) : Means ev asked (throw e : EvalM σ α) (.error e) :=
  fun p hp => ⟨p, rfl, hp⟩

theorem lift (result : Except EvalError α) :
    Means ev asked (liftM result : EvalM σ α) result := by
  intro p hp
  refine ⟨p, ?_, hp⟩
  cases result <;> rfl

theorem bind {m : EvalM σ α} {result : Except EvalError α} {k : α → EvalM σ β}
    {f : α → Except EvalError β} (hm : Means ev asked m result)
    (hk : ∀ a, result = .ok a → Means ev asked (k a) (f a)) :
    Means ev asked (m >>= k) (result >>= f) := by
  intro p hp
  obtain ⟨p', hrun, hp'⟩ := hm p hp
  rw [Run.run_bind, hrun]
  cases result with
  | error e => exact ⟨p', rfl, hp'⟩
  | ok a => exact hk a rfl p' hp'

theorem ite {c : Prop} [Decidable c] {m n : EvalM σ α} {x y : Except EvalError α}
    (hm : Means ev asked m x) (hn : Means ev asked n y) :
    Means ev asked (if c then m else n) (if c then x else y) := by
  split
  · exact hm
  · exact hn

end Means

/-! ## Steps -/

section

variable {ev} (hbudget : 0 < ev.budget)
include hbudget

theorem checkTime_means : Means ev asked ev.checkTime (.ok ()) := by
  intro p hp
  refine ⟨p, ?_, hp⟩
  have hspent : ¬ ev.budget ≤ p.spent := by
    rw [hp.spent]
    omega
  unfold checkTime
  rw [Run.run_bind, Run.run_get]
  simp only [if_neg hspent]
  rfl

theorem enter_means (depth : Nat) : Means ev asked (ev.enter depth)
    (if ev.maxDepth < depth then .error (.tooDeep ev.maxDepth) else .ok ()) := by
  unfold enter
  by_cases hdepth : ev.maxDepth < depth
  · rw [if_pos hdepth, if_pos hdepth]
    exact fun p hp => ⟨p, rfl, hp⟩
  · rw [if_neg hdepth, if_neg hdepth]
    exact checkTime_means hbudget

end

variable {ev} in
/-- A memo is right after one more name is resolved. -/
theorem resolved_cons {memo : List (Reading × Value)}
    (hmemo : ∀ r v, memo.lookup r = some v → ev.resolve r = .ok v) {r : Reading} {v : Value}
    (hresolve : ev.resolve r = .ok v) (s : Reading) (w : Value)
    (hw : List.lookup s ((r, v) :: memo) = some w) : ev.resolve s = .ok w := by
  rw [List.lookup_cons] at hw
  split at hw
  next heq =>
    rw [beq_iff_eq] at heq
    cases hw
    rw [heq, hresolve]
  next => exact hmemo s w hw

theorem read_means (r : Reading) : Means ev asked (ev.read r) (ev.lookup r) := by
  intro p hp
  unfold read lookup
  rw [Run.run_bind, Run.run_get]
  dsimp only
  cases hmemo : p.memo.lookup r with
  | some v =>
    rw [hp.memo r v hmemo]
    exact ⟨p, rfl, hp⟩
  | none =>
    cases hresolve : ev.resolve r with
    | error e => exact ⟨p, rfl, hp⟩
    | ok v =>
      exact ⟨{ p with memo := (r, v) :: p.memo }, rfl, resolved_cons hp.memo hresolve, hp.spent,
        hp.answers⟩

variable {ev} in
theorem Right.withAnswers {p : Pass σ} (hp : ev.Right asked p) {cache : Cache QueryKey Value}
    (h : cache.Holds (ev.Answered asked)) : ev.Right asked ⟨p.memo, 0, some cache, p.host⟩ :=
  ⟨hp.memo, rfl, fun _ hc => Option.some.inj hc ▸ h⟩

theorem answer_means (query : Query)
    (hasked : ∀ key, query.key (ev.call 0) = .ok key → asked key) : Means ev asked (ev.answer query)
    (.ok ((query.key (ev.call 0)).bind (Query.answer (ev.call 0)))) := by
  intro p hp
  unfold answer
  rw [Run.run_bind, Run.run_get]
  dsimp only
  rw [hp.spent]
  cases hkey : query.key (ev.call 0) with
  | error fault => exact ⟨p, rfl, hp⟩
  | ok key =>
    cases hcache : p.answers with
    | none => exact ⟨p, rfl, hp⟩
    | some cache =>
      obtain ⟨hholds, hfound⟩ := (hp.answers cache hcache).get key ev.now
      dsimp only [Except.bind]
      cases hget : cache.get key ev.now with
      | mk found cache' =>
        rw [hget] at hholds hfound
        cases found with
        | some v =>
          have hv : Query.answer (ev.call 0) key = .ok v :=
            hfound v rfl (hasked key hkey) ev.view.object
          rw [hv]
          exact ⟨_, rfl, hp.withAnswers hholds⟩
        | none =>
          cases hanswer : Query.answer (ev.call 0) key with
          | error fault => exact ⟨_, rfl, hp.withAnswers hholds⟩
          | ok v =>
            have hv : ev.Answered asked key v := fun _ object =>
              (Query.answer_of_key hkey object).trans hanswer
            exact ⟨_, rfl, hp.withAnswers (hholds.insert hv ev.now)⟩

section

variable {ev} (hbudget : 0 < ev.budget) (hfree : HostFree ev.functions)
include hbudget hfree

theorem apply_means (name : String) (es : List Expr) (hasks : ev.AsksAt asked (.call name es))
    (args : List Value) : Means ev asked (ev.apply name args) (ev.called name args) := by
  unfold apply called
  cases hf : ev.functions[name]? with
  | none => exact .throw _
  | some f =>
    dsimp only
    refine .ite ?_ (.throw _)
    have hbody : Means ev asked (ev.runBody f args) (.ok (ev.returns f args)) := by
      intro p hp
      unfold runBody returns
      cases hbody : f.body with
      | compute run =>
        refine ⟨p, ?_, hp⟩
        dsimp only
        rw [Run.run_bind, Run.run_get]
        dsimp only
        rw [hp.spent]
        rfl
      | ask query => exact answer_means ev query (hasks f query · hf hbody) p hp
      | host run => exact absurd hbody (hfree name f hf run)
      | select => exact ⟨p, rfl, hp⟩
    exact hbody.bind (f := fun r => Except.ok () >>= fun _ => returned name r) fun r _ =>
      (checkTime_means hbudget).bind fun _ _ => .lift _

omit hfree in
/-- A node is entered unless it is too deep. -/
theorem entered_means {α : Type} (depth : Nat) {m : EvalM σ α} {result : Except EvalError α}
    (hm : Means ev asked m result) : Means ev asked (ev.enter depth >>= fun _ => m)
      (if ev.maxDepth < depth then .error (.tooDeep ev.maxDepth) else result) := by
  have henter := (enter_means hbudget depth).bind (f := fun _ => result) fun _ _ => hm
  by_cases hdepth : ev.maxDepth < depth
  · rw [if_pos hdepth] at henter ⊢
    exact henter
  · rw [if_neg hdepth] at henter ⊢
    exact henter

end

mutual

/-- A pass over an expression computes its value. -/
theorem eval_means (hbudget : 0 < ev.budget) (hfree : HostFree ev.functions) (e : Expr)
    (hasks : ∀ n ∈ e.nodes, ev.AsksAt asked n) (depth : Nat) :
    Means ev asked (ev.eval e depth) (ev.value e depth) := by
  match e with
  | .literal v =>
    rw [eval, value]
    exact entered_means hbudget depth (.pure _)
  | .var name =>
    rw [eval, value]
    exact entered_means hbudget depth (read_means ev _)
  | .reference object path =>
    rw [eval, value]
    exact entered_means hbudget depth (read_means ev _)
  | .unary op operand =>
    have hmeans := eval_means hbudget hfree operand
      (fun n hn => hasks n (by simp [Expr.nodes, hn])) (depth + 1)
    rw [eval, value]
    exact entered_means hbudget depth (hmeans.bind fun _ _ => .lift _)
  | .binary op left right =>
    have hl := eval_means hbudget hfree left
      (fun n hn => hasks n (by simp [Expr.nodes, hn])) (depth + 1)
    have hr := eval_means hbudget hfree right
      (fun n hn => hasks n (by simp [Expr.nodes, hn])) (depth + 1)
    cases op with
    | and =>
      rw [eval, value]
      refine entered_means hbudget depth (hl.bind fun _ _ =>
        (Means.lift _).bind fun _ _ => .ite ?_ (.pure _))
      exact hr.bind fun _ _ => (Means.lift _).bind fun _ _ => .pure _
    | or =>
      rw [eval, value]
      refine entered_means hbudget depth (hl.bind fun _ _ =>
        (Means.lift _).bind fun _ _ => .ite (.pure _) ?_)
      exact hr.bind fun _ _ => (Means.lift _).bind fun _ _ => .pure _
    | _ =>
      simp only [eval, value]
      exact entered_means hbudget depth (hl.bind fun _ _ => hr.bind fun _ _ => .lift _)
  | .conditional c t e =>
    have hc := eval_means hbudget hfree c
      (fun n hn => hasks n (by simp [Expr.nodes, hn])) (depth + 1)
    have ht := eval_means hbudget hfree t
      (fun n hn => hasks n (by simp [Expr.nodes, hn])) (depth + 1)
    have he := eval_means hbudget hfree e
      (fun n hn => hasks n (by simp [Expr.nodes, hn])) (depth + 1)
    rw [eval, value]
    exact entered_means hbudget depth (hc.bind fun _ _ =>
      (Means.lift _).bind fun _ _ => .ite ht he)
  | .call name args =>
    have hargs := evalAll_means hbudget hfree args
      (fun n hn => hasks n (by simp [Expr.nodes, hn])) (depth + 1)
    have hcall : Means ev asked (ev.evalAll args (depth + 1) >>= ev.apply name)
        (ev.values args (depth + 1) >>= ev.called name) :=
      hargs.bind fun vs _ =>
        apply_means hbudget hfree name args (hasks _ (by simp [Expr.nodes])) vs
    rw [eval, value]
    refine entered_means hbudget depth ?_
    cases ev.functions[name]? with
    | none => exact hcall
    | some f =>
      dsimp only
      refine .ite ?_ hcall
      -- A selection evaluates its condition and the branch taken only.
      match args with
      | [c, t, e] =>
        have hc := eval_means hbudget hfree c
          (fun n hn => hasks n (by simp [Expr.nodes, Expr.nodesOfAll, hn])) (depth + 2)
        have ht := eval_means hbudget hfree t
          (fun n hn => hasks n (by simp [Expr.nodes, Expr.nodesOfAll, hn])) (depth + 2)
        have he := eval_means hbudget hfree e
          (fun n hn => hasks n (by simp [Expr.nodes, Expr.nodesOfAll, hn])) (depth + 2)
        exact hc.bind fun _ _ => (Means.lift _).bind fun _ _ => .ite ht he
      | [] | [_] | [_, _] | _ :: _ :: _ :: _ :: _ => exact .throw _

theorem evalAll_means (hbudget : 0 < ev.budget) (hfree : HostFree ev.functions) (es : List Expr)
    (hasks : ∀ n ∈ Expr.nodesOfAll es, ev.AsksAt asked n) (depth : Nat) :
    Means ev asked (ev.evalAll es depth) (ev.values es depth) := by
  match es with
  | [] =>
    unfold evalAll values
    exact .pure _
  | e :: es =>
    have he := eval_means hbudget hfree e
      (fun n hn => hasks n (by simp [Expr.nodesOfAll, hn])) depth
    have hes := evalAll_means hbudget hfree es
      (fun n hn => hasks n (by simp [Expr.nodesOfAll, hn])) depth
    unfold evalAll values
    exact he.bind fun v _ => hes.bind fun vs _ => .pure _

end

/-- A whole pass gives the value of the expression, if the cache of answers is right about what the
expression asks, and keeps the cache so. -/
theorem evaluate_eq_value_of_asks (ev : Evaluator σ) (hbudget : 0 < ev.budget)
    (hfree : HostFree ev.functions) (e : Expr) (hasks : ∀ n ∈ e.nodes, ev.AsksAt asked n)
    (answers : Option (Cache QueryKey Value))
    (hanswers : ∀ cache, answers = some cache → cache.Holds (ev.Answered asked)) (host : σ) :
    (ev.evaluate e answers host).1 = ev.value e 1 ∧
      ∀ cache, (ev.evaluate e answers host).2.1 = some cache → cache.Holds (ev.Answered asked) := by
  obtain ⟨p, hrun, hp⟩ := eval_means ev hbudget hfree e hasks 1 ⟨[], 0, answers, host⟩
    ⟨fun _ _ h => by simp at h, rfl, hanswers⟩
  unfold evaluate
  rw [hrun]
  exact ⟨rfl, hp.answers⟩

/-- A whole pass gives the value of the expression, and keeps the cache of answers right. -/
theorem evaluate_eq_value (ev : Evaluator σ) (hbudget : 0 < ev.budget)
    (hfree : HostFree ev.functions) (e : Expr) (answers : Option (Cache QueryKey Value))
    (hanswers : ∀ cache, answers = some cache → cache.Holds ev.Answers) (host : σ) :
    (ev.evaluate e answers host).1 = ev.value e 1 ∧
      ∀ cache, (ev.evaluate e answers host).2.1 = some cache → cache.Holds ev.Answers := by
  obtain ⟨hvalue, hholds⟩ := evaluate_eq_value_of_asks ev hbudget hfree e
    (fun n _ => asksAt_true ev n) answers (fun cache hc key v hv _ => hanswers cache hc key v hv)
    host
  exact ⟨hvalue, fun cache hc key v hv => hholds cache hc key v hv trivial⟩

/-! ## What a value depends on -/

/-- Two evaluators see the same at a node: the name there stands for the same, or the function
called there returns the same. -/
def SameAt (ev ev' : Evaluator σ) : Expr → Prop
  | .var name => ev.lookup (.variableNamed name) = ev'.lookup (.variableNamed name)
  | .reference object path =>
    ev.lookup (.propertyOf object path) = ev'.lookup (.propertyOf object path)
  | .call name _ => ∀ args, ev.called name args = ev'.called name args
  | _ => True

mutual

/-- The value of an expression depends on what is seen at its nodes. -/
theorem value_congr {ev ev' : Evaluator σ} (hfunctions : ev.functions = ev'.functions)
    (hdepth : ev.maxDepth = ev'.maxDepth) (e : Expr) (hsame : ∀ n ∈ e.nodes, SameAt ev ev' n)
    (depth : Nat) : ev.value e depth = ev'.value e depth := by
  match e with
  | .literal v => rw [value, value, hdepth]
  | .var name =>
    have h : SameAt ev ev' (.var name) := hsame _ (by simp [Expr.nodes])
    rw [value, value, hdepth, h]
  | .reference object path =>
    have h : SameAt ev ev' (.reference object path) := hsame _ (by simp [Expr.nodes])
    rw [value, value, hdepth, h]
  | .unary op operand =>
    have h := value_congr hfunctions hdepth operand
      (fun n hn => hsame n (by simp [Expr.nodes, hn])) (depth + 1)
    rw [value, value, hdepth, h]
  | .binary op left right =>
    have hl := value_congr hfunctions hdepth left
      (fun n hn => hsame n (by simp [Expr.nodes, hn])) (depth + 1)
    have hr := value_congr hfunctions hdepth right
      (fun n hn => hsame n (by simp [Expr.nodes, hn])) (depth + 1)
    cases op <;> simp only [value, hdepth, hl, hr]
  | .conditional c t e =>
    have hc := value_congr hfunctions hdepth c
      (fun n hn => hsame n (by simp [Expr.nodes, hn])) (depth + 1)
    have ht := value_congr hfunctions hdepth t
      (fun n hn => hsame n (by simp [Expr.nodes, hn])) (depth + 1)
    have he := value_congr hfunctions hdepth e
      (fun n hn => hsame n (by simp [Expr.nodes, hn])) (depth + 1)
    rw [value, value, hdepth, hc, ht, he]
  | .call name args =>
    have hcall : SameAt ev ev' (.call name args) := hsame _ (by simp [Expr.nodes])
    have hargs := values_congr hfunctions hdepth args
      (fun n hn => hsame n (by simp [Expr.nodes, hn])) (depth + 1)
    have hcalled : ev.called name = ev'.called name := funext hcall
    rw [value, value, hdepth, hfunctions, hargs, hcalled]
    -- A selection looks at its three arguments one level deeper.
    match args with
    | [c, t, e] =>
      have hc := value_congr hfunctions hdepth c
        (fun n hn => hsame n (by simp [Expr.nodes, Expr.nodesOfAll, hn])) (depth + 2)
      have ht := value_congr hfunctions hdepth t
        (fun n hn => hsame n (by simp [Expr.nodes, Expr.nodesOfAll, hn])) (depth + 2)
      have he := value_congr hfunctions hdepth e
        (fun n hn => hsame n (by simp [Expr.nodes, Expr.nodesOfAll, hn])) (depth + 2)
      simp only [hc, ht, he]
    | [] | [_] | [_, _] | _ :: _ :: _ :: _ :: _ => rfl

theorem values_congr {ev ev' : Evaluator σ} (hfunctions : ev.functions = ev'.functions)
    (hdepth : ev.maxDepth = ev'.maxDepth) (es : List Expr)
    (hsame : ∀ n ∈ Expr.nodesOfAll es, SameAt ev ev' n) (depth : Nat) :
    ev.values es depth = ev'.values es depth := by
  match es with
  | [] => rw [values, values]
  | e :: es =>
    have he := value_congr hfunctions hdepth e
      (fun n hn => hsame n (by simp [Expr.nodesOfAll, hn])) depth
    have hes := values_congr hfunctions hdepth es
      (fun n hn => hsame n (by simp [Expr.nodesOfAll, hn])) depth
    rw [values, values, he, hes]

end

/-- A call returns the same when its function does. -/
theorem called_eq {ev ev' : Evaluator σ} (hfunctions : ev.functions = ev'.functions) {name : String}
    (hreturns : ∀ f : Function σ, ev.functions[name]? = some f →
      ∀ args, ev.returns f args = ev'.returns f args) :
    ev.called name = ev'.called name := by
  funext args
  unfold called
  rw [← hfunctions]
  cases hf : ev.functions[name]? with
  | none => rfl
  | some f => simp only [hreturns f hf]

/-- With the built-in functions a call returns the same when the shapes and the property of the
container are the same that the function is declared to depend on. -/
theorem called_congr {ev ev' : Evaluator σ} (hfunctions : ev.functions = .builtin)
    (hfunctions' : ev'.functions = .builtin) (halike : (ev.call 0).Alike (ev'.call 0))
    (name : String)
    (hsame : Implicit.SameIn (ev.call 0) (ev'.call 0)
      (ev.functions[name]?.bind Function.implicit)) :
    ev.called name = ev'.called name := by
  refine called_eq (hfunctions.trans hfunctions'.symm) fun f hf args => ?_
  rw [hf, Option.bind_some] at hsame
  rw [hfunctions] at hf
  have hlocal := Builtin.local_of_mem f (Registry.mem_all_of_builtin hf) _ _ halike hsame
  unfold returns
  cases hbody : f.body with
  | compute run =>
    rw [hbody] at hlocal
    exact hlocal args
  | ask query =>
    rw [hbody] at hlocal
    exact hlocal
  | host run => rfl
  | select => rfl

/-- A call returns the same when the body of its function does. -/
theorem called_of_run? {ev ev' : Evaluator σ} (hfunctions : ev.functions = ev'.functions) (host : σ)
    {name : String}
    (hrun : ∀ f : Function σ, ev.functions[name]? = some f →
      f.run? (ev.call 0) = f.run? (ev'.call 0)) :
    ev.called name = ev'.called name := by
  refine called_eq hfunctions fun f hf args => ?_
  have hrun := congrFun (congrFun (hrun f hf) args) host
  unfold returns
  unfold Function.run? at hrun
  cases hbody : f.body with
  | compute run =>
    rw [hbody] at hrun
    exact congrArg HostReply.result (Option.some.inj hrun)
  | ask query =>
    rw [hbody] at hrun
    exact congrArg HostReply.result (Option.some.inj hrun)
  | host run => rfl
  | select => rfl

/-- With the built-in functions a call returns the same when its function sees the same of
containers. -/
theorem called_of_sameContainers {ev ev' : Evaluator σ} (hfunctions : ev.functions = .builtin)
    (hfunctions' : ev'.functions = .builtin) (host : σ) {name : String}
    (hsame : ∀ f : Function σ, ev.functions[name]? = some f →
      f.SameContainers (ev.call 0) (ev'.call 0)) :
    ev.called name = ev'.called name := by
  refine called_of_run? (hfunctions.trans hfunctions'.symm) host fun f hf => ?_
  have hcontainers := hsame f hf
  rw [hfunctions] at hf
  exact Builtin.contained_of_mem f (Registry.mem_all_of_builtin hf) _ _ hcontainers

end Parametric.Evaluator
