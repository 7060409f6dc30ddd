import Parametric.Proofs.Formula.Rules

/-!
# Watched passes

A pass does not say which functions it runs and when it asks the stores. A watched pass does what a
pass does and notes the events. Forgetting the notes gives the pass back (`watch_shows`): a watched
step `Shows` a step when, from whatever pass it is run, it gives the same result and leaves the same
pass.
-/

namespace Parametric.Evaluator

variable {σ : Type} (ev : Evaluator σ)

/-! ## Watched steps -/

/-- A step of a watched pass: besides the pass there is what has happened so far. -/
abbrev WatchM (σ : Type) := ExceptT EvalError (StateM (Pass σ × List Event))

/-- A step in which nothing happens for others to see. -/
def silently {α : Type} (m : EvalM σ α) : WatchM σ α := ExceptT.mk fun (pass, log) =>
  let (result, pass) := m.run pass
  (result, pass, log)

def note (event : Event) : WatchM σ Unit := modify fun (pass, log) => (pass, log ++ [event])

/-- What a name stands for; that the stores are asked is noted. -/
def watchRead (r : Reading) : WatchM σ Value := do
  match (← get).1.memo.lookup r with
  | some v => return v
  | none =>
    note (.asked r)
    match ev.resolve r with
    | .error e => throw (.lookup e)
    | .ok v =>
      modify fun (p, log) => ({ p with memo := (r, v) :: p.memo }, log)
      return v

/-- Call the function of a name; that its body is run is noted. -/
def watchApply (name : String) (args : List Value) : WatchM σ Value := do
  match ev.functions[name]? with
  | none => throw (.unknownFunction name)
  | some f =>
    if f.accepts args.length then
      note (.ran name args)
      let result ← silently (ev.runBody f args)
      silently ev.checkTime
      returned name result
    else throw (.arity name f.minArgs f.maxArgs args.length)

mutual

/-- The value of an expression at a depth, watched. -/
def watch (e : Expr) (depth : Nat) : WatchM σ Value := do
  silently (ev.enter depth)
  match e with
  | .literal v => return v
  | .var name => ev.watchRead (.variableNamed name)
  | .reference object path => ev.watchRead (.propertyOf object path)
  | .unary op operand => op.apply (← watch operand (depth + 1))
  | .binary .and left right =>
    if ← (← watch left (depth + 1)).condition then
      return .bool (← (← watch right (depth + 1)).condition)
    else return .bool false
  | .binary .or left right =>
    if ← (← watch left (depth + 1)).condition then return .bool true
    else return .bool (← (← watch right (depth + 1)).condition)
  | .binary op left right =>
    let l ← watch left (depth + 1)
    let r ← watch right (depth + 1)
    op.apply l r
  | .conditional c t e =>
    if ← (← watch c (depth + 1)).condition then watch t (depth + 1) else watch e (depth + 1)
  | .call name args =>
    match ev.functions[name]? with
    | some f =>
      if f.isSelect then
        match args with
        | [c, t, e] =>
          if ← (← watch c (depth + 2)).condition then watch t (depth + 2) else watch e (depth + 2)
        | args => throw (.arity name f.minArgs f.maxArgs args.length)
      else ev.watchApply name (← watchAll args (depth + 1))
    | none => ev.watchApply name (← watchAll args (depth + 1))

/-- The values of expressions from left to right, watched. -/
def watchAll (es : List Expr) (depth : Nat) : WatchM σ (List Value) := do
  match es with
  | [] => return []
  | e :: es =>
    let v ← watch e depth
    return v :: (← watchAll es depth)

end

/-- A watched pass over an expression, without a cache of answers: the events, the result and the
state of the host functions. -/
def watched (e : Expr) (host : σ) : List Event × Except EvalError Value × σ :=
  let (result, pass, log) := (ev.watch e 1).run (⟨[], 0, none, host⟩, [])
  (log, result, pass.host)

/-! ## Forgetting what happened -/

/-- A watched step gives the result of a step and leaves the pass that it leaves. -/
def Shows {α : Type} (m : WatchM σ α) (n : EvalM σ α) : Prop :=
  ∀ (p : Pass σ) (log : List Event),
    ((m.run (p, log)).1, (m.run (p, log)).2.1) = n.run p

theorem run_silently {α : Type} (m : EvalM σ α) (p : Pass σ) (log : List Event) :
    (silently m).run (p, log) = ((m.run p).1, ((m.run p).2, log)) := rfl

theorem run_note (event : Event) (p : Pass σ) (log : List Event) :
    (note event : WatchM σ Unit).run (p, log) = (.ok (), (p, log ++ [event])) := rfl

namespace Shows

variable {α β : Type}

theorem pure (a : α) : Shows (pure a : WatchM σ α) (pure a) := fun _ _ => rfl

theorem throw (e : EvalError) : Shows (throw e : WatchM σ α) (throw e) := fun _ _ => rfl

theorem lift (result : Except EvalError α) : Shows (liftM result : WatchM σ α) (liftM result) := by
  cases result with
  | ok a => exact .pure a
  | error e => exact .throw e

theorem silently (m : EvalM σ α) : Shows (Evaluator.silently m) m := fun _ _ => rfl

theorem bind {m : WatchM σ α} {n : EvalM σ α} {k : α → WatchM σ β} {l : α → EvalM σ β}
    (hm : Shows m n) (hk : ∀ a, Shows (k a) (l a)) : Shows (m >>= k) (n >>= l) := by
  intro p log
  rw [Run.run_bind, Run.run_bind, ← hm p log]
  cases hrun : m.run (p, log) with
  | mk result rest =>
    cases result with
    | error e => rfl
    | ok a => exact hk a rest.1 rest.2

theorem ite {c : Prop} [Decidable c] {m m' : WatchM σ α} {n n' : EvalM σ α} (hm : Shows m n)
    (hm' : Shows m' n') : Shows (if c then m else m') (if c then n else n') := by
  split
  · exact hm
  · exact hm'

/-- What is noted does not show. -/
theorem noted {m : WatchM σ α} {n : EvalM σ α} (event : Event) (h : Shows m n) :
    Shows (note event >>= fun _ => m) n := by
  intro p log
  rw [Run.run_bind, run_note]
  exact h p (log ++ [event])

end Shows

variable {ev}

theorem watchRead_shows (r : Reading) : Shows (ev.watchRead r) (ev.read r) := by
  intro p log
  unfold watchRead read
  rw [Run.run_bind, Run.run_get, Run.run_bind, Run.run_get]
  dsimp only
  cases p.memo.lookup r with
  | some v => rfl
  | none => cases ev.resolve r <;> rfl

theorem watchApply_shows (name : String) (args : List Value) :
    Shows (ev.watchApply name args) (ev.apply name args) := by
  unfold watchApply apply
  cases ev.functions[name]? with
  | none => exact .throw _
  | some f =>
    refine .ite (.noted _ ?_) (.throw _)
    exact (Shows.silently _).bind fun result => (Shows.silently _).bind fun _ => .lift _

mutual

/-- A watched evaluation is the evaluation, as far as a pass can see. -/
theorem watch_shows (e : Expr) (depth : Nat) : Shows (ev.watch e depth) (ev.eval e depth) := by
  have henter := Shows.silently (ev.enter depth)
  match e with
  | .literal v =>
    rw [watch, eval]
    exact henter.bind fun _ => .pure v
  | .var name | .reference object path =>
    rw [watch, eval]
    exact henter.bind fun _ => watchRead_shows _
  | .unary op operand =>
    rw [watch, eval]
    exact henter.bind fun _ => (watch_shows operand (depth + 1)).bind fun _ => .lift _
  | .binary op left right =>
    have hl := watch_shows left (depth + 1)
    have hr := watch_shows right (depth + 1)
    cases op with
    | and =>
      rw [watch, eval]
      exact henter.bind fun _ => hl.bind fun _ => (Shows.lift _).bind fun _ =>
        .ite (hr.bind fun _ => (Shows.lift _).bind fun _ => .pure _) (.pure _)
    | or =>
      rw [watch, eval]
      exact henter.bind fun _ => hl.bind fun _ => (Shows.lift _).bind fun _ =>
        .ite (.pure _) (hr.bind fun _ => (Shows.lift _).bind fun _ => .pure _)
    | _ =>
      simp only [watch, eval]
      exact henter.bind fun _ => hl.bind fun _ => hr.bind fun _ => .lift _
  | .conditional c t e =>
    rw [watch, eval]
    exact henter.bind fun _ => (watch_shows c (depth + 1)).bind fun _ => (Shows.lift _).bind
      fun _ => .ite (watch_shows t (depth + 1)) (watch_shows e (depth + 1))
  | .call name args =>
    have hcall : Shows (ev.watchAll args (depth + 1) >>= ev.watchApply name)
        (ev.evalAll args (depth + 1) >>= ev.apply name) :=
      (watchAll_shows args (depth + 1)).bind (watchApply_shows name)
    rw [watch, eval]
    refine henter.bind fun _ => ?_
    cases ev.functions[name]? with
    | none => exact hcall
    | some f =>
      dsimp only
      refine .ite ?_ hcall
      match args with
      | [c, t, e] =>
        exact (watch_shows c (depth + 2)).bind fun _ => (Shows.lift _).bind fun _ =>
          .ite (watch_shows t (depth + 2)) (watch_shows e (depth + 2))
      | [] | [_] | [_, _] | _ :: _ :: _ :: _ :: _ => exact .throw _

theorem watchAll_shows (es : List Expr) (depth : Nat) :
    Shows (ev.watchAll es depth) (ev.evalAll es depth) := by
  match es with
  | [] =>
    unfold watchAll evalAll
    exact .pure _
  | e :: es =>
    unfold watchAll evalAll
    exact (watch_shows e depth).bind fun _ => (watchAll_shows es depth).bind fun _ => .pure _

end

end Parametric.Evaluator
