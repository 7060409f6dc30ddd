import Parametric.Proofs.Decimal.Order
import Parametric.Proofs.Formula.Failure
import Parametric.Proofs.Formula.Local

/-!
# Where the built-in functions are defined

All built-in functions but one are defined for all values, when they get as many as they take
(`Builtin.total_of_mem`): what they cannot use they refuse, and a curve finds the five numbers that
it needs. The one is `clamp`. It refuses reversed bounds, which bounds that are no numbers are not,
and it is defined for bounds in order only (`Builtin.clamp_undefined_iff`). So a call comes to
arguments that its function is not defined for exactly when it is a `clamp` with such a bound, and
no evaluation does so without one (`Evaluator.undefined_iff_unbounded`).
-/

namespace Parametric

variable {σ : Type}

/-! ## The registry -/

namespace Registry

/-- A name stands for the last of the functions that were registered under it. -/
theorem getElem?_foldl_register (fs : List (Function σ)) (r : Registry σ) (name : String) :
    (fs.foldl register r)[name]? = (fs.reverse.find? (·.name = name)).or r[name]? := by
  induction fs generalizing r with
  | nil => rfl
  | cons f fs ih =>
    rw [List.foldl_cons, ih, List.reverse_cons, List.find?_append, Option.or_assoc, register,
      Table.getElem?_insert]
    by_cases hname : f.name = name
    · simp [hname]
    · simp [hname]

theorem getElem?_builtin (name : String) :
    (builtin : Registry σ)[name]? = Builtin.all.reverse.find? (·.name = name) := by
  rw [builtin, getElem?_foldl_register]
  simp

end Registry

namespace Builtin

/-! ## Faults of bodies -/

/-- A computation does not come to arguments that it is not defined for. -/
def Defined {α : Type} (r : Except FunctionFault α) : Prop := r ≠ .error .undefined

namespace Defined

variable {α β : Type}

theorem ok (a : α) : Defined (.ok a) := nofun

theorem error {fault : FunctionFault} (h : fault ≠ .undefined) :
    Defined (.error fault : Except _ α) :=
  fun he => h (Except.error.inj he)

theorem bind {r : Except FunctionFault α} {k : α → Except FunctionFault β} (hr : Defined r)
    (hk : ∀ a, r = .ok a → Defined (k a)) : Defined (r >>= k) := by
  cases r with
  | ok a => exact hk a rfl
  | error fault => exact fun h => hr (congrArg _ (Except.error.inj h))

/-- A step that is defined itself has given what the undefined rest was run on. -/
theorem of_bind {r : Except FunctionFault α} {k : α → Except FunctionFault β} (hr : Defined r)
    (h : r >>= k = .error .undefined) : ∃ a, r = .ok a ∧ k a = .error .undefined := by
  cases r with
  | ok a => exact ⟨a, rfl, h⟩
  | error fault => exact absurd (congrArg _ (Except.error.inj h)) hr

end Defined

theorem defined_numberAt (args : List Value) (index : Nat) : Defined (numberAt args index) := by
  unfold numberAt
  split
  · exact .ok _
  · exact .error nofun
  · exact .error nofun

theorem defined_numbers (args : List Value) : Defined (numbers args) := by
  unfold numbers
  generalize 1 = index
  induction args generalizing index with
  | nil => exact .ok _
  | cons v args ih =>
    cases v with
    | number n => exact (ih (index + 1)).bind fun _ _ => .ok _
    | string s => exact .error nofun
    | bool b => exact .error nofun

theorem length_of_numbers {args : List Value} {xs : List Float} (h : numbers args = .ok xs) :
    xs.length = args.length := by
  unfold numbers at h
  generalize 1 = index at h
  induction args generalizing index xs with
  | nil =>
    obtain rfl := Except.ok.inj h
    rfl
  | cons v args ih =>
    cases v with
    | number n =>
      obtain ⟨ys, hys, h⟩ := Run.ok_of_bind h
      obtain rfl := Except.ok.inj h
      rw [List.length_cons, List.length_cons, ih _ hys]
    | string s => cases h
    | bool b => cases h

theorem defined_containerObject (c : Call) : Defined c.containerObject := by
  unfold Call.containerObject
  split
  · exact .error nofun
  · split
    · exact .error nofun
    · exact .ok _

theorem defined_key (query : Query) (c : Call) : Defined (query.key c) := by
  cases query with
  | siblingCount => exact (defined_containerObject c).bind fun _ _ => .ok _
  | siblingIndex => exact (defined_containerObject c).bind fun _ _ => .ok _
  | childCount => exact .ok _

theorem defined_answer (c : Call) (key : QueryKey) : Defined (Query.answer c key) := by
  have hchildren : Defined (c.children key.container) := by
    unfold Call.children
    dsimp only
    split
    · exact .error nofun
    · exact .ok _
  refine hchildren.bind fun ids _ => ?_
  split
  · exact .ok _
  · dsimp only
    split
    · exact .ok _
    · exact .error nofun

/-! ## Functions -/

/-- A function is defined for all arguments, if there are as many as it takes. -/
def Total (f : Function σ) : Prop :=
  ∀ (c : Call) (args : List Value) (state : σ) (reply : HostReply σ),
    f.accepts args.length = true → f.run? c args state = some reply → Defined reply.result

@[simp]
theorem name_ofArgs (name : String) (minArgs maxArgs : Nat)
    (run : List Value → Except FunctionFault Value) :
    (ofArgs name minArgs maxArgs run : Function σ).name = name := rfl

theorem total_ofArgs (name : String) {minArgs maxArgs : Nat}
    {run : List Value → Except FunctionFault Value}
    (h : ∀ args, minArgs ≤ args.length → args.length ≤ maxArgs → Defined (run args)) :
    Total (ofArgs name minArgs maxArgs run : Function σ) := by
  intro c args state reply haccepts hrun
  obtain rfl := Option.some.inj hrun
  have hlength : minArgs ≤ args.length ∧ args.length ≤ maxArgs := by
    rwa [Function.accepts, Bool.and_eq_true, decide_eq_true_eq, decide_eq_true_eq] at haccepts
  exact h args hlength.1 hlength.2

@[simp]
theorem total_ofOne (name : String) (f : Float → Float) : Total (ofOne name f : Function σ) :=
  total_ofArgs name fun args _ _ => (defined_numberAt args 0).bind fun _ _ => .ok _

@[simp]
theorem total_ofTwo (name : String) (f : Float → Float → Float) :
    Total (ofTwo name f : Function σ) :=
  total_ofArgs name fun args _ _ => (defined_numberAt args 0).bind fun _ _ =>
    (defined_numberAt args 1).bind fun _ _ => .ok _

@[simp]
theorem total_ofMany (name : String) (minArgs : Nat) (f : List Float → Float) :
    Total (ofMany name minArgs f : Function σ) :=
  total_ofArgs name fun args _ _ => (defined_numbers args).bind fun _ _ => .ok _

/-- Five arguments give the five numbers of a curve. -/
@[simp]
theorem total_ofCurve (name : String) (f : Float → Float → Float → Float → Float → Float) :
    Total (ofCurve name f : Function σ) := by
  refine total_ofArgs name fun args hmin _ => (defined_numbers args).bind fun xs hxs => ?_
  have hlength := length_of_numbers hxs
  match xs with
  | _ :: _ :: _ :: _ :: _ :: _ => exact .ok _
  | [] | [_] | [_, _] | [_, _, _] | [_, _, _, _] =>
    simp only [List.length_cons, List.length_nil] at hlength
    omega

@[simp]
theorem total_sqrt : Total (ofArgs "sqrt" 1 1 sqrt : Function σ) :=
  total_ofArgs _ fun args _ _ => (defined_numberAt args 0).bind fun x _ => by
    split
    · exact .error nofun
    · exact .ok _

@[simp]
theorem total_lerp : Total (ofArgs "lerp" 3 3 lerp : Function σ) :=
  total_ofArgs _ fun args _ _ => (defined_numberAt args 0).bind fun _ _ =>
    (defined_numberAt args 1).bind fun _ _ => (defined_numberAt args 2).bind fun _ _ => .ok _

@[simp]
theorem total_pi : Total (ofArgs "pi" 0 0 fun _ => .ok (.number Arithmetic.pi) : Function σ) :=
  total_ofArgs _ fun _ _ _ => .ok _

@[simp]
theorem total_ofSelect (name : String) : Total (.ofSelect name : Function σ) := nofun

@[simp]
theorem total_ofDimension (name property : String) :
    Total (ofDimension name property : Function σ) := by
  intro c args state reply _ hrun
  obtain rfl := Option.some.inj hrun
  refine (defined_containerObject c).bind fun o _ => ?_
  split
  · exact .ok _
  · exact .error nofun

@[simp]
theorem total_ask (name : String) (minArgs maxArgs : Nat) (implicit : Option Implicit)
    (query : Query) : Total (⟨name, minArgs, maxArgs, implicit, .ask query⟩ : Function σ) := by
  intro c args state reply _ hrun
  obtain rfl := Option.some.inj hrun
  exact (defined_key query c).bind fun key _ => defined_answer c key

/-- Every built-in function but one is defined for all arguments. -/
theorem total_of_mem : ∀ f ∈ (all : List (Function σ)), f.name ≠ "clamp" → Total f := by
  simp [all, arithmetic, easing, trigonometry, containment, ofSiblings]

theorem eq_of_name : ∀ f ∈ (all : List (Function σ)), f.name = "clamp" →
    f = ofArgs "clamp" 3 3 clamp := by
  simp [all, arithmetic, easing, trigonometry, containment, ofOne, ofTwo, ofMany, ofCurve, ofArgs,
    ofDimension, Function.ofSelect, ofSiblings]

/-! ## Bounds that are no numbers -/

/-- Three numbers of which one of the last two, the bounds, is none. -/
def Unbounded (args : List Value) : Prop :=
  ∃ x lo hi : Number, args = [.number x, .number lo, .number hi] ∧
    (lo.toFloat.isNaN = true ∨ hi.toFloat.isNaN = true)

theorem Unbounded.length_eq {args : List Value} (h : Unbounded args) : args.length = 3 := by
  obtain ⟨x, lo, hi, rfl, -⟩ := h
  rfl

theorem numberAt_eq_ok {args : List Value} {index : Nat} {x : Float}
    (h : numberAt args index = .ok x) :
    ∃ n : Number, args[index]? = some (.number n) ∧ n.toFloat = x := by
  unfold numberAt at h
  split at h
  next n hn => exact ⟨n, hn, Except.ok.inj h⟩
  next => cases h
  next => cases h

theorem clamp_numbers (x lo hi : Number) : clamp [.number x, .number lo, .number hi] =
    if hi.toFloat < lo.toFloat then .error (.reversedBounds lo hi)
    else if lo.toFloat ≤ hi.toFloat then .ok (.number (Arithmetic.clamp x lo hi))
    else .error .undefined := by
  by_cases h : hi.toFloat < lo.toFloat
  · rw [if_pos h]
    exact if_pos h
  · rw [if_neg h]
    refine (if_neg h).trans ?_
    unfold Arithmetic.clamp?
    split_ifs <;> rfl

theorem numbers_of_clamp_undefined {args : List Value} (hlength : args.length = 3)
    (h : clamp args = .error .undefined) :
    ∃ x lo hi : Number, args = [.number x, .number lo, .number hi] := by
  obtain ⟨u, v, w, rfl⟩ := List.length_eq_three.1 hlength
  obtain ⟨x, hx, h⟩ := (defined_numberAt _ 0).of_bind h
  obtain ⟨lo, hlo, h⟩ := (defined_numberAt _ 1).of_bind h
  obtain ⟨hi, hhi, -⟩ := (defined_numberAt _ 2).of_bind h
  obtain ⟨nx, hu, -⟩ := numberAt_eq_ok hx
  obtain ⟨nlo, hv, -⟩ := numberAt_eq_ok hlo
  obtain ⟨nhi, hw, -⟩ := numberAt_eq_ok hhi
  obtain rfl : u = .number nx := Option.some.inj hu
  obtain rfl : v = .number nlo := Option.some.inj hv
  obtain rfl : w = .number nhi := Option.some.inj hw
  exact ⟨nx, nlo, nhi, rfl⟩

/-- Reversed bounds are refused, and `clamp` is defined for bounds in order: what is left are bounds
that do not compare. -/
theorem clamp_undefined_iff {args : List Value} (hlength : args.length = 3) :
    clamp args = .error .undefined ↔ Unbounded args := by
  constructor
  · intro h
    obtain ⟨x, lo, hi, rfl⟩ := numbers_of_clamp_undefined hlength h
    rw [clamp_numbers] at h
    refine ⟨x, lo, hi, rfl, Decimal.incomparable_iff.1 ⟨fun hlt => ?_, fun hle => ?_⟩⟩
    · rw [if_pos hlt] at h
      cases h
    · rw [if_neg (Decimal.not_lt_of_le hle), if_pos hle] at h
      cases h
  · rintro ⟨x, lo, hi, rfl, hnan⟩
    obtain ⟨hlt, hle⟩ := Decimal.incomparable_iff.2 hnan
    rw [clamp_numbers, if_neg hlt, if_neg hle]

end Builtin

namespace Evaluator

variable {ev : Evaluator σ}

/-- A node is entered when it is not too deep and there is time left. -/
def Open (ev : Evaluator σ) (depth : Nat) (p : Pass σ) : Prop :=
  depth ≤ ev.maxDepth ∧ p.spent < ev.budget

instance (ev : Evaluator σ) (depth : Nat) (p : Pass σ) : Decidable (ev.Open depth p) :=
  inferInstanceAs (Decidable (_ ∧ _))

theorem run_enter_of_open {depth : Nat} {p : Pass σ} (h : ev.Open depth p) :
    (ev.enter depth).run p = (.ok (), p) := by
  unfold enter
  rw [if_neg (Nat.not_lt.2 h.1), run_checkTime, if_neg (Nat.not_le.2 h.2)]

theorem run_enter_of_not_open {depth : Nat} {p : Pass σ} (h : ¬ev.Open depth p) :
    ∃ e, (ev.enter depth).run p = (.error e, p) ∧ ∀ name fault, e ≠ .functionFailed name fault := by
  unfold enter
  by_cases hdepth : ev.maxDepth < depth
  · rw [if_pos hdepth]
    exact ⟨.tooDeep ev.maxDepth, rfl, nofun⟩
  · have htime : ev.budget ≤ p.spent :=
      Nat.not_lt.1 fun hlt => h ⟨Nat.not_lt.1 hdepth, hlt⟩
    rw [if_neg hdepth, run_checkTime, if_pos htime]
    exact ⟨.timeout ev.budget, rfl, nofun⟩

theorem returned_eq_undefined {name n : String} {result : Except FunctionFault Value} :
    returned name result = .error (.functionFailed n .undefined) ↔
      n = name ∧ result = .error .undefined := by
  unfold returned
  split
  · simp [eq_comm]
  · split <;> simp
  · simp

/-- What the body of a function gives is defined if the function is defined for its arguments, also
when an answer comes from the cache. -/
theorem runBody_defined {f : Function σ} (htotal : Builtin.Total f) (heager : f.isSelect = false)
    {args : List Value} (haccepts : f.accepts args.length = true) {p : Pass σ}
    {result : Except FunctionFault Value} (h : ((ev.runBody f args).run p).1 = .ok result) :
    Builtin.Defined result := by
  have hrun (c : Call) (reply : HostReply σ) := htotal c args p.host reply haccepts
  unfold Function.run? at hrun
  unfold runBody at h
  cases hbody : f.body with
  | select =>
    rw [Function.isSelect, hbody] at heager
    cases heager
  | compute run =>
    rw [hbody] at h hrun
    obtain rfl := Except.ok.inj h
    exact hrun _ _ rfl
  | host run =>
    rw [hbody] at h hrun
    obtain rfl := Except.ok.inj h
    exact hrun _ _ rfl
  | ask query =>
    rw [hbody] at h
    dsimp only at h
    unfold answer at h
    rw [Run.run_bind, Run.run_get] at h
    dsimp only at h
    have hfound := Builtin.defined_key query (ev.call p.spent)
    cases hkey : query.key (ev.call p.spent) with
    | error fault =>
      rw [hkey] at h hfound
      obtain rfl := Except.ok.inj h
      exact fun hundefined => hfound (congrArg _ (Except.error.inj hundefined))
    | ok key =>
      have hanswer := Builtin.defined_answer (ev.call p.spent) key
      rw [hkey] at h
      cases hanswers : p.answers with
      | none =>
        rw [hanswers] at h
        obtain rfl := Except.ok.inj h
        exact hanswer
      | some cache =>
        rw [hanswers] at h
        dsimp only at h
        split at h
        · obtain rfl := Except.ok.inj h
          exact .ok _
        · cases hquery : Query.answer (ev.call p.spent) key <;> rw [hquery] at h hanswer <;>
            obtain rfl := Except.ok.inj h <;> exact hanswer

/-- A call of a function that is defined for its arguments does not come to others. -/
theorem apply_throws_of_total {name : String} {args : List Value}
    (h : ∀ f, ev.functions[name]? = some f → f.isSelect = false ∧ Builtin.Total f) :
    Throws (fun e => ∀ n, e ≠ .functionFailed n .undefined) (ev.apply name args) := by
  unfold apply
  cases hf : ev.functions[name]? with
  | none => exact .throw nofun
  | some f =>
    obtain ⟨heager, htotal⟩ := h f hf
    dsimp only
    split
    next haccepts =>
      refine (runBody_throws f args).bind_of_gives fun p result hresult =>
        (checkTime_throws nofun).bind fun _ => .lift fun e he n hn => ?_
      have hdefined := runBody_defined htotal heager haccepts hresult
      exact hdefined (returned_eq_undefined.1 (hn ▸ he)).2
    next => exact .throw nofun

/-! ## Calls -/

/-- The function of a name other than `clamp` is defined for all arguments. -/
theorem total_of_ne (hfunctions : ev.functions = .builtin) {name : String} (hname : name ≠ "clamp")
    {f : Function σ} (hf : ev.functions[name]? = some f) : Builtin.Total f := by
  rw [hfunctions, Registry.getElem?_builtin] at hf
  have hmem := List.mem_reverse.1 (List.mem_of_find?_eq_some hf)
  have hfname : f.name = name := by simpa using List.find?_some hf
  exact Builtin.total_of_mem f hmem (hfname ▸ hname)

theorem getElem?_clamp (hfunctions : ev.functions = .builtin) :
    ev.functions["clamp"]? = some (Builtin.ofArgs "clamp" 3 3 Builtin.clamp) := by
  rw [hfunctions, Registry.getElem?_builtin]
  cases hf : (Builtin.all : List (Function σ)).reverse.find? (·.name = "clamp") with
  | none =>
    have hnone := List.find?_eq_none.1 hf (Builtin.ofArgs "clamp" 3 3 Builtin.clamp)
      (by simp [Builtin.all, Builtin.arithmetic])
    exact absurd hnone (by simp)
  | some f =>
    have hmem := List.mem_reverse.1 (List.mem_of_find?_eq_some hf)
    have hfname : f.name = "clamp" := by simpa using List.find?_some hf
    rw [Builtin.eq_of_name f hmem hfname]

theorem run_apply_clamp (hfunctions : ev.functions = .builtin) (args : List Value) (p : Pass σ) :
    ((ev.apply "clamp" args).run p).1 =
      if args.length = 3 then
        if ev.budget ≤ p.spent then .error (.timeout ev.budget)
        else returned "clamp" (Builtin.clamp args)
      else .error (.arity "clamp" 3 3 args.length) := by
  have haccepts : (Builtin.ofArgs "clamp" 3 3 Builtin.clamp : Function σ).accepts args.length =
      true ↔ args.length = 3 := by
    rw [Function.accepts, Bool.and_eq_true, decide_eq_true_eq, decide_eq_true_eq]
    exact ⟨fun h => Nat.le_antisymm h.2 h.1, fun h => ⟨h.ge, h.le⟩⟩
  unfold apply
  rw [getElem?_clamp hfunctions]
  dsimp only
  by_cases hlength : args.length = 3
  · have hbody : (ev.runBody (Builtin.ofArgs "clamp" 3 3 Builtin.clamp) args).run p =
        (.ok (Builtin.clamp args), p) := rfl
    rw [if_pos (haccepts.2 hlength), if_pos hlength, Run.run_bind, hbody]
    dsimp only
    rw [Run.run_bind, run_checkTime]
    by_cases htime : ev.budget ≤ p.spent
    · rw [if_pos htime, if_pos htime]
    · rw [if_neg htime, if_neg htime]
      cases returned "clamp" (Builtin.clamp args) <;> rfl
  · rw [if_neg (mt haccepts.1 hlength), if_neg hlength]
    rfl

/-- A call of a function that does not choose comes to arguments that the function is not defined
for exactly when it is a `clamp` with a bound that is no number. -/
theorem apply_undefined_iff (hfunctions : ev.functions = .builtin) {name : String}
    (heager : ∀ f, ev.functions[name]? = some f → f.isSelect = false) {args : List Value}
    {p : Pass σ} {n : String} :
    ((ev.apply name args).run p).1 = .error (.functionFailed n .undefined) ↔
      n = name ∧ name = "clamp" ∧ p.spent < ev.budget ∧ Builtin.Unbounded args := by
  by_cases hname : name = "clamp"
  · subst hname
    rw [run_apply_clamp hfunctions]
    constructor
    · intro h
      split_ifs at h with hlength htime
      · cases h
      · obtain ⟨hn, hundefined⟩ := returned_eq_undefined.1 h
        exact ⟨hn, rfl, Nat.lt_of_not_le htime, (Builtin.clamp_undefined_iff hlength).1 hundefined⟩
      · cases h
    · rintro ⟨hn, -, htime, hunbounded⟩
      have hlength := hunbounded.length_eq
      rw [if_pos hlength, if_neg (Nat.not_le.2 htime)]
      exact returned_eq_undefined.2 ⟨hn, (Builtin.clamp_undefined_iff hlength).2 hunbounded⟩
  · have hthrows : Throws (fun e => ∀ n, e ≠ .functionFailed n .undefined) (ev.apply name args) :=
      apply_throws_of_total fun f hf => ⟨heager f hf, total_of_ne hfunctions hname hf⟩
    exact ⟨fun h => absurd rfl (hthrows p _ h n), fun h => absurd h.2.1 hname⟩

theorem run_literal {depth : Nat} {p : Pass σ} (h : ev.Open depth p) (v : Value) :
    (ev.eval (.literal v) depth).run p = (.ok v, p) := by
  rw [eval, Run.run_bind, run_enter_of_open h]
  rfl

theorem run_literals {depth : Nat} {p : Pass σ} (h : ev.Open depth p) (vs : List Value) :
    (ev.evalAll (vs.map .literal) depth).run p = (.ok vs, p) := by
  induction vs with
  | nil =>
    unfold evalAll
    rfl
  | cons v vs ih =>
    rw [List.map_cons, evalAll, Run.run_bind, run_literal h]
    dsimp only
    rw [Run.run_bind, ih]
    rfl

theorem run_literals_of_not_open {depth : Nat} {p : Pass σ} (h : ¬ev.Open depth p) (v : Value)
    (vs : List Value) : ∃ e, (ev.evalAll ((v :: vs).map .literal) depth).run p = (.error e, p) ∧
      ∀ name fault, e ≠ .functionFailed name fault := by
  obtain ⟨e, hrun, he⟩ := run_enter_of_not_open h
  refine ⟨e, ?_, he⟩
  rw [List.map_cons, evalAll, Run.run_bind, eval, Run.run_bind, hrun]

theorem eq_of_evalAll_literals {vs ws : List Value} {depth : Nat} {p : Pass σ}
    (h : ((ev.evalAll (vs.map .literal) depth).run p).1 = .ok ws) : ws = vs := by
  by_cases hopen : ev.Open depth p
  · rw [run_literals hopen] at h
    exact (Except.ok.inj h).symm
  · cases vs with
    | nil =>
      unfold evalAll at h
      exact (Except.ok.inj h).symm
    | cons v vs =>
      obtain ⟨e, hrun, -⟩ := run_literals_of_not_open hopen v vs
      rw [hrun] at h
      cases h

/-! ## Expressions -/

theorem nodeThrows_of_called {E : EvalError → Prop} {n : Expr}
    (hother : ∀ e, (∀ name fault, e ≠ .functionFailed name fault) → E e)
    (hcalled : ∀ name args, n = .call name args →
      (∀ f, ev.functions[name]? = some f → f.isSelect = false) →
      ∀ depth p vs, ((ev.evalAll args depth).run p).1 = .ok vs → Throws E (ev.apply name vs)) :
    ev.NodeThrows E n :=
  ⟨fun e _ he => hother e he, hcalled⟩

/-- An evaluation comes to arguments that a function is not defined for only at a `clamp`. -/
theorem clamp_of_undefined (hfunctions : ev.functions = .builtin) {e : Expr}
    {answers : Option (Cache QueryKey Value)} {host : σ} {n : String}
    (h : (ev.evaluate e answers host).1 = .error (.functionFailed n .undefined)) :
    n = "clamp" ∧ ∃ x lo hi, .call "clamp" [x, lo, hi] ∈ e.nodes := by
  have hthrows : Throws (fun er => ∀ n, er = .functionFailed n .undefined →
      n = "clamp" ∧ ∃ x lo hi, .call "clamp" [x, lo, hi] ∈ e.nodes) (ev.eval e 1) := by
    refine eval_throws nofun e 1 (fun _ => nofun) fun node hnode =>
      nodeThrows_of_called (fun er her n hn => absurd hn (her n _)) ?_
    rintro name args rfl heager depth p vs hvs p' er her n rfl
    obtain ⟨rfl, rfl, -, hunbounded⟩ := (apply_undefined_iff hfunctions heager).1 her
    have hlength : args.length = 3 := (evalAll_length args depth p hvs) ▸ hunbounded.length_eq
    obtain ⟨x, lo, hi, rfl⟩ := List.length_eq_three.1 hlength
    exact ⟨rfl, x, lo, hi, hnode⟩
  exact hthrows _ _ h n rfl

theorem nodesOfAll_literals (vs : List Value) :
    Expr.nodesOfAll (vs.map .literal) = vs.map .literal := by
  induction vs with
  | nil => rfl
  | cons v vs ih => rw [List.map_cons, Expr.nodesOfAll, ih, Expr.nodes, List.singleton_append]

theorem call_of_mem_nodes {name name' : String} {args : List Expr} {vs : List Value}
    (h : .call name' args ∈ (Expr.call name (vs.map .literal)).nodes) :
    name' = name ∧ args = vs.map .literal := by
  rw [Expr.nodes, nodesOfAll_literals] at h
  rcases List.mem_cons.1 h with h | h
  · exact Expr.call.inj h
  · obtain ⟨v, -, hv⟩ := List.mem_map.1 h
    cases hv

/-- What a `clamp` does after it is entered. -/
theorem run_call_clamp (hfunctions : ev.functions = .builtin) {depth : Nat} {p : Pass σ}
    (h : ev.Open depth p) (args : List Expr) :
    (ev.eval (.call "clamp" args) depth).run p =
      (ev.evalAll args (depth + 1) >>= ev.apply "clamp").run p := by
  have heager : (Builtin.ofArgs "clamp" 3 3 Builtin.clamp : Function σ).isSelect = false := rfl
  rw [eval, Run.run_bind, run_enter_of_open h, getElem?_clamp hfunctions]
  dsimp only
  rw [heager, if_neg Bool.false_ne_true]

theorem call_undefined_iff (hfunctions : ev.functions = .builtin) (name : String)
    (vs : List Value) (depth : Nat) (p : Pass σ) (n : String) :
    ((ev.eval (.call name (vs.map .literal)) depth).run p).1 =
        .error (.functionFailed n .undefined) ↔
      n = name ∧ name = "clamp" ∧ ev.Open (depth + 1) p ∧ Builtin.Unbounded vs := by
  constructor
  · intro h
    have hthrows : Throws (fun er => ∀ n, er = .functionFailed n .undefined →
        n = name ∧ name = "clamp" ∧ Builtin.Unbounded vs)
        (ev.eval (.call name (vs.map .literal)) depth) := by
      refine eval_throws nofun _ depth (fun _ => nofun) fun node hnode =>
        nodeThrows_of_called (fun er her n hn => absurd hn (her n _)) ?_
      rintro name args rfl heager depth p ws hws p' er her n rfl
      obtain ⟨rfl, rfl⟩ := call_of_mem_nodes hnode
      obtain rfl := eq_of_evalAll_literals hws
      obtain ⟨hn, hname, -, hunbounded⟩ := (apply_undefined_iff hfunctions heager).1 her
      exact ⟨hn, hname, hunbounded⟩
    obtain ⟨rfl, rfl, hunbounded⟩ := hthrows p _ h n rfl
    refine ⟨rfl, rfl, ?_, hunbounded⟩
    by_contra hopen
    by_cases henter : ev.Open depth p
    · obtain ⟨x, lo, hi, rfl, -⟩ := hunbounded
      obtain ⟨e, hrun, he⟩ :=
        run_literals_of_not_open hopen (.number x) [.number lo, .number hi]
      rw [run_call_clamp hfunctions henter, Run.run_bind, hrun] at h
      exact he _ _ (Except.error.inj h)
    · obtain ⟨e, hrun, he⟩ := run_enter_of_not_open henter
      rw [eval, Run.run_bind, hrun] at h
      exact he _ _ (Except.error.inj h)
  · rintro ⟨rfl, rfl, hopen, hunbounded⟩
    have henter : ev.Open depth p := ⟨Nat.le_of_succ_le hopen.1, hopen.2⟩
    rw [run_call_clamp hfunctions henter, Run.run_bind, run_literals hopen]
    refine (apply_undefined_iff hfunctions fun f hf => ?_).2 ⟨rfl, rfl, hopen.2, hunbounded⟩
    rw [getElem?_clamp hfunctions] at hf
    exact Option.some.inj hf ▸ rfl

/-- The built-in functions are defined but for bounds that are no numbers. On values as arguments,
at any depth and in any state of a pass, a call comes to arguments that its function is not defined
for exactly when it is a `clamp` of three numbers that is evaluated and one of whose bounds is none;
no evaluation of an expression without a `clamp` of three arguments does so. The easing curves hold
their share between bounds that `clamp` is defined for. -/
theorem undefined_iff_unbounded (hfunctions : ev.functions = .builtin) :
    (∀ (name : String) (vs : List Value) (depth : Nat) (p : Pass σ) (n : String),
      ((ev.eval (.call name (vs.map .literal)) depth).run p).1 =
          .error (.functionFailed n .undefined) ↔
        n = name ∧ name = "clamp" ∧ ev.Open (depth + 1) p ∧ Builtin.Unbounded vs) ∧
      (∀ (e : Expr) (answers : Option (Cache QueryKey Value)) (host : σ) (n : String),
        (ev.evaluate e answers host).1 = .error (.functionFailed n .undefined) →
          n = "clamp" ∧ ∃ x lo hi, .call "clamp" [x, lo, hi] ∈ e.nodes) ∧
      ∀ t lo hi : Float, Arithmetic.clamp? ((t - lo) / (hi - lo)) 0.0 1.0 =
        some (Arithmetic.share t lo hi) :=
  ⟨call_undefined_iff hfunctions, fun _ _ _ _ => clamp_of_undefined hfunctions,
    fun _ _ _ => if_pos (by decide)⟩

/-- A variable that is no number comes through as a bound of `clamp`, which neither refuses it nor
is defined for it. -/
theorem clamp_unbounded :
    let one : Value := .number (1 : Float)
    let nan : Value := .number Arithmetic.nan
    let ev : Evaluator Unit :=
      ⟨.builtin, 100, 1000, 1000, ⟨{}, Std.ExtTreeMap.insert ∅ ⟨.global, none, "v"⟩ nan⟩,
        ⟨"a", none, none⟩, 0⟩
    let e : Expr := .call "clamp" [.literal one, .var "v", .literal one]
    (ev.evaluate e none ()).1 = .error (.functionFailed "clamp" .undefined) ∧
      (∃ x lo hi, .call "clamp" [x, lo, hi] ∈ e.nodes) ∧
      ((ev.eval (.call "clamp" ([one, nan, one].map .literal)) 1).run ⟨[], 0, none, ()⟩).1 =
        .error (.functionFailed "clamp" .undefined) := by
  intro one nan ev e
  obtain ⟨hcalls, hexpressions, -⟩ := @undefined_iff_unbounded Unit ev rfl
  have hrun : (ev.evaluate e none ()).1 = .error (.functionFailed "clamp" .undefined) := by
    decide
  exact ⟨hrun, (hexpressions e none () "clamp" hrun).2,
    (hcalls "clamp" [one, nan, one] 1 ⟨[], 0, none, ()⟩ "clamp").2
      ⟨rfl, rfl, by decide, _, _, _, rfl, .inl (by decide)⟩⟩

end Evaluator

end Parametric
