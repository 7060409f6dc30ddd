import Mathlib.Data.List.Nodup
import Parametric.Formula.Builtin
import Parametric.Proofs.Formula.Watched

/-!
# Passes follow the rules

A pass that does not run out of time does what the rules say and nothing else: it has the result
that they give, runs the same functions on the same arguments in the same order, and leaves the host
functions in the same state. It asks the stores for less: not for what it has asked before.

A watched step `Realizes` a behaviour when, from whatever pass whose memo is right (`Faithful`), the
events of the step are those of the behaviour without the asking for what is known (`unasked`), and
what it leaves in the memo is what is known after them (`learn`). The memo is the same at every node
of an expression and for every way out of it, so this is carried along by the recursion of the
evaluation (`watch_realizes`).
-/

namespace Parametric

namespace Event

/-- The name that is asked for. -/
def asked? : Event → Option Reading
  | asked r => some r
  | ran _ _ => none

/-- The function that is run, with its arguments. -/
def ran? : Event → Option (String × List Value)
  | asked _ => none
  | ran name args => some (name, args)

/-! ## Events without repeated asking -/

/-- The events without the asking for what is known already. -/
def unasked : List Reading → List Event → List Event
  | _, [] => []
  | known, asked r :: t => if r ∈ known then unasked known t else asked r :: unasked (r :: known) t
  | known, ran name args :: t => ran name args :: unasked known t

/-- What is known after events, the last one first. -/
def learn : List Reading → List Event → List Reading
  | known, [] => known
  | known, asked r :: t => if r ∈ known then learn known t else learn (r :: known) t
  | known, ran _ _ :: t => learn known t

section

variable (r : Reading) (name : String) (args : List Value) (t : List Event) (known : List Reading)

theorem filterMap_asked?_asked :
    (asked r :: t).filterMap asked? = r :: t.filterMap asked? := rfl

theorem filterMap_asked?_ran : (ran name args :: t).filterMap asked? = t.filterMap asked? := rfl

theorem filterMap_ran?_asked : (asked r :: t).filterMap ran? = t.filterMap ran? := rfl

theorem filterMap_ran?_ran :
    (ran name args :: t).filterMap ran? = (name, args) :: t.filterMap ran? := rfl

theorem unasked_asked : unasked known (asked r :: t) =
    if r ∈ known then unasked known t else asked r :: unasked (r :: known) t := rfl

theorem unasked_ran :
    unasked known (ran name args :: t) = ran name args :: unasked known t := rfl

theorem learn_asked : learn known (asked r :: t) =
    if r ∈ known then learn known t else learn (r :: known) t := rfl

theorem learn_ran : learn known (ran name args :: t) = learn known t := rfl

end

theorem unasked_append (s t : List Event) (known : List Reading) :
    unasked known (s ++ t) = unasked known s ++ unasked (learn known s) t := by
  induction s generalizing known with
  | nil => rfl
  | cons event s ih =>
    cases event with
    | asked r =>
      rw [List.cons_append, unasked_asked, unasked_asked, learn_asked]
      split
      · exact ih known
      · rw [ih, List.cons_append]
    | ran name args =>
      rw [List.cons_append, unasked_ran, unasked_ran, learn_ran, ih, List.cons_append]

theorem learn_append (s t : List Event) (known : List Reading) :
    learn known (s ++ t) = learn (learn known s) t := by
  induction s generalizing known with
  | nil => rfl
  | cons event s ih =>
    cases event with
    | asked r =>
      rw [List.cons_append, learn_asked, learn_asked]
      split
      · exact ih known
      · exact ih (r :: known)
    | ran name args =>
      rw [List.cons_append, learn_ran, learn_ran]
      exact ih known

theorem unasked_sublist (t : List Event) (known : List Reading) : (unasked known t).Sublist t := by
  induction t generalizing known with
  | nil => exact .refl _
  | cons event t ih =>
    cases event with
    | asked r =>
      rw [unasked_asked]
      split
      · exact (ih known).cons _
      · exact (ih (r :: known)).cons_cons _
    | ran name args =>
      rw [unasked_ran]
      exact (ih known).cons_cons _

theorem ran_unasked (t : List Event) (known : List Reading) :
    (unasked known t).filterMap ran? = t.filterMap ran? := by
  induction t generalizing known with
  | nil => rfl
  | cons event t ih =>
    cases event with
    | asked r =>
      rw [unasked_asked, filterMap_ran?_asked]
      split
      · exact ih known
      · rw [filterMap_ran?_asked, ih]
    | ran name args => rw [unasked_ran, filterMap_ran?_ran, filterMap_ran?_ran, ih]

/-- What is asked for is what was to be asked for and is not known, each name once. -/
theorem asked_unasked (t : List Event) (known : List Reading) :
    (unasked known t).filterMap asked? =
      ((t.filterMap asked?).filter fun r => r ∉ known).eraseDups := by
  induction t generalizing known with
  | nil => rfl
  | cons event t ih =>
    cases event with
    | asked r =>
      rw [unasked_asked, filterMap_asked?_asked]
      by_cases hr : r ∈ known
      · rw [if_pos hr, List.filter_cons_of_neg (by simpa using hr)]
        exact ih known
      · rw [if_neg hr, List.filter_cons_of_pos (by simpa using hr), List.eraseDups_cons,
          filterMap_asked?_asked, ih, List.filter_filter]
        congr 3
        funext s
        by_cases hs : s = r <;> simp [hs]
    | ran name args =>
      rw [unasked_ran, filterMap_asked?_ran, filterMap_asked?_ran, ih]

theorem nodup_unasked (t : List Event) (known : List Reading) :
    ((unasked known t).filterMap asked?).Nodup := by
  induction t generalizing known with
  | nil => exact .nil
  | cons event t ih =>
    cases event with
    | asked r =>
      rw [unasked_asked]
      split
      · exact ih known
      · rw [filterMap_asked?_asked]
        refine List.nodup_cons.2 ⟨fun hr => ?_, ih (r :: known)⟩
        rw [asked_unasked, List.mem_eraseDups] at hr
        simp at hr
    | ran name args =>
      rw [unasked_ran, filterMap_asked?_ran]
      exact ih known

end Event

namespace Pass

variable {σ : Type}

/-- The names that a pass has resolved. -/
def known (p : Pass σ) : List Reading := p.memo.map Prod.fst

/-- What host functions see of a pass. -/
def world (p : Pass σ) : World σ := ⟨p.spent, p.host⟩

theorem mem_known {p : Pass σ} {r : Reading} {v : Value} (h : p.memo.lookup r = some v) :
    r ∈ p.known := by
  by_contra hr
  have hnone : p.memo.lookup r = none := List.lookup_eq_none_iff.2 fun entry hentry => by
    refine bne_iff_ne.2 fun heq => hr ?_
    rw [heq]
    exact List.mem_map_of_mem hentry
  cases hnone.symm.trans h

theorem not_mem_known {p : Pass σ} {r : Reading} (h : p.memo.lookup r = none) : r ∉ p.known := by
  intro hr
  obtain ⟨entry, hentry, rfl⟩ := List.mem_map.1 hr
  simpa using List.lookup_eq_none_iff.1 h entry hentry

end Pass

namespace Evaluator

open Event Behaviour

variable {σ : Type} {ev : Evaluator σ}

/-! ## Watched steps and behaviours -/

/-- The memo of a pass is right, and there is no cache of answers. -/
structure Faithful (ev : Evaluator σ) (p : Pass σ) : Prop where
  memo : ∀ r v, p.memo.lookup r = some v → ev.resolve r = .ok v
  answers : p.answers = none

/-- What a step with a result made of a pass is what a behaviour does with its world, causing
events. A step that fails leaves the memo in whatever state. -/
structure Traced {α : Type} (ev : Evaluator σ) (B : Behaviour σ α) (p : Pass σ) (t : List Event)
    (result : Except EvalError α) (p' : Pass σ) : Prop where
  only : result ≠ .error (.timeout ev.budget) → Only B p.world t result p'.world
  faithful : ev.Faithful p'
  known : ∀ a, result = .ok a → p'.known = learn p.known t

/-- A watched step does what a behaviour does, unless it runs out of time, and asks only for what is
not known. -/
def Realizes {α : Type} (ev : Evaluator σ) (m : WatchM σ α) (B : Behaviour σ α) : Prop :=
  ∀ (p : Pass σ) (log : List Event), ev.Faithful p → ∃ t result p',
    m.run (p, log) = (result, (p', log ++ unasked p.known t)) ∧ ev.Traced B p t result p'

namespace Realizes

variable {α β : Type}

theorem give (result : Except EvalError α) :
    ev.Realizes (liftM result : WatchM σ α) (Give result) := by
  intro p log hp
  refine ⟨[], result, p, ?_, fun _ => only_give result p.world, hp, fun _ _ => rfl⟩
  rw [unasked, List.append_nil]
  cases result <;> rfl

theorem pure (a : α) : ev.Realizes (pure a : WatchM σ α) (Give (.ok a)) := give (.ok a)

theorem throw (er : EvalError) : ev.Realizes (throw er : WatchM σ α) (Give (.error er)) :=
  give (.error er)

theorem bind {m : WatchM σ α} {B : Behaviour σ α} {k : α → WatchM σ β} {K : α → Behaviour σ β}
    (hm : ev.Realizes m B) (hk : ∀ a, ev.Realizes (k a) (K a)) :
    ev.Realizes (m >>= k) (AndThen B K) := by
  intro p log hp
  obtain ⟨s, result, p', hrun, hm⟩ := hm p log hp
  rw [Run.run_bind, hrun]
  cases result with
  | error er =>
    refine ⟨s, .error er, p', rfl, fun htime => ?_, hm.faithful, fun _ h => nomatch h⟩
    exact (hm.only fun h => htime (by cases h; rfl)).error
  | ok a =>
    obtain ⟨t, result, p'', hrun, hk⟩ := hk a p' (log ++ unasked p.known s) hm.faithful
    have hknown := hm.known a rfl
    refine ⟨s ++ t, result, p'', ?_, fun htime => ?_, hk.faithful, fun b hb => ?_⟩
    · rw [unasked_append, ← List.append_assoc, ← hknown]
      exact hrun
    · exact (hm.only (by simp)).next (hk.only htime)
    · rw [learn_append, ← hknown]
      exact hk.known b hb

/-- That the time is looked at makes no difference unless it is over. -/
theorem timed {m : WatchM σ α} {B : Behaviour σ α} (hm : ev.Realizes m B) :
    ev.Realizes (silently ev.checkTime >>= fun _ => m) B := by
  intro p log hp
  by_cases htime : ev.budget ≤ p.spent
  · refine ⟨[], .error (.timeout ev.budget), p, ?_, fun h => absurd rfl h, hp, fun _ h => nomatch h⟩
    rw [Run.run_bind, run_silently, run_checkTime, if_pos htime, unasked, List.append_nil]
  · obtain ⟨t, result, p', hrun, hm⟩ := hm p log hp
    refine ⟨t, result, p', ?_, hm⟩
    rw [Run.run_bind, run_silently, run_checkTime, if_neg htime]
    exact hrun

/-- A node that is too deep fails, and every other one is computed. -/
theorem entered {m : WatchM σ Value} {e : Expr} {depth : Nat}
    (hm : ev.Realizes m (ev.Computes e depth)) :
    ev.Realizes (silently (ev.enter depth) >>= fun _ => m) (ev.Evaluates e depth) := by
  by_cases hdepth : ev.maxDepth < depth
  · have henter : (silently (ev.enter depth) >>= fun _ => m) =
        liftM (.error (.tooDeep ev.maxDepth) : Except EvalError Value) := by
      unfold enter
      rw [if_pos hdepth]
      rfl
    rw [henter, evaluates_tooDeep hdepth]
    exact give _
  · have henter : ev.enter depth = ev.checkTime := by
      unfold enter
      rw [if_neg hdepth]
    rw [henter, evaluates_entered hdepth]
    exact hm.timed

theorem decides {m : WatchM σ Value} {e : Expr} {depth : Nat}
    (hm : ev.Realizes m (ev.Evaluates e depth)) {k : Bool → WatchM σ β} {K : Bool → Behaviour σ β}
    (hk : ∀ b, ev.Realizes (k b) (K b)) :
    ev.Realizes (m >>= fun v => liftM v.condition >>= k) (AndThen (ev.Decides e depth) K) := by
  rw [← bind_assoc, decides_eq]
  exact (hm.bind fun v => give v.condition).bind hk

theorem chooses {m n o : WatchM σ Value} {c x y : Expr} {depth : Nat}
    (hc : ev.Realizes m (ev.Evaluates c depth)) (hx : ev.Realizes n (ev.Evaluates x depth))
    (hy : ev.Realizes o (ev.Evaluates y depth)) :
    ev.Realizes (m >>= fun v => liftM v.condition >>= fun b => if b then n else o)
      (ev.Chooses c x y depth) := by
  rw [chooses_eq]
  refine hc.decides fun b => ?_
  cases b with
  | true => exact hx
  | false => exact hy

end Realizes

/-- The stores are asked for what is not known. -/
theorem watchRead_realizes (r : Reading) : ev.Realizes (ev.watchRead r) (Ask r (ev.lookup r)) := by
  intro p log hp
  refine ⟨[.asked r], ev.lookup r, ?_⟩
  unfold watchRead lookup
  rw [Run.run_bind, Run.run_get]
  dsimp only
  cases hmemo : p.memo.lookup r with
  | some v =>
    have hr := Pass.mem_known hmemo
    rw [hp.memo r v hmemo]
    refine ⟨p, ?_, fun _ => only_ask r _ _, hp, fun _ _ => (if_pos hr).symm⟩
    rw [unasked_asked, if_pos hr, unasked, List.append_nil]
    rfl
  | none =>
    have hr := Pass.not_mem_known hmemo
    rw [unasked_asked, if_neg hr]
    cases hresolve : ev.resolve r with
    | error e => exact ⟨p, rfl, fun _ => only_ask r _ _, hp, fun _ h => nomatch h⟩
    | ok v =>
      refine ⟨{ p with memo := (r, v) :: p.memo }, rfl, fun _ => only_ask r _ _,
        ⟨resolved_cons hp.memo hresolve, hp.answers⟩, fun _ _ => (if_neg hr).symm⟩

/-- The body of a function that does not choose runs. -/
theorem run_runBody {p : Pass σ} (hp : ev.Faithful p) {f : Function σ} (heager : f.isSelect = false)
    (vs : List Value) : ∃ reply, f.run? (ev.call p.spent) vs p.host = some reply ∧
      (ev.runBody f vs).run p =
        (.ok reply.result, { p with spent := p.spent + reply.spent, host := reply.state }) := by
  obtain ⟨memo, spent, answers, host⟩ := p
  obtain rfl : answers = none := hp.answers
  unfold Function.run? runBody
  unfold Function.isSelect at heager
  cases hbody : f.body with
  | compute run => exact ⟨_, rfl, rfl⟩
  | host run => exact ⟨_, rfl, rfl⟩
  | select =>
    rw [hbody] at heager
    cases heager
  | ask query =>
    refine ⟨_, rfl, ?_⟩
    dsimp only
    unfold answer
    rw [Run.run_bind, Run.run_get]
    dsimp only
    cases query.key (ev.call spent) <;> rfl

/-- That a body is run is noted before. -/
theorem runBody_realizes (name : String) {f : Function σ} (heager : f.isSelect = false)
    (vs : List Value) : ev.Realizes (note (.ran name vs) >>= fun _ => silently (ev.runBody f vs))
      (ev.Runs name f vs) := by
  intro p log hp
  obtain ⟨reply, hreply, hrun⟩ := run_runBody hp heager vs
  refine ⟨[.ran name vs], .ok reply.result,
    { p with spent := p.spent + reply.spent, host := reply.state }, ?_, fun _ => only_runs hreply,
    ⟨hp.memo, hp.answers⟩, fun _ _ => rfl⟩
  rw [Run.run_bind, run_note]
  dsimp only
  rw [run_silently, hrun]
  rfl

theorem watchApply_realizes {name : String} (heager : Expr.selects ev.functions name = false)
    (vs : List Value) : ev.Realizes (ev.watchApply name vs) (ev.Applies name vs) := by
  unfold watchApply
  cases hf : ev.functions[name]? with
  | none =>
    rw [applies_unknownFunction hf]
    exact .throw _
  | some f =>
    rw [Expr.selects_of_some hf] at heager
    dsimp only
    by_cases haccepts : f.accepts vs.length = true
    · rw [if_pos haccepts, applies_run hf haccepts, ← bind_assoc]
      exact (runBody_realizes name heager vs).bind fun result => (Realizes.give _).timed
    · rw [if_neg haccepts, applies_arity hf (by simpa using haccepts)]
      exact .throw _

/-! ## Expressions -/

mutual

/-- A watched evaluation does what the rules say. -/
theorem watch_realizes (e : Expr) (depth : Nat) :
    ev.Realizes (ev.watch e depth) (ev.Evaluates e depth) := by
  match e with
  | .literal v =>
    rw [watch]
    refine .entered ?_
    rw [computes_literal]
    exact .pure v
  | .var name =>
    rw [watch]
    refine .entered ?_
    rw [computes_var]
    exact watchRead_realizes _
  | .reference object path =>
    rw [watch]
    refine .entered ?_
    rw [computes_reference]
    exact watchRead_realizes _
  | .unary op operand =>
    rw [watch]
    refine .entered ?_
    rw [computes_unary]
    exact (watch_realizes operand (depth + 1)).bind fun _ => .give _
  | .binary op left right =>
    have hl := watch_realizes left (depth + 1)
    have hr := watch_realizes right (depth + 1)
    -- The truth value of the right side, when the left one does not decide.
    have hright := hr.decides fun b => .pure (Value.bool b)
    cases op with
    | and =>
      rw [watch]
      refine .entered ?_
      rw [computes_connective (b := false) rfl]
      refine hl.decides fun b => ?_
      cases b with
      | true => exact hright
      | false => exact .pure _
    | or =>
      rw [watch]
      refine .entered ?_
      rw [computes_connective (b := true) rfl]
      refine hl.decides fun b => ?_
      cases b with
      | true => exact .pure _
      | false => exact hright
    | _ =>
      simp only [watch]
      refine .entered ?_
      rw [computes_strict rfl]
      exact hl.bind fun _ => hr.bind fun _ => .give _
  | .conditional c x y =>
    rw [watch]
    refine .entered ?_
    rw [computes_conditional]
    exact .chooses (watch_realizes c (depth + 1)) (watch_realizes x (depth + 1))
      (watch_realizes y (depth + 1))
  | .call name args =>
    rw [watch]
    refine .entered ?_
    have hcall (heager : Expr.selects ev.functions name = false) :
        ev.Realizes (ev.watchAll args (depth + 1) >>= ev.watchApply name)
          (ev.Computes (.call name args) depth) := by
      rw [computes_call heager]
      exact (watchAll_realizes args (depth + 1)).bind (watchApply_realizes heager)
    cases hf : ev.functions[name]? with
    | none => exact hcall (by rw [Expr.selects, hf, Option.any_none])
    | some f =>
      dsimp only
      split
      next hselect =>
        match args with
        | [c, x, y] =>
          rw [computes_select hf hselect]
          exact .chooses (watch_realizes c (depth + 2)) (watch_realizes x (depth + 2))
            (watch_realizes y (depth + 2))
        | [] | [_] | [_, _] | _ :: _ :: _ :: _ :: _ =>
          rw [computes_selectArity hf hselect (by simp)]
          exact .throw _
      next hselect => exact hcall (by simpa [Expr.selects_of_some hf] using hselect)

theorem watchAll_realizes (es : List Expr) (depth : Nat) :
    ev.Realizes (ev.watchAll es depth) (ev.EvaluatesAll es depth) := by
  match es with
  | [] =>
    unfold watchAll
    rw [evaluatesAll_nil]
    exact .pure _
  | e :: es =>
    unfold watchAll
    rw [evaluatesAll_cons]
    exact (watch_realizes e depth).bind fun _ => (watchAll_realizes es depth).bind fun _ => .pure _

end

/-- A watched pass has the result of the pass, leaves the host functions in the same state, and asks
for no name twice. Unless it runs out of time, the rules allow one evaluation in the world that it
starts in, which has the same result and leaves the host functions in the same state as well. The
events of the pass are events of that evaluation, in the same order: it runs the same functions on
the same arguments, and asks for the same names, each when the evaluation asks for it first. -/
theorem watched_refines (ev : Evaluator σ) (e : Expr) (host : σ) :
    (ev.watched e host).2 =
        ((ev.evaluate e none host).1, (ev.evaluate e none host).2.2) ∧
      ((ev.watched e host).1.filterMap asked?).Nodup ∧
      ((ev.evaluate e none host).1 ≠ .error (.timeout ev.budget) → ∃ events spent,
        (∀ t result world, ev.Evaluates e 1 ⟨0, host⟩ t result world ↔
          t = events ∧ result = (ev.evaluate e none host).1 ∧
            world = ⟨spent, (ev.evaluate e none host).2.2⟩) ∧
        (ev.watched e host).1.Sublist events ∧
        (ev.watched e host).1.filterMap ran? = events.filterMap ran? ∧
        (ev.watched e host).1.filterMap asked? = (events.filterMap asked?).eraseDups) := by
  have hfaithful : ev.Faithful (⟨[], 0, none, host⟩ : Pass σ) := ⟨(fun _ _ h => nomatch h), rfl⟩
  have hrealizes : ev.Realizes (ev.watch e 1) (ev.Evaluates e 1) := watch_realizes e 1
  obtain ⟨events, result, p, hrun, htraced⟩ := hrealizes _ [] hfaithful
  have hevents : (ev.watched e host).1 = unasked [] events := by
    unfold watched
    rw [hrun]
    rfl
  have heval : (ev.eval e 1).run ⟨[], 0, none, host⟩ = (result, p) := by
    rw [← watch_shows e 1 ⟨[], 0, none, host⟩ [], hrun]
  have hwatched : (ev.watched e host).2 = (result, p.host) := by
    unfold watched
    rw [hrun]
  unfold evaluate
  rw [hwatched, hevents, heval]
  refine ⟨rfl, nodup_unasked events [], fun htime => ⟨events, p.spent, htraced.only htime,
    unasked_sublist events [], ran_unasked events [], ?_⟩⟩
  simpa using asked_unasked events []

/-- A choice whose condition and first branch read the same name: the stores are asked for it once
and not for the name in the other branch, and the host function, which counts, runs twice. -/
theorem ticks_refine :
    let ready : Event := .asked (.variableNamed "ready")
    let tick : Function Nat :=
      ⟨"tick", 1, 1, none, .host fun _ args n => ⟨.ok (args.headD (.bool false)), 5, n + 1⟩⟩
    let vars : VariableTable := Std.ExtTreeMap.empty.insert ⟨.global, none, "ready"⟩ (.bool true)
    let ev : Evaluator Nat :=
      ⟨Registry.builtin.register tick, 10, 1000, 1000, ⟨{}, vars⟩, ⟨"a", none, none⟩, 0⟩
    let ticks : Expr := .call "tick" [.var "ready"]
    let e : Expr := .conditional ticks ticks (.var "missing")
    (ev.evaluate e none 0).1 ≠ .error (.timeout ev.budget) ∧
      ev.watched e 0 =
        ([ready, .ran "tick" [.bool true], .ran "tick" [.bool true]], .ok (.bool true), 2) ∧
      ∃ events spent,
        (∀ t result world, ev.Evaluates e 1 ⟨0, 0⟩ t result world ↔
          t = events ∧ result = .ok (.bool true) ∧ world = ⟨spent, 2⟩) ∧
        events.filterMap ran? = [("tick", [.bool true]), ("tick", [.bool true])] ∧
        (events.filterMap asked?).eraseDups = [.variableNamed "ready"] := by
  intro ready tick vars ev ticks e
  have htime : (ev.evaluate e none 0).1 ≠ .error (.timeout ev.budget) := by decide
  have hwatched : ev.watched e 0 =
      ([ready, .ran "tick" [.bool true], .ran "tick" [.bool true]], .ok (.bool true), 2) := by
    decide
  obtain ⟨hpass, -, hrules⟩ := watched_refines ev e 0
  obtain ⟨events, spent, hone, -, hran, hasked⟩ := hrules htime
  rw [hwatched] at hpass hran hasked
  obtain ⟨hresult, hhost⟩ := Prod.mk.inj hpass
  rw [← hresult, ← hhost] at hone
  exact ⟨htime, hwatched, events, spent, hone, hran.symm, hasked.symm⟩

end Evaluator

end Parametric
