import Mathlib.Data.List.Nodup
import Parametric.Formula.Builtin
import Parametric.Proofs.Formula.Failure

/-!
# The limit on depth

The limit only cuts evaluations off. A step is `CutOff` from another one when it gets too deep or
does what the other one does, from whatever pass it is run. An evaluation under a limit is cut off
from the evaluation under any greater one (`eval_cutOff`), and nothing is cut off when the limit is
at least the weight of the expression (`evaluate_cut_off`).
-/

namespace Parametric.Evaluator

variable {σ : Type}

/-- The evaluator with another limit on depth. -/
def withLimit (ev : Evaluator σ) (limit : Nat) : Evaluator σ := { ev with maxDepth := limit }

/-- A step gets too deep for a limit, or does what another step does. -/
def CutOff {α : Type} (limit : Nat) (m m' : EvalM σ α) : Prop :=
  ∀ p : Pass σ, (m.run p).1 = .error (.tooDeep limit) ∨ m.run p = m'.run p

namespace CutOff

variable {α β : Type} {limit : Nat}

theorem refl (m : EvalM σ α) : CutOff limit m m := fun _ => .inr rfl

theorem bind {m m' : EvalM σ α} {k k' : α → EvalM σ β} (hm : CutOff limit m m')
    (hk : ∀ a, CutOff limit (k a) (k' a)) : CutOff limit (m >>= k) (m' >>= k') := by
  intro p
  have hfirst := hm p
  rw [Run.run_bind, Run.run_bind]
  rcases hfirst with hdeep | heq
  · left
    cases hrun : m.run p with
    | mk result p' =>
      rw [hrun] at hdeep
      cases hdeep
      rfl
  · rw [← heq]
    cases hrun : m.run p with
    | mk result p' =>
      cases result with
      | error e => exact .inr rfl
      | ok a => exact hk a p'

theorem ite {c : Prop} [Decidable c] {m m' n n' : EvalM σ α} (hm : CutOff limit m m')
    (hn : CutOff limit n n') : CutOff limit (if c then m else n) (if c then m' else n') := by
  split
  · exact hm
  · exact hn

end CutOff

variable {ev : Evaluator σ} {limit : Nat}

/-- What can be entered under the lesser limit can be entered under the greater one. -/
theorem enter_cutOff (hlimit : ev.maxDepth ≤ limit) (depth : Nat) :
    CutOff ev.maxDepth (ev.enter depth) ((ev.withLimit limit).enter depth) := by
  intro p
  by_cases hdepth : ev.maxDepth < depth
  · left
    unfold enter
    rw [if_pos hdepth]
    rfl
  · right
    have hdepth' : ¬ limit < depth := by omega
    unfold enter
    rw [if_neg hdepth, if_neg (c := (ev.withLimit limit).maxDepth < depth) hdepth']
    rfl

mutual

/-- An evaluation under the lesser limit gets too deep, or goes as under the greater one. -/
theorem eval_cutOff (hlimit : ev.maxDepth ≤ limit) (e : Expr) (depth : Nat) :
    CutOff ev.maxDepth (ev.eval e depth) ((ev.withLimit limit).eval e depth) := by
  have henter := enter_cutOff hlimit depth
  match e with
  | .literal v =>
    rw [eval, eval]
    exact henter.bind fun _ => .refl _
  | .var name | .reference object path =>
    rw [eval, eval]
    exact henter.bind fun _ => .refl _
  | .unary op operand =>
    rw [eval, eval]
    exact henter.bind fun _ => (eval_cutOff hlimit operand (depth + 1)).bind fun _ => .refl _
  | .binary op left right =>
    have hl := eval_cutOff hlimit left (depth + 1)
    have hr := eval_cutOff hlimit right (depth + 1)
    cases op with
    | and =>
      rw [eval, eval]
      exact henter.bind fun _ => hl.bind fun _ => (CutOff.refl _).bind fun _ =>
        .ite (hr.bind fun _ => .refl _) (.refl _)
    | or =>
      rw [eval, eval]
      exact henter.bind fun _ => hl.bind fun _ => (CutOff.refl _).bind fun _ =>
        .ite (.refl _) (hr.bind fun _ => .refl _)
    | _ =>
      simp only [eval]
      exact henter.bind fun _ => hl.bind fun _ => hr.bind fun _ => .refl _
  | .conditional c t e =>
    rw [eval, eval]
    exact henter.bind fun _ => (eval_cutOff hlimit c (depth + 1)).bind fun _ => (CutOff.refl _).bind
      fun _ => .ite (eval_cutOff hlimit t (depth + 1)) (eval_cutOff hlimit e (depth + 1))
  | .call name args =>
    have hcall : CutOff ev.maxDepth (ev.evalAll args (depth + 1) >>= ev.apply name)
        ((ev.withLimit limit).evalAll args (depth + 1) >>= (ev.withLimit limit).apply name) :=
      (evalAll_cutOff hlimit args (depth + 1)).bind fun vs => .refl (ev.apply name vs)
    have hfunctions : (ev.withLimit limit).functions = ev.functions := rfl
    rw [eval, eval, hfunctions]
    refine henter.bind fun _ => ?_
    cases ev.functions[name]? with
    | none => exact hcall
    | some f =>
      dsimp only
      refine .ite ?_ hcall
      -- Both look at the arguments of a choice two levels down.
      match args with
      | [c, t, e] =>
        exact (eval_cutOff hlimit c (depth + 2)).bind fun _ => (CutOff.refl _).bind fun _ =>
          .ite (eval_cutOff hlimit t (depth + 2)) (eval_cutOff hlimit e (depth + 2))
      | [] | [_] | [_, _] | _ :: _ :: _ :: _ :: _ => exact .refl _

theorem evalAll_cutOff (hlimit : ev.maxDepth ≤ limit) (es : List Expr) (depth : Nat) :
    CutOff ev.maxDepth (ev.evalAll es depth) ((ev.withLimit limit).evalAll es depth) := by
  match es with
  | [] =>
    unfold evalAll
    exact .refl _
  | e :: es =>
    unfold evalAll
    exact (eval_cutOff hlimit e depth).bind fun _ =>
      (evalAll_cutOff hlimit es depth).bind fun _ => .refl _

end

/-- When the limit on depth is at least the weight of an expression, its evaluation never gets too
deep. Under any limit an evaluation gets too deep, or gives the same result as under every greater
limit and leaves the cache and the host functions in the same state. -/
theorem evaluate_cut_off (ev : Evaluator σ) (e : Expr) (answers : Option (Cache QueryKey Value))
    (host : σ) :
    (e.weight ev.functions ≤ ev.maxDepth →
      ∀ n, (ev.evaluate e answers host).1 ≠ .error (.tooDeep n)) ∧
    ∀ limit, ev.maxDepth ≤ limit →
      (ev.evaluate e answers host).1 = .error (.tooDeep ev.maxDepth) ∨
        ev.evaluate e answers host = (ev.withLimit limit).evaluate e answers host := by
  refine ⟨fun hweight => evaluate_ne_tooDeep hweight answers host, fun limit hlimit => ?_⟩
  rcases eval_cutOff hlimit e 1 ⟨[], 0, answers, host⟩ with hdeep | heq
  · exact .inl hdeep
  · refine .inr ?_
    unfold evaluate
    rw [heq]

/-- A choice between two numbers takes three levels, and has the same value under all limits from
three on. -/
theorem choice_cut_off :
    let ev : Evaluator Unit := ⟨.builtin, 3, 1000, 1000, ⟨{}, ∅⟩, ⟨"a", none, none⟩, 0⟩
    let e : Expr :=
      .call "if" [.literal (.bool true), .literal (.ofNat 1), .literal (.ofNat 2)]
    e.weight ev.functions ≤ ev.maxDepth ∧
      (∀ n, (ev.evaluate e none ()).1 ≠ .error (.tooDeep n)) ∧
      ((ev.withLimit 2).evaluate e none ()).1 = .error (.tooDeep 2) ∧
      ∀ limit, ev.maxDepth ≤ limit →
        ((ev.withLimit limit).evaluate e none ()).1 = .ok (.ofNat 1) := by
  intro ev e
  have hweight : e.weight ev.functions ≤ ev.maxDepth := by decide
  have hvalue : (ev.evaluate e none ()).1 = .ok (.ofNat 1) := by decide
  obtain ⟨hdeep, hcut⟩ := evaluate_cut_off ev e none ()
  refine ⟨hweight, hdeep hweight, by decide, fun limit hlimit => ?_⟩
  rcases hcut limit hlimit with hcut | hcut
  · exact absurd hcut (hdeep hweight _)
  · rw [← hcut, hvalue]

end Parametric.Evaluator
