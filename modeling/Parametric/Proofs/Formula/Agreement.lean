import Parametric.Proofs.Formula.Meaning

/-!
# Limits only make evaluations fail

How deep an evaluation may go and how many children it may visit decide whether it gives a value,
and not which one: evaluators with other limits that see the same give no two values
(`Evaluator.value_concur`). They see the same at a call of a built-in function when the calls are
made for the same object in scenes of the same shape, and the property of the container that the
function is declared to depend on has the same value (`Builtin.concurs_of_mem`).
-/

namespace Parametric

/-- Two results are not two values. -/
def Concur {ε α : Type} (x y : Except ε α) : Prop := ∀ a b, x = .ok a → y = .ok b → a = b

namespace Concur

variable {ε α β : Type} {x y : Except ε α}

theorem refl (x : Except ε α) : Concur x x := fun _ _ ha hb => Except.ok.inj (ha.symm.trans hb)

theorem of_eq (h : x = y) : Concur x y := h ▸ refl x

theorem bind {f g : α → Except ε β} (h : Concur x y) (hfg : ∀ a, Concur (f a) (g a)) :
    Concur (x >>= f) (y >>= g) := by
  intro b b' hx hy
  obtain ⟨a, ha, hb⟩ := Run.ok_of_bind hx
  obtain ⟨a', ha', hb'⟩ := Run.ok_of_bind hy
  obtain rfl : a = a' := h a a' ha ha'
  exact hfg a b b' hb hb'

theorem ite {c : Prop} [Decidable c] {x' y' : Except ε α} (h : Concur x y) (h' : Concur x' y') :
    Concur (if c then x else x') (if c then y else y') := by
  split
  · exact h
  · exact h'

/-- Two guards may let pass differently. -/
theorem guard {c c' : Prop} [Decidable c] [Decidable c'] {e e' : ε} (h : Concur x y) :
    Concur (if c then .error e else x) (if c' then .error e' else y) := by
  intro a b hx hy
  split at hx
  · cases hx
  · split at hy
    · cases hy
    · exact h a b hx hy

end Concur

/-! ## Functions -/

/-- Two calls are made for the same object in scenes of the same shape, and may visit different
numbers of children. -/
def Call.AlikeButLimits (c c' : Call) : Prop := c.Alike { c' with maxVisited := c.maxVisited }

/-- The property of the container that a function depends on has the same value in two calls. -/
def Implicit.SameValueIn (c c' : Call) (implicit : Option Implicit) : Prop :=
  ∀ property, implicit = some (.container property) → ∀ id, c.container = some id →
    (c.objects.get? id).bind (·.value? [property]) = (c'.objects.get? id).bind (·.value? [property])

/-- Calls that may visit different numbers of children return no two values. -/
def Function.Concurs {σ : Type} (f : Function σ) : Prop :=
  ∀ c c' : Call, c.AlikeButLimits c' → Implicit.SameValueIn c c' f.implicit →
    match f.body with
    | .compute run => ∀ args, Concur (run c args) (run c' args)
    | .ask query =>
      Concur ((query.key c).bind (Query.answer c)) ((query.key c').bind (Query.answer c'))
    | .host _ => False
    | .select => True

theorem Query.answer_concur {c c' : Call} (hobject : c.object = c'.object) {k : QueryKey}
    (hchildren : c.objects.childrenOf k.container = c'.objects.childrenOf k.container) :
    Concur (answer c k) (answer c' k) := by
  unfold answer
  refine .bind ?_ fun ids => ?_
  · unfold Call.children
    rw [hchildren]
    exact .guard (.refl _)
  · rw [hobject]
    exact .refl _

namespace Builtin

variable {σ : Type}

@[simp]
theorem concurs_ofArgs (name : String) (minArgs maxArgs : Nat)
    (run : List Value → Except FunctionFault Value) :
    (ofArgs name minArgs maxArgs run : Function σ).Concurs :=
  fun _ _ _ _ _ => .refl _

@[simp]
theorem concurs_ofSelect (name : String) : (Function.ofSelect name : Function σ).Concurs :=
  fun _ _ _ _ => trivial

theorem concurs_ask (name : String) (minArgs maxArgs : Nat) (implicit : Option Implicit)
    (query : Query) : (⟨name, minArgs, maxArgs, implicit, .ask query⟩ : Function σ).Concurs := by
  intro c c' h _
  show Concur ((query.key c).bind (Query.answer c)) ((query.key c').bind (Query.answer c'))
  have hkey : query.key c = query.key c' := by
    rw [Query.key_congr h]
    cases query <;> rfl
  rw [hkey]
  cases query.key c' with
  | error e => exact .refl _
  | ok k =>
    have hchildren : c.objects.childrenOf k.container = c'.objects.childrenOf k.container :=
      ObjectTable.childrenOf_congr h.shape _
    have hobject : c.object = c'.object := h.object
    exact Query.answer_concur hobject hchildren

@[simp]
theorem concurs_ofDimension (name property : String) :
    (ofDimension name property : Function σ).Concurs := by
  intro c c' h hsame args
  refine .of_eq ?_
  dsimp only [ofDimension]
  have hlimit : { c' with maxVisited := c.maxVisited }.containerObject = c'.containerObject := rfl
  rcases Call.containerObject_congr h with ⟨e, hc, hc'⟩ | ⟨id, o, o', hid, ho, ho', hc, hc', hbare⟩
  · rw [hc, ← hlimit, hc']
  · have hread := hsame property rfl id hid
    have ho' : c'.objects.get? id = some o' := ho'
    simp only [ho, ho', Option.bind_some] at hread
    have hnumber : o.number? property = o'.number? property := by
      rw [Object.number?, Object.number?, hread]
    injection hbare with hid
    rw [hlimit] at hc'
    simp only [hc, hc', bind, Except.bind, hnumber, hid]

theorem concurs_of_mem : ∀ f ∈ (all : List (Function σ)), f.Concurs := by
  simp [all, arithmetic, easing, trigonometry, containment, ofOne, ofTwo, ofMany, ofCurve,
    ofSiblings, concurs_ask]

end Builtin

namespace Evaluator

variable {σ : Type} {ev ev' : Evaluator σ}

theorem returned_concur (name : String) {x y : Except FunctionFault Value} (h : Concur x y) :
    Concur (returned name x) (returned name y) := by
  cases x with
  | error e => exact fun _ _ hx _ => by cases hx
  | ok v =>
    cases y with
    | error e => exact fun _ _ _ hy => by cases hy
    | ok v' =>
      obtain rfl : v = v' := h v v' rfl rfl
      exact .refl _

/-- Calls of a built-in function give no two values. -/
theorem called_concur (hfunctions : ev.functions = .builtin)
    (hfunctions' : ev'.functions = .builtin)
    (halike : (ev.call 0).AlikeButLimits (ev'.call 0)) (name : String)
    (hsame : Implicit.SameValueIn (ev.call 0) (ev'.call 0)
      (ev.functions[name]?.bind Function.implicit)) (args : List Value) :
    Concur (ev.called name args) (ev'.called name args) := by
  unfold called
  rw [hfunctions] at hsame ⊢
  rw [hfunctions']
  cases hf : (Registry.builtin : Registry σ)[name]? with
  | none => exact .refl _
  | some f =>
    dsimp only
    refine .ite (returned_concur name ?_) (.refl _)
    rw [hf, Option.bind_some] at hsame
    have hconcurs := Builtin.concurs_of_mem f (Registry.mem_all_of_builtin hf) _ _ halike hsame
    unfold returns
    cases hbody : f.body with
    | compute run =>
      rw [hbody] at hconcurs
      exact hconcurs args
    | ask query =>
      rw [hbody] at hconcurs
      exact hconcurs
    | host run => exact .refl _
    | select => exact .refl _

/-! ## Expressions -/

/-- Two evaluators see no two values at a node. -/
def ConcurAt (ev ev' : Evaluator σ) : Expr → Prop
  | .var name => Concur (ev.lookup (.variableNamed name)) (ev'.lookup (.variableNamed name))
  | .reference object path =>
    Concur (ev.lookup (.propertyOf object path)) (ev'.lookup (.propertyOf object path))
  | .call name _ => ∀ args, Concur (ev.called name args) (ev'.called name args)
  | _ => True

mutual

/-- Evaluators that see no two values at the nodes of an expression give it no two values. -/
theorem value_concur (hfunctions : ev.functions = ev'.functions) (e : Expr)
    (hconcur : ∀ n ∈ e.nodes, ConcurAt ev ev' n) (depth : Nat) :
    Concur (ev.value e depth) (ev'.value e depth) := by
  match e with
  | .literal v =>
    rw [value, value]
    exact .guard (.refl _)
  | .var name =>
    have h : ConcurAt ev ev' (.var name) := hconcur _ (by simp [Expr.nodes])
    rw [value, value]
    exact .guard h
  | .reference object path =>
    have h : ConcurAt ev ev' (.reference object path) := hconcur _ (by simp [Expr.nodes])
    rw [value, value]
    exact .guard h
  | .unary op operand =>
    have h := value_concur hfunctions operand
      (fun n hn => hconcur n (by simp [Expr.nodes, hn])) (depth + 1)
    rw [value, value]
    exact .guard (h.bind fun _ => .refl _)
  | .binary op left right =>
    have hl := value_concur hfunctions left
      (fun n hn => hconcur n (by simp [Expr.nodes, hn])) (depth + 1)
    have hr := value_concur hfunctions right
      (fun n hn => hconcur n (by simp [Expr.nodes, hn])) (depth + 1)
    cases op with
    | and =>
      rw [value, value]
      exact .guard (hl.bind fun _ => (Concur.refl _).bind fun _ =>
        .ite (hr.bind fun _ => .refl _) (.refl _))
    | or =>
      rw [value, value]
      exact .guard (hl.bind fun _ => (Concur.refl _).bind fun _ =>
        .ite (.refl _) (hr.bind fun _ => .refl _))
    | _ =>
      simp only [value]
      exact .guard (hl.bind fun _ => hr.bind fun _ => .refl _)
  | .conditional c t e =>
    have hc := value_concur hfunctions c
      (fun n hn => hconcur n (by simp [Expr.nodes, hn])) (depth + 1)
    have ht := value_concur hfunctions t
      (fun n hn => hconcur n (by simp [Expr.nodes, hn])) (depth + 1)
    have he := value_concur hfunctions e
      (fun n hn => hconcur n (by simp [Expr.nodes, hn])) (depth + 1)
    rw [value, value]
    exact .guard (hc.bind fun _ => (Concur.refl _).bind fun _ => .ite ht he)
  | .call name args =>
    have hcalled : ConcurAt ev ev' (.call name args) := hconcur _ (by simp [Expr.nodes])
    have hargs := values_concur hfunctions args
      (fun n hn => hconcur n (by simp [Expr.nodes, hn])) (depth + 1)
    have hcall := hargs.bind hcalled
    rw [value, value, hfunctions]
    refine .guard ?_
    cases ev'.functions[name]? with
    | none => exact hcall
    | some f =>
      dsimp only
      refine .ite ?_ hcall
      -- A selection looks at its three arguments one level deeper.
      match args with
      | [c, t, e] =>
        have hc := value_concur hfunctions c
          (fun n hn => hconcur n (by simp [Expr.nodes, Expr.nodesOfAll, hn])) (depth + 2)
        have ht := value_concur hfunctions t
          (fun n hn => hconcur n (by simp [Expr.nodes, Expr.nodesOfAll, hn])) (depth + 2)
        have he := value_concur hfunctions e
          (fun n hn => hconcur n (by simp [Expr.nodes, Expr.nodesOfAll, hn])) (depth + 2)
        exact hc.bind fun _ => (Concur.refl _).bind fun _ => .ite ht he
      | [] | [_] | [_, _] | _ :: _ :: _ :: _ :: _ => exact .refl _

theorem values_concur (hfunctions : ev.functions = ev'.functions) (es : List Expr)
    (hconcur : ∀ n ∈ Expr.nodesOfAll es, ConcurAt ev ev' n) (depth : Nat) :
    Concur (ev.values es depth) (ev'.values es depth) := by
  match es with
  | [] =>
    rw [values, values]
    exact .refl _
  | e :: es =>
    have he := value_concur hfunctions e
      (fun n hn => hconcur n (by simp [Expr.nodesOfAll, hn])) depth
    have hes := values_concur hfunctions es
      (fun n hn => hconcur n (by simp [Expr.nodesOfAll, hn])) depth
    rw [values, values]
    exact he.bind fun v => hes.bind fun vs => .refl _

end

end Evaluator

end Parametric
