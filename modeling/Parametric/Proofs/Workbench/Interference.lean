import Parametric.Proofs.Workbench.Coherent

/-!
# What an evaluation cannot notice

A formula reads nothing but its producers. In two workbenches of the same shape that agree on the
properties among them and on the variables that the formula names, its tree gives the same value or
the same error. The tree of a constant formula gives the same in any two workbenches, so the value
that a constant formula has stored after some `Evaluation`s is what its tree would give anywhere
(`Workbench.evaluation_reads_producers`).
-/

namespace Parametric

namespace Evaluator

variable {σ : Type}

/-- Without time, a pass stops before the first node. -/
theorem evaluate_of_budget_eq_zero (ev : Evaluator σ) (hbudget : ev.budget = 0) (e : Expr)
    (answers : Option (Cache QueryKey Value)) (host : σ) :
    (ev.evaluate e answers host).1 =
      .error (if ev.maxDepth < 1 then .tooDeep ev.maxDepth else .timeout 0) := by
  have henter : (ev.enter 1).run ⟨[], 0, answers, host⟩ =
      (.error (if ev.maxDepth < 1 then .tooDeep ev.maxDepth else .timeout 0),
        ⟨[], 0, answers, host⟩) := by
    unfold enter checkTime
    rw [hbudget]
    split <;> rfl
  unfold evaluate
  have hrun : (ev.eval e 1).run ⟨[], 0, answers, host⟩ =
      (.error (if ev.maxDepth < 1 then .tooDeep ev.maxDepth else .timeout 0),
        ⟨[], 0, answers, host⟩) := by
    unfold eval
    rw [Run.run_bind, henter]
  rw [hrun]

end Evaluator

namespace Calculator

variable {σ : Type}

/-- A calculator has the built-in functions and given settings. -/
structure Standard (settings : EvaluationSettings) (c : Calculator σ) : Prop where
  functions : c.functions = .builtin
  settings : c.settings = settings

/-- The tree of a constant formula gives the same in every pass, whatever the cache of answers
holds. -/
theorem evaluate_of_isConstant {settings : EvaluationSettings} {c c' : Calculator σ}
    (hc : c.Standard settings) (hc' : c'.Standard settings) {f : Formula}
    (hf : f.Compiled (.builtin : Registry σ)) (hconstant : f.isConstant) (stores stores' : Stores)
    (view view' : Viewpoint) (now now' : Nat) (answers answers' : Option (Cache QueryKey Value))
    (host host' : σ) :
    ((c.evaluator stores view now).evaluate f.tree answers host).1 =
      ((c'.evaluator stores' view' now').evaluate f.tree answers' host').1 := by
  have hvalue : ∀ {c : Calculator σ} (_ : c.Standard settings) (_ : 0 < settings.timeout)
      (stores : Stores) (view : Viewpoint) (now : Nat) (answers : Option (Cache QueryKey Value))
      (host : σ), ((c.evaluator stores view now).evaluate f.tree answers host).1 =
        (c.evaluator stores view now).value f.tree 1 := by
    intro c hc htimeout stores view now answers host
    have hfunctions : (c.evaluator stores view now).functions = .builtin := hc.functions
    have hcompiled : f.Compiled (c.evaluator stores view now).functions := hfunctions ▸ hf
    have hbudget : 0 < (c.evaluator stores view now).budget := by
      rwa [evaluator, hc.settings]
    exact (Evaluator.evaluate_eq_value_of_asks _ hbudget
      (hfunctions ▸ fun _ _ hg => Registry.hostFree_builtin hg) f.tree
      (Formula.asksAt_of_isConstant hfunctions hcompiled hconstant) answers
      (fun _ _ _ _ _ => False.elim) host).1
  have hdepth : (c.evaluator stores view now).maxDepth =
      (c'.evaluator stores' view' now').maxDepth := by
    rw [evaluator, evaluator, hc.settings, hc'.settings]
  rcases Nat.eq_zero_or_pos settings.timeout with htimeout | htimeout
  · rw [Evaluator.evaluate_of_budget_eq_zero, Evaluator.evaluate_of_budget_eq_zero, hdepth]
    · rw [evaluator, hc'.settings, htimeout]
    · rw [evaluator, hc.settings, htimeout]
  · rw [hvalue hc htimeout, hvalue hc' htimeout]
    have hfunctions : (c.evaluator stores view now).functions = .builtin := hc.functions
    exact Formula.value_of_isConstant hfunctions hc'.functions hdepth host (hfunctions ▸ hf)
      hconstant

/-- An evaluation of a formula, with the caches or without them, by a calculator in any state. -/
structure Evaluation (σ : Type) where
  calculator : Calculator σ
  cached : Bool
  stores : Stores
  view : Viewpoint

/-- The formula after an evaluation. -/
def Evaluation.run (e : Evaluation σ) (f : Formula) : Formula :=
  if e.cached then (e.calculator.evaluateCached f e.stores e.view).2.1
  else (e.calculator.evaluate f e.stores e.view).2.1

/-- A formula after some evaluations. -/
def evaluated (f : Formula) (es : List (Evaluation σ)) : Formula :=
  es.foldl (fun f e => e.run f) f

theorem evaluate_notes (c : Calculator σ) (f : Formula) (stores : Stores) (view : Viewpoint) :
    (c.evaluate f stores view).2.1 = f ∨ (c.evaluate f stores view).2.1 =
      c.note f ((c.evaluator stores view 0).evaluate f.tree none c.host).1 := by
  unfold evaluate
  cases f.settled? with
  | some v => exact .inl rfl
  | none => exact .inr rfl

theorem evaluateCached_notes (c : Calculator σ) (f : Formula) (stores : Stores) (view : Viewpoint) :
    (c.evaluateCached f stores view).2.1 = f ∨ ∃ now, (c.evaluateCached f stores view).2.1 =
      c.note f ((c.evaluator stores view now).evaluate f.tree (some c.answers) c.host).1 := by
  unfold evaluateCached
  cases f.settled? with
  | some v => exact .inl rfl
  | none =>
    dsimp only
    split
    · exact .inl rfl
    · exact .inr ⟨c.clock.read.1, rfl⟩

/-- An evaluation leaves a formula as it was, or notes what one pass over its tree gave. -/
theorem Evaluation.run_eq (e : Evaluation σ) (f : Formula) :
    e.run f = f ∨ ∃ now answers, e.run f = e.calculator.note f
      ((e.calculator.evaluator e.stores e.view now).evaluate f.tree answers
        e.calculator.host).1 := by
  unfold run
  split
  · exact (evaluateCached_notes e.calculator f e.stores e.view).imp_right
      fun ⟨now, h⟩ => ⟨now, _, h⟩
  · exact (evaluate_notes e.calculator f e.stores e.view).imp_right fun h => ⟨0, none, h⟩

/-- An evaluation keeps what a constant formula has stored right, if every pass over its tree gives
the same. -/
theorem Evaluation.run_settled (e : Evaluation σ) {f g : Formula}
    {result : Except EvalError Value} (hcore : g.core = f.core)
    (hg : ∀ v, g.settled? = some v → result = .ok v)
    (hresult : f.isConstant → ∀ now answers, result =
      ((e.calculator.evaluator e.stores e.view now).evaluate f.tree answers e.calculator.host).1) :
    (e.run g).core = f.core ∧ ∀ v, (e.run g).settled? = some v → result = .ok v := by
  rcases e.run_eq g with heq | ⟨now, answers, heq⟩
  · rw [heq]
    exact ⟨hcore, hg⟩
  · have hsame : (e.run g).core = f.core := by
      rw [heq, core_note, hcore]
    refine ⟨hsame, fun v hv => ?_⟩
    have hconstant : (e.run g).core.isConstant = f.core.isConstant :=
      congrArg Formula.isConstant hsame
    have htree : g.tree = f.tree := by
      injection hcore
    have hnoted := noted_note e.calculator g
      ((e.calculator.evaluator e.stores e.view now).evaluate g.tree answers e.calculator.host).1
    rw [← heq] at hnoted
    rw [hresult (hconstant.symm.trans (Formula.settled?_eq_some hv).1) now answers, ← htree,
      hnoted.settled? hv]

end Calculator

namespace Workbench

variable {σ : Type} {w w' : Workbench σ}

/-- Two evaluations of a tree that means the same give the same. -/
theorem fresh_congr (hw : w.calculator.functions = .builtin)
    (hw' : w'.calculator.functions = .builtin)
    (hsettings : w.calculator.settings = w'.calculator.settings) {f : Formula}
    (hmeaning : w.meaning f = w'.meaning f) : w.fresh f = w'.fresh f := by
  have hfree : ∀ {w : Workbench σ}, w.calculator.functions = .builtin →
      Evaluator.HostFree w.calculator.functions :=
    fun hw => hw ▸ fun _ _ hg => Registry.hostFree_builtin hg
  rcases Nat.eq_zero_or_pos w.calculator.settings.timeout with htimeout | htimeout
  · have hdepth : (w.calculator.evaluator w.stores (w.view f.object) 0).maxDepth =
        (w'.calculator.evaluator w'.stores (w'.view f.object) 0).maxDepth :=
      congrArg EvaluationSettings.maxDepth hsettings
    unfold fresh
    rw [Evaluator.evaluate_of_budget_eq_zero _ htimeout,
      Evaluator.evaluate_of_budget_eq_zero _ (hsettings ▸ htimeout :
        w'.calculator.settings.timeout = 0), hdepth]
  · rw [fresh_eq_meaning htimeout (hfree hw), fresh_eq_meaning (hsettings ▸ htimeout) (hfree hw'),
      hmeaning]

/-- What a formula has stored after evaluations is what its tree gives, if the formula is constant.
-/
theorem fresh_of_settled {settings : EvaluationSettings} (hw : w.calculator.Standard settings)
    {f : Formula} (hf : f.Compiled (.builtin : Registry σ)) {es : List (Calculator.Evaluation σ)}
    (hes : ∀ e ∈ es, e.calculator.Standard settings) {g : Formula} (hcore : g.core = f.core)
    (hg : ∀ v, g.settled? = some v → w.fresh f = .ok v) {v : Value}
    (hv : (Calculator.evaluated g es).settled? = some v) : w.fresh f = .ok v := by
  induction es generalizing g with
  | nil => exact hg v hv
  | cons e es ih =>
    obtain ⟨he, hes⟩ := List.forall_mem_cons.1 hes
    obtain ⟨hcore', hsettled⟩ := Calculator.Evaluation.run_settled e hcore hg
      fun hconstant now answers =>
        Calculator.evaluate_of_isConstant hw he hf hconstant _ _ _ _ _ _ _ _ _ _
    exact ih hes hcore' hsettled hv

/-- Take a formula that was compiled with the built-in functions. In two workbenches of the same
shape that hold the same properties among its producers and the same variables of the names in it,
its tree gives the same. If it is constant, its tree gives the same in any two workbenches with the
same settings, and the value that it has stored after any evaluations with these settings is what
its tree gives there. -/
theorem evaluation_reads_producers {c c' : Calculator σ} {source : String} {object : ObjectId}
    {f : Formula} (hc : c.functions = .builtin) (hf : c.compile source object = .ok (f, c')) :
    (∀ w w' : Workbench σ, SameShape w w' →
      (∀ p ∈ w.producers f (w.containerOf? f.object), p.2.kind ≠ .variable →
        w.scene.objects.field? p.1 = w'.scene.objects.field? p.1) →
      (∀ slot : Slot, slot.name ∈ f.variableNames → w.vars[slot]? = w'.vars[slot]?) →
      w.fresh f = w'.fresh f) ∧
    (f.isConstant → ∀ (settings : EvaluationSettings) (w : Workbench σ),
      w.calculator.Standard settings →
      (∀ w' : Workbench σ, w'.calculator.Standard settings → w.fresh f = w'.fresh f) ∧
      ∀ es : List (Calculator.Evaluation σ), (∀ e ∈ es, e.calculator.Standard settings) →
        ∀ v, (Calculator.evaluated f es).settled? = some v → w.fresh f = .ok v) := by
  obtain ⟨-, hcompiled, -, hfresh, -⟩ := Calculator.compile_spec hf
  rw [hc] at hcompiled
  refine ⟨fun w w' h hfields hvars => ?_, fun hconstant settings w hw => ⟨fun w' hw' => ?_,
    fun es hes v hv => ?_⟩⟩
  · refine fresh_congr h.functions h.functions' h.settings (meaning_congr h ?_ ?_ hvars)
    · rwa [h.functions]
    · intro e he
      obtain ⟨p, hp, rfl⟩ := List.mem_map.1 he
      obtain ⟨hp, hkind⟩ := List.mem_filter.1 hp
      exact hfields p hp (of_decide_eq_true hkind)
  · exact Calculator.evaluate_of_isConstant hw hw' hcompiled hconstant _ _ _ _ _ _ _ _ _ _
  · exact fresh_of_settled hw hcompiled hes rfl (fun u hu => by simp [hfresh] at hu) hv

/-- A formula notices neither a property nor a variable that it does not name, and a constant one
has the value that it has stored. -/
theorem note_and_other_unread :
    let a : Object := { id := "a", name := "a" }
    let b : Object := { id := "b", name := "b", properties := [("label", .leaf (.string "x"))] }
    let w : Workbench Unit := { new .builtin (Scene.insert (Scene.insert {} a) b) {} .still () with
      vars := Std.ExtTreeMap.insert ∅ ⟨.global, none, "t"⟩ (.string "y") }
    (∃ f c bounds scene, w.calculator.compile "b.label + $t" "a" = .ok (f, c) ∧
      w.scene.write ⟨"b", "note"⟩ (.string "new") = .ok (bounds, scene) ∧
      w.fresh f = .ok (.string "xy") ∧
      w.fresh f = fresh { w with
        scene, vars := w.vars.insert ⟨.global, none, "other"⟩ (.bool true) } f) ∧
    ∃ f c, w.calculator.compile "if(true, 'x', 'y')" "a" = .ok (f, c) ∧
      (Calculator.evaluated f [⟨w.calculator, false, w.stores, w.view "a"⟩]).settled? =
        some (.string "x") ∧
      w.fresh f = .ok (.string "x") := by
  intro a b w
  have hcompiles : ∀ source, (w.calculator.compile source "a").isOk →
      ∃ f c, w.calculator.compile source "a" = .ok (f, c) := by
    intro source hok
    cases hf : w.calculator.compile source "a" with
    | error e => simp [hf, Except.isOk, Except.toBool] at hok
    | ok compiled => exact ⟨compiled.1, compiled.2, rfl⟩
  refine ⟨?_, ?_⟩
  · obtain ⟨f, c, hf⟩ := hcompiles "b.label + $t" (by decide +kernel)
    obtain ⟨bounds, scene, hwrite⟩ := w.scene.exists_write (e := ⟨"b", "note"⟩)
      (by decide +kernel) (.string "new")
    have hread : (w.calculator.compile "b.label + $t" "a").map (fun (f, _) =>
        (w.fresh f, f.variableNames, w.producers f (w.containerOf? f.object))) =
        .ok (.ok (.string "xy"), ["t"], [(⟨"b", "label"⟩, ⟨.reference, some "b.label"⟩),
          (.ofVariable "t", ⟨.variable, some "$t"⟩)]) := by decide +kernel
    rw [hf] at hread
    injection hread with hread
    obtain ⟨hfresh, hread⟩ := Prod.mk.inj hread
    obtain ⟨hvars, hproducers⟩ := Prod.mk.inj hread
    refine ⟨f, c, bounds, scene, hf, hwrite, hfresh, (evaluation_reads_producers rfl hf).1 w _
      ⟨rfl, rfl, rfl, (Scene.shape_write hwrite).symm⟩ (fun p hp hkind => ?_) fun slot hslot => ?_⟩
    · simp only [hproducers, List.mem_cons, List.not_mem_nil, or_false] at hp
      rcases hp with rfl | rfl
      · rw [Scene.field?_write (by decide) hwrite, if_neg (by decide)]
      · exact absurd rfl hkind
    · rw [hvars, List.mem_singleton] at hslot
      have hne : (⟨.global, none, "other"⟩ : Slot) ≠ slot := by
        rintro rfl
        exact absurd hslot (by decide)
      exact ((Table.getElem?_insert w.vars _ slot _).trans (if_neg hne)).symm
  · obtain ⟨f, c, hf⟩ := hcompiles "if(true, 'x', 'y')" (by decide +kernel)
    have hread : (w.calculator.compile "if(true, 'x', 'y')" "a").map (fun (f, _) =>
        (f.isConstant, (Calculator.evaluated f
          [⟨w.calculator, false, w.stores, w.view "a"⟩]).settled?)) =
        .ok (true, some (.string "x")) := by decide +kernel
    rw [hf] at hread
    injection hread with hread
    obtain ⟨hconstant, hsettled⟩ := Prod.mk.inj hread
    obtain ⟨-, hstored⟩ := (evaluation_reads_producers rfl hf).2 hconstant {} w ⟨rfl, rfl⟩
    exact ⟨f, c, hf, hsettled, hstored _ (List.forall_mem_singleton.2 ⟨rfl, rfl⟩) _ hsettled⟩

end Workbench

end Parametric
