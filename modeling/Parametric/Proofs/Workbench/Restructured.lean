import Parametric.Proofs.Workbench.Recall

/-!
# Scenes that lost or gained an object

When an object comes or goes, so does a child of its container, and the cached results of some
formulas are dropped (`Workbench.Restructured`). The formulas whose results stay must overlook the
object (`Workbench.Overlooks`). Then an evaluation gives what the tree of a formula gives now, if
the formula is `Apart` from what changed with the object (`Restructured.evaluates`). It is not if it
reads the list of children, since nothing is dropped of the cached answers about that list.
-/

namespace Parametric.Workbench

variable {σ : Type} {w w' : Workbench σ} {id : ObjectId} {changed : ObjectId → Prop}
  {e : Entity} {f : Formula}

/-- References stand for what they stood for, which is not the object `id`, and no function that is
called depends on that object as the container. -/
structure Overlooks (w w' : Workbench σ) (id : ObjectId) (f : Formula) : Prop where
  references : ∀ (reference : String) (path : Path), .reference reference path ∈ f.tree.nodes →
    w'.stores.identify? (w.view f.object) reference =
      w.stores.identify? (w.view f.object) reference ∧
    w.stores.identify? (w.view f.object) reference ≠ some id
  container : ∀ (name : String) (args : List Expr) (property : String),
    .call name args ∈ f.tree.nodes →
    (w.calculator.functions[name]?).bind Function.implicit = some (.container property) →
    w.containerOf? f.object ≠ some id

/-- Between two workbenches an object came or went, with its formulas, and children of the
containers that changed. Nothing came into the caches, and no result is cached for a formula that
does not overlook the object. -/
structure Restructured (w w' : Workbench σ) (id : ObjectId) (changed : ObjectId → Prop) :
    Prop where
  calculator : w.calculator.Kept w'.calculator
  objects : w.scene.objects.SameBut id changed w'.scene.objects
  keyed : w'.scene.objects.Keyed
  formulas : ∀ {e : Entity} {f : Formula}, w'.formulas[e]? = some f →
    w.formulas[e]? = some f ∧ e.object ≠ id ∧
      (w'.calculator.Misses e.object ∨ Overlooks w w' id f)

/-- A formula does not read a list of children that changed, and its variables stand for what they
stood for. -/
structure Apart (w w' : Workbench σ) (changed : ObjectId → Prop) (f : Formula) : Prop where
  children : ∀ c, changed c → (⟨c, Names.children⟩ : Entity) ∉ w.reads f
  vars : ∀ name ∈ f.variableNames, w'.stores.variableOf (w.view f.object) name =
    w.stores.variableOf (w.view f.object) name

/-- A constant formula has no references, and calls no function that depends on the container. -/
theorem Overlooks.of_isConstant (hf : f.Compiled w.calculator.functions) (h : f.isConstant) :
    Overlooks w w' id f := by
  have hnode : ∀ {n : Expr} {d : Dependency}, n ∈ f.tree.nodes →
      n.dependency? w.calculator.functions ≠ some d := by
    intro n d hn hd
    have hmem := hf.mem_dependencies_iff.2 ⟨n, hn, hd⟩
    rw [(f.isConstant_iff.1 h).1] at hmem
    cases hmem
  refine ⟨fun reference path hn => absurd rfl (hnode hn), fun name args property hn hcall => ?_⟩
  exact absurd (by rw [Expr.dependency?, hcall]; rfl) (hnode hn)

theorem Apart.of_isConstant (h : f.isConstant) : Apart w w' changed f := by
  refine ⟨fun c _ => ?_, fun name hname => ?_⟩
  · rw [reads_of_isConstant w h]
    exact List.not_mem_nil
  · rw [(f.isConstant_iff.1 h).2] at hname
    cases hname

/-- A question that a formula asks is about the children of another container. -/
theorem Apart.asks (h : Apart w w' changed f) (hfunctions : w.calculator.functions = .builtin)
    (hf : f.Compiled w.calculator.functions) {name : String} {args : List Expr}
    (hnode : .call name args ∈ f.tree.nodes) {g : Function σ} {query : Query}
    (hg : w.calculator.functions[name]? = some g) (hbody : g.body = .ask query) {c : Call}
    (hobject : c.object = f.object) (hcontainer : c.container = w.containerOf? f.object)
    (hkeyed : c.objects.Keyed) {key : QueryKey} (hkey : query.key c = .ok key) :
    ¬ changed key.container := fun heq =>
  h.children _ heq
    (mem_reads_of_ask hfunctions hf hnode hg hbody hobject hcontainer hkeyed hkey)

/-! ## Meanings -/

section

variable (hobjects : w.scene.objects.SameBut id changed w'.scene.objects)
  (hfunctions : w.calculator.functions = .builtin)
  (hfunctions' : w'.calculator.functions = .builtin)
  (hsettings : w'.calculator.settings = w.calculator.settings)
include hobjects hfunctions hsettings

/-- A function that a formula calls sees the same of containers. -/
theorem sameContainers_of_sameBut (hkeyed : w.scene.objects.Keyed)
    (hf : f.Compiled w.calculator.functions) (hoverlooks : Overlooks w w' id f)
    (hapart : Apart w w' changed f) {name : String} {args : List Expr}
    (hnode : .call name args ∈ f.tree.nodes) {g : Function σ}
    (hg : w.calculator.functions[name]? = some g) :
    g.SameContainers ((w.calculator.evaluator w.stores (w.view f.object) 0).call 0)
      ((w'.calculator.evaluator w'.stores (w.view f.object) 0).call 0) := by
  have hcontainer : (w.view f.object).container = w.containerOf? f.object :=
    Viewpoint.container_ofObject w.scene.objects f.object
  refine ⟨rfl, congrArg EvaluationSettings.maxVisited hsettings.symm, fun property hg' => ?_,
    fun query key hbody hkey => ?_⟩
  · refine Call.sameContainer_of_eq (Call.containerObject_sameBut rfl hobjects ?_)
    have hcall : (w.calculator.functions[name]?).bind Function.implicit =
        some (.container property) := by
      rw [hg, Option.bind_some, hg']
    exact fun hid => hoverlooks.container name args property hnode hcall (hcontainer ▸ hid)
  · exact (hobjects.childrenOf _ (hapart.asks hfunctions hf hnode hg hbody
      (Viewpoint.object_ofObject _ _) hcontainer hkeyed hkey)).symm

include hfunctions'

/-- A formula that overlooks the object in which two scenes differ, and is apart from what differs
with it, means the same in both. -/
theorem meaning_of_sameBut (hkeyed : w.scene.objects.Keyed)
    (hf : f.Compiled w.calculator.functions) (hobject : f.object ≠ id)
    (hoverlooks : Overlooks w w' id f) (hapart : Apart w w' changed f) :
    w'.meaning f = w.meaning f := by
  have hview : w'.view f.object = w.view f.object := Viewpoint.ofObject_sameBut hobjects hobject
  unfold Workbench.meaning
  rw [hview]
  refine Evaluator.value_congr (hfunctions'.trans hfunctions.symm)
    (congrArg EvaluationSettings.maxDepth hsettings) f.tree (fun n hn => ?_) 1
  cases n with
  | var name =>
    have hread := hapart.vars name (hf.mem_variableNames_iff.2 hn)
    simp only [Evaluator.SameAt, Evaluator.lookup, Evaluator.resolve, Calculator.evaluator, hread]
  | reference reference path =>
    obtain ⟨hsame, hne⟩ := hoverlooks.references reference path hn
    have hread : w'.stores.propertyOf (w.view f.object) reference path =
        w.stores.propertyOf (w.view f.object) reference path :=
      Stores.propertyOf_sameBut hobjects hsame hne path
    simp only [Evaluator.SameAt, Evaluator.lookup, Evaluator.resolve, Calculator.evaluator, hread]
  | call name args =>
    intro vs
    have hcalled : (w.calculator.evaluator w.stores (w.view f.object) 0).called name =
        (w'.calculator.evaluator w'.stores (w.view f.object) 0).called name :=
      Evaluator.called_of_sameContainers hfunctions hfunctions' w.calculator.host fun g hg =>
        sameContainers_of_sameBut hobjects hfunctions hsettings hkeyed hf hoverlooks hapart hn hg
    exact (congrFun hcalled vs).symm
  | _ => trivial

end

namespace Restructured

variable (h : Restructured w w' id changed) (hw : w.Bound)
include h

theorem settings : w'.calculator.settings = w.calculator.settings := h.calculator.settings

theorem view {object : ObjectId} (hobject : object ≠ id) : w'.view object = w.view object :=
  Viewpoint.ofObject_sameBut h.objects hobject

/-- The cached answers about other containers are right. -/
theorem answers (hcoherent : w.Coherent) (view : Viewpoint) :
    w'.calculator.answers.Holds ((w'.calculator.evaluator w'.stores view 0).Answered
      fun key => ¬ changed key.container) := by
  intro key entry hentry hasked object
  rw [← h.calculator.answers _ hcoherent.answers key entry hentry object]
  refine Query.answer_congr ?_ ?_ ?_
  · rfl
  · exact congrArg EvaluationSettings.maxVisited h.settings
  · exact h.objects.childrenOf _ hasked

include hw

/-- A formula that overlooks the object and is apart from what changed with it means the same. -/
theorem meaning (hkeyed : w.scene.objects.Keyed) (hf : f.Compiled w.calculator.functions)
    (hobject : f.object ≠ id) (hoverlooks : Overlooks w w' id f)
    (hapart : Apart w w' changed f) : w'.meaning f = w.meaning f :=
  meaning_of_sameBut h.objects hw.functions (h.calculator.functions.trans hw.functions) h.settings
    hkeyed hf hobject hoverlooks hapart

/-- A formula that is apart from what changed asks nothing about the list of children that did. -/
theorem asksAt (hf : f.Compiled w.calculator.functions) (hobject : f.object ≠ id)
    (hapart : Apart w w' changed f) :
    ∀ n ∈ f.tree.nodes, (w'.calculator.evaluator w'.stores (w'.view f.object) 0).AsksAt
      (fun key => ¬ changed key.container) n := by
  intro n hn
  cases n with
  | call name args =>
    intro g query key hg hbody hkey
    rw [h.view hobject] at hkey
    change w'.calculator.functions[name]? = some g at hg
    rw [h.calculator.functions] at hg
    exact hapart.asks hw.functions hf hn hg hbody (Viewpoint.object_ofObject _ _)
      (Viewpoint.container_ofObject _ _) h.keyed hkey
  | _ => trivial

/-- When nothing waited before an object came or went, an evaluation gives what the tree of a
formula gives now, if the formula is apart from what changed with the object. -/
theorem evaluates (hcoherent : w.Coherent) (hrecalls : w.Recalls fun _ => False)
    (hf' : w'.formulas[e]? = some f) (hapart : Apart w w' changed f) :
    ((evaluateProperty e.object e.property).run w').1 = (w'.fresh f).mapError .eval := by
  obtain ⟨hf, hne, hdropped⟩ := h.formulas hf'
  obtain ⟨hobject, -, hcompiled⟩ := hw.formulas hf
  have hfree : Evaluator.HostFree w'.calculator.functions := hw.hostFree h.calculator.functions
  have htimeout : 0 < w'.calculator.settings.timeout := h.settings ▸ hcoherent.timeout
  have hsettled : ∀ v, f.settled? = some v → w'.meaning f = .ok v := by
    intro v hv
    have hconstant := (Formula.settled?_eq_some hv).1
    rw [h.meaning hw hrecalls.keyed hcompiled (hobject ▸ hne)
      (.of_isConstant hcompiled hconstant) (.of_isConstant hconstant)]
    exact hcoherent.constant hf v hv
  rw [run_evaluateProperty, hf', fresh_eq_meaning htimeout hfree]
  dsimp only
  cases heval : w'.calculator.evaluateCached f w'.stores (w'.view e.object) with
  | mk result rest =>
    obtain ⟨f', c⟩ := rest
    rw [← hobject] at heval
    suffices hresult : result = w'.meaning f by
      simp only [hresult]
    have hanswers := h.answers hcoherent (w'.view f.object)
    have hasks := h.asksAt hw hcompiled (hobject ▸ hne) hapart
    rcases hdropped with hmisses | hoverlooks
    · have hmisses : w'.calculator.Misses (w'.view f.object).object := by
        rwa [Workbench.view, Viewpoint.object_ofObject, hobject]
      exact (Calculator.evaluateCached_of_misses htimeout hfree hmisses hasks hanswers hsettled
        heval).1
    · obtain ⟨⟨v, hv, -, -, hcached⟩ | ⟨hvalue, -⟩, -⟩ := Calculator.evaluateCached_recall htimeout
        hfree hasks hanswers (h.calculator.results _ hrecalls.results) hsettled heval
      · have hkey := view_eq w f
        rw [← h.view (hobject ▸ hne)] at hkey
        have hmeaning := (hcached e f hf hkey).resolve_right not_false
        rw [hv, h.meaning hw hrecalls.keyed hcompiled (hobject ▸ hne) hoverlooks hapart, hmeaning]
      · exact hvalue

end Restructured

end Parametric.Workbench
