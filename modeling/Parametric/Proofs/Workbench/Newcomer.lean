import Parametric.Proofs.Workbench.Quiescence

/-!
# New objects

An object is added to a quiescent workbench under an identifier that no object has. What a formula
reads then are properties of the new object and what it read before (`mem_producers_inserted`).
Since no formula drives the new object yet, none that it concerns is refused when it is bound again
(`admits_newcomer`). So every formula hears of the object, whether it waited for it by
identifier, by name or as its container, or counts the children of the container that the object
comes to (`heard_newcomer`), and the workbench comes to be quiescent again
(`quiescent_after_addition`).
-/

namespace Parametric.Workbench

open Scheduler

variable {σ : Type} {w w' : Workbench σ} {o : Object} {e p : Entity} {f : Formula}

/-- A reference leads to a new object, or to what it led to before. -/
theorem identify_inserted (hnew : w.scene.get? o.id = none)
    (hobjects : w'.scene.objects = w.scene.objects.insert o) (reference : String) :
    w'.identify reference = o.id ∨ w'.identify reference = w.identify reference := by
  unfold identify Scene.get?
  rw [hobjects, ObjectTable.get?_insert]
  by_cases hid : o.id = reference
  · exact .inl (by simp [hid])
  · rw [if_neg hid]
    by_cases hfound : (w.scene.objects.get? reference).isSome
    · rw [if_pos hfound, if_pos hfound]
      exact .inr rfl
    · rw [if_neg hfound, if_neg hfound]
      rcases ObjectTable.findByName?_insert_new hnew reference with hname | hname <;> rw [hname]
      · exact .inl rfl
      · exact .inr rfl

/-- Once a new object is there, a formula depends on properties of it and on what it depended on
before. -/
theorem mem_producers_inserted (hnew : w.scene.get? o.id = none)
    (hobjects : w'.scene.objects = w.scene.objects.insert o) {container : Option ObjectId}
    (hp : p ∈ (w'.producers f container).map (·.1)) :
    p.object = o.id ∨ p ∈ (w.producers f container).map (·.1) := by
  obtain ⟨⟨p, edge⟩, hmem, rfl⟩ := List.mem_map.1 hp
  rcases List.mem_append.1 hmem with hnamed | hvar
  · obtain ⟨d, hd, hproduced⟩ := List.mem_filterMap.1 hnamed
    by_cases hsame : w'.producer? f.object container d = w.producer? f.object container d
    · refine .inr (List.mem_map.2 ⟨(p, edge), List.mem_append_left _ ?_, rfl⟩)
      exact List.mem_filterMap.2 ⟨d, hd, by rw [← hsame]; exact hproduced⟩
    · -- The dependency is a reference that leads to the new object.
      obtain ⟨⟨q, kind⟩, hproducer, heq⟩ := Option.map_eq_some_iff.1 hproduced
      cases heq
      refine .inl (Classical.byContradiction fun hne => hsame (producer?_congr ?_))
      rintro reference path rfl hself hparent
      refine (identify_inserted hnew hobjects reference).resolve_left fun hid => hne ?_
      simp only [producer?, hself, hparent, if_false] at hproducer
      cases hproducer
      exact hid
  · exact .inr (List.mem_map.2 ⟨(p, edge), List.mem_append_right _ hvar, rfl⟩)

section

variable (hfed : w.Fed) (hquiescent : w.Quiescent) (hgrounded : w.Grounded)
  (hnew : w.scene.get? o.id = none)

include hgrounded hnew

/-- No formula drives a new object. -/
theorem object_ne_of_new (hf : w.formulas[e]? = some f) : e.object ≠ o.id := by
  intro heq
  have hsome := (hgrounded.formulas hf).2.1
  rw [heq, hnew] at hsome
  cases hsome

theorem containerOf?_of_new (hf : w.formulas[e]? = some f) :
    containerOf? { w with scene := w.scene.insert o } e.object = w.containerOf? e.object :=
  congrArg (·.bind Object.container)
    ((ObjectTable.sameBut_insert _ o).get? _ (object_ne_of_new hgrounded hnew hf))

/-- A formula that a new object does not concern is untouched by it. -/
theorem untouched_of_new (hf : w.formulas[e]? = some f)
    (hunconcerned : e ∉ concerned { w with scene := w.scene.insert o } o) :
    Untouched w o e f := by
  have hconcerns : ¬ concerns { w with scene := w.scene.insert o } o e f :=
    fun hconcerns => hunconcerned (mem_concerned_iff.2 ⟨f, hf, hconcerns⟩)
  have hne := object_ne_of_new hgrounded hnew hf
  have hnone : w.containerOf? o.id = none := congrArg (·.bind Object.container) hnew
  refine ⟨hne, hconcerns, fun r hr => ?_, fun c hc => by cases hnone.symm.trans hc⟩
  unfold concerns at hconcerns
  rw [containerOf?_of_new hgrounded hnew hf, Bool.or_eq_true, not_or, decide_eq_true_eq] at hconcerns
  obtain ⟨hnamed, hplace⟩ := hconcerns
  simp only [List.any_eq_true, Bool.or_eq_true, decide_eq_true_eq, not_exists, not_and,
    not_or] at hnamed
  refine Stores.identify?_ne_of_new hnew ?_ ?_ (hnamed r hr).1
  · rwa [view, Viewpoint.object_ofObject]
  · rwa [view, Viewpoint.container_ofObject]

include hfed hquiescent

/-- No formula that a new object concerns is refused: what it reads feeds it already, or is a property
of the object, that nothing feeds. -/
theorem admits_newcomer (he : e ∈ concerned { w with scene := w.scene.insert o } o) :
    w.Admits o e := by
  let inserted : Workbench σ := { w with scene := w.scene.insert o }
  refine admits_of_sources hfed.sound he fun f hf p hp => ?_
  rcases mem_producers_inserted hnew rfl hp with hobject | hread
  · have hnone : w.formulas[p]? = none := Option.eq_none_iff_forall_ne_some.2 fun g hg =>
      object_ne_of_new hgrounded hnew hg hobject
    refine .inr ⟨fun hconcerned => ?_, fun q hq => ?_⟩
    · obtain ⟨g, hg, -⟩ := mem_concerned_iff.1 hconcerned
      cases hnone.symm.trans hg
    · have hsome := hfed.formulas q p hq
      rw [hnone] at hsome
      cases hsome
  · refine .inl ((hquiescent.edges e f hf p).2 ?_)
    rw [containerOf?_of_new hgrounded hnew hf] at hread
    unfold reads
    rwa [(hgrounded.formulas hf).1]

/-- Every formula is bound to what it reads once a new object is there. -/
theorem edges_addObject_new {f : Formula} (hf : w.formulas[e]? = some f) (p : Entity) :
    ((Operation.addObject o).run w).scheduler.graph.Feeds p e ↔
      p ∈ ((Operation.addObject o).run w).reads f := by
  have hobject := (hgrounded.formulas hf).1
  by_cases hconcerned : e ∈ concerned { w with scene := w.scene.insert o } o
  · exact (admits_newcomer hfed hquiescent hgrounded hnew hconcerned).feeds hfed.sound hf hobject p
  · have hadded := added_addObject hfed.sound o
    have huntouched := untouched_of_new hgrounded hnew hf hconcerned
    rw [huntouched.feeds hadded hf, hquiescent.edges e f hf,
      huntouched.reads hobject hadded.content.objects]

/-- Every formula hears of a new object. -/
theorem heard_newcomer (hgrounded' : ((Operation.addObject o).run w).Grounded)
    (hf : w.formulas[e]? = some f) : Heard ((Operation.addObject o).run w) o e f := by
  by_cases hconcerned : e ∈ concerned { w with scene := w.scene.insert o } o
  · refine (admits_newcomer hfed hquiescent hgrounded hnew hconcerned).heard hfed.sound hf
      (hgrounded.formulas hf).1 fun heq => ?_
    exact object_ne_of_new hgrounded hnew hf (congrArg Entity.object heq)
  · exact (untouched_of_new hgrounded hnew hf hconcerned).heard (added_addObject hfed.sound o) hf
      hfed.sound hquiescent hgrounded hgrounded'

end

/-- Take a workbench with the built-in functions, and time to evaluate them, that is quiescent after
any operations and in which no formula drives a property in the place of the variables. Add an
object under an identifier that no object has. No formula that it concerns is refused when it is
bound again. If drains serve any requests, they come to an end; and whenever nothing waits after
some drains, the workbench is quiescent again. -/
theorem quiescent_after_addition (scene : Scene) (settings : Settings) (clock : Clock) (host : σ)
    (hscene : scene.objects.Keyed) (htimeout : 0 < settings.evaluation.timeout)
    (ops : List Operation) :
    let w := (new .builtin scene settings clock host).perform ops
    w.Quiescent → (∀ e : Entity, (w.formulas[e]?).isSome → ¬ e.isVariable) →
    ∀ o : Object, w.scene.get? o.id = none →
    let added := (Operation.addObject o).run w
    (∀ e ∈ concerned { w with scene := w.scene.insert o } o, w.Admits o e) ∧
    (0 < settings.propagation.maxServed →
      ∃ n, ∀ m ≥ n, (added.drained m).scheduler.isIdle) ∧
    ∀ n, (added.drained n).scheduler.isIdle → (added.drained n).Quiescent := by
  intro w hquiescent hdriven o hnew added
  have hfed : w.Fed := fed_perform .builtin scene settings clock host ops
  have hadded : Added w o added := added_addObject hfed.sound o
  have hrecovers := recovers_perform scene settings clock host hscene htimeout ops hquiescent.idle
    (fun e f hf => ⟨hquiescent.plain e f hf, hdriven e (hf ▸ rfl)⟩) o
  obtain ⟨hgrounded, hgrounded', -⟩ := hrecovers 0
  refine ⟨fun e he => admits_newcomer hfed hquiescent hgrounded hnew he,
    fun hserves => comes_to_rest_added .builtin scene settings clock host hserves ops o,
    fun n hidle => ?_⟩
  obtain ⟨-, -, hrecovers⟩ := hrecovers n
  refine ⟨hidle, fun e f hf => hrecovers.plain hf, fun e f hf p => ?_, fun e f hf => ?_⟩
  · obtain ⟨g, hg, hcore⟩ := hrecovers.exists_formula hf
    rw [hadded.content.formulas] at hg
    rw [hrecovers.graph, edges_addObject_new hfed hquiescent hgrounded hnew hg,
      reads_congr hrecovers.shape, reads_of_core _ hcore]
  · refine hrecovers.follows hidle hf fun hstale => ?_
    obtain ⟨g, hg, -⟩ := hrecovers.exists_formula hf
    refine hstale g hg (heard_newcomer hfed hquiescent hgrounded hnew hgrounded' ?_)
    rwa [hadded.content.formulas] at hg

/-- Formulas that waited for an object by its identifier, by its name and as their container, and one
that counts siblings, follow when it is added. -/
theorem formulas_follow_newcomer :
    let c : Object := { id := "c", name := "c" }
    let x : Object := { id := "x", name := "x", container := some "c" }
    let z : Object := { id := "z", name := "z", container := some "y" }
    let y : Object := { id := "y", name := "Y", container := some "c",
                        properties := [("size", .leaf (.string "big"))] }
    let scene : Scene := Scene.insert (Scene.insert (Scene.insert {} c) x) z
    let w := (new .builtin scene {} .still ()).perform
      [.act (.setFormula "x" "n" "siblingCount()"), .act (.setFormula "x" "k" "y.size"),
        .act (.setFormula "x" "m" "Y.size"), .act (.setFormula "z" "p" "parent.size"),
        .act .drain]
    let after := ((Operation.addObject y).run w).drained 1
    w.Quiescent ∧ w.scene.get? "y" = none ∧ after.scheduler.isIdle ∧ after.Quiescent ∧
      after.property? "x" "n" = some (.ofNat 2) ∧ after.property? "x" "k" = some (.string "big") ∧
      after.property? "x" "m" = some (.string "big") ∧
      after.property? "z" "p" = some (.string "big") := by
  intro c x z y scene w after
  have hkeyed : scene.objects.Keyed :=
    ((ObjectTable.Keyed.empty.insert c).insert x).insert z
  have hquiescent : w.Quiescent := by decide +kernel
  have hnew : w.scene.get? "y" = none := Option.isNone_iff_eq_none.1 (by decide +kernel)
  have hdriven : ∀ ef ∈ w.formulas.toList, ¬ ef.1.isVariable := by decide +kernel
  have hidle : after.scheduler.isIdle := by decide +kernel
  obtain ⟨-, -, hafter⟩ := quiescent_after_addition scene {} .still () hkeyed (by decide)
    [.act (.setFormula "x" "n" "siblingCount()"), .act (.setFormula "x" "k" "y.size"),
      .act (.setFormula "x" "m" "Y.size"), .act (.setFormula "z" "p" "parent.size"), .act .drain]
    hquiescent (fun e he => by
      obtain ⟨f, hf⟩ := Option.isSome_iff_exists.1 he
      exact hdriven (e, f) (Std.ExtTreeMap.mem_toList_iff_getElem?_eq_some.2 hf)) y hnew
  have hfollows : after.Quiescent := hafter 1 hidle
  have hvalue : ∀ {object : ObjectId} {property : String} {v : Value},
      (after.formula? object property).map after.fresh = some (.ok v) →
      after.property? object property = some v := by
    intro object property v h
    obtain ⟨f, hf, hfresh⟩ := Option.map_eq_some_iff.1 h
    exact ((hfollows.follows ⟨object, property⟩ f hf).value v hfresh).2
  exact ⟨hquiescent, hnew, hidle, hfollows, hvalue (by decide +kernel), hvalue (by decide +kernel),
    hvalue (by decide +kernel), hvalue (by decide +kernel)⟩

/-- A formula that drives a property of an object in the place of the variables is not evaluated
when it is announced, and does not follow. -/
theorem owner_of_variables_not_followed :
    let v : Object := { id := Entity.variableOwner, name := "v" }
    let n : Object := { id := "n", name := "n", properties := [("k", .leaf (.string "new"))] }
    let w := (new .builtin (Scene.insert {} v) {} .still ()).perform
      [.act (.setFormula Entity.variableOwner "p" "n.k"), .act .drain]
    let after := ((Operation.addObject n).run w).drained 1
    w.Quiescent ∧ w.scene.get? n.id = none ∧ n.id ≠ Entity.variableOwner ∧
      after.scheduler.isIdle ∧ ¬ after.Quiescent ∧
      (after.formula? Entity.variableOwner "p").map (fun f => (f.failing, after.fresh f)) =
        some (true, .ok (.string "new")) := by
  intro v n w after
  exact ⟨by decide +kernel, Option.isNone_iff_eq_none.1 (by decide +kernel), by decide +kernel,
    by decide +kernel, by decide +kernel, by decide +kernel⟩

end Parametric.Workbench
