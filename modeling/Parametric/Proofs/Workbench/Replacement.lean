import Parametric.Proofs.Workbench.Quiescence

/-!
# Replaced objects

An object that is added under the identifier of another takes its place: its name, container,
template and properties may all differ. Only formulas that name it by its identifier or its new name
or lie in it are bound again, and what is announced besides is that it came to its container.
Nothing is said of the name it had, of the container it left or of the properties that it lost. So a
formula hears of the replacement if the object leaves it untouched (`Untouched.heard`), if it is
bound again and not refused (`Admits.heard`), or if it reads what it did, among it the children of
the container that the object comes to (`heard_of_reads`). These follow when nothing waits any more
(`formulas_follow_replacement`).
-/

namespace Parametric.Workbench

open Scheduler

variable {σ : Type} {w : Workbench σ} {o : Object} {e p : Entity} {f : Formula}

section

variable (hs : w.scheduler.Sound) (hquiescent : w.Quiescent) (hf : w.formulas[e]? = some f)
  (hobject : f.object = e.object)
  (hsame : ((Operation.addObject o).run w).reads f = w.reads f)
include hs hquiescent hf hobject hsame

/-- A formula that reads what it did before is not refused. -/
theorem admits_of_reads (he : e ∈ concerned { w with scene := w.scene.insert o } o) :
    w.Admits o e := by
  refine admits_of_sources hs he fun g hg p hp => .inl ?_
  cases Option.some.inj (hg.symm.trans hf)
  have hshape : ((Operation.addObject o).run w).reads f =
      reads { w with scene := w.scene.insert o } f :=
    reads_congr (congrArg ObjectTable.shape (added_addObject hs o).content.objects) f
  refine (hquiescent.edges e f hf p).2 ?_
  rw [← hsame, hshape]
  unfold reads
  rwa [hobject]

/-- A formula hears of an object if it reads what it did before, among it a list of children that
the object comes to or brings. -/
theorem heard_of_reads (he : e ∉ moveAffects o.id none o.container)
    (hp : p ∈ moveAffects o.id none o.container) (hread : p ∈ w.reads f) :
    Heard ((Operation.addObject o).run w) o e f := by
  have hchildren : e ≠ ⟨o.id, Names.children⟩ := by
    rintro rfl
    exact he (mem_moveAffects.2 (.inl rfl))
  by_cases hconcerned : e ∈ concerned { w with scene := w.scene.insert o } o
  · exact (admits_of_reads hs hquiescent hf hobject hsame hconcerned).heard hs hf hobject hchildren
  · have hadded := added_addObject hs o
    have hfeeds : ∀ q ∈ w.reads f, ((Operation.addObject o).run w).scheduler.graph.Feeds q e :=
      fun q hq => (hadded.edges q e hconcerned).2 ((hquiescent.edges e f hf q).2 hq)
    exact ⟨hchildren, fun q hq => hfeeds q (hsame ▸ hq),
      .inl (hadded.readers p hp e he (hfeeds p hread))⟩

end

/-- Take a workbench with the built-in functions, and time to evaluate them, that is quiescent after
any operations and in which no formula drives a property in the place of the variables. Add an
object, under an identifier that is new or not. If drains serve any requests, they come to an end.
A formula that does not drive the list of children of the object hears of it if the object leaves it
untouched, if it is bound again and not refused, or if it reads what it did, among it the children of
the container that the object comes to. Whenever nothing waits after some drains, every formula that
heard of the object is there with the tree it had and follows. -/
theorem formulas_follow_replacement (scene : Scene) (settings : Settings) (clock : Clock)
    (host : σ) (hscene : scene.objects.Keyed) (htimeout : 0 < settings.evaluation.timeout)
    (ops : List Operation) :
    let w := (new .builtin scene settings clock host).perform ops
    w.Quiescent → (∀ e : Entity, (w.formulas[e]?).isSome → ¬ e.isVariable) →
    ∀ o : Object,
    let added := (Operation.addObject o).run w
    (0 < settings.propagation.maxServed →
      ∃ n, ∀ m ≥ n, (added.drained m).scheduler.isIdle) ∧
    (∀ (e : Entity) (f : Formula), w.formulas[e]? = some f → e ≠ ⟨o.id, Names.children⟩ →
      (Untouched w o e f ∨ w.Admits o e ∨ added.reads f = w.reads f ∧
        e ∉ moveAffects o.id none o.container ∧
        ∃ p ∈ moveAffects o.id none o.container, p ∈ w.reads f) →
      Heard added o e f) ∧
    ∀ n, (added.drained n).scheduler.isIdle →
    ∀ (e : Entity) (f : Formula), w.formulas[e]? = some f → Heard added o e f →
      ∃ f', (added.drained n).formulas[e]? = some f' ∧ f'.core = f.core ∧
        (added.drained n).Follows e f' := by
  intro w hquiescent hdriven o added
  have hs : w.scheduler.Sound := sound_perform .builtin scene settings clock host ops
  have hadded : Added w o added := added_addObject hs o
  have hrecovers := recovers_perform scene settings clock host hscene htimeout ops hquiescent.idle
    (fun e f hf => ⟨hquiescent.plain e f hf, hdriven e (hf ▸ rfl)⟩) o
  obtain ⟨hgrounded, hgrounded', -⟩ := hrecovers 0
  refine ⟨fun hserves => comes_to_rest_added .builtin scene settings clock host hserves ops o,
    fun e f hf hchildren hreached => ?_, fun n hidle e f hf hheard => ?_⟩
  · have hobject := (hgrounded.formulas hf).1
    rcases hreached with huntouched | hadmits | ⟨hsame, he, p, hp, hread⟩
    · exact huntouched.heard hadded hf hs hquiescent hgrounded hgrounded'
    · exact hadmits.heard hs hf hobject hchildren
    · exact heard_of_reads hs hquiescent hf hobject hsame he hp hread
  · obtain ⟨-, -, hrecovers⟩ := hrecovers n
    have hformula : added.formulas[e]? = some f := by rwa [hadded.content.formulas]
    have hcore := hrecovers.cores e
    rw [hformula, Option.map_some, Option.map_eq_some_iff] at hcore
    obtain ⟨f', hf', hcore⟩ := hcore
    exact ⟨f', hf', hcore, hrecovers.follows hidle hf' fun hstale => hstale f hformula hheard⟩

/-- An object gets another name, container and properties. What names it by its identifier, counts
its children or counts the siblings where it comes to follows; what named it by its old name, counts
the siblings where it was or is a formula of its own does not. -/
theorem old_place_not_followed :
    let c : Object := { id := "c", name := "c", properties := [("title", .leaf (.string "one"))] }
    let p : Object := { id := "p", name := "p", properties := [("title", .leaf (.string "two"))] }
    let s : Object := { id := "s", name := "s", container := some "c" }
    let u : Object := { id := "u", name := "u", container := some "p" }
    let x : Object := { id := "x", name := "X", container := some "c",
                        properties := [("k", .leaf (.string "old"))] }
    let x' : Object := { id := "x", name := "Y", container := some "p",
                         properties := [("k", .leaf (.string "new"))] }
    let y : Object := { id := "y", name := "y" }
    let scene : Scene := [c, p, s, u, x, y].foldl Scene.insert {}
    let w := (new .builtin scene {} .still ()).perform
      [.act (.setFormula "y" "g" "x.k"), .act (.setFormula "u" "n" "siblingCount()"),
        .act (.setFormula "x" "m" "childCount()"), .act (.setFormula "y" "h" "X.k"),
        .act (.setFormula "s" "n" "siblingCount()"), .act (.setFormula "x" "f" "parent.title"),
        .act .drain]
    let after := ((Operation.addObject x').run w).drained 1
    let now := fun object property => (after.formula? object property).map fun f =>
      (after.property? object property, (after.fresh f).toOption)
    w.Quiescent ∧ after.scheduler.isIdle ∧
      now "y" "g" = some (some (.string "new"), some (.string "new")) ∧
      now "u" "n" = some (some (.ofNat 2), some (.ofNat 2)) ∧
      now "x" "m" = some (some (.ofNat 0), some (.ofNat 0)) ∧
      now "y" "h" = some (some (.string "old"), none) ∧
      now "s" "n" = some (some (.ofNat 2), some (.ofNat 1)) ∧
      now "x" "f" = some (none, some (.string "two")) := by
  intro c p s u x x' y scene w after now
  have hkeyed : scene.objects.Keyed :=
    (((((ObjectTable.Keyed.empty.insert c).insert p).insert s).insert u).insert x).insert y
  have hquiescent : w.Quiescent := by decide +kernel
  have hdriven : ∀ ef ∈ w.formulas.toList, ¬ ef.1.isVariable := by decide +kernel
  have hidle : after.scheduler.isIdle := by decide +kernel
  obtain ⟨-, hheard, hafter⟩ := formulas_follow_replacement scene {} .still () hkeyed (by decide)
    [.act (.setFormula "y" "g" "x.k"), .act (.setFormula "u" "n" "siblingCount()"),
      .act (.setFormula "x" "m" "childCount()"), .act (.setFormula "y" "h" "X.k"),
      .act (.setFormula "s" "n" "siblingCount()"), .act (.setFormula "x" "f" "parent.title"),
      .act .drain]
    hquiescent (fun e he => by
      obtain ⟨f, hf⟩ := Option.isSome_iff_exists.1 he
      exact hdriven (e, f) (Std.ExtTreeMap.mem_toList_iff_getElem?_eq_some.2 hf)) x'
  have hnow : ∀ {object : ObjectId} {property : String} {f : Formula} (v : Value),
      w.formulas[(⟨object, property⟩ : Entity)]? = some f →
      Heard ((Operation.addObject x').run w) x' ⟨object, property⟩ f →
      (now object property).map Prod.snd = some (some v) →
      now object property = some (some v, some v) := by
    intro object property f v hf hheard hfresh
    obtain ⟨f', hf', -, hfollows⟩ := hafter 1 hidle _ f hf hheard
    have hf' : after.formula? object property = some f' := hf'
    simp only [now, hf', Option.map_some, Option.some.injEq] at hfresh ⊢
    rw [hfresh, ((follows_iff.1 hfollows).1 v hfresh).2]
  have hadmits : w.Admits x' ⟨"y", "g"⟩ := ⟨[], [], by decide +kernel, by decide +kernel⟩
  have huntouched : ∀ f ∈ (w.formulas[(⟨"u", "n"⟩ : Entity)]?).toList,
      Untouched w x' ⟨"u", "n"⟩ f := by decide +kernel
  have hcounts : ∀ f ∈ (w.formulas[(⟨"x", "m"⟩ : Entity)]?).toList,
      reads ((Operation.addObject x').run w) f = w.reads f ∧
        (⟨"x", "m"⟩ : Entity) ∉ moveAffects "x" none (some "p") ∧
        ∃ p ∈ moveAffects "x" none (some "p"), p ∈ w.reads f := by decide +kernel
  obtain ⟨hg, hn, hm⟩ : (w.formula? "y" "g").isSome ∧ (w.formula? "u" "n").isSome ∧
      (w.formula? "x" "m").isSome := by decide +kernel
  obtain ⟨g, hg⟩ := Option.isSome_iff_exists.1 hg
  obtain ⟨n, hn⟩ := Option.isSome_iff_exists.1 hn
  obtain ⟨m, hm⟩ := Option.isSome_iff_exists.1 hm
  obtain ⟨hfg, hfn, hfm⟩ : (now "y" "g").map Prod.snd = some (some (.string "new")) ∧
      (now "u" "n").map Prod.snd = some (some (.ofNat 2)) ∧
      (now "x" "m").map Prod.snd = some (some (.ofNat 0)) := by decide +kernel
  obtain ⟨hold, hleft, hown⟩ : now "y" "h" = some (some (.string "old"), none) ∧
      now "s" "n" = some (some (.ofNat 2), some (.ofNat 1)) ∧
      now "x" "f" = some (none, some (.string "two")) := by decide +kernel
  have hnamed := hnow (.string "new") hg (hheard _ g hg (by decide) (.inr (.inl hadmits)))
    hfg
  have hsiblings := hnow (.ofNat 2) hn (hheard _ n hn (by decide)
    (.inl (huntouched n (Option.mem_toList.2 hn)))) hfn
  have hchildren := hnow (.ofNat 0) hm (hheard _ m hm (by decide)
    (.inr (.inr (hcounts m (Option.mem_toList.2 hm))))) hfm
  exact ⟨hquiescent, hidle, hnamed, hsiblings, hchildren, hold, hleft, hown⟩

end Parametric.Workbench
