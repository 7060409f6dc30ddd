import Parametric.Proofs.Formula.Nesting

/-!
# Compiling what was compiled and printed

What source text compiles to is lexical, so its own text compiles to it again as long as that nests
within the limit and no numeral overflowed (`Expr.recompile_iff`). Both can fail: the text has a
parenthesis around every operand of a sign and around every operator, so it nests where the source
did not, and a numeral that is too great prints as a word.
-/

namespace Parametric.Expr

/-- The text of a compiled formula compiles to it again if and only if it nests within the limit and
its numbers are finite. Otherwise the parser refuses it, for its nesting if its numbers are
finite. -/
theorem recompile_iff {source : String} {e : Expr} (h : ofSource source = .ok e) :
    (ofSource e.text = .ok e ↔ 1 + e.need ≤ maxNesting ∧ e.Finite) ∧
      (¬(1 + e.need ≤ maxNesting ∧ e.Finite) → ∃ error, ofSource e.text = .error (.parse error) ∧
        (e.Finite → error.wanted = .shallower)) := by
  obtain ⟨hok, herror⟩ := ofSource_text (lexical_of_ofSource h)
  refine ⟨⟨fun hread => ?_, fun hgood => hok hgood.1 hgood.2⟩, herror⟩
  by_contra hbad
  obtain ⟨error, hrefused, -⟩ := herror hbad
  rw [hread] at hrefused
  cases hrefused

/-- A numeral that is too great compiles to infinity, whose text does not compile; and fifty signs
compile, but not with the parentheses that they are printed with. -/
theorem overflow_and_signs_not_recompiled :
    (∃ e, ofSource "1e400" = .ok e ∧ e.text = "inf" ∧
      ∃ error, ofSource e.text = .error (.parse error)) ∧
    (∃ e, ofSource (String.ofList (List.replicate 50 '-') ++ "$a") = .ok e ∧ e.Finite ∧
      ∃ error, ofSource e.text = .error (.parse error) ∧ error.wanted = .shallower) := by
  have hoverflow : (ofSource "1e400").toOption.any
      fun e => decide (e.text = "inf" ∧ ¬e.Finite) := by decide +kernel
  have hsigns : (ofSource (String.ofList (List.replicate 50 '-') ++ "$a")).toOption.any
      fun e => decide (e.Finite ∧ ¬1 + e.need ≤ maxNesting) := by decide +kernel
  constructor
  · cases hsource : ofSource "1e400" with
    | error e =>
      rw [hsource] at hoverflow
      cases hoverflow
    | ok e =>
      rw [hsource] at hoverflow
      obtain ⟨htext, hinfinite⟩ := of_decide_eq_true hoverflow
      obtain ⟨error, hrefused, -⟩ := (recompile_iff hsource).2 fun h => hinfinite h.2
      exact ⟨e, rfl, htext, error, hrefused⟩
  · cases hsource : ofSource (String.ofList (List.replicate 50 '-') ++ "$a") with
    | error e =>
      rw [hsource] at hsigns
      cases hsigns
    | ok e =>
      rw [hsource] at hsigns
      obtain ⟨hfinite, hdeep⟩ := of_decide_eq_true hsigns
      obtain ⟨error, hrefused, hwanted⟩ := (recompile_iff hsource).2 fun h => hdeep h.1
      exact ⟨e, rfl, hfinite, error, hrefused, hwanted hfinite⟩

end Parametric.Expr
