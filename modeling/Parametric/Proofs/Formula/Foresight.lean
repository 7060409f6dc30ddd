import Parametric.Proofs.Formula.Printing

/-!
# Lexemes in other surroundings

A class may look at more characters than it takes: at the sign and the digits after an exponent
mark, at what follows a point, at the whole rest of a text for a closing quote. Still the lexeme at
the front of a text is the same one when the text ends anywhere behind it (`lexeme?_front`), and so
is a token when a space comes there (`lexeme?_ends`). Most classes have this by themselves
(`Settled`); of blanks and string literals it is said apart.
-/

namespace Parametric.Token

/-- A text that is over, or goes on with a space. -/
def Ends (stop : List Char) : Prop := ∀ c ∈ stop.head?, c = ' '

theorem Ends.nil : Ends [] := fun _ h => nomatch h

theorem Ends.space (cs : List Char) : Ends (' ' :: cs) := fun _ h => (Option.some.inj h).symm

/-- What a class takes within the front of a text, it takes also when the text ends after that
front, or goes on with a space there. -/
def Settled (match? : List Char → Nat) : Prop :=
  ∀ front back stop, Ends stop → match? (front ++ back) ≤ front.length →
    match? (front ++ stop) = match? (front ++ back)

/-- It is enough that a class takes nothing where the front is over, and to look at a front that has
a character. -/
theorem Settled.of_cons {match? : List Char → Nat} (hends : ∀ stop, Ends stop → match? stop = 0)
    (hcons : ∀ c front back stop, Ends stop → match? (c :: (front ++ back)) ≤ front.length + 1 →
      match? (c :: (front ++ stop)) = match? (c :: (front ++ back))) : Settled match? := by
  intro front back stop hstop h
  cases front with
  | nil => exact (hends stop hstop).trans (Nat.le_zero.1 h).symm
  | cons c front => exact hcons c front back stop hstop h

theorem Ends.ne_cons {stop : List Char} (h : Ends stop) {c : Char} (hc : c ≠ ' ')
    (cs : List Char) : stop ≠ c :: cs := by
  rintro rfl
  exact hc (h c rfl)

theorem Ends.run {stop : List Char} (h : Ends stop) {p : Char → Bool} (hp : p ' ' = false) :
    run p stop = 0 := by
  cases stop with
  | nil => rfl
  | cons c cs => simp [Token.run, h c rfl, hp]

/-! ## Numerals -/

/-- A run ends with the front at the latest. -/
theorem run_ends {p : Char → Bool} (front back : List Char) {stop : List Char}
    (hstop : run p stop = 0) :
    run p (front ++ stop) = min (run p (front ++ back)) front.length := by
  induction front with
  | nil => exact hstop.trans (Nat.min_zero _).symm
  | cons c front ih =>
    simp only [run, List.cons_append, List.takeWhile_cons] at ih ⊢
    split
    · rw [List.length_cons, ih, List.length_cons, List.length_cons]
      omega
    · exact (Nat.zero_min _).symm

theorem settled_run {p : Char → Bool} (hp : p ' ' = false) : Settled (run p) :=
  fun front back _ hstop h => (run_ends front back (hstop.run hp)).trans (Nat.min_eq_left h)

theorem settled_fraction : Settled fraction := by
  refine .of_cons (fun stop hstop => ?_) fun c front back stop hstop h => ?_
  · unfold fraction
    split
    next cs => exact absurd rfl (hstop.ne_cons (by decide) cs)
    next => rfl
  · by_cases hc : c = '.'
    · subst hc
      rw [fraction] at h
      have hle : run Char.isDigit (front ++ back) ≤ front.length := by split at h <;> omega
      rw [fraction, fraction, settled_run rfl _ _ _ hstop hle]
    · unfold fraction
      grind

/-- The number of signs at the front. -/
def signs : List Char → Nat
  | '+' :: _ => 1
  | '-' :: _ => 1
  | _ => 0

theorem exponent_cons (c : Char) (cs : List Char) : exponent (c :: cs) =
    if c = 'e' || c = 'E' then
      if run Char.isDigit (cs.drop (signs cs)) = 0 then 0
      else 1 + signs cs + run Char.isDigit (cs.drop (signs cs))
    else 0 := rfl

theorem signs_cons (c : Char) (cs : List Char) :
    signs (c :: cs) = if c = '+' ∨ c = '-' then 1 else 0 := by
  unfold signs
  grind

theorem settled_exponent : Settled exponent := by
  refine .of_cons (fun stop hstop => ?_) fun c front back stop hstop h => ?_
  · cases stop with
    | nil => rfl
    | cons c cs =>
      rw [hstop c rfl]
      rfl
  · rw [exponent_cons] at h ⊢
    rw [exponent_cons]
    by_cases hc : (c = 'e' || c = 'E') = true
    · rw [if_pos hc] at h
      rw [if_pos hc, if_pos hc]
      cases front with
      | nil =>
        -- An exponent has a digit, so there is none after a mark at which the front is over.
        have hsigns : signs stop = 0 := by
          cases stop with
          | nil => rfl
          | cons d cs =>
            rw [hstop d rfl]
            rfl
        have hdigits : run Char.isDigit stop = 0 := hstop.run rfl
        simp only [List.nil_append, List.length_nil] at h ⊢
        rw [hsigns, List.drop_zero, hdigits, if_pos rfl]
        split at h
        next hnone => rw [if_pos hnone]
        next => omega
      | cons d front =>
        rw [List.cons_append, signs_cons] at h
        rw [List.cons_append, List.cons_append, signs_cons, signs_cons]
        generalize hsigns : (if d = '+' ∨ d = '-' then 1 else 0) = n at h ⊢
        have hle : n ≤ (d :: front).length := by
          rw [← hsigns, List.length_cons]
          split <;> omega
        have hlength : ((d :: front).drop n).length = (d :: front).length - n := List.length_drop
        rw [← List.cons_append, List.drop_append_of_le_length hle] at h
        have hdigits : run Char.isDigit ((d :: front).drop n ++ back) ≤
            ((d :: front).drop n).length := by split at h <;> omega
        rw [← List.cons_append, ← List.cons_append, List.drop_append_of_le_length hle,
          List.drop_append_of_le_length hle, settled_run rfl _ _ _ hstop hdigits]
    · rw [if_neg hc, if_neg hc]

theorem settled_numeral : Settled numeral := by
  intro front back stop hstop h
  unfold numeral at h ⊢
  dsimp only at h ⊢
  have hwhole : run Char.isDigit (front ++ back) ≤ front.length := by
    split at h <;> omega
  rw [settled_run rfl _ _ _ hstop hwhole]
  generalize run Char.isDigit (front ++ back) = whole at h hwhole ⊢
  have hlength : (front.drop whole).length = front.length - whole := List.length_drop
  rw [List.drop_append_of_le_length hwhole] at h ⊢
  have hfraction : fraction (front.drop whole ++ back) ≤ (front.drop whole).length := by
    split at h <;> omega
  rw [List.drop_append_of_le_length hwhole, settled_fraction _ _ _ hstop hfraction]
  generalize fraction (front.drop whole ++ back) = decimals at h hfraction ⊢
  by_cases hnone : whole + decimals = 0
  · rw [if_pos hnone, if_pos hnone]
  · have hle : whole + decimals ≤ front.length := by omega
    rw [if_neg hnone, List.drop_append_of_le_length hle] at h
    rw [if_neg hnone, if_neg hnone, List.drop_append_of_le_length hle,
      List.drop_append_of_le_length hle]
    have hexponent : exponent (front.drop (whole + decimals) ++ back) ≤
        (front.drop (whole + decimals)).length := by
      rw [List.length_drop]
      omega
    rw [settled_exponent _ _ _ hstop hexponent]

/-! ## Names -/

/-- A name ends with the front at the latest. -/
theorem identifier_ends (front back : List Char) {stop : List Char} (hstop : Ends stop) :
    identifier (front ++ stop) = min (identifier (front ++ back)) front.length := by
  cases front with
  | nil =>
    rw [List.length_nil, Nat.min_zero]
    cases stop with
    | nil => rfl
    | cons c cs =>
      rw [hstop c rfl]
      rfl
  | cons c front =>
    rw [List.cons_append, List.cons_append, identifier, identifier]
    split
    · rw [run_ends front back (hstop.run rfl), List.length_cons]
      omega
    · exact (Nat.zero_min _).symm

theorem settled_identifier : Settled identifier :=
  fun front back _ hstop h => (identifier_ends front back hstop).trans (Nat.min_eq_left h)

theorem settled_variableName : Settled variableName := by
  refine .of_cons (fun stop hstop => ?_) fun c front back stop hstop h => ?_
  · unfold variableName
    split
    next cs => exact absurd rfl (hstop.ne_cons (by decide) cs)
    next => rfl
  · by_cases hc : c = '$'
    · subst hc
      rw [variableName] at h
      have hle : identifier (front ++ back) ≤ front.length := by split at h <;> omega
      rw [variableName, variableName, settled_identifier _ _ _ hstop hle]
    · unfold variableName
      grind

theorem segments_ends {stop : List Char} (hstop : Ends stop) (fuel : Nat) :
    segments fuel stop = 0 := by
  unfold segments
  split
  next cs => exact absurd rfl (hstop.ne_cons (by decide) cs)
  next => rfl

theorem segments_of_ne {c : Char} (hc : c ≠ '.') (fuel : Nat) (cs : List Char) :
    segments fuel (c :: cs) = 0 := by
  unfold segments
  grind

/-- Names with a point before each end with the front; fuel for the front is enough. -/
theorem settled_segments {back stop : List Char} (hstop : Ends stop) {fuel fuel' : Nat}
    {front : List Char} (hfuel : front.length ≤ fuel) (hfuel' : front.length ≤ fuel')
    (h : segments fuel (front ++ back) ≤ front.length) :
    segments fuel' (front ++ stop) = segments fuel (front ++ back) := by
  induction fuel generalizing fuel' front with
  | zero =>
    obtain rfl : front = [] := List.length_eq_zero_iff.1 (Nat.le_zero.1 hfuel)
    exact (segments_ends hstop fuel').trans (Nat.le_zero.1 h).symm
  | succ fuel ih =>
    cases front with
    | nil => exact (segments_ends hstop fuel').trans (Nat.le_zero.1 h).symm
    | cons c front =>
      rw [List.length_cons] at hfuel hfuel' h
      obtain ⟨less, rfl⟩ : ∃ less, fuel' = less + 1 := ⟨fuel' - 1, by omega⟩
      rw [List.cons_append] at h ⊢
      by_cases hc : c = '.'
      · subst hc
        rw [segments] at h
        have hname : identifier (front ++ back) ≤ front.length := by split at h <;> omega
        rw [List.cons_append, segments, segments, settled_identifier _ _ _ hstop hname]
        by_cases hnone : identifier (front ++ back) = 0
        · rw [if_pos hnone, if_pos hnone]
        · rw [if_neg hnone, List.drop_append_of_le_length hname] at h
          rw [if_neg hnone, if_neg hnone, List.drop_append_of_le_length hname,
            List.drop_append_of_le_length hname]
          have hlength : (front.drop (identifier (front ++ back))).length =
            front.length - identifier (front ++ back) := List.length_drop
          rw [ih (by omega) (by omega) (by omega)]
      · rw [List.cons_append, segments_of_ne hc, segments_of_ne hc]

theorem settled_reference : Settled reference := by
  intro front back stop hstop h
  unfold reference at h ⊢
  dsimp only at h ⊢
  rw [identifier_ends front back hstop]
  generalize identifier (front ++ back) = n at h ⊢
  by_cases hnone : n = 0
  · rw [if_pos hnone, hnone, Nat.zero_min, if_pos rfl]
  · rw [if_neg hnone] at h ⊢
    by_cases hname : n ≤ front.length
    · rw [Nat.min_eq_left hname, if_neg hnone]
      rw [List.drop_append_of_le_length hname] at h ⊢
      have hlength : (front.drop n).length = front.length - n := List.length_drop
      have hle : segments (front ++ back).length (front.drop n ++ back) ≤
          (front.drop n).length := by split at h <;> omega
      have hfuel : ∀ cs, (front.drop n).length ≤ (front ++ cs).length := by
        intro cs
        rw [List.length_append]
        omega
      rw [List.drop_append_of_le_length hname,
        settled_segments hstop (hfuel back) (hfuel stop) hle]
    · -- The front is over within the first name, so no dotted name is left of it.
      have hrest : segments (front ++ stop).length ((front ++ stop).drop front.length) = 0 := by
        rw [List.drop_left]
        exact segments_ends hstop _
      rw [Nat.min_eq_right (by omega), hrest]
      split at h
      next hsegments => rw [hsegments, if_pos rfl, if_pos rfl, ite_self]
      next => omega

/-! ## Words -/

theorem oneOf_cons (w : String) (words : List String) (cs : List Char) :
    oneOf (w :: words) cs = if w.toList <+: cs then w.length else oneOf words cs := by
  unfold oneOf
  rw [List.find?_cons]
  by_cases hprefix : w.toList <+: cs
  · rw [List.isPrefixOf_iff_prefix.2 hprefix, if_pos hprefix]
    rfl
  · rw [Bool.eq_false_iff.2 fun h => hprefix (List.isPrefixOf_iff_prefix.1 h), if_neg hprefix]

/-- A word without a space that a text starts with does not go on behind the end of the text. -/
theorem prefix_of_ends {word front stop : List Char} (hword : ' ' ∉ word) (hstop : Ends stop)
    (h : word <+: front ++ stop) : word <+: front := by
  obtain ⟨rest, hrest⟩ := h
  rcases List.append_eq_append_iff.1 hrest with ⟨more, rfl, -⟩ | ⟨more, rfl, rfl⟩
  · exact List.prefix_append _ _
  · cases more with
    | nil => rw [List.append_nil]
    | cons c more =>
      have hspace : c = ' ' := hstop c rfl
      exact absurd (by simp [hspace]) hword

theorem settled_oneOf {words : List String} (hwords : ∀ w ∈ words, ' ' ∉ w.toList) :
    Settled (oneOf words) := by
  intro front back stop hstop h
  induction words with
  | nil => rfl
  | cons w words ih =>
    obtain ⟨hw, hwords⟩ := List.forall_mem_cons.1 hwords
    rw [oneOf_cons] at h ⊢
    rw [oneOf_cons]
    by_cases hprefix : w.toList <+: front ++ back
    · rw [if_pos hprefix, ← String.length_toList] at h
      have hfront : w.toList <+: front := List.prefix_of_prefix_length_le hprefix
        (List.prefix_append _ _) h
      rw [if_pos hprefix, if_pos (hfront.trans (List.prefix_append _ _))]
    · rw [if_neg hprefix] at h
      have hnot : ¬ w.toList <+: front ++ stop := fun hstarts =>
        hprefix ((prefix_of_ends hw hstop hstarts).trans (List.prefix_append _ _))
      rw [if_neg hprefix, if_neg hnot, ih hwords h]

/-! ## String literals -/

theorem quoted_bounds {quote : Char} {cs : List Char} {n : Nat} (h : quoted quote cs = some n) :
    0 < n ∧ n ≤ cs.length := by
  fun_induction quoted quote cs generalizing n with
  | case1 => cases h
  | case2 => cases h
  | case3 c cs ih =>
    obtain ⟨m, hm, rfl⟩ := Option.map_eq_some_iff.1 h
    have := ih hm
    rw [List.length_cons, List.length_cons]
    omega
  | case4 =>
    cases h
    rw [List.length_cons]
    omega
  | case5 c cs _ _ _ ih =>
    obtain ⟨m, hm, rfl⟩ := Option.map_eq_some_iff.1 h
    have := ih hm
    rw [List.length_cons]
    omega

/-- What is no escape does not start with a backslash. -/
theorem ne_backslash {c : Char} {cs : List Char} (hnil : c = '\\' → cs = [] → False)
    (hcons : ∀ d ds, c = '\\' → cs = d :: ds → False) : c ≠ '\\' := by
  intro hc
  cases cs with
  | nil => exact hnil hc rfl
  | cons d ds => exact hcons d ds hc rfl

theorem quoted_of_ne {c : Char} (hc : c ≠ '\\') (quote : Char) (cs : List Char) :
    quoted quote (c :: cs) = if c = quote then some 1 else (quoted quote cs).map (· + 1) :=
  quoted.eq_4 _ _ _ (fun h => absurd h hc) (fun _ _ h => absurd h hc)

/-- A literal that is closed within the front is closed there whatever follows. -/
theorem quoted_append {quote : Char} {front back : List Char} {n : Nat}
    (h : quoted quote (front ++ back) = some n) (hn : n ≤ front.length) (rest : List Char) :
    quoted quote (front ++ rest) = some n := by
  fun_induction quoted quote front generalizing n with
  | case1 =>
    have := (quoted_bounds h).1
    rw [List.length_nil] at hn
    omega
  | case2 =>
    -- A backslash takes the next character with it, so the literal is not closed by then.
    rw [List.length_singleton] at hn
    cases back with
    | nil => cases h
    | cons c back =>
      obtain ⟨m, hm, rfl⟩ := Option.map_eq_some_iff.1 h
      omega
  | case3 c cs ih =>
    obtain ⟨m, hm, rfl⟩ := Option.map_eq_some_iff.1 h
    rw [List.length_cons, List.length_cons] at hn
    show (quoted quote (cs ++ rest)).map (· + 2) = some (m + 2)
    rw [ih hm (by omega), Option.map_some]
  | case4 cs hnil hcons =>
    have hquote := ne_backslash hnil hcons
    rw [List.cons_append, quoted_of_ne hquote, if_pos rfl] at h ⊢
    exact h
  | case5 c cs hnil hcons hne ih =>
    have hc := ne_backslash hnil hcons
    rw [List.cons_append, quoted_of_ne hc, if_neg hne] at h ⊢
    obtain ⟨m, hm, rfl⟩ := Option.map_eq_some_iff.1 h
    rw [List.length_cons] at hn
    rw [ih hm (by omega), Option.map_some]

theorem literal_append {front back : List Char} (h : literal (front ++ back) ≠ 0)
    (hle : literal (front ++ back) ≤ front.length) (rest : List Char) :
    literal (front ++ rest) = literal (front ++ back) := by
  cases front with
  | nil => exact absurd (Nat.le_zero.1 hle) h
  | cons c front =>
    simp only [List.cons_append, literal] at h hle ⊢
    split
    next hquote =>
      rw [if_pos hquote] at h hle
      cases hclosed : quoted c (front ++ back) with
      | none =>
        rw [hclosed] at h
        exact absurd rfl h
      | some n =>
        rw [hclosed, Option.map_some, Option.getD_some, List.length_cons] at hle
        rw [quoted_append hclosed (by omega) rest]
    next => rfl

theorem literal_le (cs : List Char) : literal cs ≤ cs.length := by
  cases cs with
  | nil => exact le_rfl
  | cons c cs =>
    rw [literal]
    split
    · cases hclosed : quoted c cs with
      | none => exact Nat.zero_le _
      | some n =>
        have := (quoted_bounds hclosed).2
        rw [Option.map_some, Option.getD_some, List.length_cons]
        omega
    · exact Nat.zero_le _

/-- A literal is the same when the text ends behind it. -/
theorem literal_front {front back : List Char} (h : literal (front ++ back) ≤ front.length) :
    literal front = literal (front ++ back) := by
  by_cases hnone : literal (front ++ back) = 0
  · by_contra hsome
    have hself : literal (front ++ []) = literal front := by rw [List.append_nil]
    rw [hnone, ← hself] at hsome
    have hclosed := literal_append hsome (hself.trans_le (literal_le front)) back
    exact hsome (hclosed.symm.trans hnone)
  · have hsame := literal_append hnone h []
    rwa [List.append_nil] at hsame

/-! ## Lengths -/

theorem run_le (p : Char → Bool) (cs : List Char) : run p cs ≤ cs.length :=
  (List.takeWhile_sublist p).length_le

theorem fraction_le (cs : List Char) : fraction cs ≤ cs.length := by
  unfold fraction
  split
  next cs =>
    have := run_le Char.isDigit cs
    rw [List.length_cons]
    split <;> omega
  next => exact Nat.zero_le _

theorem exponent_le (cs : List Char) : exponent cs ≤ cs.length := by
  cases cs with
  | nil => exact le_rfl
  | cons c cs =>
    have hsigns : signs cs ≤ cs.length := by
      cases cs with
      | nil => exact le_rfl
      | cons d cs =>
        rw [signs_cons, List.length_cons]
        split <;> omega
    have hdigits := run_le Char.isDigit (cs.drop (signs cs))
    rw [List.length_drop] at hdigits
    rw [exponent_cons, List.length_cons]
    split
    · split <;> omega
    · exact Nat.zero_le _

theorem numeral_le (cs : List Char) : numeral cs ≤ cs.length := by
  unfold numeral
  dsimp only
  have hwhole := run_le Char.isDigit cs
  generalize run Char.isDigit cs = whole at hwhole ⊢
  have hfraction := fraction_le (cs.drop whole)
  rw [List.length_drop] at hfraction
  generalize fraction (cs.drop whole) = decimals at hfraction ⊢
  have hexponent := exponent_le (cs.drop (whole + decimals))
  rw [List.length_drop] at hexponent
  split <;> omega

theorem identifier_le (cs : List Char) : identifier cs ≤ cs.length := by
  cases cs with
  | nil => exact le_rfl
  | cons c cs =>
    have := run_le isIdentifierRest cs
    rw [identifier, List.length_cons]
    split <;> omega

theorem segments_le (fuel : Nat) (cs : List Char) : segments fuel cs ≤ cs.length := by
  induction fuel generalizing cs with
  | zero => exact Nat.zero_le _
  | succ fuel ih =>
    cases cs with
    | nil => exact Nat.zero_le _
    | cons c cs =>
      by_cases hc : c = '.'
      · subst hc
        have hname := identifier_le cs
        have hrest := ih (cs.drop (identifier cs))
        rw [List.length_drop] at hrest
        rw [segments, List.length_cons]
        split <;> omega
      · rw [segments_of_ne hc]
        exact Nat.zero_le _

theorem reference_le (cs : List Char) : reference cs ≤ cs.length := by
  unfold reference
  dsimp only
  have hname := identifier_le cs
  have hrest := segments_le cs.length (cs.drop (identifier cs))
  rw [List.length_drop] at hrest
  split
  · exact Nat.zero_le _
  · split <;> omega

theorem variableName_le (cs : List Char) : variableName cs ≤ cs.length := by
  unfold variableName
  split
  next cs =>
    have := identifier_le cs
    rw [List.length_cons]
    split <;> omega
  next => exact Nat.zero_le _

theorem oneOf_le (words : List String) (cs : List Char) : oneOf words cs ≤ cs.length := by
  induction words with
  | nil => exact Nat.zero_le _
  | cons w words ih =>
    rw [oneOf_cons]
    split
    next hprefix =>
      rw [← String.length_toList]
      exact hprefix.length_le
    next => exact ih

/-- A lexeme is a part of its text. -/
theorem lexeme?_length {cs : List Char} {kind : Option Kind} {n : Nat}
    (h : lexeme? cs = some (kind, n)) : n ≤ cs.length := by
  have hall : ∀ c ∈ classes, c.2 cs ≤ cs.length := by
    simp only [classes, List.forall_mem_cons]
    exact ⟨run_le _ _, numeral_le _, literal_le _, reference_le _, variableName_le _,
      identifier_le _, oneOf_le _ _, oneOf_le _ _, by simp⟩
  obtain ⟨c, hc, -, rfl, -⟩ := lexeme?_spec h
  exact hall c hc

/-! ## The lexeme at the front -/

/-- Only classes that take no more than the lexeme matter to it. -/
theorem lexeme?_congr {cs cs' : List Char} {kind : Option Kind} {n m : Nat}
    (h : lexeme? cs = some (kind, n)) (hn : n ≤ m)
    (hsame : ∀ c ∈ classes, c.2 cs ≤ m → c.2 cs' = c.2 cs) : lexeme? cs' = some (kind, n) := by
  unfold lexeme? at h ⊢
  generalize classes = tried at h hsame ⊢
  induction tried with
  | nil => cases h
  | cons c tried ih =>
    obtain ⟨hc, htried⟩ := List.forall_mem_cons.1 hsame
    rw [List.findSome?_cons] at h ⊢
    dsimp only at h ⊢
    by_cases hnone : c.2 cs = 0
    · rw [hc (by omega)]
      rw [if_pos hnone] at h ⊢
      exact ih h htried
    · rw [if_neg hnone] at h
      cases h
      rw [hc hn, if_neg hnone]

/-- No other class takes what starts with a quote. -/
theorem literal_ne_zero {c : Char} {cs : List Char} (hc : c = '"' ∨ c = '\'')
    (h : lexeme? (c :: cs) ≠ none) : literal (c :: cs) ≠ 0 := by
  intro hnone
  have hall : ∀ k ∈ classes, k.2 (c :: cs) = 0 := by
    simp only [classes, List.forall_mem_cons]
    rcases hc with rfl | rfl <;> exact ⟨rfl, rfl, hnone, rfl, rfl, rfl, rfl, rfl, by simp⟩
  exact h (List.findSome?_eq_none_iff.2 fun k hk => if_pos (hall k hk))

theorem literal_of_ne {c : Char} (hc : ¬ (c = '"' ∨ c = '\'')) (cs : List Char) :
    literal (c :: cs) = 0 := by
  rw [literal, if_neg (by simpa using hc)]

theorem isBlank_of_blanks {c : Char} {cs : List Char} (h : blanks (c :: cs) = 0) :
    Text.isBlank c = false := by
  simpa [blanks, run] using h

/-- The lexeme at the front of a text is the same when the text ends anywhere behind it. -/
theorem lexeme?_front {front back : List Char} {kind : Option Kind} {n : Nat}
    (h : lexeme? (front ++ back) = some (kind, n)) (hn : n ≤ front.length) :
    lexeme? front = some (kind, n) := by
  have hsettled : ∀ {match? : List Char → Nat}, Settled match? →
      match? (front ++ back) ≤ front.length → match? front = match? (front ++ back) := by
    intro match? hmatch hle
    have hsame := hmatch front back [] .nil hle
    rwa [List.append_nil] at hsame
  have hblanks : blanks (front ++ back) ≤ front.length → blanks front = blanks (front ++ back) := by
    intro hle
    have hsame : run Text.isBlank (front ++ []) =
        min (run Text.isBlank (front ++ back)) front.length := run_ends front back rfl
    rw [List.append_nil] at hsame
    exact hsame.trans (Nat.min_eq_left hle)
  refine lexeme?_congr h hn ?_
  simp only [classes, List.forall_mem_cons]
  exact ⟨hblanks, hsettled settled_numeral, literal_front, hsettled settled_reference,
    hsettled settled_variableName, hsettled settled_identifier,
    hsettled (settled_oneOf (by decide)), hsettled (settled_oneOf (by decide)), by simp⟩

/-- A token is the same when nothing but spaces follows. -/
theorem lexeme?_ends {front back : List Char} {kind : Kind} {n : Nat}
    (h : lexeme? (front ++ back) = some (some kind, n)) (hn : n ≤ front.length)
    {stop : List Char} (hstop : Ends stop) : lexeme? (front ++ stop) = some (some kind, n) := by
  obtain ⟨-, hpos⟩ := lexeme?_some h
  have hnone : blanks (front ++ back) = 0 := blanks_of_lexeme? h
  cases front with
  | nil => exact absurd (Nat.le_zero.1 hn) hpos
  | cons c front =>
    have hblank : Text.isBlank c = false := isBlank_of_blanks hnone
    have hliteral : literal (c :: front ++ back) ≤ (c :: front).length →
        literal (c :: front ++ stop) = literal (c :: front ++ back) := by
      intro hle
      by_cases hquote : c = '"' ∨ c = '\''
      · have hsome : lexeme? (c :: front ++ back) ≠ none := by
          rw [h]
          exact Option.some_ne_none _
        exact literal_append (literal_ne_zero hquote hsome) hle stop
      · rw [List.cons_append, List.cons_append, literal_of_ne hquote, literal_of_ne hquote]
    refine lexeme?_congr h hn ?_
    simp only [classes, List.forall_mem_cons]
    refine ⟨fun _ => ?_, settled_numeral _ _ _ hstop, hliteral, settled_reference _ _ _ hstop,
      settled_variableName _ _ _ hstop, settled_identifier _ _ _ hstop,
      settled_oneOf (by decide) _ _ _ hstop, settled_oneOf (by decide) _ _ _ hstop, by simp⟩
    rw [hnone]
    exact blanks_cons hblank

end Parametric.Token
