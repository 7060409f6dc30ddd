import Parametric.Formula.Parser
import Parametric.Proofs.Decimal.Numeral
import Parametric.Proofs.Property

/-!
# Lexemes

What the classes of lexemes take off the front of a text, in both directions. A name, a variable and
a reference are made of identifiers (`Token.IsName`). A name, a variable, a reference and a numeral
are taken whole when a blank or a mark comes after them (`Delimited`), and a string literal ends by
itself. What is taken is read as what was written: a reference as its object and path
(`splitReference_reference`), a string literal as its text (`decode?_literalText`).
-/

namespace Parametric.Token

/-! ## Which class matches -/

/-- A class takes its lexeme if none of those before it does. -/
theorem lexeme?_of_classes (before : List (Option Kind × (List Char → Nat)))
    {after : List (Option Kind × (List Char → Nat))} {kind : Option Kind}
    {match? : List Char → Nat} {cs : List Char}
    (hclasses : classes = before ++ (kind, match?) :: after)
    (hbefore : ∀ c ∈ before, c.2 cs = 0) (hne : match? cs ≠ 0) :
    lexeme? cs = some (kind, match? cs) := by
  have hnone : before.findSome? (fun c => if c.2 cs = 0 then none else some (c.1, c.2 cs)) = none :=
    List.findSome?_eq_none_iff.2 fun c hc => if_pos (hbefore c hc)
  rw [lexeme?, hclasses, List.findSome?_append, List.findSome?_cons]
  dsimp only
  rw [hnone, if_neg hne, Option.none_or]

/-- A lexeme is as long as its class says. -/
theorem lexeme?_spec {cs : List Char} {kind : Option Kind} {n : Nat}
    (h : lexeme? cs = some (kind, n)) : ∃ c ∈ classes, c.1 = kind ∧ c.2 cs = n ∧ c.2 cs ≠ 0 := by
  obtain ⟨c, hc, hsome⟩ := List.exists_of_findSome?_eq_some h
  refine ⟨c, hc, ?_⟩
  dsimp only at hsome
  split at hsome
  · cases hsome
  next hne =>
    cases hsome
    exact ⟨rfl, rfl, hne⟩

/-- The characters that the class of a kind takes. -/
def taken : Kind → List Char → Nat
  | .number => numeral
  | .string => literal
  | .identifier => identifier
  | .reference => reference
  | .variable => variableName
  | .operator => oneOf operators
  | .punctuation => oneOf marks

theorem lexeme?_some {cs : List Char} {kind : Kind} {n : Nat}
    (h : lexeme? cs = some (some kind, n)) : taken kind cs = n ∧ n ≠ 0 := by
  obtain ⟨⟨k, match?⟩, hc, hkind, hlength, hne⟩ := lexeme?_spec h
  have hmatch : ∀ c ∈ classes, c.1 = some kind → c.2 = taken kind := by
    simp only [classes, List.forall_mem_cons]
    refine ⟨?_, ?_, ?_, ?_, ?_, ?_, ?_, ?_, by simp⟩ <;> rintro ⟨⟩ <;> rfl
  rw [← hmatch _ hc hkind]
  exact ⟨hlength, hlength ▸ hne⟩

/-! ## First characters -/

variable {c : Char} {cs : List Char}

theorem of_ascii {P : Char → Prop} (h : ∀ n < 128, P (Char.ofNat n)) (hc : c.toNat < 128) :
    P c := by
  simpa using h c.toNat hc

theorem ascii_of_digit (h : c.isDigit) : c.toNat < 128 := by
  simp only [Char.isDigit, Bool.and_eq_true, decide_eq_true_eq] at h
  exact Nat.lt_of_le_of_lt h.2 (by decide)

theorem ascii_of_start (h : isIdentifierStart c) : c.toNat < 128 := by
  simp only [isIdentifierStart, Char.isAlpha, Char.isUpper, Char.isLower, Bool.or_eq_true,
    Bool.and_eq_true, decide_eq_true_eq] at h
  obtain (⟨-, h⟩ | ⟨-, h⟩) | rfl := h
  · exact Nat.lt_of_le_of_lt h (by decide)
  · exact Nat.lt_of_le_of_lt h (by decide)
  · decide

theorem blanks_cons (h : Text.isBlank c = false) : blanks (c :: cs) = 0 := by
  simp [blanks, run, h]

theorem numeral_cons (h : c.isDigit = false) (hdot : c ≠ '.') : numeral (c :: cs) = 0 := by
  have hrun : run Char.isDigit (c :: cs) = 0 := by simp [run, h]
  have hfraction : fraction (c :: cs) = 0 := by
    unfold fraction
    grind
  simp [numeral, hrun, hfraction]

/-- What starts as an identifier is taken neither by the classes before that of references nor as a
variable. -/
theorem classes_of_start (h : isIdentifierStart c) : blanks (c :: cs) = 0 ∧
    numeral (c :: cs) = 0 ∧ literal (c :: cs) = 0 ∧ variableName (c :: cs) = 0 := by
  obtain ⟨hblank, hdigit, hdot, hdouble, hsingle, hdollar⟩ :=
    of_ascii (P := fun c => isIdentifierStart c → Text.isBlank c = false ∧ c.isDigit = false ∧
      c ≠ '.' ∧ c ≠ '"' ∧ c ≠ '\'' ∧ c ≠ '$') (by decide) (ascii_of_start h) h
  refine ⟨blanks_cons hblank, numeral_cons hdigit hdot, ?_, ?_⟩
  · simp [literal, hdouble, hsingle]
  · unfold variableName
    grind

/-! ## Names -/

theorem take_run (p : Char → Bool) (cs : List Char) : cs.take (run p cs) = cs.takeWhile p :=
  (List.prefix_iff_eq_take.1 (List.takeWhile_prefix p)).symm

theorem run_append {p : Char → Bool} {front rest : List Char} (hfront : ∀ c ∈ front, p c) :
    run p (front ++ rest) = front.length + run p rest := by
  rw [run, run, List.takeWhile_append_of_pos hfront, List.length_append]

/-- The characters of an identifier. -/
def IsName : List Char → Prop
  | [] => False
  | c :: cs => isIdentifierStart c ∧ ∀ d ∈ cs, isIdentifierRest d

instance : DecidablePred IsName
  | [] => inferInstanceAs (Decidable False)
  | c :: cs =>
    -- Each character of the list is tried, not each one there is.
    have : Decidable (∀ d ∈ cs, isIdentifierRest d) := List.decidableBAll _ cs
    inferInstanceAs (Decidable (isIdentifierStart c ∧ ∀ d ∈ cs, isIdentifierRest d))

namespace IsName

variable {name : List Char}

theorem length_pos (h : IsName name) : 0 < name.length := by
  cases name with
  | nil => exact h.elim
  | cons c cs => exact Nat.succ_pos _

theorem notMem (h : IsName name) : '.' ∉ name := by
  cases name with
  | nil => exact h.elim
  | cons c cs =>
    rw [List.mem_cons, not_or]
    refine ⟨?_, fun hmem => absurd (h.2 _ hmem) (by decide)⟩
    rintro rfl
    exact absurd h.1 (by decide)

theorem plain {name : String} (h : IsName name.toList) : Path.Plain name := by
  refine ⟨?_, h.notMem⟩
  rintro rfl
  exact h

theorem classes (h : IsName name) (rest : List Char) :
    blanks (name ++ rest) = 0 ∧ numeral (name ++ rest) = 0 ∧ literal (name ++ rest) = 0 ∧
      variableName (name ++ rest) = 0 := by
  cases name with
  | nil => exact h.elim
  | cons c cs => exact classes_of_start h.1

theorem identifier_append (h : IsName name) {rest : List Char}
    (hrest : run isIdentifierRest rest = 0) : identifier (name ++ rest) = name.length := by
  cases name with
  | nil => exact h.elim
  | cons c cs =>
    rw [List.cons_append, identifier, if_pos h.1, run_append h.2, hrest, List.length_cons]
    omega

end IsName

/-- What the class of identifiers takes is a name. -/
theorem isName_identifier (h : identifier cs ≠ 0) : IsName (cs.take (identifier cs)) := by
  cases cs with
  | nil => exact absurd rfl h
  | cons c cs =>
    rw [identifier] at h ⊢
    split at h
    next hstart =>
      rw [if_pos hstart, Nat.add_comm, List.take_succ_cons, take_run]
      exact ⟨hstart, fun d hd => List.all_eq_true.1 List.all_takeWhile d hd⟩
    next => exact absurd rfl h

/-- What the class of variables takes is a dollar sign and a name. -/
theorem exists_variable (h : variableName cs ≠ 0) : ∃ name,
    cs.take (variableName cs) = '$' :: name ∧ IsName name := by
  unfold variableName at h ⊢
  split at h
  next cs =>
    by_cases hn : identifier cs = 0
    · simp [hn] at h
    · simp only [hn, if_false]
      exact ⟨_, by rw [Nat.add_comm, List.take_succ_cons], isName_identifier hn⟩
  next => exact absurd rfl h

theorem isName_variableName (h : variableName cs ≠ 0) :
    IsName ((cs.take (variableName cs)).drop 1) := by
  obtain ⟨name, htake, hname⟩ := exists_variable h
  rwa [htake]

/-- Names with a dot before each. -/
def dotted (path : Path) : List Char := path.flatMap fun name => '.' :: name.toList

theorem dotted_cons (name : String) (path : Path) :
    dotted (name :: path) = '.' :: (name.toList ++ dotted path) := by
  simp [dotted]

theorem exists_dotted (fuel : Nat) (cs : List Char) : ∃ path : Path,
    cs.take (segments fuel cs) = dotted path ∧ (∀ name ∈ path, IsName name.toList) ∧
      (path = [] → segments fuel cs = 0) := by
  induction fuel generalizing cs with
  | zero => exact ⟨[], by simp [segments, dotted], by simp, fun _ => rfl⟩
  | succ fuel ih =>
    unfold segments
    split
    next fuel' cs hfuel =>
      obtain rfl : fuel = fuel' := Nat.succ.inj hfuel
      by_cases hn : identifier cs = 0
      · exact ⟨[], by simp [hn, dotted], by simp, by simp [hn]⟩
      · obtain ⟨path, hpath, hnames, -⟩ := ih (cs.drop (identifier cs))
        refine ⟨String.ofList (cs.take (identifier cs)) :: path, ?_, ?_, by simp⟩
        · simp only [hn, if_false]
          rw [dotted_cons, String.toList_ofList, ← hpath, Nat.add_assoc, Nat.add_comm 1,
            List.take_succ_cons, List.take_add]
        · exact List.forall_mem_cons.2 ⟨by simpa using isName_identifier hn, hnames⟩
    next => exact ⟨[], by simp [dotted], by simp, fun _ => rfl⟩

/-- What the class of references takes is a name and dotted names after it. -/
theorem exists_reference (h : reference cs ≠ 0) : ∃ (object : List Char) (path : Path),
    cs.take (reference cs) = object ++ dotted path ∧ IsName object ∧ path ≠ [] ∧
      ∀ name ∈ path, IsName name.toList := by
  unfold reference at h ⊢
  by_cases hn : identifier cs = 0
  · simp [hn] at h
  · obtain ⟨path, hpath, hnames, hempty⟩ := exists_dotted cs.length (cs.drop (identifier cs))
    by_cases hm : segments cs.length (cs.drop (identifier cs)) = 0
    · simp [hn, hm] at h
    · simp only [hn, hm, if_false]
      refine ⟨_, path, ?_, isName_identifier hn, fun hnil => hm (hempty hnil), hnames⟩
      rw [List.take_add, hpath]

/-- A numeral starts with a digit or a point. -/
theorem exists_numeral (h : numeral cs ≠ 0) : ∃ c rest, cs.take (numeral cs) = c :: rest ∧
    (c.isDigit ∨ c = '.') := by
  cases cs with
  | nil => exact absurd rfl h
  | cons c cs =>
    obtain ⟨n, hn⟩ := Nat.exists_eq_succ_of_ne_zero h
    refine ⟨c, cs.take n, by rw [hn, Nat.succ_eq_add_one, List.take_succ_cons], ?_⟩
    by_contra hc
    rw [not_or, Bool.not_eq_true] at hc
    exact h (numeral_cons hc.1 hc.2)

/-! ## What ends at a blank or a mark -/

variable {path : Path} {rest : List Char}

/-- What follows a name or a numeral so that it ends there. -/
def Delimited (rest : List Char) : Prop := ∀ c ∈ rest.head?, c ∈ [' ', '(', ')', ',']

theorem Delimited.ne_cons (h : Delimited rest)
    (hc : c ∉ [' ', '(', ')', ',']) (more : List Char) : rest ≠ c :: more := by
  rintro rfl
  exact hc (h c rfl)

theorem Delimited.run {p : Char → Bool} (h : Delimited rest)
    (hp : [' ', '(', ')', ','].any p = false) : run p rest = 0 := by
  cases rest with
  | nil => rfl
  | cons c rest => simp [Token.run, List.any_eq_false.1 hp c (h c rfl)]

/-! ### Names -/

theorem length_le_dotted (path : Path) : path.length ≤ (dotted path).length := by
  induction path with
  | nil => rfl
  | cons name path ih =>
    rw [dotted_cons, List.length_cons, List.length_cons, List.length_append]
    omega

theorem run_dotted (path : Path) (hrest : Delimited rest) :
    run isIdentifierRest (dotted path ++ rest) = 0 := by
  cases path with
  | nil => exact hrest.run rfl
  | cons name path => rw [dotted_cons]; rfl

theorem segments_dotted (hpath : ∀ name ∈ path, IsName name.toList) (hrest : Delimited rest) :
    ∀ {fuel : Nat}, path.length ≤ fuel →
      segments fuel (dotted path ++ rest) = (dotted path).length := by
  induction path with
  | nil =>
    intro fuel _
    change segments fuel rest = 0
    unfold segments
    split
    next => exact absurd rfl (hrest.ne_cons (by decide) _)
    next => rfl
  | cons name path ih =>
    intro fuel hfuel
    obtain ⟨hname, hpath⟩ := List.forall_mem_cons.1 hpath
    obtain ⟨less, rfl⟩ : ∃ less, fuel = less + 1 := ⟨fuel - 1, by grind⟩
    have hlength := hname.identifier_append (run_dotted path hrest)
    have hpos := hname.length_pos
    rw [dotted_cons, List.cons_append, List.append_assoc, segments, hlength, if_neg (by omega),
      List.drop_left, ih hpath (by grind), List.length_cons, List.length_append]
    omega

/-- A name takes the dotted names after it with it, and is no reference if there are none. -/
theorem reference_dotted {object : List Char} (hobject : IsName object)
    (hpath : ∀ name ∈ path, IsName name.toList) (hrest : Delimited rest) :
    reference (object ++ (dotted path ++ rest)) =
      if path = [] then 0 else object.length + (dotted path).length := by
  have hfuel : path.length ≤ (object ++ (dotted path ++ rest)).length := by
    have hle := length_le_dotted path
    rw [List.length_append, List.length_append]
    omega
  have hpos := hobject.length_pos
  unfold reference
  rw [hobject.identifier_append (run_dotted path hrest), if_neg (by omega), List.drop_left,
    segments_dotted hpath hrest hfuel]
  cases path with
  | nil => rfl
  | cons name path => simp [dotted_cons]

theorem lexeme?_name {name : List Char} (hname : IsName name) (hrest : Delimited rest) :
    lexeme? (name ++ rest) = some (some .identifier, name.length) := by
  obtain ⟨hblanks, hnumeral, hliteral, hvariable⟩ := hname.classes rest
  have hlength := hname.identifier_append (hrest.run rfl)
  have hreference : reference (name ++ (dotted [] ++ rest)) = 0 :=
    reference_dotted hname (by simp) hrest
  change reference (name ++ rest) = 0 at hreference
  rw [← hlength]
  refine lexeme?_of_classes [(none, blanks), (some .number, numeral),
    (some .string, literal), (some .reference, reference), (some .variable, variableName)] rfl ?_ ?_
  · simp [hblanks, hnumeral, hliteral, hreference, hvariable]
  · have := hname.length_pos
    omega

theorem lexeme?_reference {object : List Char} (hobject : IsName object) (hne : path ≠ [])
    (hpath : ∀ name ∈ path, IsName name.toList) (hrest : Delimited rest) :
    lexeme? ((object ++ dotted path) ++ rest) =
      some (some .reference, (object ++ dotted path).length) := by
  obtain ⟨hblanks, hnumeral, hliteral, -⟩ := hobject.classes (dotted path ++ rest)
  have hlength := reference_dotted hobject hpath hrest
  rw [if_neg hne, ← List.length_append] at hlength
  rw [List.append_assoc, ← hlength]
  refine lexeme?_of_classes [(none, blanks), (some .number, numeral),
    (some .string, literal)] rfl ?_ ?_
  · simp [hblanks, hnumeral, hliteral]
  · have := hobject.length_pos
    rw [hlength, List.length_append]
    omega

theorem lexeme?_variable {name : List Char} (hname : IsName name) (hrest : Delimited rest) :
    lexeme? ('$' :: name ++ rest) = some (some .variable, ('$' :: name).length) := by
  have hlength : variableName ('$' :: name ++ rest) = ('$' :: name).length := by
    have hpos := hname.length_pos
    rw [List.cons_append, variableName, hname.identifier_append (hrest.run rfl),
      if_neg (by omega), List.length_cons, Nat.add_comm]
  rw [← hlength]
  refine lexeme?_of_classes [(none, blanks), (some .number, numeral),
    (some .string, literal), (some .reference, reference)] rfl ?_ ?_
  · simp only [List.forall_mem_cons]
    exact ⟨rfl, rfl, rfl, rfl, by simp⟩
  · rw [hlength]
    exact Nat.succ_ne_zero _

/-! ### Numerals -/

theorem exponent_delimited (hrest : Delimited rest) : exponent rest = 0 := by
  have hmark : [' ', '(', ')', ','].any (fun c => c = 'e' || c = 'E') = false := rfl
  cases rest with
  | nil => rfl
  | cons c rest => exact if_neg (List.any_eq_false.1 hmark c (hrest c rfl))

theorem fraction_delimited {digits : List Char} (hdigits : ∀ c ∈ digits, c.isDigit)
    (hrest : Delimited rest) :
    fraction ((if digits = [] then [] else '.' :: digits) ++ rest) =
      (if digits = [] then [] else '.' :: digits).length := by
  by_cases hempty : digits = []
  · rw [if_pos hempty, List.nil_append]
    unfold fraction
    split
    next => exact absurd rfl (hrest.ne_cons (by decide) _)
    next => rfl
  · have hrun : run Char.isDigit (digits ++ rest) = digits.length + run Char.isDigit rest :=
      run_append hdigits
    rw [hrest.run rfl] at hrun
    have hpos := List.length_pos_iff.2 hempty
    rw [if_neg hempty, List.cons_append, fraction, hrun, if_neg (by omega), List.length_cons]
    omega

theorem numeral_written {whole digits : List Char} (hne : whole ≠ [])
    (hwhole : ∀ c ∈ whole, c.isDigit) (hdigits : ∀ c ∈ digits, c.isDigit)
    (hrest : Delimited rest) :
    numeral (Decimal.written whole digits ++ rest) = (Decimal.written whole digits).length := by
  have hpos := List.length_pos_iff.2 hne
  have hfraction := fraction_delimited hdigits hrest
  have hexponent := exponent_delimited hrest
  have hstop : run Char.isDigit ((if digits = [] then [] else '.' :: digits) ++ rest) = 0 := by
    by_cases hempty : digits = []
    · rw [if_pos hempty]
      exact hrest.run rfl
    · rw [if_neg hempty]
      rfl
  unfold numeral Decimal.written
  generalize (if digits = [] then [] else '.' :: digits) = tail at *
  rw [List.append_assoc, run_append hwhole, hstop]
  dsimp only
  rw [Nat.add_zero, List.drop_left, hfraction, if_neg (by omega), ← List.append_assoc,
    ← List.length_append, List.drop_left, hexponent, Nat.add_zero]

theorem lexeme?_numeral {whole fraction : List Char} (hne : whole ≠ [])
    (hwhole : ∀ c ∈ whole, c.isDigit) (hfraction : ∀ c ∈ fraction, c.isDigit)
    (hrest : Delimited rest) :
    lexeme? (Decimal.written whole fraction ++ rest) =
      some (some .number, (Decimal.written whole fraction).length) := by
  have hlength := numeral_written hne hwhole hfraction hrest
  obtain ⟨c, cs, rfl⟩ := List.exists_cons_of_ne_nil hne
  rw [← hlength]
  refine lexeme?_of_classes [(none, blanks)] rfl ?_ ?_
  · have hdigit := hwhole c List.mem_cons_self
    have hblank : Text.isBlank c = false :=
      of_ascii (P := fun c => c.isDigit → Text.isBlank c = false) (by decide)
        (ascii_of_digit hdigit) hdigit
    exact List.forall_mem_singleton.2 (blanks_cons hblank)
  · rw [hlength]
    simp [Decimal.written]

/-! ### String literals -/

theorem quoted_escapeLiteral (c : Char) (cs : List Char) :
    quoted '"' (Expr.escapeLiteral c ++ cs) =
      (quoted '"' cs).map (· + (Expr.escapeLiteral c).length) := by
  unfold Expr.escapeLiteral
  split_ifs with hquote hbackslash
  iterate 4 rfl
  rw [List.singleton_append, quoted.eq_4 _ _ _ (by grind) (by grind), if_neg hquote]
  rfl

theorem unescape?_escapeLiteral (c : Char) (cs : List Char) :
    unescape? (Expr.escapeLiteral c ++ cs) = (unescape? cs).map (c :: ·) := by
  unfold Expr.escapeLiteral
  split_ifs with hquote hbackslash hline htab
  · subst hquote
    rfl
  · subst hbackslash
    rfl
  · subst hline
    rfl
  · subst htab
    rfl
  · rw [List.singleton_append, unescape?.eq_4 _ _ (by grind) (by grind)]

theorem quoted_flatMap (cs rest : List Char) :
    quoted '"' (cs.flatMap Expr.escapeLiteral ++ '"' :: rest) =
      some ((cs.flatMap Expr.escapeLiteral).length + 1) := by
  induction cs with
  | nil => rfl
  | cons c cs ih =>
    rw [List.flatMap_cons, List.append_assoc, quoted_escapeLiteral, ih, Option.map_some,
      List.length_append]
    congr 1
    omega

theorem unescape?_flatMap (cs : List Char) :
    unescape? (cs.flatMap Expr.escapeLiteral) = some cs := by
  induction cs with
  | nil => rfl
  | cons c cs ih => rw [List.flatMap_cons, unescape?_escapeLiteral, ih, Option.map_some]

theorem toList_literalText (s : String) :
    (Expr.literalText s).toList = '"' :: (s.toList.flatMap Expr.escapeLiteral ++ ['"']) := by
  simp [Expr.literalText]

theorem lexeme?_literalText (s : String) (rest : List Char) :
    lexeme? ((Expr.literalText s).toList ++ rest) =
      some (some .string, (Expr.literalText s).toList.length) := by
  have hlength : literal ((Expr.literalText s).toList ++ rest) =
      (Expr.literalText s).toList.length := by
    rw [toList_literalText, List.cons_append, List.append_assoc, literal, if_pos (by decide)]
    rw [List.singleton_append, quoted_flatMap]
    simp
  rw [← hlength]
  refine lexeme?_of_classes [(none, blanks), (some .number, numeral)] rfl ?_ ?_
  · rw [toList_literalText]
    simp only [List.forall_mem_cons]
    exact ⟨rfl, rfl, by simp⟩
  · rw [hlength, toList_literalText]
    exact Nat.succ_ne_zero _

/-- A string literal is read as the text that it was written for. -/
theorem decode?_literalText (s : String) (offset : Nat) :
    decode? ⟨.string, Expr.literalText s, offset⟩ = some s := by
  rw [decode?, if_pos rfl]
  dsimp only
  rw [toList_literalText, List.drop_succ_cons, List.drop_zero, List.dropLast_concat,
    unescape?_flatMap, Option.map_some, String.ofList_toList]

/-! ## Reading references -/

theorem names_dotted {name : List Char} (hname : IsName name)
    (hpath : ∀ s ∈ path, IsName s.toList) :
    Path.ofString.names [] (name ++ dotted path) = String.ofList name :: path := by
  induction path generalizing name with
  | nil => simpa [dotted] using Path.names_of_notMem hname.notMem []
  | cons s path ih =>
    obtain ⟨hs, hpath⟩ := List.forall_mem_cons.1 hpath
    rw [dotted_cons, Path.names_append hname.notMem, ih hs hpath, List.reverse_nil,
      List.nil_append, String.ofList_toList]

/-- A dotted reference is split into its names. -/
theorem ofString_dotted {object : List Char} (hobject : IsName object)
    (hpath : ∀ name ∈ path, IsName name.toList) :
    Path.ofString (String.ofList (object ++ dotted path)) = String.ofList object :: path := by
  have hall : ∀ s ∈ String.ofList object :: path, s ≠ "" :=
    List.forall_mem_cons.2
      ⟨(IsName.plain (by simpa using hobject)).1, fun s hs => (hpath s hs).plain.1⟩
  rw [Path.ofString, String.toList_ofList, names_dotted hobject hpath,
    List.filter_eq_self.2 (by simpa using hall)]

/-- A dotted reference is read as its object and path. -/
theorem splitReference_dotted {object : List Char} (hobject : IsName object)
    (hpath : ∀ name ∈ path, IsName name.toList) :
    Parser.splitReference (String.ofList (object ++ dotted path)) =
      .reference (String.ofList object) path := by
  rw [Parser.splitReference, ofString_dotted hobject hpath]

theorem toList_text (name : String) (path : Path) :
    (Path.text (name :: path)).toList = name.toList ++ dotted path := by
  induction path generalizing name with
  | nil => simp [Path.text, dotted]
  | cons next path ih =>
    have htext : (Path.text (name :: next :: path)).toList =
        name.toList ++ '.' :: (Path.text (next :: path)).toList := by
      simp [Path.text]
    rw [htext, ih, dotted_cons]

theorem toList_reference (object : String) (hne : path ≠ []) :
    (object ++ "." ++ path.text).toList = object.toList ++ dotted path := by
  obtain ⟨name, path, rfl⟩ := List.exists_cons_of_ne_nil hne
  rw [String.toList_append, String.toList_append, toList_text, dotted_cons, List.append_assoc]
  rfl

theorem splitReference_reference {object : String} (hobject : IsName object.toList)
    (hne : path ≠ []) (hpath : ∀ name ∈ path, IsName name.toList) :
    Parser.splitReference (object ++ "." ++ path.text) = .reference object path := by
  have hsplit := splitReference_dotted hobject hpath
  rwa [← toList_reference object hne, String.ofList_toList, String.ofList_toList] at hsplit

end Parametric.Token
