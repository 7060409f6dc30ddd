import Parametric.Proofs.Scene.Revision
import Parametric.Proofs.Update.Agenda

/-!
# Which write lasts

Values are written to the properties of an object, and the object is resized, by calls that are
carried out later (`Write`). A value is also written at once. A later call takes the place of a
waiting one for the same property, where a resize waits for a property of its own name; so of each
property one call is left (`Write.standing`), and those that are left are carried out in the order of
their priorities (`Write.served`). The last write of a field determines it (`Object.get?_edited`). So
the latest call that writes a property lasts if no other call that is left and writes it is less
urgent, and if it is not a resize that is not carried out (`Write.Outlived`, `Write.latest_lasts`).
-/

namespace Parametric

/-! ## The last write of a field -/

/-- The last value that is written to a field. -/
def lastWrite? (name : String) (edits : List (Path × Value)) : Option Value :=
  (edits.filterMap fun e => if e.1 = [name] then some e.2 else none).getLast?

section lastWrite

variable {name : String} {edits : List (Path × Value)}

theorem lastWrite?_append (edits edits' : List (Path × Value)) :
    lastWrite? name (edits ++ edits') = (lastWrite? name edits').or (lastWrite? name edits) := by
  rw [lastWrite?, List.filterMap_append, List.getLast?_append]
  rfl

theorem lastWrite?_isSome_iff : (lastWrite? name edits).isSome ↔ ∃ e ∈ edits, e.1 = [name] := by
  rw [lastWrite?, List.getLast?_isSome, Ne, List.filterMap_eq_nil_iff]
  simp

/-- What is written to a field is read back there, and other fields are as they were. -/
theorem Object.get?_edited {edits : List (Path × Value)}
    (hedits : ∀ e ∈ edits, e.1 = [] ∨ ∃ n, e.1 = [n]) (o : Object) (name : String) :
    (o.edited edits).properties.get? name =
      ((lastWrite? name edits).map .leaf).or (o.properties.get? name) := by
  induction edits generalizing o with
  | nil => rfl
  | cons e edits ih =>
    obtain ⟨he, hedits⟩ := List.forall_mem_cons.1 hedits
    have hfirst : (o.set e.2 e.1).properties.get? name =
        ((lastWrite? name [e]).map .leaf).or (o.properties.get? name) := by
      obtain ⟨path, v⟩ := e
      rcases he with rfl | ⟨n, rfl⟩
      · rfl
      · rw [Object.get?_set]
        by_cases hn : n = name <;> simp [lastWrite?, hn]
    show ((o.set e.2 e.1).edited edits).properties.get? name = _
    rw [ih hedits, hfirst, show e :: edits = [e] ++ edits from rfl, lastWrite?_append]
    cases lastWrite? name edits <;> rfl

variable {α : Type} {f : α → List (Path × Value)}

theorem lastWrite?_flatMap_eq_none {xs : List α} (h : ∀ x ∈ xs, lastWrite? name (f x) = none) :
    lastWrite? name (xs.flatMap f) = none := by
  induction xs with
  | nil => rfl
  | cons x xs ih =>
    obtain ⟨hx, hxs⟩ := List.forall_mem_cons.1 h
    rw [List.flatMap_cons, lastWrite?_append, ih hxs, hx]
    rfl

/-- The last one that writes a field at all determines it. -/
theorem lastWrite?_flatMap_of_last {before after : List α} {x : α}
    (hx : (lastWrite? name (f x)).isSome) (hafter : ∀ y ∈ after, lastWrite? name (f y) = none) :
    lastWrite? name ((before ++ x :: after).flatMap f) = lastWrite? name (f x) := by
  obtain ⟨v, hv⟩ := Option.isSome_iff_exists.1 hx
  rw [List.flatMap_append, List.flatMap_cons, lastWrite?_append, lastWrite?_append,
    lastWrite?_flatMap_eq_none hafter, hv]
  rfl

end lastWrite

/-! ## Calls that write to an object -/

/-- A call that writes a value to a property of an object, or resizes it. -/
inductive Write
  | value (property : String) (v : Value) (priority : Priority)
  | resize (width height depth : Float) (priority : Priority)

namespace Write

def priority : Write → Priority
  | value _ _ p | resize _ _ _ p => p

/-- The property that the call waits for. -/
def key : Write → String
  | value property .. => property
  | resize .. => Names.size

/-- The values that the call writes when it is carried out. -/
def edits : Write → List (Path × Value)
  | value property v _ => [(Path.ofString property, v)]
  | resize w h d _ =>
    [([Names.width], .number w), ([Names.height], .number h), ([Names.depth], .number d)]

/-- The values that the call writes when it is made. -/
def atOnce : Write → List (Path × Value)
  | value property v _ => [(Path.ofString property, v)]
  | resize .. => []

def Undotted : Write → Prop
  | value property .. => Path.Undotted property
  | resize .. => True

def Resizes : Write → Prop
  | value .. => False
  | resize .. => True

/-- The call writes a property. -/
def Writes (c : Write) (name : String) : Prop := ∃ e ∈ c.edits, e.1 = [name]

/-- The calls that no later one takes the place of. -/
def standing : List Write → List Write
  | [] => []
  | c :: cs => if c.key ∈ cs.map key then standing cs else c :: standing cs

/-- The calls that are carried out on an object, in the order of service. -/
def served (id : ObjectId) (cs : List Write) : List Write :=
  if id = Entity.variableOwner then []
  else Priority.all.flatMap fun p => (standing cs).filter (·.priority = p)

variable {id : ObjectId} {name : String} {c d : Write} {cs before after : List Write}

theorem lastWrite?_eq_none_iff : lastWrite? name c.edits = none ↔ ¬ c.Writes name := by
  rw [Writes, ← lastWrite?_isSome_iff, Option.not_isSome_iff_eq_none]

/-- A call for a property is a resize, or writes the property that it waits for. -/
theorem Writes.key_eq (h : c.Writes name) (hundotted : c.Undotted) (hresizes : ¬ c.Resizes) :
    c.key = name ∧ Path.Plain name := by
  cases c with
  | resize => exact absurd trivial hresizes
  | value property v p =>
    obtain ⟨e, he, hname⟩ := h
    obtain rfl := List.mem_singleton.1 he
    rcases Path.Undotted.eq_empty_or_plain hundotted with rfl | hplain
    · cases hname
    · rw [Path.ofString_of_plain hplain] at hname
      obtain rfl : property = name := List.singleton_inj.1 hname
      exact ⟨rfl, hplain⟩

theorem writes_key (hplain : Path.Plain c.key) (hresizes : ¬ c.Resizes) : c.Writes c.key := by
  cases c with
  | resize => exact absurd trivial hresizes
  | value property v p =>
    exact ⟨_, List.mem_singleton_self _, Path.ofString_of_plain hplain⟩

theorem key_of_resizes (h : c.Resizes) : c.key = Names.size := by
  cases c with
  | value => exact h.elim
  | resize => rfl

theorem paths_edits (h : c.Undotted) : ∀ e ∈ c.edits, e.1 = [] ∨ ∃ n, e.1 = [n] := by
  cases c with
  | value property v p =>
    intro e he
    obtain rfl := List.mem_singleton.1 he
    rcases Path.Undotted.eq_empty_or_plain h with rfl | hplain
    · exact .inl rfl
    · exact .inr ⟨property, Path.ofString_of_plain hplain⟩
  | resize => simp [edits]

theorem atOnce_subset (c : Write) : c.atOnce ⊆ c.edits := by
  cases c <;> simp [atOnce, edits]

theorem atOnce_eq (hresizes : ¬ c.Resizes) : c.atOnce = c.edits := by
  cases c with
  | value => rfl
  | resize => exact absurd trivial hresizes

theorem lastWrite?_atOnce (h : ¬ c.Writes name) : lastWrite? name c.atOnce = none := by
  by_cases hresizes : c.Resizes
  · cases c with
    | value => exact hresizes.elim
    | resize => rfl
  · rw [atOnce_eq hresizes, lastWrite?_eq_none_iff]
    exact h

theorem standing_append (cs cs' : List Write) :
    standing (cs ++ cs') = (standing cs).filter (·.key ∉ cs'.map key) ++ standing cs' := by
  induction cs with
  | nil => rfl
  | cons c cs ih =>
    simp only [List.cons_append, standing, List.map_append, List.mem_append]
    by_cases hlater : c.key ∈ cs.map key
    · rw [if_pos (.inl hlater), if_pos hlater, ih]
    · by_cases hlater' : c.key ∈ cs'.map key
      · rw [if_pos (.inr hlater'), if_neg hlater, ih, List.filter_cons_of_neg (by simpa using hlater')]
      · rw [if_neg (by simp [hlater, hlater']), if_neg hlater, ih,
          List.filter_cons_of_pos (by simpa using hlater'), List.cons_append]

/-- The latest call is left, and takes the place of the one for the same property. -/
theorem filter_standing_snoc (cs : List Write) (c : Write) (p : Priority) :
    (standing (cs ++ [c])).filter (·.priority = p) =
      ((standing cs).filter (·.priority = p)).filter (·.key ≠ c.key) ++
        if c.priority = p then [c] else [] := by
  rw [standing_append, List.filter_append, List.filter_comm]
  congr 1
  · refine List.filter_congr fun d _ => ?_
    simp
  · show [c].filter _ = _
    by_cases hp : c.priority = p <;> simp [hp]

theorem standing_sublist (cs : List Write) : (standing cs).Sublist cs := by
  induction cs with
  | nil => exact .slnil
  | cons c cs ih =>
    unfold standing
    split
    · exact ih.cons c
    · exact ih.cons_cons c

theorem mem_standing_of_mem_served (h : c ∈ served id cs) : c ∈ standing cs := by
  unfold served at h
  split at h
  · cases h
  · obtain ⟨p, -, hc⟩ := List.mem_flatMap.1 h
    exact (List.mem_filter.1 hc).1

/-! ## What the latest write may be outlived by -/

/-- The latest call that writes a property of an object need not last. -/
inductive Outlived (id : ObjectId) (name : String) (cs : List Write) : Prop
  /-- An earlier call that writes the property is less urgent, and so it is carried out later. -/
  | overtaken {c d : Write} (hcalls : [c, d].Sublist (standing cs)) (hc : c.Writes name)
      (hd : d.Writes name) (hurgent : d.priority < c.priority)
  /-- The latest call is a resize that is not carried out, since a value for the property that it
  waits for takes its place, or the object stands in the place of the variables. -/
  | dropped {before after : List Write} {c : Write} (hcalls : cs = before ++ c :: after)
      (hc : c.Writes name) (hlatest : ∀ d ∈ after, ¬ d.Writes name) (hresizes : c.Resizes)
      (hdropped : id = Entity.variableOwner ∨ c.key ∈ after.map key)

/-- No call writes a property, or one of them is the latest. -/
theorem exists_latest (name : String) (cs : List Write) : (∀ c ∈ cs, ¬ c.Writes name) ∨
    ∃ before c after, cs = before ++ c :: after ∧ c.Writes name ∧ ∀ d ∈ after, ¬ d.Writes name := by
  induction cs with
  | nil => exact .inl (by simp)
  | cons c cs ih =>
    rcases ih with hnone | ⟨before, d, after, rfl, hd, hafter⟩
    · by_cases hc : c.Writes name
      · exact .inr ⟨[], c, cs, rfl, hc, hnone⟩
      · exact .inl (List.forall_mem_cons.2 ⟨hc, hnone⟩)
    · exact .inr ⟨c :: before, d, after, rfl, hd, hafter⟩

/-- When no call takes the place of the latest one, it is carried out after all others that write the
property, unless it is overtaken. -/
theorem lastWrite?_served_of_standing (h : ¬ Outlived id name (before ++ c :: after))
    (hid : id ≠ Entity.variableOwner) (hc : c.Writes name) (hafter : ∀ d ∈ after, ¬ d.Writes name)
    (hkey : c.key ∉ after.map key) :
    lastWrite? name ((served id (before ++ c :: after)).flatMap edits) = lastWrite? name c.edits := by
  let early := (standing before).filter (·.key ∉ (c :: after).map key)
  have hstanding : standing (before ++ c :: after) = early ++ c :: standing after := by
    rw [standing_append, standing, if_neg hkey]
  have hlate : ∀ d ∈ standing after, ¬ d.Writes name :=
    fun d hd => hafter d ((standing_sublist after).subset hd)
  have hearly : ∀ d ∈ early, d.Writes name → ¬ c.priority < d.priority := by
    intro d hd hwrites hlt
    refine h (.overtaken (hstanding ▸ ?_) hwrites hc hlt)
    exact (List.singleton_sublist.2 hd).append (List.singleton_sublist.2 List.mem_cons_self)
  obtain ⟨urgent, lazy, hall, -, hlazy⟩ := c.priority.exists_split
  have hband : lastWrite? name ((standing (before ++ c :: after)).filter
      (·.priority = c.priority) |>.flatMap edits) = lastWrite? name c.edits := by
    rw [hstanding, List.filter_append, List.filter_cons_of_pos (by simp)]
    refine lastWrite?_flatMap_of_last (lastWrite?_isSome_iff.2 hc) fun d hd => ?_
    exact lastWrite?_eq_none_iff.2 (hlate d (List.mem_filter.1 hd).1)
  have hrest : lastWrite? name ((lazy.flatMap fun p => (standing (before ++ c :: after)).filter
      (·.priority = p)).flatMap edits) = none := by
    refine lastWrite?_flatMap_eq_none fun d hd => lastWrite?_eq_none_iff.2 fun hwrites => ?_
    obtain ⟨p, hp, hd⟩ := List.mem_flatMap.1 hd
    obtain ⟨hd, hpriority⟩ := List.mem_filter.1 hd
    have hlt : c.priority < d.priority := of_decide_eq_true hpriority ▸ hlazy p hp
    rw [hstanding, List.mem_append, List.mem_cons] at hd
    rcases hd with hd | rfl | hd
    · exact hearly d hd hwrites hlt
    · exact Nat.lt_irrefl _ hlt
    · exact hlate d hd hwrites
  obtain ⟨v, hv⟩ := Option.isSome_iff_exists.1 (lastWrite?_isSome_iff.2 hc)
  rw [served, if_neg hid, hall, List.flatMap_append, List.flatMap_cons, List.flatMap_append,
    List.flatMap_append, lastWrite?_append, lastWrite?_append, hrest, hband, hv]
  rfl

/-- A value that is written at once lasts, if nothing that is carried out writes the property. -/
theorem lastWrite?_of_atOnce (hc : c.Writes name) (hresizes : ¬ c.Resizes)
    (hafter : ∀ d ∈ after, ¬ d.Writes name)
    (hserved : ∀ d ∈ served id (before ++ c :: after), ¬ d.Writes name) :
    lastWrite? name ((before ++ c :: after).flatMap atOnce ++
      (served id (before ++ c :: after)).flatMap edits) = lastWrite? name c.edits := by
  have hsome : (lastWrite? name c.atOnce).isSome := by
    rw [atOnce_eq hresizes]
    exact lastWrite?_isSome_iff.2 hc
  rw [lastWrite?_append, lastWrite?_flatMap_eq_none fun d hd =>
      lastWrite?_eq_none_iff.2 (hserved d hd),
    lastWrite?_flatMap_of_last hsome fun d hd => lastWrite?_atOnce (hafter d hd),
    atOnce_eq hresizes]
  rfl

/-- Nothing that is carried out writes a property, if a resize takes the place of the last value for
it. -/
theorem not_writes_of_mem_standing (hundotted : ∀ e ∈ before, e.Undotted) (hkey : c.key = name)
    (hd : d ∈ after) (hdkey : d.key = name) (hresizes : d.Resizes)
    (hafter : ∀ e ∈ after, ¬ e.Writes name) {e : Write} (he : e ∈ standing (before ++ c :: after)) :
    ¬ e.Writes name := by
  have hmem : c.key ∈ after.map key := List.mem_map.2 ⟨d, hd, hdkey.trans hkey.symm⟩
  rw [standing_append, standing, if_pos hmem, List.mem_append] at he
  rcases he with he | he
  · obtain ⟨he, hearly⟩ := List.mem_filter.1 he
    have hne : e.key ≠ name := fun heq => of_decide_eq_true hearly
      (List.mem_map.2 ⟨c, List.mem_cons_self, hkey.trans heq.symm⟩)
    intro hwrites
    by_cases he' : e.Resizes
    · exact hne ((key_of_resizes he').trans ((key_of_resizes hresizes).symm.trans hdkey))
    · exact hne (hwrites.key_eq (hundotted e ((standing_sublist before).subset he)) he').1
  · exact hafter e ((standing_sublist after).subset he)

/-- The latest call that writes a property lasts, if it is not outlived. -/
theorem latest_lasts (hundotted : ∀ c ∈ cs, c.Undotted) (h : ¬ Outlived id name cs) :
    lastWrite? name (cs.flatMap atOnce ++ (served id cs).flatMap edits) =
      lastWrite? name (cs.flatMap edits) := by
  rcases exists_latest name cs with hnone | ⟨before, c, after, rfl, hc, hafter⟩
  · have hserved : ∀ c ∈ served id cs, lastWrite? name c.edits = none := fun c hc =>
      lastWrite?_eq_none_iff.2
        (hnone c ((standing_sublist cs).subset (mem_standing_of_mem_served hc)))
    rw [lastWrite?_append, lastWrite?_flatMap_eq_none hserved,
      lastWrite?_flatMap_eq_none fun c hc => lastWrite?_atOnce (hnone c hc),
      lastWrite?_flatMap_eq_none fun c hc => lastWrite?_eq_none_iff.2 (hnone c hc)]
    rfl
  · have hmem : c ∈ before ++ c :: after := List.mem_append_right _ List.mem_cons_self
    rw [lastWrite?_flatMap_of_last (lastWrite?_isSome_iff.2 hc) fun d hd =>
      lastWrite?_eq_none_iff.2 (hafter d hd)]
    by_cases hid : id = Entity.variableOwner
    · refine lastWrite?_of_atOnce hc
        (fun hresizes => h (.dropped rfl hc hafter hresizes (.inl hid))) hafter ?_
      rw [served, if_pos hid]
      simp
    · by_cases hkey : c.key ∈ after.map key
      · obtain ⟨d, hd, hdkey⟩ := List.mem_map.1 hkey
        have hresizes : ¬ c.Resizes := fun hresizes =>
          h (.dropped rfl hc hafter hresizes (.inr hkey))
        obtain ⟨hname, hplain⟩ := hc.key_eq (hundotted c hmem) hresizes
        -- A value for the property would write it, so it is a resize that takes its place.
        have hd' : d.Resizes := by
          by_contra hvalue
          have hwrites := writes_key (hdkey.trans hname ▸ hplain) hvalue
          exact hafter d hd (hdkey.trans hname ▸ hwrites)
        refine lastWrite?_of_atOnce hc hresizes hafter fun e he => ?_
        exact not_writes_of_mem_standing
          (fun e he => hundotted e (List.mem_append_left _ he)) hname hd (hdkey.trans hname) hd'
          hafter (mem_standing_of_mem_served he)
      · have hserved := lastWrite?_served_of_standing h hid hc hafter hkey
        obtain ⟨v, hv⟩ := Option.isSome_iff_exists.1 (lastWrite?_isSome_iff.2 hc)
        rw [lastWrite?_append, hserved, hv]
        rfl

theorem Writes.resize (h : c.Writes name) (hc : c.Resizes) (hd : d.Resizes) : d.Writes name := by
  cases c with
  | value => exact hc.elim
  | resize =>
    cases d with
    | value => exact hd.elim
    | resize => simpa [Writes, edits] using h

/-- No call outlives a later one that writes the same property, if none is more urgent than one
before it, and no value is for the property that a resize waits for. -/
theorem not_outlived (hid : id ≠ Entity.variableOwner)
    (hurgent : cs.Pairwise fun c d => ¬ d.priority < c.priority)
    (hsize : ∀ c ∈ cs, c.key = Names.size → c.Resizes) : ¬ Outlived id name cs := by
  rintro (⟨hcalls, -, -, hlt⟩ | ⟨rfl, hc, hlatest, hresizes, howner | hkey⟩)
  · exact List.pairwise_pair.1 (hurgent.sublist (hcalls.trans (standing_sublist cs))) hlt
  · exact hid howner
  · obtain ⟨d, hd, hdkey⟩ := List.mem_map.1 hkey
    refine hlatest d hd (hc.resize hresizes (hsize d ?_ (hdkey.trans (key_of_resizes hresizes))))
    exact List.mem_append_right _ (List.mem_cons_of_mem _ hd)

end Write

end Parametric
