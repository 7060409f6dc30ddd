/-!
# Runs of operations that may fail

An operation over a state that may fail is run from a state: the outcome is a result or an error,
and the state it leaves. The lemmas say how a run goes through the parts of an operation, so that
the definition of an operation can be read as a function of the state. `ok_of_bind` and
`bind_of_ok` take a computation without a state apart. A relation between the state before a run and
the state after it (`Leads`) carries over from the parts of an operation to the whole when it is a
preorder, and so does that an operation does not fail (`Succeeds`).
-/

namespace Parametric.Run

theorem ok_of_bind {ε α β : Type} {x : Except ε α} {k : α → Except ε β} {b : β}
    (h : x >>= k = .ok b) : ∃ a, x = .ok a ∧ k a = .ok b := by
  cases x with
  | error e => cases h
  | ok a => exact ⟨a, rfl, h⟩

theorem bind_of_ok {ε α β : Type} {x : Except ε α} {k : α → Except ε β} {a : α} (h : x = .ok a) :
    x >>= k = k a := by
  rw [h]
  rfl

variable {ε α β τ : Type} (s : τ)

theorem run_bind (m : ExceptT ε (StateM τ) α) (k : α → ExceptT ε (StateM τ) β) :
    (m >>= k).run s = match m.run s with
      | (.ok a, s') => (k a).run s'
      | (.error e, s') => (.error e, s') := by
  simp only [bind, ExceptT.bind, ExceptT.bindCont, ExceptT.run, ExceptT.mk, StateT.bind]
  generalize m s = outcome
  obtain ⟨result, s'⟩ := outcome
  cases result <;> rfl

theorem run_pure (a : α) : (pure a : ExceptT ε (StateM τ) α).run s = (.ok a, s) := rfl

theorem run_throw (e : ε) : (throw e : ExceptT ε (StateM τ) α).run s = (.error e, s) := rfl

theorem run_get : (get : ExceptT ε (StateM τ) τ).run s = (.ok s, s) := rfl

theorem run_set (s' : τ) : (set s' : ExceptT ε (StateM τ) PUnit).run s = (.ok ⟨⟩, s') := rfl

theorem run_modify (f : τ → τ) :
    (modify f : ExceptT ε (StateM τ) PUnit).run s = (.ok ⟨⟩, f s) := rfl

/-- A loop whose body never fails folds what the body does to the state. -/
theorem run_forIn {ι : Type} {body : ι → ExceptT ε (StateM τ) (ForInStep PUnit)}
    {step : τ → ι → τ} (h : ∀ i s, (body i).run s = (.ok (.yield ⟨⟩), step s i)) (is : List ι) :
    (forIn is PUnit.unit fun i _ => body i).run s = (.ok ⟨⟩, is.foldl step s) := by
  induction is generalizing s with
  | nil => rfl
  | cons i is ih =>
    rw [List.forIn_cons, run_bind, h]
    exact ih (step s i)

/-! ## From state to state -/

/-- Whatever state an operation is run from, and whether it fails or not, the state that it leaves
stands in a relation to that state. -/
def Leads (R : τ → τ → Prop) (m : ExceptT ε (StateM τ) α) : Prop := ∀ s, R s (m.run s).2

namespace Leads

variable {R : τ → τ → Prop} {m : ExceptT ε (StateM τ) α} {k : α → ExceptT ε (StateM τ) β}

theorem pure (hrefl : ∀ s, R s s) (a : α) : Leads R (pure a : ExceptT ε (StateM τ) α) := hrefl

theorem bind (htrans : ∀ {s s' s'' : τ}, R s s' → R s' s'' → R s s'') (hm : Leads R m)
    (hk : ∀ a, Leads R (k a)) : Leads R (m >>= k) := by
  intro s
  have hfirst := hm s
  rw [run_bind]
  cases hrun : m.run s with
  | mk result s' =>
    rw [hrun] at hfirst
    cases result with
    | error e => exact hfirst
    | ok a => exact htrans hfirst (hk a s')

theorem forIn (hrefl : ∀ s, R s s) (htrans : ∀ {s s' s'' : τ}, R s s' → R s' s'' → R s s'')
    {ι : Type} {body : ι → ExceptT ε (StateM τ) (ForInStep PUnit)} {is : List ι}
    (h : ∀ i ∈ is, Leads R (body i)) : Leads R (forIn is PUnit.unit fun i _ => body i) := by
  induction is with
  | nil =>
    rw [List.forIn_nil]
    exact .pure hrefl _
  | cons i is ih =>
    obtain ⟨hi, hrest⟩ := List.forall_mem_cons.1 h
    rw [List.forIn_cons]
    refine .bind htrans hi fun step => ?_
    cases step with
    | done => exact .pure hrefl _
    | yield => exact ih hrest

end Leads

/-! ## Operations that do not fail -/

/-- An operation succeeds from whatever state it is run. -/
def Succeeds (m : ExceptT ε (StateM τ) α) : Prop := ∀ s, ∃ a, (m.run s).1 = .ok a

namespace Succeeds

variable {m : ExceptT ε (StateM τ) α} {k : α → ExceptT ε (StateM τ) β}

theorem pure (a : α) : Succeeds (pure a : ExceptT ε (StateM τ) α) := fun _ => ⟨a, rfl⟩

theorem modify (f : τ → τ) : Succeeds (modify f : ExceptT ε (StateM τ) PUnit) :=
  fun _ => ⟨⟨⟩, rfl⟩

theorem get : Succeeds (get : ExceptT ε (StateM τ) τ) := fun s => ⟨s, rfl⟩

theorem bind (hm : Succeeds m) (hk : ∀ a, Succeeds (k a)) : Succeeds (m >>= k) := by
  intro s
  obtain ⟨a, ha⟩ := hm s
  rw [run_bind]
  cases hrun : m.run s with
  | mk result s' =>
    rw [hrun] at ha
    cases ha
    exact hk a s'

theorem forIn {ι : Type} {body : ι → ExceptT ε (StateM τ) (ForInStep PUnit)}
    (h : ∀ i, Succeeds (body i)) (is : List ι) :
    Succeeds (forIn is PUnit.unit fun i _ => body i) := by
  induction is with
  | nil =>
    rw [List.forIn_nil]
    exact .pure _
  | cons i is ih =>
    rw [List.forIn_cons]
    refine .bind (h i) fun step => ?_
    cases step with
    | done => exact .pure _
    | yield => exact ih

end Succeeds

end Parametric.Run
