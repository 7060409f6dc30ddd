import Parametric.Formula.Builtin
import Parametric.Proofs.Scene.Objects
import Parametric.Proofs.Scene.Relocation

/-!
# What functions see

A built-in function sees the shape of the scene, the object and container that it is called for, and
of all properties only the one of the container that it is declared to depend on (`Function.Local`,
`Builtin.local_of_mem`). The answer to a question about a container depends on its children alone.
So of the objects of a scene a built-in function sees only the container, if it is declared to
depend on it, and the children that it asks about (`Function.Contained`,
`Builtin.contained_of_mem`). One that is declared to depend on nothing sees its arguments alone
(`Function.Blind`, `Builtin.blind_of_mem`).
-/

namespace Parametric

/-- Two calls are made for the same object in scenes of the same shape. -/
structure Call.Alike (c c' : Call) : Prop where
  object : c.object = c'.object
  container : c.container = c'.container
  shape : c.objects.shape = c'.objects.shape
  maxVisited : c.maxVisited = c'.maxVisited

/-- The property of the container that a function depends on is the same in two calls. -/
def Implicit.SameIn (c c' : Call) (implicit : Option Implicit) : Prop :=
  ∀ property, implicit = some (.container property) → ∀ id, c.container = some id →
    c.objects.field? ⟨id, property⟩ = c'.objects.field? ⟨id, property⟩

/-- What a function returns depends on the shape of the scene and on the property of the container
that it is declared to depend on. -/
def Function.Local {σ : Type} (f : Function σ) : Prop :=
  ∀ c c' : Call, c.Alike c' → Implicit.SameIn c c' f.implicit →
    match f.body with
    | .compute run => ∀ args, run c args = run c' args
    | .ask query => (query.key c).bind (Query.answer c) = (query.key c').bind (Query.answer c')
    | .host _ => False
    | .select => True

/-! ## Questions -/

/-- Calls that are alike have no container, or the same one but for its properties. -/
theorem Call.containerObject_congr {c c' : Call} (h : c.Alike c') :
    (∃ e, c.containerObject = .error e ∧ c'.containerObject = .error e) ∨
    ∃ id o o', c.container = some id ∧ c.objects.get? id = some o ∧ c'.objects.get? id = some o' ∧
      c.containerObject = .ok o ∧ c'.containerObject = .ok o' ∧ o.bare = o'.bare := by
  unfold containerObject
  rw [← h.container]
  cases c.container with
  | none => exact .inl ⟨_, rfl, rfl⟩
  | some id =>
    rcases ObjectTable.get?_congr h.shape id with ⟨ho, ho'⟩ | ⟨o, o', ho, ho', hbare⟩
    · exact .inl ⟨.unknownContainer id, by simp only [ho], by simp only [ho']⟩
    · exact .inr ⟨id, o, o', rfl, ho, ho', by simp only [ho], by simp only [ho'], hbare⟩

theorem Call.children_congr {c c' : Call} (hmax : c.maxVisited = c'.maxVisited)
    {container : ObjectId}
    (hchildren : c.objects.childrenOf container = c'.objects.childrenOf container) :
    c.children container = c'.children container := by
  unfold children
  rw [hchildren, hmax]

namespace Query

theorem key_congr {c c' : Call} (h : c.Alike c') (query : Query) : query.key c = query.key c' := by
  rcases Call.containerObject_congr h with ⟨e, hc, hc'⟩ | ⟨-, o, o', -, -, -, hc, hc', hbare⟩
  · cases query with
    | childCount => rw [key, key, h.object]
    | siblingCount => rw [key, key, hc, hc']
    | siblingIndex => rw [key, key, hc, hc', h.object]
  · injection hbare with hid
    cases query with
    | childCount => rw [key, key, h.object]
    | siblingCount => simp only [key, hc, hc', bind, Except.bind, hid]
    | siblingIndex => simp only [key, hc, hc', bind, Except.bind, hid, h.object]

theorem answer_congr {c c' : Call} (hobject : c.object = c'.object)
    (hmax : c.maxVisited = c'.maxVisited) {k : QueryKey}
    (hchildren : c.objects.childrenOf k.container = c'.objects.childrenOf k.container) :
    answer c k = answer c' k := by
  unfold answer
  rw [Call.children_congr hmax hchildren, hobject]

/-- The answer to the question of a key is the same whoever asks. -/
theorem answer_of_key {query : Query} {c : Call} {k : QueryKey} (h : query.key c = .ok k)
    (object : ObjectId) : answer { c with object } k = answer c k := by
  have hk : k.question = .childCount ∨ k.subject.isSome := by
    cases query with
    | childCount =>
      cases h
      exact .inl rfl
    | siblingCount =>
      obtain ⟨o, -, h⟩ := Run.ok_of_bind h
      cases h
      exact .inl rfl
    | siblingIndex =>
      obtain ⟨o, -, h⟩ := Run.ok_of_bind h
      cases h
      exact .inr rfl
  unfold answer
  have hchildren : { c with object }.children k.container = c.children k.container := rfl
  rw [hchildren]
  rcases hk with hk | hk
  · rw [hk]
  · obtain ⟨subject, hsubject⟩ := Option.isSome_iff_exists.1 hk
    rw [hsubject]
    rfl

/-- A question is about the children of the container, or of the evaluating object itself. -/
theorem container_of_key {query : Query} {c : Call} {k : QueryKey} (hkeyed : c.objects.Keyed)
    (h : query.key c = .ok k) :
    if query = .childCount then k.container = c.object else c.container = some k.container := by
  have hcontainer : ∀ {o : Object}, c.containerObject = .ok o → c.container = some o.id := by
    intro o ho
    unfold Call.containerObject at ho
    split at ho
    · cases ho
    next id hid =>
      split at ho
      · cases ho
      next p hp =>
        cases ho
        rw [hid, hkeyed id o hp]
  cases query with
  | childCount =>
    cases h
    rfl
  | siblingCount =>
    obtain ⟨o, ho, h⟩ := Run.ok_of_bind h
    cases h
    exact hcontainer ho
  | siblingIndex =>
    obtain ⟨o, ho, h⟩ := Run.ok_of_bind h
    cases h
    exact hcontainer ho

end Query

/-! ## What is seen of containers -/

/-- A container is the same object unless it came or went itself. -/
theorem Call.containerObject_sameBut {c c' : Call} {id : ObjectId} {changed : ObjectId → Prop}
    (hcontainer : c.container = c'.container) (h : c.objects.SameBut id changed c'.objects)
    (hne : c.container ≠ some id) : c.containerObject = c'.containerObject := by
  unfold containerObject
  rw [← hcontainer]
  cases hc : c.container with
  | none => rfl
  | some x =>
    have hx : x ≠ id := fun heq => hne (heq ▸ hc)
    simp only [h.get? x hx]

/-- The objects of two calls lie in no container, or in the same one, with the same properties. -/
def Call.SameContainer (c c' : Call) : Prop :=
  (∃ e, c.containerObject = .error e ∧ c'.containerObject = .error e) ∨
  ∃ o o', c.containerObject = .ok o ∧ c'.containerObject = .ok o' ∧ o.id = o'.id ∧
    o.properties = o'.properties

theorem Call.sameContainer_of_eq {c c' : Call} (h : c.containerObject = c'.containerObject) :
    c.SameContainer c' := by
  cases ho : c.containerObject with
  | error e => exact .inl ⟨e, ho, h ▸ ho⟩
  | ok o => exact .inr ⟨o, o, ho, h ▸ ho, rfl, rfl⟩

/-- A container that moved itself is still the same container, with the same properties. -/
theorem Call.sameContainer_moved {c c' : Call} {id : ObjectId} {parent : Option ObjectId}
    (hcontainer : c.container = c'.container) (h : c.objects.Moved id parent c'.objects) :
    c.SameContainer c' := by
  unfold SameContainer containerObject
  rw [← hcontainer]
  cases c.container with
  | none => exact .inl ⟨_, rfl, rfl⟩
  | some x =>
    rcases h.get?_cases x with ⟨ho, ho'⟩ | ⟨o, o', ho, ho', hid, -, hproperties⟩
    · exact .inl ⟨.unknownContainer x, by simp only [ho], by simp only [ho']⟩
    · exact .inr ⟨o, o', by simp only [ho], by simp only [ho'], hid, hproperties⟩

namespace Function

variable {σ : Type}

/-- A function sees the same of containers in two calls: the properties of the object that the
evaluating object lies in, if the function depends on it, and the children that it asks about. -/
structure SameContainers (f : Function σ) (c c' : Call) : Prop where
  object : c.object = c'.object
  maxVisited : c.maxVisited = c'.maxVisited
  container : ∀ property, f.implicit = some (.container property) → c.SameContainer c'
  children : ∀ (query : Query) (k : QueryKey), f.body = .ask query → query.key c = .ok k →
    c.objects.childrenOf k.container = c'.objects.childrenOf k.container

/-- What a function returns depends on nothing but what it sees of containers. -/
def Contained (f : Function σ) : Prop :=
  ∀ c c' : Call, f.SameContainers c c' → f.run? c = f.run? c'

/-- What a function returns depends on its arguments alone, unless it is declared to depend on a
property. -/
def Blind (f : Function σ) : Prop :=
  f.implicit = none → ∀ c c' : Call, f.run? c = f.run? c'

end Function

/-! ## Built-in functions -/

namespace Builtin

variable {σ : Type}

@[simp]
theorem local_ofArgs (name : String) (minArgs maxArgs : Nat)
    (run : List Value → Except FunctionFault Value) :
    (ofArgs name minArgs maxArgs run : Function σ).Local :=
  fun _ _ _ _ _ => rfl

@[simp]
theorem local_ofSelect (name : String) : (Function.ofSelect name : Function σ).Local :=
  fun _ _ _ _ => trivial

theorem local_ask (name : String) (minArgs maxArgs : Nat) (implicit : Option Implicit)
    (query : Query) : (⟨name, minArgs, maxArgs, implicit, .ask query⟩ : Function σ).Local := by
  intro c c' h _
  show (query.key c).bind (Query.answer c) = (query.key c').bind (Query.answer c')
  rw [Query.key_congr h]
  cases query.key c' with
  | error e => rfl
  | ok k => exact Query.answer_congr h.object h.maxVisited (ObjectTable.childrenOf_congr h.shape _)

@[simp]
theorem local_ofDimension (name property : String) :
    (ofDimension name property : Function σ).Local := by
  intro c c' h hsame args
  dsimp only [ofDimension]
  rcases Call.containerObject_congr h with ⟨e, hc, hc'⟩ | ⟨id, o, o', hid, ho, ho', hc, hc', hbare⟩
  · rw [hc, hc']
  · have hread := hsame property rfl id hid
    simp only [ObjectTable.field?, ho, ho', Option.bind_some] at hread
    have hnumber : o.number? property = o'.number? property := by
      rw [Object.number?, Object.number?, Object.value?_cons, Object.value?_cons, hread]
    injection hbare with hid
    simp only [hc, hc', bind, Except.bind, hnumber, hid]

@[simp]
theorem contained_ofArgs (name : String) (minArgs maxArgs : Nat)
    (run : List Value → Except FunctionFault Value) :
    (ofArgs name minArgs maxArgs run : Function σ).Contained :=
  fun _ _ _ => rfl

@[simp]
theorem contained_ofSelect (name : String) : (Function.ofSelect name : Function σ).Contained :=
  fun _ _ _ => rfl

@[simp]
theorem contained_ofDimension (name property : String) :
    (ofDimension name property : Function σ).Contained := by
  intro c c' h
  funext args state
  rcases h.container property rfl with ⟨e, hc, hc'⟩ | ⟨o, o', hc, hc', hid, hproperties⟩
  · simp only [ofDimension, Function.run?, hc, hc']
  · have hnumber : o.number? property = o'.number? property := by
      rw [Object.number?, Object.number?, Object.value?_cons, Object.value?_cons, hproperties]
    simp only [ofDimension, Function.run?, hc, hc', bind, Except.bind, hnumber, hid]

/-- A function that asks about the container depends on the container. -/
theorem contained_ask (name : String) (minArgs maxArgs : Nat) {implicit : Option Implicit}
    {query : Query}
    (himplicit : query ≠ .childCount → ∃ property, implicit = some (.container property)) :
    (⟨name, minArgs, maxArgs, implicit, .ask query⟩ : Function σ).Contained := by
  intro c c' h
  have hkey : query.key c = query.key c' := by
    cases query with
    | childCount => rw [Query.key, Query.key, h.object]
    | siblingCount | siblingIndex =>
      obtain ⟨property, hproperty⟩ := himplicit (by simp)
      rcases h.container property hproperty with ⟨e, hc, hc'⟩ | ⟨o, o', hc, hc', hid, -⟩
      · simp only [Query.key, hc, hc', bind, Except.bind]
      · simp only [Query.key, hc, hc', bind, Except.bind, hid, h.object]
  funext args state
  dsimp only [Function.run?]
  rw [← hkey]
  cases hk : query.key c with
  | error e => rfl
  | ok k =>
    have hanswer : Query.answer c k = Query.answer c' k :=
      Query.answer_congr h.object h.maxVisited (h.children query k rfl hk)
    simp only [Except.bind, hanswer]

theorem contained_of_mem : ∀ f ∈ (all : List (Function σ)), f.Contained := by
  simp [all, arithmetic, easing, trigonometry, containment, ofOne, ofTwo, ofMany, ofCurve,
    ofSiblings, contained_ask]

@[simp]
theorem blind_ofArgs (name : String) (minArgs maxArgs : Nat)
    (run : List Value → Except FunctionFault Value) :
    (ofArgs name minArgs maxArgs run : Function σ).Blind :=
  fun _ _ _ => rfl

@[simp]
theorem blind_ofSelect (name : String) : (Function.ofSelect name : Function σ).Blind :=
  fun _ _ _ => rfl

@[simp]
theorem blind_some (name : String) (minArgs maxArgs : Nat) (implicit : Implicit) (body : Body σ) :
    (⟨name, minArgs, maxArgs, some implicit, body⟩ : Function σ).Blind :=
  fun h => by cases h

theorem blind_of_mem : ∀ f ∈ (all : List (Function σ)), f.Blind := by
  simp [all, arithmetic, easing, trigonometry, containment, ofOne, ofTwo, ofMany, ofCurve,
    ofSiblings, ofDimension]

/-- A function that asks about children depends on the list of them. -/
theorem implicit_of_ask : ∀ f ∈ (all : List (Function σ)), ∀ query, f.body = .ask query →
    f.implicit = some (if query = .childCount then .own Names.children
      else .container Names.children) := by
  simp [all, arithmetic, easing, trigonometry, containment, ofOne, ofTwo, ofMany, ofCurve, ofArgs,
    ofDimension, Function.ofSelect, ofSiblings]

theorem local_of_mem : ∀ f ∈ (all : List (Function σ)), f.Local := by
  simp [all, arithmetic, easing, trigonometry, containment, ofOne, ofTwo, ofMany, ofCurve,
    ofSiblings, local_ask]

end Builtin

/-- A function that is looked up was registered, or was there before. -/
theorem Registry.mem_of_foldl_register {σ : Type} {fs : List (Function σ)} {r : Registry σ}
    {name : String} {f : Function σ} (h : (fs.foldl register r)[name]? = some f) :
    f ∈ fs ∨ r[name]? = some f := by
  induction fs generalizing r with
  | nil => exact .inr h
  | cons g fs ih =>
    rcases ih h with h | h
    · exact .inl (List.mem_cons_of_mem _ h)
    · rw [register, Table.getElem?_insert] at h
      split at h
      · cases h
        exact .inl List.mem_cons_self
      · exact .inr h

/-- A function of a registry that is built from functions is one of them. -/
theorem Registry.mem_of_built {σ : Type} {fs : List (Function σ)} {name : String} {f : Function σ}
    (h : (fs.foldl register ∅ : Registry σ)[name]? = some f) : f ∈ fs :=
  (mem_of_foldl_register h).resolve_right (by simp)

/-- The built-in functions are in the list of all of them. -/
theorem Registry.mem_all_of_builtin {σ : Type} {name : String} {f : Function σ}
    (h : (builtin : Registry σ)[name]? = some f) : f ∈ Builtin.all := mem_of_built h

/-- No built-in function is a host function. -/
theorem Registry.hostFree_builtin {σ : Type} {name : String} {f : Function σ}
    (h : (builtin : Registry σ)[name]? = some f) (run : Call → List Value → σ → HostReply σ) :
    f.body ≠ .host run := by
  intro hbody
  let c : Call := ⟨"", none, {}, 0, 0, 0⟩
  have hlocal := Builtin.local_of_mem f (mem_all_of_builtin h) c c ⟨rfl, rfl, rfl, rfl⟩
    fun _ _ _ _ => rfl
  rw [hbody] at hlocal
  exact hlocal

end Parametric
