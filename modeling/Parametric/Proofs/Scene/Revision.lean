import Parametric.Proofs.Scene.Change
import Parametric.Proofs.Scene.Relocation

/-!
# What a change makes of an object

A change that is carried out revises the object it is about and leaves all others as they are
(`Scene.get?_applyChange`). A move puts the object into another container; any other change is a
list of edits, each of them a value at a path (`Request.edits`, `Request.revise`).
-/

namespace Parametric

/-- Write values at paths of an object, one after the other. -/
def Object.edited (o : Object) (edits : List (Path × Value)) : Object :=
  edits.foldl (fun o e => o.set e.2 e.1) o

theorem Object.bare_edited (o : Object) (edits : List (Path × Value)) :
    (o.edited edits).bare = o.bare := by
  induction edits generalizing o with
  | nil => rfl
  | cons e edits ih => exact (ih _).trans (o.bare_set e.2 e.1)

theorem Object.edited_append (o : Object) (edits edits' : List (Path × Value)) :
    o.edited (edits ++ edits') = (o.edited edits).edited edits' := List.foldl_append

namespace Request

/-- The values that a request writes into its object, with their paths. -/
def edits (r : Request) : List (Path × Value) :=
  (r.kind.imposes r.payload).map (fun e => ([e.1], e.2)) ++
    match r.kind, r.payload with
    | .property, .property name (some v) => [(Path.ofString name, v)]
    | _, _ => []

/-- What a request makes of its object. -/
def revise (r : Request) (o : Object) : Object :=
  match r.kind, r.payload with
  | .hierarchy, .hierarchy _ parent => { o with container := parent }
  | _, _ => o.edited r.edits

variable {r : Request} {previous parent : Option ObjectId}

theorem revise_of_move (hkind : r.kind = .hierarchy)
    (hpayload : r.payload = .hierarchy previous parent) :
    r.revise = ({ · with container := parent }) := by
  funext o
  rw [revise, hkind, hpayload]

theorem revise_of_edits
    (h : r.kind = .hierarchy → ∀ previous parent, r.payload ≠ .hierarchy previous parent) :
    r.revise = (·.edited r.edits) := by
  funext o
  unfold revise
  split
  next hkind hpayload => exact absurd hpayload (h hkind _ _)
  next => rfl

end Request

namespace ObjectTable

variable {t t' : ObjectTable} {id : ObjectId} {path : Path} {v : Value}

theorem get?_set? (h : t.set? id path v = some t') (x : ObjectId) :
    t'.get? x = if id = x then (t.get? x).map (·.set v path) else t.get? x := by
  unfold set? at h
  obtain ⟨o, ho, rfl⟩ := Option.map_eq_some_iff.1 h
  rw [ObjectTable.get?, Table.getElem?_insert]
  split
  next hx => rw [← hx, ho, Option.map_some]
  next => rfl

/-- A write to an object that is not there changes nothing. -/
theorem get?_getD_set? (t : ObjectTable) (id : ObjectId) (path : Path) (v : Value) (x : ObjectId) :
    ((t.set? id path v).getD t).get? x =
      if id = x then (t.get? x).map (·.set v path) else t.get? x := by
  cases hset : t.set? id path v with
  | some t' => exact get?_set? hset x
  | none =>
    rw [Option.getD_none]
    split
    next hx =>
      rw [set?, Option.map_eq_none_iff] at hset
      rw [← hx, hset, Option.map_none]
    next => rfl

/-- A move revises the object that moves. -/
theorem Moved.get?_eq {parent : Option ObjectId} (h : t.Moved id parent t') (x : ObjectId) :
    t'.get? x =
      if id = x then (t.get? x).map ({ · with container := parent }) else t.get? x := by
  split
  next hx =>
    obtain ⟨o, ho, ho'⟩ := h.object
    rw [← hx, ho, ho', Option.map_some]
  next hx => exact h.get? x (Ne.symm hx)

end ObjectTable

namespace Scene

variable {s s' : Scene} {id : ObjectId}

theorem get?_write {e : Entity} {v : Value} {bounds : Option Contribution}
    (h : s.write e v = .ok (bounds, s')) (x : ObjectId) : s'.get? x =
      if e.object = x then (s.get? x).map (·.set v (Path.ofString e.property)) else s.get? x := by
  unfold write at h
  split at h
  · cases h
  next hset =>
    cases h
    exact ObjectTable.get?_set? hset x

theorem get?_unedited (s : Scene) (id x : ObjectId) :
    s.get? x = if id = x then (s.get? x).map (·.edited []) else s.get? x := by
  split
  · exact Option.map_id'.symm
  · rfl

theorem get?_writeNumber (s : Scene) (id : ObjectId) (name : String) (n : Float) (x : ObjectId) :
    (s.writeNumber id name n).get? x =
      if id = x then (s.get? x).map (·.set (.number n) [name]) else s.get? x :=
  ObjectTable.get?_getD_set? s.objects id [name] (.number n) x

theorem get?_resize (s : Scene) (id : ObjectId) (payload : Payload) (x : ObjectId) :
    (s.resize id payload).2.get? x = if id = x then (s.get? x).map
      (·.edited ((ChangeKind.size.imposes payload).map fun e => ([e.1], e.2))) else s.get? x := by
  cases payload with
  | size w h d =>
    simp only [resize, get?_writeNumber]
    split
    · rw [Option.map_map, Option.map_map]
      rfl
    · rfl
  | _ => exact s.get?_unedited id x

theorem get?_arrange (s : Scene) (id : ObjectId) (payload : Payload) (x : ObjectId) :
    (s.arrange id payload).2.get? x = if id = x then (s.get? x).map
      (·.edited ((ChangeKind.layout.imposes payload).map fun e => ([e.1], e.2))) else s.get? x := by
  cases payload with
  | layout config =>
    exact ObjectTable.get?_getD_set? s.objects id [Names.layout] (.string config) x
  | _ => exact s.get?_unedited id x

/-- A change that is carried out revises its object and no other. -/
theorem get?_applyChange {r : Request} {outcome : Outcome} (hkeyed : s.objects.Keyed)
    (h : s.applyChange r = .ok (outcome, s')) (x : ObjectId) :
    s'.get? x = if r.target.object = x then (s.get? x).map r.revise else s.get? x := by
  obtain ⟨o, ho, h⟩ := Run.ok_of_bind h
  split at h
  next hkind =>
    have hs' : (s.resize r.target.object r.payload).2 = s' := congrArg Prod.snd (Except.ok.inj h)
    rw [← hs', get?_resize, Request.revise_of_edits (by simp [hkind])]
    simp only [Request.edits, hkind, List.append_nil]
  next hkind =>
    have hs' : (s.arrange r.target.object r.payload).2 = s' := congrArg Prod.snd (Except.ok.inj h)
    rw [← hs', get?_arrange, Request.revise_of_edits (by simp [hkind])]
    simp only [Request.edits, hkind, List.append_nil]
  next hkind =>
    have hs' : (s.rehouse o r.payload).2 = s' := congrArg Prod.snd (Except.ok.inj h)
    rw [← hs']
    cases hpayload : r.payload with
    | hierarchy previous parent =>
      rw [Request.revise_of_move hkind hpayload]
      exact (moved_move hkeyed (get?_of_require ho) previous parent).get?_eq x
    | _ =>
      rw [Request.revise_of_edits (by simp [hpayload])]
      simp only [Request.edits, hkind, hpayload]
      exact s.get?_unedited _ x
  next name value hkind hpayload =>
    unfold change at h
    rw [Request.revise_of_edits (by simp [hkind])]
    simp only [Request.edits, hkind, hpayload]
    cases value with
    | none =>
      cases h
      exact s.get?_unedited _ x
    | some v =>
      obtain ⟨⟨bounds, scene⟩, hwrite, h⟩ := Run.ok_of_bind h
      cases h
      exact get?_write hwrite x
  · cases h

end Scene

end Parametric
