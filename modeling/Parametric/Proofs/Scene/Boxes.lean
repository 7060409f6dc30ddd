import Parametric.Proofs.Scene.Listed
import Parametric.Proofs.Scene.Revision

/-!
# Boxes around children

The bounds that a scene has recorded for a container are meant to be the box around its children
(`Scene.around`). A request that is served tells of the box of its object, or of the container that
the object left, if it changed that box honestly (`Scene.Carries.around`). What it does to the
objects does not depend on the records (`Scene.applyChange_booked`).
-/

namespace Parametric

namespace Scene

variable {s s' : Scene} {x y c : ObjectId} {latest : ChildBounds}

/-! ## The box of a container -/

/-- The box around the children of a container. -/
def around (s : Scene) (c : ObjectId) : Bounds :=
  .unionAll ((s.objects.childrenOf c).filterMap s.boundsOf?)

theorem boundsOf?_congr (h : s'.get? y = s.get? y) : s'.boundsOf? y = s.boundsOf? y := by
  rw [boundsOf?, boundsOf?, h]

theorem around_congr (hchildren : s'.objects.childrenOf c = s.objects.childrenOf c)
    (hboxes : ∀ y ∈ s.objects.childrenOf c, s'.boundsOf? y = s.boundsOf? y) :
    s'.around c = s.around c := by
  rw [around, around, hchildren, List.filterMap_congr hboxes]

/-- What was collected for the children of a container is what they say themselves. -/
def Confirms (s : Scene) (c : ObjectId) (latest : ChildBounds) : Prop :=
  ∀ y ∈ s.objects.childrenOf c, ∀ b, latest[y]? = some b → s.boundsOf? y = some b

theorem confirms_empty (s : Scene) (c : ObjectId) : s.Confirms c ∅ := by
  intro y _ b hb
  simp at hb

/-- Bounds that the children confirm are not needed to recalculate their container. -/
theorem recalculate_eq (h : s.Confirms c latest) : s.recalculate c latest =
    { s with containerBounds := s.containerBounds.insert c (s.around c),
             recalculations := s.recalculations + 1 } := by
  have hboxes : (s.objects.childrenOf c).filterMap (fun y => latest[y]?.or (s.boundsOf? y)) =
      (s.objects.childrenOf c).filterMap s.boundsOf? := by
    refine List.filterMap_congr fun y hy => ?_
    cases hlatest : latest[y]? with
    | none => rfl
    | some b => exact (h y hy b hlatest).symm
  rw [recalculate, hboxes]
  rfl

theorem contribution?_eq_some_iff {k : Contribution} : s.contribution? x = some k ↔
    k.child = x ∧ s.objects.containerOf? x = some k.parent ∧ s.boundsOf? x = some k.bounds := by
  obtain ⟨parent, child, bounds⟩ := k
  unfold contribution?
  cases s.objects.containerOf? x with
  | none => simp
  | some p =>
    cases s.boundsOf? x with
    | none => simp
    | some b =>
      simp only [Option.bind_eq_bind, Option.bind_some, Option.pure_def, Option.some.injEq,
        Contribution.mk.injEq]
      exact ⟨fun ⟨hp, hx, hb⟩ => ⟨hx.symm, hp, hb⟩, fun ⟨hx, hp, hb⟩ => ⟨hp, hx.symm, hb⟩⟩

/-- An object in a container has something to contribute to it. -/
theorem exists_contribution (h : s.objects.containerOf? x = some c) :
    ∃ b, s.boundsOf? x = some b ∧ s.contribution? x = some ⟨c, x, b⟩ := by
  obtain ⟨o, ho, -⟩ := Option.bind_eq_some_iff.1 h
  have hbounds : (s.boundsOf? x).isSome := by
    rw [boundsOf?, Option.isSome_map, Scene.get?, ho]
    rfl
  obtain ⟨b, hb⟩ := Option.isSome_iff_exists.1 hbounds
  exact ⟨b, hb, contribution?_eq_some_iff.2 ⟨rfl, h, hb⟩⟩

/-- The bounds of an object stay when nothing is written under the name of one of its numbers. -/
theorem boundsOf?_of_set {o : Object} {v : Value} {name : String} (ho : s.get? x = some o)
    (ho' : s'.get? x = some (o.set v [name])) (hname : name ∉ Names.geometry) :
    s'.boundsOf? x = s.boundsOf? x := by
  have hnumber : ∀ n ∈ Names.geometry, (o.set v [name]).number? n = o.number? n := by
    intro n hn
    have hne : name ≠ n := fun h => hname (h ▸ hn)
    unfold Object.number?
    rw [Object.value?_cons, Object.value?_cons, Object.get?_set, if_neg hne]
  simp only [boundsOf?, ho, ho', Option.map_some]
  rw [hnumber Names.x (by simp [Names.geometry]), hnumber Names.y (by simp [Names.geometry]),
    hnumber Names.z (by simp [Names.geometry]), hnumber Names.width (by simp [Names.geometry]),
    hnumber Names.height (by simp [Names.geometry]), hnumber Names.depth (by simp [Names.geometry])]

/-! ## Records -/

/-- The same objects with other records. -/
def booked (s : Scene) (records : Table ObjectId Bounds) (n : Nat) : Scene :=
  { s with containerBounds := records, recalculations := n }

/-- Records in which the container that was left is as it is now. -/
def recorded (s : Scene) (records : Table ObjectId Bounds) :
    Option ObjectId → Table ObjectId Bounds
  | none => records
  | some c => records.insert c (s.around c)

/-- Records in which a container is as it is now, if it is there. -/
def refreshed (s : Scene) (records : Table ObjectId Bounds) (c : ObjectId) :
    Table ObjectId Bounds :=
  if (s.get? c).isSome then records.insert c (s.around c) else records

theorem getElem?_recorded (s : Scene) (records : Table ObjectId Bounds) (left : Option ObjectId)
    (c : ObjectId) :
    (s.recorded records left)[c]? = if left = some c then some (s.around c) else records[c]? := by
  cases left with
  | none => rw [if_neg nofun]; rfl
  | some old =>
    unfold recorded
    rw [Table.getElem?_insert]
    simp only [Option.some.injEq]
    split
    next h => rw [h]
    next => rfl

theorem getElem?_refreshed (s : Scene) (records : Table ObjectId Bounds) (parent c : ObjectId) :
    (s.refreshed records parent)[c]? =
      if parent = c ∧ (s.get? c).isSome then some (s.around c) else records[c]? := by
  unfold refreshed
  by_cases hparent : parent = c
  · subst hparent
    by_cases hthere : (s.get? parent).isSome
    · rw [if_pos hthere, if_pos ⟨rfl, hthere⟩, Table.getElem?_insert, if_pos rfl]
    · rw [if_neg hthere, if_neg fun h => hthere h.2]
  · have hother : ¬ (parent = c ∧ (s.get? c).isSome) := fun h => hparent h.1
    rw [if_neg hother]
    split
    · rw [Table.getElem?_insert, if_neg hparent]
    · rfl

theorem getElem?_foldl_refreshed (s : Scene) (cs : List ObjectId)
    (records : Table ObjectId Bounds) (c : ObjectId) :
    (cs.foldl s.refreshed records)[c]? =
      if c ∈ cs ∧ (s.get? c).isSome then some (s.around c) else records[c]? := by
  induction cs generalizing records with
  | nil => simp
  | cons parent cs ih =>
    rw [List.foldl_cons, ih, getElem?_refreshed]
    by_cases hc : parent = c
    · subst hc
      by_cases hthere : (s.get? parent).isSome <;> simp [hthere]
    · have hcs : c ∈ parent :: cs ↔ c ∈ cs := by simp [Ne.symm hc]
      have hother : ¬ (parent = c ∧ (s.get? c).isSome) := fun h => hc h.1
      rw [if_neg hother]
      simp only [hcs]

/-- The container that is recalculated when a request is carried out: the one that its object is
said to leave, if it is there. -/
def vacated? (s : Scene) (r : Request) : Option ObjectId :=
  match r.kind, r.payload with
  | .hierarchy, .hierarchy (some old) parent =>
    if some old ≠ parent ∧ (s.get? old).isSome then some old else none
  | _, _ => none

theorem objects_remove {removed : Object} (h : s.remove x = (some removed, s')) :
    s.objects.remove x = (some removed, s'.objects) := by
  have hremoved : (s.objects.remove x).1 = some removed := congrArg Prod.fst h
  have hs' : (s.objects.remove x).2 = s'.objects := congrArg (·.2.objects) h
  rw [← hremoved, ← hs']

theorem write_booked (s : Scene) (records : Table ObjectId Bounds) (n : Nat) (e : Entity)
    (v : Value) : (s.booked records n).write e v =
      (s.write e v).map fun (bounds, s') => (bounds, s'.booked records n) := by
  unfold write
  rw [show (s.booked records n).objects = s.objects from rfl]
  cases s.objects.set? e.object (Path.ofString e.property) v <;> rfl

theorem move_booked (hkeyed : s.objects.Keyed) {o : Object} (ho : s.get? x = some o)
    (previous parent : Option ObjectId) (records : Table ObjectId Bounds) (n : Nat) :
    ∃ n', (s.booked records n).move o previous parent = (s.move o previous parent).booked
      ((s.move o previous parent).recorded records
        (match previous with
        | some old => if some old ≠ parent ∧ (s.get? old).isSome then some old else none
        | none => none)) n' := by
  have hmoved := moved_move hkeyed ho none parent
  have hthere : ∀ old, ((s.move o none parent).get? old).isSome = (s.get? old).isSome :=
    hmoved.isSome_get?
  have hplaced : (s.booked records n).move o none parent =
      (s.move o none parent).booked records n := by
    unfold move
    dsimp only
    split <;> rfl
  have hmove : ∀ s : Scene, s.move o previous parent = match previous with
      | some old => if previous ≠ parent ∧ ((s.move o none parent).get? old).isSome
          then (s.move o none parent).recalculate old ∅ else s.move o none parent
      | none => s.move o none parent := fun _ => rfl
  rw [hmove, hmove, hplaced]
  cases previous with
  | none => exact ⟨n, rfl⟩
  | some old =>
    have hsame : ((s.move o none parent).booked records n).get? old =
        (s.move o none parent).get? old := rfl
    dsimp only
    rw [hsame, hthere]
    by_cases hleft : some old ≠ parent ∧ (s.get? old).isSome = true
    · rw [if_pos hleft, if_pos hleft, if_pos hleft, recalculate_eq (confirms_empty _ _),
        recalculate_eq (confirms_empty _ _)]
      exact ⟨n + 1, rfl⟩
    · rw [if_neg hleft, if_neg hleft, if_neg hleft]
      exact ⟨n, rfl⟩

/-- What carrying out a request does to the objects does not depend on the records, and the records
of all containers but the one that was left stay. -/
theorem applyChange_booked (hkeyed : s.objects.Keyed) (r : Request)
    (records : Table ObjectId Bounds) (n : Nat) :
    ∃ n', (s.booked records n).applyChange r =
      (s.applyChange r).map fun (outcome, s') =>
        (outcome, s'.booked (s'.recorded records (s.vacated? r)) n') := by
  have hrequire : (s.booked records n).require r.target.object = s.require r.target.object := rfl
  unfold applyChange
  rw [hrequire]
  cases hthere : s.require r.target.object with
  | error e => exact ⟨0, rfl⟩
  | ok o =>
    unfold vacated?
    rw [Run.bind_of_ok rfl, Run.bind_of_ok rfl]
    split
    next hkind =>
      rw [hkind]
      cases r.payload <;> exact ⟨n, rfl⟩
    next hkind =>
      rw [hkind]
      cases r.payload <;> exact ⟨n, rfl⟩
    next hkind =>
      rw [hkind]
      cases r.payload with
      | hierarchy previous parent =>
        have ho := get?_of_require hthere
        obtain ⟨n', hmove⟩ := move_booked hkeyed ho previous parent records n
        refine ⟨n', ?_⟩
        simp only [rehouse, hmove, pure, Except.pure, Except.map]
        cases previous <;> rfl
      | _ => exact ⟨n, rfl⟩
    next name value hkind hpayload =>
      rw [hkind, hpayload]
      refine ⟨n, ?_⟩
      cases value with
      | none => rfl
      | some v =>
        unfold change
        dsimp only
        rw [write_booked]
        cases s.write ⟨r.target.object, name⟩ v <;> rfl
    next => exact ⟨0, rfl⟩

/-! ## What a request does to boxes -/

/-- Between two scenes at most the object `x` changes. Unless it stays as large as it was where it
was, `told` is what it contributes now; a container that it left is recorded again. -/
structure Carries (x : ObjectId) (told : Option Contribution) (left : Option ObjectId)
    (s s' : Scene) : Prop where
  keyed : s'.objects.Keyed
  listed : s'.objects.Listed
  others : ∀ y, y ≠ x → s'.get? y = s.get? y
  isSome : ∀ y, (s'.get? y).isSome = (s.get? y).isSome
  children : ∀ c, (s.objects.containerOf? x = some c ↔ s'.objects.containerOf? x = some c) →
    s'.objects.childrenOf c = s.objects.childrenOf c
  honest : ∀ k, told = some k → s'.contribution? x = some k
  tells : told = s'.contribution? x ∨ s'.objects.containerOf? x = s.objects.containerOf? x ∧
    s'.boundsOf? x = s.boundsOf? x
  there : ∀ c, left = some c → (s.get? c).isSome
  leaves : ∀ c, s.objects.containerOf? x = some c → s'.objects.containerOf? x ≠ some c →
    (s.get? c).isSome → left = some c
  records : s'.containerBounds = s'.recorded s.containerBounds left

namespace Carries

variable {told : Option Contribution} {left : Option ObjectId}

theorem refl (hkeyed : s.objects.Keyed) (hlisted : s.objects.Listed) (x : ObjectId) :
    Carries x none none s s :=
  ⟨hkeyed, hlisted, fun _ _ => rfl, fun _ => rfl, fun _ _ => rfl, nofun, .inr ⟨rfl, rfl⟩, nofun,
    fun _ hin hout _ => absurd hin hout, rfl⟩

/-- Properties of the object change, and nothing else. -/
theorem of_shape (hkeyed : s.objects.Keyed) (hlisted : s.objects.Listed)
    (hshape : s'.objects.shape = s.objects.shape) (hothers : ∀ y, y ≠ x → s'.get? y = s.get? y)
    (hrecords : s'.containerBounds = s.containerBounds)
    (htold : told = s'.contribution? x ∨ told = none ∧ s'.boundsOf? x = s.boundsOf? x) :
    Carries x told none s s' := by
  have hcontainer := ObjectTable.containerOf?_congr hshape x
  refine ⟨hkeyed.of_shape hshape, hlisted.of_shape hshape, hothers,
    ObjectTable.isSome_get?_congr hshape, fun c _ => ObjectTable.childrenOf_congr hshape c, ?_,
    htold.imp_right fun h => ⟨hcontainer, h.2⟩, nofun, ?_, hrecords⟩
  · rintro k hk
    rcases htold with h | ⟨h, -⟩
    · exact h ▸ hk
    · cases h.symm.trans hk
  · intro c hin hout
    exact absurd (hcontainer.trans hin) hout

/-- The bounds that an object in a container now has were contributed, or it had them there. -/
theorem box (h : Carries x told left s s') (hy : s'.objects.containerOf? y = some c) :
    (∃ b, told = some ⟨c, y, b⟩ ∧ s'.boundsOf? y = some b) ∨
      s.objects.containerOf? y = some c ∧ s'.boundsOf? y = s.boundsOf? y := by
  by_cases hyx : y = x
  · subst hyx
    rcases h.tells with htold | ⟨hcontainer, hbounds⟩
    · obtain ⟨b, hb, hcontribution⟩ := exists_contribution hy
      exact .inl ⟨b, htold.trans hcontribution, hb⟩
    · exact .inr ⟨hcontainer ▸ hy, hbounds⟩
  · have hget := h.others y hyx
    have hplace : s'.objects.containerOf? y = s.objects.containerOf? y :=
      congrArg (·.bind Object.container) hget
    exact .inr ⟨hplace ▸ hy, boundsOf?_congr hget⟩

/-- The box of a container that is there changes only if it was left or something was contributed to
it. -/
theorem around (h : Carries x told left s s') (hlisted : s.objects.Listed)
    (hthere : (s.get? c).isSome) :
    left = some c ∨ (∃ y b, told = some ⟨c, y, b⟩) ∨
      s'.objects.childrenOf c = s.objects.childrenOf c ∧
        ∀ y ∈ s.objects.childrenOf c, s'.boundsOf? y = s.boundsOf? y := by
  by_cases hin : s.objects.containerOf? x = some c
  · by_cases hin' : s'.objects.containerOf? x = some c
    · have hchildren := h.children c (by simp [hin, hin'])
      by_cases htold : ∃ y b, told = some ⟨c, y, b⟩
      · exact .inr (.inl htold)
      · refine .inr (.inr ⟨hchildren, fun y hy => ?_⟩)
        rw [← hchildren] at hy
        rcases h.box ((h.listed c y).1 hy) with ⟨b, hb, -⟩ | ⟨-, hbounds⟩
        · exact absurd ⟨y, b, hb⟩ htold
        · exact hbounds
    · exact .inl (h.leaves c hin hin' hthere)
  · by_cases hin' : s'.objects.containerOf? x = some c
    · rcases h.box hin' with ⟨b, hb, -⟩ | ⟨hold, -⟩
      · exact .inr (.inl ⟨x, b, hb⟩)
      · exact absurd hold hin
    · refine .inr (.inr ⟨h.children c (by simp [hin, hin']), fun y hy => ?_⟩)
      refine boundsOf?_congr (h.others y ?_)
      rintro rfl
      exact hin ((hlisted c y).1 hy)

/-- What was collected for a container is still right, with what is contributed now. -/
theorem confirms (h : Carries x told left s s') (hlisted : s.objects.Listed)
    (hlatest : s.Confirms c latest) (hnone : ∀ y b, told ≠ some ⟨c, y, b⟩) :
    s'.Confirms c latest := by
  intro y hy b hb
  rcases h.box ((h.listed c y).1 hy) with ⟨b', htold, -⟩ | ⟨hplace, hbounds⟩
  · exact absurd htold (hnone y b')
  · exact hbounds.trans (hlatest y ((hlisted c y).2 hplace) b hb)

theorem confirms_insert (h : Carries x told left s s') (hlisted : s.objects.Listed)
    (hlatest : s.Confirms c latest) {child : ObjectId} {bounds : Bounds}
    (htold : told = some ⟨c, child, bounds⟩) : s'.Confirms c (latest.insert child bounds) := by
  obtain ⟨hchild, -, hbounds⟩ := contribution?_eq_some_iff.1 (h.honest _ htold)
  intro y hy b hb
  rw [Table.getElem?_insert] at hb
  split at hb
  next heq =>
    cases hb
    rw [← heq, show child = x from hchild]
    exact hbounds
  next hne =>
    rcases h.box ((h.listed c y).1 hy) with ⟨b', htold', -⟩ | ⟨hplace, hbox⟩
    · rw [htold] at htold'
      cases htold'
      exact absurd rfl hne
    · exact hbox.trans (hlatest y ((hlisted c y).2 hplace) b hb)

end Carries

end Scene

/-! ## Requests that are carried out -/

/-- A request moves its object openly, and writes its numbers under their plain names: a move out of
a container names it as the previous one, and only the name of a number changes the bounds. -/
structure Request.Truthful (r : Request) (s s' : Scene) : Prop where
  moves : ∀ {previous parent : Option ObjectId} {c : ObjectId}, r.kind = .hierarchy →
    r.payload = .hierarchy previous parent →
    s.objects.containerOf? r.target.object = some c → parent ≠ some c → previous = some c
  writes : r.kind = .recompute ∨ r.kind = .property →
    s'.boundsOf? r.target.object ≠ s.boundsOf? r.target.object →
    r.target.property ∈ Names.geometry

/-- A request about a property carries the name of that property. -/
def Request.Named (r : Request) : Prop :=
  r.kind = .property → ∀ name value, r.payload = .property name value → name = r.target.property

namespace Scene

variable {s s' : Scene} {r : Request}

/-- A write tells of the object when it is under the name of one of its numbers. -/
theorem bounds_write {e : Entity} {v : Value} {bounds : Option Contribution}
    (h : s.write e v = .ok (bounds, s')) :
    bounds = (if Names.geometry.contains e.property then s'.contribution? e.object else none) ∧
      s'.containerBounds = s.containerBounds := by
  unfold write at h
  split at h
  · cases h
  · cases h
    exact ⟨rfl, rfl⟩

theorem carries_write (hkeyed : s.objects.Keyed) (hlisted : s.objects.Listed) {e : Entity}
    {v : Value} {bounds : Option Contribution} (h : s.write e v = .ok (bounds, s'))
    (hplain : s'.boundsOf? e.object ≠ s.boundsOf? e.object → e.property ∈ Names.geometry) :
    Carries e.object bounds none s s' := by
  have hshape := shape_write h
  have hget := get?_write h
  have htold := bounds_write h
  refine .of_shape hkeyed hlisted hshape (fun y hy => ?_) htold.2 ?_
  · rw [hget, if_neg (Ne.symm hy)]
  · rw [htold.1]
    by_cases hname : e.property ∈ Names.geometry
    · rw [if_pos (List.contains_iff_mem.2 hname)]
      exact .inl rfl
    · rw [if_neg fun h => hname (List.contains_iff_mem.1 h)]
      exact .inr ⟨rfl, not_not.1 fun hne => hname (hplain hne)⟩

theorem carries_resize (hkeyed : s.objects.Keyed) (hlisted : s.objects.Listed) (x : ObjectId)
    (payload : Payload) :
    Carries x (s.resize x payload).1.bounds none s (s.resize x payload).2 := by
  refine .of_shape hkeyed hlisted (writes_resize s x payload).shape (fun y hy => ?_) ?_ (.inl rfl)
  · rw [get?_resize, if_neg (Ne.symm hy)]
  · cases payload <;> rfl

theorem carries_arrange (hkeyed : s.objects.Keyed) (hlisted : s.objects.Listed) (x : ObjectId)
    (payload : Payload) :
    Carries x (s.arrange x payload).1.bounds none s (s.arrange x payload).2 := by
  refine .of_shape hkeyed hlisted (writes_arrange s x payload).shape (fun y hy => ?_) ?_
    (.inr ⟨rfl, ?_⟩)
  · rw [get?_arrange, if_neg (Ne.symm hy)]
  · cases payload <;> rfl
  · have hget := s.get?_arrange x payload x
    rw [if_pos rfl] at hget
    cases ho : s.get? x with
    | none =>
      rw [ho] at hget
      exact boundsOf?_congr (hget.trans ho.symm)
    | some o =>
      rw [ho] at hget
      cases payload with
      | layout config =>
        have hlayout : Names.layout ∉ Names.geometry := by decide
        exact boundsOf?_of_set ho hget hlayout
      | _ => exact boundsOf?_congr (hget.trans ho.symm)

theorem carries_change (hkeyed : s.objects.Keyed) (hlisted : s.objects.Listed) {x : ObjectId}
    {property : String} {value : Option Value} {outcome : Outcome}
    (h : s.change x property value = .ok (outcome, s'))
    (hplain : s'.boundsOf? x ≠ s.boundsOf? x → property ∈ Names.geometry) :
    Carries x outcome.bounds none s s' := by
  unfold change at h
  cases value with
  | some v =>
    obtain ⟨⟨bounds, scene⟩, hwrite, h⟩ := Run.ok_of_bind h
    cases h
    exact carries_write hkeyed hlisted (e := ⟨x, property⟩) hwrite hplain
  | none =>
    cases h
    refine .of_shape hkeyed hlisted rfl (fun _ _ => rfl) rfl ?_
    dsimp only
    split
    · exact .inl rfl
    · exact .inr ⟨rfl, rfl⟩

theorem objects_move (hkeyed : s.objects.Keyed) {x : ObjectId} {o : Object} (ho : s.get? x = some o)
    (previous parent : Option ObjectId) : (s.move o previous parent).objects =
      if o.container = parent then s.objects
      else s.objects.insert { o with container := parent } := by
  have hget : s.objects.get? o.id = some o := (hkeyed x o ho).symm ▸ ho
  have hplaced : (s.move o none parent).objects = if o.container = parent then s.objects
      else s.objects.insert { o with container := parent } := by
    unfold move
    dsimp only
    split
    · rfl
    · rw [ObjectTable.reparent?, hget]
      rfl
  rw [← hplaced]
  cases previous with
  | none => rfl
  | some old => exact (s.move o none parent).objects_recalculate_if _ old ∅

/-- Carrying out a request keeps the lists of children. -/
theorem listed_applyChange (hkeyed : s.objects.Keyed) (hlisted : s.objects.Listed)
    {outcome : Outcome} (h : s.applyChange r = .ok (outcome, s')) : s'.objects.Listed := by
  obtain ⟨o, ho, h⟩ := Run.ok_of_bind h
  split at h
  · cases h
    exact hlisted.of_shape (writes_resize s _ _).shape
  · cases h
    exact hlisted.of_shape (writes_arrange s _ _).shape
  · have hs' : (s.rehouse o r.payload).2 = s' := congrArg Prod.snd (Except.ok.inj h)
    rw [← hs']
    cases r.payload with
    | hierarchy previous parent =>
      show (s.move o previous parent).objects.Listed
      rw [objects_move hkeyed (get?_of_require ho)]
      split
      · exact hlisted
      · exact hlisted.insert _
    | _ => exact hlisted
  next name value hkind hpayload =>
    unfold change at h
    cases value with
    | none =>
      cases h
      exact hlisted
    | some v =>
      obtain ⟨⟨bounds, scene⟩, hwrite, h⟩ := Run.ok_of_bind h
      cases h
      exact hlisted.of_shape (shape_write hwrite)
  · cases h

/-- A move tells of the object where it comes to, and of the container that it names. -/
theorem carries_move (hkeyed : s.objects.Keyed) (hlisted : s.objects.Listed) {x : ObjectId}
    {o : Object} (ho : s.get? x = some o) {previous parent : Option ObjectId}
    {left : Option ObjectId} {told : Option Contribution}
    (htold : told = (s.move o previous parent).contribution? x)
    (hleft : ∀ c, left = some c ↔ previous = some c ∧ previous ≠ parent ∧ (s.get? c).isSome)
    (hrecords : (s.move o previous parent).containerBounds =
      (s.move o previous parent).recorded s.containerBounds left)
    (hnames : ∀ c, s.objects.containerOf? x = some c → parent ≠ some c → previous = some c) :
    Carries x told left s (s.move o previous parent) := by
  have hmoved := moved_move hkeyed ho previous parent
  have hplace : (s.move o previous parent).objects.containerOf? x = parent := by
    rw [hmoved.containerOf?, if_pos rfl]
  have hobjects := objects_move hkeyed ho previous parent
  have hold : s.objects.containerOf? x = o.container := congrArg (·.bind Object.container) ho
  refine ⟨hmoved.keyed hkeyed, ?_, hmoved.get?, hmoved.isSome_get?, fun c hc => ?_,
    fun k hk => htold ▸ hk, .inl htold, fun c hc => ((hleft c).1 hc).2.2, ?_, hrecords⟩
  · rw [hobjects]
    split
    · exact hlisted
    · exact hlisted.insert _
  · by_cases hstays : o.container = parent
    · rw [hobjects, if_pos hstays]
    · rw [hplace] at hc
      refine hmoved.childrenOf c (fun h => ?_) fun h => ?_
      · exact hstays (hold.symm.trans (h.trans (hc.1 h).symm))
      · exact hstays (hold.symm.trans ((hc.2 h).trans h.symm))
  · intro c hin hout hthere
    rw [hplace] at hout
    have hprevious := hnames c hin hout
    exact (hleft c).2 ⟨hprevious, fun h => hout (h ▸ hprevious), hthere⟩

theorem vacated?_eq_some_iff {c : ObjectId} (hkind : r.kind = .hierarchy)
    {previous parent : Option ObjectId} (hpayload : r.payload = .hierarchy previous parent) :
    s.vacated? r = some c ↔ previous = some c ∧ previous ≠ parent ∧ (s.get? c).isSome := by
  unfold vacated?
  rw [hkind, hpayload]
  cases previous with
  | none => simp
  | some old =>
    dsimp only
    split
    next h =>
      simp only [Option.some.injEq]
      exact ⟨fun hc => ⟨hc, hc ▸ h⟩, fun hc => hc.1⟩
    next h =>
      simp only [Option.some.injEq]
      refine ⟨nofun, ?_⟩
      rintro ⟨rfl, hne⟩
      exact absurd hne h

/-- What is recorded for a container stays, but for the one that is left. -/
theorem records_applyChange (hkeyed : s.objects.Keyed) {outcome : Outcome}
    (h : s.applyChange r = .ok (outcome, s')) :
    s'.containerBounds = s'.recorded s.containerBounds (s.vacated? r) := by
  obtain ⟨n, hbooked⟩ := applyChange_booked hkeyed r s.containerBounds s.recalculations
  rw [show s.booked s.containerBounds s.recalculations = s from rfl, h] at hbooked
  exact congrArg containerBounds (Prod.mk.inj (Except.ok.inj hbooked)).2

/-- A request that is carried out openly tells of all that it does to boxes. -/
theorem carries_applyChange (hkeyed : s.objects.Keyed) (hlisted : s.objects.Listed)
    {outcome : Outcome} (h : s.applyChange r = .ok (outcome, s')) (hnamed : r.Named)
    (htruthful : r.Truthful s s') :
    Carries r.target.object outcome.bounds (s.vacated? r) s s' := by
  have hrecords := records_applyChange hkeyed h
  obtain ⟨o, ho, h⟩ := Run.ok_of_bind h
  have hvacated : r.kind ≠ .hierarchy → s.vacated? r = none := by
    intro hne
    unfold vacated?
    split
    next hkind _ => exact absurd hkind hne
    next => rfl
  split at h
  next hkind =>
    rw [hvacated (by simp [hkind])]
    cases h
    exact carries_resize hkeyed hlisted _ _
  next hkind =>
    rw [hvacated (by simp [hkind])]
    cases h
    exact carries_arrange hkeyed hlisted _ _
  next hkind =>
    have ho := get?_of_require ho
    cases hpayload : r.payload with
    | hierarchy previous parent =>
      rw [hpayload] at h
      cases h
      refine carries_move hkeyed hlisted ho ?_
        (fun c => vacated?_eq_some_iff hkind hpayload) hrecords
        fun c hin hout => htruthful.moves hkind hpayload hin hout
      rw [← hkeyed _ o ho]
    | _ =>
      have hnone : s.vacated? r = none := by rw [vacated?, hkind, hpayload]
      rw [hpayload] at h
      cases h
      rw [hnone]
      exact .refl hkeyed hlisted _
  next name value hkind hpayload =>
    rw [hvacated (by simp [hkind])]
    refine carries_change hkeyed hlisted h fun hne => ?_
    rw [hnamed hkind name value hpayload]
    exact htruthful.writes (.inr hkind) hne
  · cases h

end Scene

end Parametric
