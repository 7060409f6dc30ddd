import Parametric.Json.Basic

/-!
# Records in JSON

A record with named fields is written as an object, in any order and with unknown members ignored,
or as an array of its fields in their order. A known field must not be written twice. A field may be
required, may be missing from an object, or may be missing from both forms.
-/

namespace Parametric.Json

/-- The fields of a record as written, by name. -/
structure Record where
  fields : List (String × Json)
  /-- The record was written as an array. -/
  positional : Bool

namespace Record

/-- The members of an object that name a field, if none is written twice. -/
def select? (names : List String) : List (String × Json) → Option (List (String × Json))
  | [] => some []
  | (name, j) :: rest => do
    let kept ← select? names rest
    if !names.contains name then return kept
    else if kept.any (·.1 = name) then none
    else return (name, j) :: kept

/-- A document as a record with fields `names`. -/
def ofJson? (names : List String) : Json → Option Record
  | .object members => (select? names members).map fun fields => ⟨fields, false⟩
  | .array items => if items.length ≤ names.length then some ⟨names.zip items, true⟩ else none
  | _ => none

/-- A field as written. -/
def get? (r : Record) (name : String) : Option Json :=
  (r.fields.find? (·.1 = name)).map (·.2)

/-- A field that must be there. -/
def required? {α : Type} (r : Record) (name : String) (decode : Json → Option α) : Option α :=
  (r.get? name).bind decode

/-- A field that stands for `fallback` when it is missing. -/
def withDefault? {α : Type} (r : Record) (name : String) (fallback : α)
    (decode : Json → Option α) : Option α :=
  match r.get? name with
  | some j => decode j
  | none => some fallback

/-- A field that may be null, and may be missing from an object. -/
def optional? {α : Type} (r : Record) (name : String) (decode : Json → Option α) :
    Option (Option α) :=
  match r.get? name with
  | some j => nullable? decode j
  | none => if r.positional then none else some none

end Record

/-- The variant that a document names: a string, or an object whose one member is null. -/
def variant? : Json → Option String
  | .string s => some s
  | .object [(s, .null)] => some s
  | _ => none

/-- A document that names its variant in the field `tag`: the variant and the document without the
tag. In an array the tag comes first. -/
def tagged? (tag : String) : Json → Option (String × Json)
  | .object members =>
    match members.filter (·.1 = tag) with
    | [(_, j)] => j.string?.map fun v => (v, .object (members.filter (·.1 ≠ tag)))
    | _ => none
  | .array (j :: items) => j.string?.map fun v => (v, .array items)
  | _ => none

end Parametric.Json
