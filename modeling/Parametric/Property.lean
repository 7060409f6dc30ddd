import Parametric.Value

/-!
# Properties

A property of an object is a value or a record of named properties. Records keep their fields in the
order of the names, so that equal records are equal terms.

* `Property.lookup` walks a path of names;
* `Property.set` writes a value at a path and makes the records on the way.
-/

namespace Parametric

/-- The names on the way to a property. -/
abbrev Path := List String

/-- The names of a dotted path; empty ones do not count. -/
def Path.ofString (s : String) : Path :=
  (names [] s.toList).filter (· ≠ "")
where
  names (name : List Char) : List Char → List String
    | [] => [String.ofList name.reverse]
    | c :: cs => if c = '.' then String.ofList name.reverse :: names [] cs else names (c :: name) cs

/-- The names between the dots of a path, empty ones included. -/
def Path.pieces (s : String) : Path := Path.ofString.names [] s.toList

def Path.text (p : Path) : String := ".".intercalate p

/-- A property: a value, or a record with its fields in ascending order of their names. -/
inductive Property
  | leaf (v : Value)
  | record (fields : List (String × Property))

abbrev Fields := List (String × Property)

namespace Fields

def get? (name : String) : Fields → Option Property
  | [] => none
  | (n, p) :: rest => if n = name then some p else get? name rest

/-- Write the property of a name, keeping the order. -/
def put (name : String) (p : Property) : Fields → Fields
  | [] => [(name, p)]
  | (n, q) :: rest =>
    if n = name then (n, p) :: rest
    else if name < n then (name, p) :: (n, q) :: rest
    else (n, q) :: put name p rest

end Fields

namespace Property

/-- The fields of a record; none for a value. -/
def fields : Property → Fields
  | leaf _ => []
  | record fs => fs

/-- The field of a record. -/
def field? (p : Property) (name : String) : Option Property := p.fields.get? name

/-- The property at the end of a path. -/
def lookup (p : Property) : Path → Option Property
  | [] => some p
  | name :: rest => (p.field? name).bind (lookup · rest)

/-- The value of a property that is no record. -/
def value? : Property → Option Value
  | leaf v => some v
  | record _ => none

/-- Write a value at a path. Missing records on the way are made; a value on the way gives way to a
record. -/
def set (v : Value) (p : Property) : Path → Property
  | [] => leaf v
  | name :: rest =>
    record (p.fields.put name (set v ((p.field? name).getD (record [])) rest))

mutual

/-- A property from a document. A name that is written twice keeps its last property. -/
def ofJson? : Json → Option Property
  | .object members => (fieldsOfJson? members []).map record
  | j => (Value.ofJson? j).map leaf

/-- Write the members of an object into `fields`, in their order. -/
def fieldsOfJson? : List (String × Json) → Fields → Option Fields
  | [], fields => some fields
  | (name, j) :: rest, fields => do
    let p ← ofJson? j
    fieldsOfJson? rest (fields.put name p)

end

end Property

end Parametric
