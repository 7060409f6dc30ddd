import Parametric.Arithmetic

/-!
# Bounds

Boxes along the axes. The empty box is the unit of `union`, and `unionAll` is the least box around
a list of boxes.
-/

namespace Parametric

/-- A point or an extent in space. -/
structure Vec where
  x : Float
  y : Float
  z : Float
deriving DecidableEq

namespace Vec

/-- The same number along every axis. -/
def splat (a : Float) : Vec := ⟨a, a, a⟩

/-- Apply an operation axis by axis. -/
def map₂ (f : Float → Float → Float) (a b : Vec) : Vec := ⟨f a.x b.x, f a.y b.y, f a.z b.z⟩

end Vec

/-- A box between two corners. -/
structure Bounds where
  min : Vec
  max : Vec
deriving DecidableEq

namespace Bounds

open Arithmetic

/-- The box without points. -/
def empty : Bounds := ⟨.splat infinity, .splat (-infinity)⟩

/-- The box of a corner and an extent, which may point backwards. -/
def ofOriginSize (origin size : Vec) : Bounds :=
  let far := Vec.map₂ (· + ·) origin size
  ⟨.map₂ lesser origin far, .map₂ greater origin far⟩

def isEmpty (b : Bounds) : Bool :=
  b.min.x > b.max.x || b.min.y > b.max.y || b.min.z > b.max.z

/-- The extent of a box; zero for an empty one. -/
def size (b : Bounds) : Vec :=
  if b.isEmpty then .splat 0.0 else .map₂ (· - ·) b.max b.min

def union (a b : Bounds) : Bounds :=
  if a.isEmpty then b
  else if b.isEmpty then a
  else ⟨.map₂ lesser a.min b.min, .map₂ greater a.max b.max⟩

/-- The least box around a list of boxes. -/
def unionAll (bs : List Bounds) : Bounds := bs.foldl union empty

end Bounds

end Parametric
