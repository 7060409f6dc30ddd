import Parametric.Update.Request

/-!
# Pending bounds

The new bounds of children, collected by container, so that a container is recalculated once for all
of them. A later contribution of a child takes the place of its earlier one.
-/

namespace Parametric

/-- The bounds of some children of a container. -/
abbrev ChildBounds := Table ObjectId Bounds

/-- The contributions that wait for their containers. -/
structure PendingBounds where
  parents : Table ObjectId ChildBounds := ∅
  contributions : Nat := 0

namespace PendingBounds

def add (p : PendingBounds) (c : Contribution) : PendingBounds :=
  { parents := p.parents.insert c.parent ((p.parents[c.parent]?.getD ∅).insert c.child c.bounds),
    contributions := p.contributions + 1 }

def size (p : PendingBounds) : Nat := p.parents.size

/-- The box around all contributions to a container. -/
def unionFor? (p : PendingBounds) (parent : ObjectId) : Option Bounds :=
  p.parents[parent]?.map fun children => Bounds.unionAll (children.toList.map (·.2))

end PendingBounds

end Parametric
