/-!
# Collections by name

Things that have a name are kept in lists. A collection holds at most one thing
of each name if it is built by `insert` alone.
-/

namespace QueryCheck

class HasName (α : Type) where
  name : α → String

namespace Named

variable {α : Type} [HasName α]

def find? (items : List α) (name : String) : Option α :=
  items.find? fun item => HasName.name item = name

def contains (items : List α) (name : String) : Bool :=
  items.any fun item => HasName.name item = name

/-- Adds a thing in place of those with its name. -/
def insert (items : List α) (item : α) : List α :=
  (items.filter fun other => HasName.name other ≠ HasName.name item) ++ [item]

/-- Adds a thing unless there is one with its name. -/
def insertNew (items : List α) (item : α) : List α :=
  if contains items (HasName.name item) then items else items ++ [item]

/-- Whether two collections hold the same things under the same names, in any order. -/
def sameBy (same : α → α → Bool) (first second : List α) : Bool :=
  first.length == second.length &&
    first.all fun item =>
      match find? second (HasName.name item) with
      | some other => same item other
      | none => false

end Named

end QueryCheck
