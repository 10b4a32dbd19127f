import QueryCheck.Traversal.Event
import QueryCheck.Validation.Problem

/-!
# Names that may be used once

Several rules refuse a name that was used before. They keep the names used so
far.
-/

namespace QueryCheck.UsedNames

/-- Uses a name. Gives the names used so far and a finding if the name is among them. -/
def use (used : List String) (name : String) (problem : Problem) (path : Path) :
    List String × List Finding :=
  if used.contains name then (used, [⟨problem, path⟩]) else (used ++ [name], [])

/-- Uses a name and passes over the node that has it. -/
def useAndSkip (used : List String) (name : String) (problem : Problem) (path : Path) :
    Reply (List String) Finding :=
  let (names, findings) := use used name problem path
  ⟨.skip, names, findings⟩

end QueryCheck.UsedNames
