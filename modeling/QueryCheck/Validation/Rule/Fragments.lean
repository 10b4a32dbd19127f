import QueryCheck.Validation.Rule.Names

/-!
# Rules on fragments
-/

namespace QueryCheck

namespace UniqueFragmentNames

/-- The names of fragments must differ. The state holds the names used so far. -/
def visitor : Visitor (List String) Finding
  | ⟨.enter, .document _, _⟩, _ => .pass []
  | ⟨.enter, .fragment fragment, path⟩, used =>
      UsedNames.useAndSkip used fragment.name (.repeatedFragment fragment.name) path
  | ⟨.enter, .operation _, _⟩, used => ⟨.skip, used, []⟩
  | _, used => .pass used

end UniqueFragmentNames

namespace KnownFragmentNames

/-- Only fragments of the document may be spread. The state holds their names. -/
def visitor : Visitor (List String) Finding
  | ⟨.enter, .document document, _⟩, _ => .pass (document.fragments.map Fragment.name)
  | ⟨.enter, .spread spread, path⟩, known =>
      ⟨.skip, known,
        if known.contains spread.name then [] else [⟨.unknownFragment spread.name, path⟩]⟩
  | ⟨.enter, .variableDefinition _, _⟩, known => ⟨.skip, known, []⟩
  | ⟨.enter, .argument _, _⟩, known => ⟨.skip, known, []⟩
  | ⟨.enter, .directive _, _⟩, known => ⟨.skip, known, []⟩
  | _, known => .pass known

end KnownFragmentNames

end QueryCheck
