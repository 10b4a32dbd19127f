import QueryCheck.Validation.Rule.Names

/-!
# Rules on operations
-/

namespace QueryCheck

namespace LoneAnonymousOperation

/-- An operation without a name must be the only operation. The state is the number of
operations. -/
def visitor : Visitor Nat Finding
  | ⟨.enter, .document document, _⟩, _ => .pass document.operations.length
  | ⟨.enter, .operation operation, path⟩, count =>
      ⟨.skip, count,
        if operation.name?.isNone && count > 1 then [⟨.anonymousOperation, path⟩] else []⟩
  | ⟨.enter, .fragment _, _⟩, count => ⟨.skip, count, []⟩
  | _, count => .pass count

end LoneAnonymousOperation

namespace UniqueOperationNames

/-- The names of operations must differ. The state holds the names used so far. -/
def visitor : Visitor (List String) Finding
  | ⟨.enter, .document _, _⟩, _ => .pass []
  | ⟨.enter, .operation operation, path⟩, used =>
      match operation.name? with
      | some name => UsedNames.useAndSkip used name (.repeatedOperation name) path
      | none => ⟨.skip, used, []⟩
  | ⟨.enter, .fragment _, _⟩, used => ⟨.skip, used, []⟩
  | _, used => .pass used

end UniqueOperationNames

end QueryCheck
