import QueryCheck.TypeInfo
import QueryCheck.Validation.Problem

/-!
# Rules on fields
-/

namespace QueryCheck.FieldsOnCorrectType

/-- Whether a name is that of a field which every type has. -/
def isReserved (name : String) : Bool :=
  name.toList.take 2 == ['_', '_']

def onField (frame : Frame) (field : Field) (path : Path) : List Finding :=
  match frame.parentType?, frame.field? with
  | some type, none =>
      if isReserved field.name then [] else [⟨.unknownField field.name type.name, path⟩]
  | _, _ => []

/-- Fields must be selected on types that have them. -/
def visitor (types : TypeInfo) : Visitor Unit Finding
  | ⟨.enter, .field field, path⟩, _ => ⟨.next, (), onField types.top field path⟩
  | _, _ => .pass ()

end QueryCheck.FieldsOnCorrectType
