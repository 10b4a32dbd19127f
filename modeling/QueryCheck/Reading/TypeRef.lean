import QueryCheck.Reading.Basic
import QueryCheck.Syntax.Kind
import QueryCheck.Syntax.TypeRef

/-!
# Reading type references
-/

namespace QueryCheck.TypeRef

open Reading (eat expect fail rest_lt_name)

/-- Reads the mark after a type that refuses null, if there is one. -/
def readMark (type : TypeRef) (tokens : List Token) : Parsed TypeRef (tokens.length + 1) :=
  (eat .exclam tokens).map fun marked => if marked then .nonNull type else type

/-- The tokens after a list type are fewer than those from its opening bracket on. -/
theorem rest_lt_list {rest : List Token} (item : Parsed TypeRef rest.length)
    (close : Parsed Unit item.rest.length) (type : Parsed TypeRef (close.rest.length + 1)) :
    type.rest.length < (Token.bracketOpen :: rest).length := by
  have := close.afterOptional type
  have := item.rest_lt
  simp only [List.length_cons]
  omega

def read (tokens : List Token) : Reading NodeKind TypeRef tokens.length :=
  match tokens with
  | .name name :: rest => .ok ((readMark (.named name) rest).weaken (rest_lt_name name rest))
  | .bracketOpen :: rest => do
      let item ← read rest
      let close ← expect .bracketClose .listType item.rest
      let type := readMark (.list item.value) close.rest
      .ok ⟨type.value, type.rest, rest_lt_list item close type⟩
  | _ => fail .typeRef tokens

def readName (tokens : List Token) : Reading NodeKind String tokens.length :=
  Reading.name .namedType tokens

end QueryCheck.TypeRef
