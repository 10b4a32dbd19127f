import QueryCheck.Reading.Selection
import QueryCheck.Syntax.Document

/-!
# Reading documents
-/

namespace QueryCheck

open Reading (accept? after_lt_succ expect fail left_le_self manyUntil nothing rest_le_cons_succ
  rest_lt_name)

namespace OperationKind

def read (tokens : List Token) : Reading NodeKind OperationKind tokens.length :=
  match tokens with
  | .name text :: rest =>
      match ofKeyword? text with
      | some kind => .ok ⟨kind, rest, rest_lt_name text rest⟩
      | none => fail .operationKind (.name text :: rest)
  | _ => fail .operationKind tokens

end OperationKind

namespace VariableDefinition

/-- Reads the default of a variable, which is a constant, or nothing. -/
def readDefault (tokens : List Token) : Reading NodeKind Value (tokens.length + 1) :=
  match accept? .equal tokens with
  | some equal => do
      let value ← Value.read true equal.rest
      .ok ⟨value.value, value.rest, after_lt_succ equal value⟩
  | none => .ok (nothing .null tokens)

def read (tokens : List Token) : Reading NodeKind VariableDefinition tokens.length := do
  let name ← Value.readVariable tokens
  let colon ← expect .colon .variableDefinition name.rest
  let type ← TypeRef.read colon.rest
  let default ← readDefault type.rest
  let directives ← Directive.readAll default.rest
  .ok ⟨⟨name.value, type.value, default.value, directives.value⟩, directives.rest, by
    have := name.after colon
    have := type.afterOptional default
    have := directives.rest_lt
    omega⟩

/-- Reads the definitions of variables in parentheses, of which there is at least one, or
nothing. -/
def readAll (tokens : List Token) :
    Reading NodeKind (List VariableDefinition) (tokens.length + 1) :=
  match tokens with
  | .parenOpen :: .parenClose :: rest => fail .variableDefinitions (.parenClose :: rest)
  | .parenOpen :: rest => do
      let definitions ← manyUntil .parenClose (fun left _ => read left) rest (left_le_self rest)
      .ok (definitions.weaken (rest_le_cons_succ .parenOpen rest))
  | other => .ok (nothing [] other)

end VariableDefinition

namespace Fragment

def read (tokens : List Token) : Reading NodeKind Fragment tokens.length := do
  let keyword ← expect (.name "fragment") .fragmentDefinition tokens
  let name ← TypeRef.readName keyword.rest
  let on ← expect (.name "on") .fragmentDefinition name.rest
  let type ← TypeRef.readName on.rest
  let directives ← Directive.readAll type.rest
  let selections ← Selection.readRequired .fragmentDefinition directives.rest
  .ok ⟨⟨name.value, type.value, directives.value, selections.value⟩, selections.rest, by
    have := keyword.after name
    have := on.after type
    have := directives.rest_lt
    have := selections.rest_lt
    omega⟩

end Fragment

namespace Operation

def readName (tokens : List Token) : Parsed (Option String) (tokens.length + 1) :=
  match tokens with
  | .name text :: rest => ⟨some text, rest, by simp only [List.length_cons]; omega⟩
  | other => nothing none other

/-- Reads an operation that starts with its kind. -/
def readFull (tokens : List Token) : Reading NodeKind Operation tokens.length :=
  match OperationKind.read tokens with
  | .error failure => fail .operationDefinition failure.rest
  | .ok kind => do
      let name := readName kind.rest
      let definitions ← VariableDefinition.readAll name.rest
      let directives ← Directive.readAll definitions.rest
      let selections ← Selection.readRequired .operationDefinition directives.rest
      .ok ⟨⟨kind.value, name.value, definitions.value, directives.value, selections.value⟩,
        selections.rest, by
          have := kind.afterOptional name
          have := definitions.rest_lt
          have := directives.rest_lt
          have := selections.rest_lt
          omega⟩

/-- Reads an operation. A selection set alone is a query without a name. -/
def read (tokens : List Token) : Reading NodeKind Operation tokens.length :=
  match tokens with
  | .braceOpen :: rest => do
      let selections ← Selection.readRequired .selectionSet (.braceOpen :: rest)
      .ok (selections.map (⟨.query, none, [], [], ·⟩))
  | other => readFull other

end Operation

namespace Definition

def startsOperation : Token → Bool
  | .braceOpen => true
  | .name text => (OperationKind.ofKeyword? text).isSome
  | _ => false

def read (tokens : List Token) : Reading NodeKind Definition tokens.length :=
  match tokens with
  | [] => fail .document []
  | token :: rest =>
      if token = .name "fragment" then do
        let fragment ← Fragment.read (token :: rest)
        .ok (fragment.map .fragment)
      else if startsOperation token then do
        let operation ← Operation.read (token :: rest)
        .ok (operation.map .operation)
      else fail .document (token :: rest)

end Definition

namespace Document

def readDefinitions (tokens : List Token) : Except (Failure NodeKind) (List Definition) :=
  match tokens with
  | [] => .ok []
  | token :: rest => do
      let first ← Definition.read (token :: rest)
      let others ← readDefinitions first.rest
      .ok (first.value :: others)
termination_by tokens.length
decreasing_by exact first.rest_lt

def read (tokens : List Token) : Except (Failure NodeKind) Document := do
  let definitions ← readDefinitions tokens
  .ok ⟨definitions⟩

end Document

end QueryCheck
