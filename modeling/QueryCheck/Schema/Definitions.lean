import QueryCheck.Reading.Document
import QueryCheck.Schema.Fault

/-!
# Reading the definitions of a schema

Descriptions are skipped, and so are the directives on definitions. A name that
is repeated among types, among directives, among the fields of a type or among
input values is refused as soon as its definition has been read.
-/

namespace QueryCheck

open Reading (accept? after_lt_succ eat expect fail nothing rest_le_name rest_lt_directiveName
  rest_lt_name)

/-- The names of the types at which operations start. -/
structure RootNames where
  query? : Option String
  mutation? : Option String
  subscription? : Option String
deriving DecidableEq, Repr

/-- The definitions of a schema text in source order. -/
structure Definitions where
  roots? : Option RootNames
  types : List TypeDefinition
  directives : List DirectiveDefinition
deriving DecidableEq, Repr

namespace RootNames

def empty : RootNames := ⟨none, none, none⟩

/-- The names that are taken when a schema text gives none. -/
def default : RootNames := ⟨some "Query", some "Mutation", some "Subscription"⟩

def get? (roots : RootNames) : OperationKind → Option String
  | .query => roots.query?
  | .mutation => roots.mutation?
  | .subscription => roots.subscription?

def set (roots : RootNames) (kind : OperationKind) (name : String) : RootNames :=
  match kind with
  | .query => { roots with query? := some name }
  | .mutation => { roots with mutation? := some name }
  | .subscription => { roots with subscription? := some name }

end RootNames

namespace Definitions

def expectToken (token : Token) (tokens : List Token) : Reading SchemaFault Unit tokens.length :=
  expect token (.malformed (.expectedToken token)) tokens

def readName (role : NameRole) (tokens : List Token) : Reading SchemaFault String tokens.length :=
  Reading.name (.malformed (.expectedName role)) tokens

/-- Fails with the kind of a node that could not be read. -/
def ofNode {α : Type} {bound : Nat} (reading : Reading NodeKind α bound) :
    Reading SchemaFault α bound :=
  match reading with
  | .ok parsed => .ok parsed
  | .error failure => fail (.malformed (.invalidNode failure.cause)) failure.rest

def skipDescription (tokens : List Token) : Parsed Unit (tokens.length + 1) :=
  match tokens with
  | .string _ :: rest => ⟨(), rest, by simp only [List.length_cons]; omega⟩
  | other => nothing () other

def skipDirectives (tokens : List Token) : Reading SchemaFault Unit (tokens.length + 1) := do
  let directives ← ofNode (Directive.readAll tokens)
  .ok (directives.map fun _ => ())

def readTypeRef (tokens : List Token) : Reading SchemaFault TypeRef tokens.length :=
  match tokens with
  | .name name :: rest => .ok ((TypeRef.readMark (.named name) rest).weaken (rest_lt_name name rest))
  | .bracketOpen :: rest => do
      let item ← readTypeRef rest
      let close ← expect .bracketClose (.malformed .unterminatedList) item.rest
      let type := TypeRef.readMark (.list item.value) close.rest
      .ok ⟨type.value, type.rest, TypeRef.rest_lt_list item close type⟩
  | _ => fail (.malformed .expectedType) tokens

/-- Reads the default of an input value, which is a constant, or nothing. -/
def readDefault (tokens : List Token) : Reading SchemaFault (Option Value) (tokens.length + 1) :=
  match accept? .equal tokens with
  | some equal => do
      let value ← ofNode (Value.read true equal.rest)
      .ok ⟨some value.value, value.rest, after_lt_succ equal value⟩
  | none => .ok (nothing none tokens)

def readInputValue (tokens : List Token) :
    Reading SchemaFault InputValueDefinition tokens.length := do
  let description := skipDescription tokens
  let name ← readName .inputValue description.rest
  let colon ← expectToken .colon name.rest
  let type ← readTypeRef colon.rest
  let default ← readDefault type.rest
  let directives ← skipDirectives default.rest
  .ok ⟨⟨name.value, type.value, default.value⟩, directives.rest, by
    have := description.rest_lt
    have := name.after colon
    have := type.afterOptional default
    have := directives.rest_lt
    omega⟩

/-- Reads definitions up to a closing token and that token. Each must have a name that none of
those before it has. -/
def distinctUntil {α : Type} [HasName α] (close : Token) (unclosed : Malformation)
    (repeated : String → Conflict)
    (item : (left : List Token) → Reading SchemaFault α left.length)
    (before : List α) (tokens : List Token) : Reading SchemaFault (List α) tokens.length :=
  match accept? close tokens with
  | some closed => .ok (closed.map fun _ => [])
  | none =>
      if tokens.isEmpty then fail (.malformed unclosed) tokens
      else do
        let first ← item tokens
        if Named.contains before (HasName.name first.value) then
          fail (.conflicting (repeated (HasName.name first.value))) first.rest
        else
          let others ← distinctUntil close unclosed repeated item (before ++ [first.value]) first.rest
          .ok ⟨first.value :: others.value, others.rest, first.after others⟩
termination_by tokens.length
decreasing_by exact first.rest_lt

def readInputValues (opening close : Token) (tokens : List Token) :
    Reading SchemaFault (List InputValueDefinition) (tokens.length + 1) :=
  match accept? opening tokens with
  | some opened => do
      let values ← distinctUntil close (.unclosedValues close) .repeatedInputValue readInputValue
        [] opened.rest
      .ok ⟨values.value, values.rest, Nat.lt_succ_of_lt (opened.after values)⟩
  | none => .ok (nothing [] tokens)

def readField (tokens : List Token) : Reading SchemaFault FieldDefinition tokens.length := do
  let description := skipDescription tokens
  let name ← readName .field description.rest
  let arguments ← readInputValues .parenOpen .parenClose name.rest
  let colon ← expectToken .colon arguments.rest
  let type ← readTypeRef colon.rest
  let directives ← skipDirectives type.rest
  .ok ⟨⟨name.value, arguments.value, type.value⟩, directives.rest, by
    have := description.rest_lt
    have := name.afterOptional arguments
    have := colon.after type
    have := directives.rest_lt
    omega⟩

def readFields (tokens : List Token) :
    Reading SchemaFault (List FieldDefinition) (tokens.length + 1) :=
  match accept? .braceOpen tokens with
  | some brace => do
      let fields ← distinctUntil .braceClose .unclosedFields .repeatedField readField [] brace.rest
      .ok ⟨fields.value, fields.rest, Nat.lt_succ_of_lt (brace.after fields)⟩
  | none => .ok (nothing [] tokens)

def readSeparated (separator : Token) (role : NameRole) (tokens : List Token) :
    Reading SchemaFault (List String) tokens.length := do
  let first ← readName role tokens
  match accept? separator first.rest with
  | none => .ok (first.map ([·]))
  | some next => do
      let others ← readSeparated separator role next.rest
      .ok ⟨first.value :: others.value, others.rest, by
        have := first.after next
        have := others.rest_lt
        omega⟩
termination_by tokens.length
decreasing_by exact first.after next

/-- Reads names like `readSeparated`, where the separator may also come before the first. -/
def readLedSeparated (separator : Token) (role : NameRole) (tokens : List Token) :
    Reading SchemaFault (List String) tokens.length := do
  let lead := eat separator tokens
  let names ← readSeparated separator role lead.rest
  .ok (names.weaken (Nat.le_of_lt_succ lead.rest_lt))

def readImplements (tokens : List Token) :
    Reading SchemaFault (List String) (tokens.length + 1) :=
  match accept? (.name "implements") tokens with
  | some keyword => do
      let names ← readLedSeparated .ampersand .interface keyword.rest
      .ok ⟨names.value, names.rest, Nat.lt_succ_of_lt (keyword.after names)⟩
  | none => .ok (nothing [] tokens)

/-- Reads root types up to the closing brace, after those that are given. -/
def readRoots (roots : RootNames) (tokens : List Token) :
    Reading SchemaFault RootNames tokens.length :=
  match tokens with
  | .braceClose :: rest => .ok ⟨roots, rest, by simp⟩
  | .name text :: rest =>
      match OperationKind.ofKeyword? text with
      | none => fail (.malformed .expectedOperationType) (.name text :: rest)
      | some kind =>
          if (roots.get? kind).isSome then fail (.conflicting .repeatedRoot) rest
          else do
            let colon ← expectToken .colon rest
            let name ← readName .type colon.rest
            let all ← readRoots (roots.set kind name.value) name.rest
            .ok ⟨all.value, all.rest, by
              have := colon.after name
              have := all.rest_lt
              simp only [List.length_cons]
              omega⟩
  | _ => fail (.malformed .expectedOperationType) tokens
termination_by tokens.length
decreasing_by
  have := colon.after name
  simp only [List.length_cons]
  omega

def readSchema (tokens : List Token) : Reading SchemaFault RootNames tokens.length := do
  let directives ← skipDirectives tokens
  let brace ← expectToken .braceOpen directives.rest
  let roots ← readRoots .empty brace.rest
  .ok (roots.weaken (by
    have := directives.rest_lt
    have := brace.rest_lt
    omega))

def readLocations (directive : String) (tokens : List Token) :
    Reading SchemaFault (List DirectiveLocation) tokens.length :=
  match tokens with
  | .name text :: rest =>
      match DirectiveLocation.ofSpelling? text with
      | none => fail (.malformed (.expectedLocation directive)) (.name text :: rest)
      | some location =>
          match accept? .pipe rest with
          | none => .ok ⟨[location], rest, rest_lt_name text rest⟩
          | some next => do
              let others ← readLocations directive next.rest
              .ok ⟨location :: others.value, others.rest, by
                have := next.after others
                simp only [List.length_cons]
                omega⟩
  | _ => fail (.malformed (.expectedLocation directive)) tokens
termination_by tokens.length
decreasing_by
  have := next.rest_lt
  simp only [List.length_cons]
  omega

def readDirectiveName (tokens : List Token) : Reading SchemaFault String tokens.length :=
  match tokens with
  | .directiveName name :: rest => .ok ⟨name, rest, rest_lt_directiveName name rest⟩
  | _ => fail (.malformed .expectedDirectiveName) tokens

/-- Reads the definition of a directive after its keyword. A location that is repeated counts
once. -/
def readDirective (tokens : List Token) :
    Reading SchemaFault DirectiveDefinition tokens.length := do
  let name ← readDirectiveName tokens
  let arguments ← readInputValues .parenOpen .parenClose name.rest
  let repeatable := eat (.name "repeatable") arguments.rest
  let on ← expectToken (.name "on") repeatable.rest
  let lead := eat .pipe on.rest
  let locations ← readLocations name.value lead.rest
  .ok ⟨⟨name.value, arguments.value, locations.value.eraseDups, repeatable.value⟩,
    locations.rest, by
      have := name.afterOptional arguments
      have := repeatable.rest_lt
      have := on.afterOptional lead
      have := locations.rest_lt
      omega⟩

def readObject (tokens : List Token) : Reading SchemaFault ObjectType tokens.length := do
  let name ← readName .type tokens
  let interfaces ← readImplements name.rest
  let directives ← skipDirectives interfaces.rest
  let fields ← readFields directives.rest
  .ok ⟨⟨name.value, fields.value, interfaces.value⟩, fields.rest, by
    have := name.afterOptional interfaces
    have := directives.rest_lt
    have := fields.rest_lt
    omega⟩

/-- Reads an interface after its keyword. Its possible types are not known yet. -/
def readInterface (tokens : List Token) : Reading SchemaFault InterfaceType tokens.length := do
  let name ← readName .interface tokens
  let interfaces ← readImplements name.rest
  let directives ← skipDirectives interfaces.rest
  let fields ← readFields directives.rest
  .ok ⟨⟨name.value, fields.value, interfaces.value, []⟩, fields.rest, by
    have := name.afterOptional interfaces
    have := directives.rest_lt
    have := fields.rest_lt
    omega⟩

def readMembers (tokens : List Token) : Reading SchemaFault (List String) (tokens.length + 1) :=
  match accept? .equal tokens with
  | some equal => do
      let names ← readLedSeparated .pipe .type equal.rest
      .ok ⟨names.value, names.rest, Nat.lt_succ_of_lt (equal.after names)⟩
  | none => .ok (nothing [] tokens)

def readUnion (tokens : List Token) : Reading SchemaFault UnionType tokens.length := do
  let name ← readName .union tokens
  let directives ← skipDirectives name.rest
  let members ← readMembers directives.rest
  .ok ⟨⟨name.value, members.value⟩, members.rest, by
    have := name.afterOptional directives
    have := members.rest_lt
    omega⟩

def readEnumValue (enum : String) (tokens : List Token) :
    Reading SchemaFault String tokens.length :=
  match tokens with
  | .name text :: rest =>
      match Value.ofName text with
      | .enum value => .ok ⟨value, rest, rest_lt_name text rest⟩
      | _ => fail (.malformed (.reservedEnumValue enum)) (.name text :: rest)
  | _ => fail (.malformed .expectedEnumValue) tokens

def readEnumValues (enum : String) (tokens : List Token) :
    Reading SchemaFault (List String) tokens.length :=
  let description := skipDescription tokens
  match accept? .braceClose description.rest with
  | some brace => .ok ⟨[], brace.rest, by
      have := description.rest_lt
      have := brace.rest_lt
      omega⟩
  | none => do
      let value ← readEnumValue enum description.rest
      let directives ← skipDirectives value.rest
      let others ← readEnumValues enum directives.rest
      .ok ⟨value.value :: others.value, others.rest, by
        have := description.rest_lt
        have := value.afterOptional directives
        have := others.rest_lt
        omega⟩
termination_by tokens.length
decreasing_by
  have := description.rest_lt
  have := value.afterOptional directives
  omega

/-- Reads an enum after its keyword. A value that is repeated counts once. -/
def readEnum (tokens : List Token) : Reading SchemaFault EnumType tokens.length := do
  let name ← readName .enum tokens
  let directives ← skipDirectives name.rest
  match accept? .braceOpen directives.rest with
  | some brace => do
      let values ← readEnumValues name.value brace.rest
      .ok ⟨⟨name.value, values.value.eraseDups⟩, values.rest, by
        have := name.afterOptional directives
        have := brace.after values
        omega⟩
  | none => .ok ⟨⟨name.value, []⟩, directives.rest, name.afterOptional directives⟩

def readInputObject (tokens : List Token) :
    Reading SchemaFault InputObjectType tokens.length := do
  let name ← readName .inputType tokens
  let directives ← skipDirectives name.rest
  let fields ← readInputValues .braceOpen .braceClose directives.rest
  .ok ⟨⟨name.value, fields.value⟩, fields.rest, by
    have := name.afterOptional directives
    have := fields.rest_lt
    omega⟩

def readScalar (tokens : List Token) : Reading SchemaFault ScalarType tokens.length := do
  let name ← readName .scalar tokens
  let directives ← skipDirectives name.rest
  .ok ⟨⟨name.value⟩, directives.rest, name.afterOptional directives⟩

def readKind (kind : TypeKind) (tokens : List Token) :
    Reading SchemaFault TypeDefinition tokens.length :=
  match kind with
  | .object => do .ok ((← readObject tokens).map .object)
  | .interface => do .ok ((← readInterface tokens).map .interface)
  | .union => do .ok ((← readUnion tokens).map .union)
  | .enum => do .ok ((← readEnum tokens).map .enum)
  | .scalar => do .ok ((← readScalar tokens).map .scalar)
  | .inputObject => do .ok ((← readInputObject tokens).map .inputObject)

def readType (tokens : List Token) : Reading SchemaFault TypeDefinition tokens.length :=
  match tokens with
  | .name keyword :: rest =>
      match TypeKind.ofKeyword? keyword with
      | some kind => do .ok ((← readKind kind rest).weaken (rest_le_name keyword rest))
      | none =>
          if keyword = "extend" then
            fail (.malformed .extensionNotSupported) (.name keyword :: rest)
          else fail (.malformed .expectedDefinition) (.name keyword :: rest)
  | _ => fail (.malformed .expectedDefinition) tokens

def addRoots (found : Definitions) (tokens : List Token) :
    Reading SchemaFault Definitions tokens.length := do
  let roots ← readSchema tokens
  .ok (roots.map fun names => { found with roots? := some names })

def addDirective (found : Definitions) (tokens : List Token) :
    Reading SchemaFault Definitions tokens.length := do
  let directive ← readDirective tokens
  if Named.contains found.directives directive.value.name then
    fail (.conflicting (.repeatedDirective directive.value.name)) directive.rest
  else
    .ok (directive.map fun definition =>
      { found with directives := found.directives ++ [definition] })

def addType (found : Definitions) (tokens : List Token) :
    Reading SchemaFault Definitions tokens.length := do
  let type ← readType tokens
  if Named.contains found.types type.value.name then
    fail (.conflicting (.repeatedType type.value.name)) type.rest
  else
    .ok (type.map fun definition => { found with types := found.types ++ [definition] })

/-- Reads one definition and adds it to those that are given. -/
def readNext (found : Definitions) (tokens : List Token) :
    Reading SchemaFault Definitions tokens.length :=
  match accept? (.name "schema") tokens with
  | some keyword =>
      if found.roots?.isSome then fail (.malformed .repeatedSchema) tokens
      else do .ok ((← addRoots found keyword.rest).weaken (Nat.le_of_lt keyword.rest_lt))
  | none =>
      match accept? (.name "directive") tokens with
      | some keyword => do
          .ok ((← addDirective found keyword.rest).weaken (Nat.le_of_lt keyword.rest_lt))
      | none => addType found tokens

def readAll (found : Definitions) (tokens : List Token) :
    Except (Failure SchemaFault) Definitions :=
  let description := skipDescription tokens
  if description.rest.isEmpty then .ok found
  else do
    let definitions ← readNext found description.rest
    readAll definitions.value definitions.rest
termination_by tokens.length
decreasing_by
  have := description.rest_lt
  have := definitions.rest_lt
  omega

def read (tokens : List Token) : Except (Failure SchemaFault) Definitions :=
  readAll ⟨none, [], []⟩ tokens

end Definitions

end QueryCheck
