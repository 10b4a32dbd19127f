import QueryCheck.Schema.Builtin
import QueryCheck.Schema.Definitions

/-!
# Linking definitions into a schema

Interfaces get the names of the types that implement them. Then every reference
from one definition to a type is checked: types in source order, then the
directives that the text declares, then the root types.
-/

namespace QueryCheck.Definitions

/-- The places of types by name. Of several types with one name the last is found. -/
def places (types : List TypeDefinition) : List (String × Nat) :=
  types.zipIdx.foldl (fun places entry => (entry.1.name, entry.2) :: places) []

/-- A link for each interface that a type implements: where the interface stands, and the name of
the type. Names that are not declared have no link. -/
def links (types : List TypeDefinition) : List (Nat × String) :=
  let index := places types
  types.flatMap fun type =>
    type.interfaces.filterMap fun interface =>
      (index.lookup interface).map fun place => (place, type.name)

def addPossibleType (name : String) : TypeDefinition → TypeDefinition
  | .interface type => .interface { type with possibleTypes := type.possibleTypes ++ [name] }
  | other => other

/-- Adds every object and interface to the possible types of the interfaces it implements. -/
def linkPossibleTypes (types : List TypeDefinition) : List TypeDefinition :=
  (links types).foldl (fun linked link => linked.modify link.1 (addPossibleType link.2)) types

/-- The schema of all definitions, before any reference is checked. -/
def assemble (definitions : Definitions) : Schema :=
  Schema.addBuiltins
    { Schema.empty with
      types := linkPossibleTypes definitions.types
      directives := definitions.directives }

def checkAll {α : Type} (check : α → Except Conflict Unit) : List α → Except Conflict Unit
  | [] => .ok ()
  | item :: items => do
      check item
      checkAll check items

def ensure (condition : Bool) (conflict : Conflict) : Except Conflict Unit :=
  if condition then .ok () else .error conflict

def checkInputValue (schema : Schema) (owner : InputOwner) (value : InputValueDefinition) :
    Except Conflict Unit :=
  ensure ((schema.resolve? value.type).any TypeDefinition.isInput)
    (.inputValueType value.name owner value.type)

/-- Checks that the type of a field can be returned, and its arguments. -/
def checkField (schema : Schema) (owner : String) (field : FieldDefinition) :
    Except Conflict Unit := do
  ensure ((schema.resolve? field.type).any TypeDefinition.isOutput)
    (.fieldType field.name owner field.type)
  checkAll (checkInputValue schema (.field field.name)) field.arguments

def checkInterface (schema : Schema) (owner : String) (name : String) : Except Conflict Unit :=
  ensure ((schema.type? name).any TypeDefinition.isInterface) (.unknownInterface name owner)

def checkMember (schema : Schema) (owner : String) (name : String) : Except Conflict Unit :=
  ensure ((schema.type? name).any TypeDefinition.isObject) (.unionMember name owner)

def checkType (schema : Schema) : TypeDefinition → Except Conflict Unit
  | .object type => do
      checkAll (checkField schema type.name) type.fields
      checkAll (checkInterface schema type.name) type.interfaces
  | .interface type => do
      checkAll (checkField schema type.name) type.fields
      checkAll (checkInterface schema type.name) type.interfaces
  | .union type => checkAll (checkMember schema type.name) type.possibleTypes
  | .inputObject type => checkAll (checkInputValue schema (.inputType type.name)) type.fields
  | .scalar _ | .enum _ => .ok ()

def checkDirective (schema : Schema) (directive : DirectiveDefinition) : Except Conflict Unit :=
  checkAll (checkInputValue schema (.directive directive.name)) directive.arguments

/-- Sets the root type of a kind of operation. A missing type is a conflict only if its name was
given explicitly. -/
def linkRoot (explicit : Bool) (name? : Option String) (kind : OperationKind) (schema : Schema) :
    Except Conflict Schema :=
  match name? with
  | none => .ok schema
  | some name =>
      match schema.type? name with
      | some (.object type) => .ok (schema.setRoot kind type)
      | some _ => .error (.rootNotObject name)
      | none => if explicit then .error (.rootMissing name) else .ok schema

def linkRoots (roots? : Option RootNames) (schema : Schema) : Except Conflict Schema := do
  let roots := roots?.getD .default
  let withQuery ← linkRoot roots?.isSome roots.query? .query schema
  let withMutation ← linkRoot roots?.isSome roots.mutation? .mutation withQuery
  linkRoot roots?.isSome roots.subscription? .subscription withMutation

def link (definitions : Definitions) : Except Conflict Schema := do
  let schema := definitions.assemble
  checkAll (checkType schema) definitions.types
  checkAll (checkDirective schema) definitions.directives
  linkRoots definitions.roots? schema

end QueryCheck.Definitions
