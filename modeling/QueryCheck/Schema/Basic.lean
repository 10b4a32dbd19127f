import QueryCheck.Named
import QueryCheck.Schema.Location

/-!
# Schemas

A schema holds the definitions of types and directives, and the object types at
which operations start. Types refer to one another by name.
-/

namespace QueryCheck

/-- The definition of an argument or of a field of an input object. -/
structure InputValueDefinition where
  name : String
  type : TypeRef
  default? : Option Value
deriving DecidableEq, Repr

structure FieldDefinition where
  name : String
  arguments : List InputValueDefinition
  type : TypeRef
deriving DecidableEq, Repr

structure ObjectType where
  name : String
  fields : List FieldDefinition
  interfaces : List String
deriving DecidableEq, Repr

/-- Fields that other types have. Its possible types are the names of those types. -/
structure InterfaceType where
  name : String
  fields : List FieldDefinition
  interfaces : List String
  possibleTypes : List String
deriving DecidableEq, Repr

structure UnionType where
  name : String
  possibleTypes : List String
deriving DecidableEq, Repr

structure EnumType where
  name : String
  values : List String
deriving DecidableEq, Repr

structure ScalarType where
  name : String
deriving DecidableEq, Repr

structure InputObjectType where
  name : String
  fields : List InputValueDefinition
deriving DecidableEq, Repr

inductive TypeDefinition where
  | object (type : ObjectType)
  | interface (type : InterfaceType)
  | union (type : UnionType)
  | enum (type : EnumType)
  | scalar (type : ScalarType)
  | inputObject (type : InputObjectType)
deriving DecidableEq, Repr

inductive TypeKind where
  | object
  | interface
  | union
  | enum
  | scalar
  | inputObject
deriving DecidableEq, Repr

structure DirectiveDefinition where
  name : String
  arguments : List InputValueDefinition
  locations : List DirectiveLocation
  isRepeatable : Bool
deriving DecidableEq, Repr

/-- The definitions that documents are checked against. -/
structure Schema where
  query? : Option ObjectType
  mutation? : Option ObjectType
  subscription? : Option ObjectType
  types : List TypeDefinition
  directives : List DirectiveDefinition
deriving DecidableEq, Repr

namespace TypeKind

def all : List TypeKind := [object, interface, union, enum, scalar, inputObject]

def name : TypeKind → String
  | object => "Object"
  | interface => "Interface"
  | union => "Union"
  | enum => "Enum"
  | scalar => "Scalar"
  | inputObject => "InputObject"

def keyword : TypeKind → String
  | object => "type"
  | interface => "interface"
  | union => "union"
  | enum => "enum"
  | scalar => "scalar"
  | inputObject => "input"

def ofKeyword? (word : String) : Option TypeKind :=
  all.find? fun kind => kind.keyword = word

end TypeKind

namespace TypeDefinition

def name : TypeDefinition → String
  | object type => type.name
  | interface type => type.name
  | union type => type.name
  | enum type => type.name
  | scalar type => type.name
  | inputObject type => type.name

def kind : TypeDefinition → TypeKind
  | object _ => .object
  | interface _ => .interface
  | union _ => .union
  | enum _ => .enum
  | scalar _ => .scalar
  | inputObject _ => .inputObject

end TypeDefinition

instance : HasName InputValueDefinition := ⟨InputValueDefinition.name⟩
instance : HasName FieldDefinition := ⟨FieldDefinition.name⟩
instance : HasName TypeDefinition := ⟨TypeDefinition.name⟩
instance : HasName DirectiveDefinition := ⟨DirectiveDefinition.name⟩

namespace TypeDefinition

/-- Whether a type has selections. -/
def isComposite : TypeDefinition → Bool
  | object _ | interface _ | union _ => true
  | _ => false

/-- Whether values of a type can be given to arguments. -/
def isInput : TypeDefinition → Bool
  | scalar _ | enum _ | inputObject _ => true
  | _ => false

def isOutput : TypeDefinition → Bool
  | inputObject _ => false
  | _ => true

def isObject : TypeDefinition → Bool
  | object _ => true
  | _ => false

def isInterface : TypeDefinition → Bool
  | interface _ => true
  | _ => false

def isUnion : TypeDefinition → Bool
  | union _ => true
  | _ => false

def isInputObject : TypeDefinition → Bool
  | inputObject _ => true
  | _ => false

/-- The fields of an object type or an interface. Other types have none. -/
def fields : TypeDefinition → List FieldDefinition
  | object type => type.fields
  | interface type => type.fields
  | _ => []

def interfaces : TypeDefinition → List String
  | object type => type.interfaces
  | interface type => type.interfaces
  | _ => []

def field? (type : TypeDefinition) (name : String) : Option FieldDefinition :=
  Named.find? type.fields name

end TypeDefinition

namespace FieldDefinition

def argument? (field : FieldDefinition) (name : String) : Option InputValueDefinition :=
  Named.find? field.arguments name

end FieldDefinition

namespace DirectiveDefinition

def argument? (directive : DirectiveDefinition) (name : String) : Option InputValueDefinition :=
  Named.find? directive.arguments name

def allows (directive : DirectiveDefinition) (location : DirectiveLocation) : Bool :=
  directive.locations.contains location

end DirectiveDefinition

namespace Schema

def empty : Schema := ⟨none, none, none, [], []⟩

def isEmpty (schema : Schema) : Bool :=
  schema.types.isEmpty && schema.directives.isEmpty && schema.query?.isNone &&
    schema.mutation?.isNone && schema.subscription?.isNone

def type? (schema : Schema) (name : String) : Option TypeDefinition :=
  Named.find? schema.types name

def directive? (schema : Schema) (name : String) : Option DirectiveDefinition :=
  Named.find? schema.directives name

/-- The type that a reference names inside its wrappers. -/
def resolve? (schema : Schema) (type : TypeRef) : Option TypeDefinition :=
  schema.type? type.namedType

def composite? (schema : Schema) (name : String) : Option TypeDefinition :=
  (schema.type? name).filter TypeDefinition.isComposite

/-- The object type at which operations of a kind start. -/
def root? (schema : Schema) : OperationKind → Option ObjectType
  | .query => schema.query?
  | .mutation => schema.mutation?
  | .subscription => schema.subscription?

def setRoot (schema : Schema) (kind : OperationKind) (type : ObjectType) : Schema :=
  match kind with
  | .query => { schema with query? := some type }
  | .mutation => { schema with mutation? := some type }
  | .subscription => { schema with subscription? := some type }

/-- Adds a type in place of the one with its name. -/
def addType (schema : Schema) (type : TypeDefinition) : Schema :=
  { schema with types := Named.insert schema.types type }

def addDirective (schema : Schema) (directive : DirectiveDefinition) : Schema :=
  { schema with directives := Named.insert schema.directives directive }

end Schema

end QueryCheck
