import QueryCheck.Schema.Basic
import QueryCheck.Syntax.Kind
import QueryCheck.Token

/-!
# Faults of schema texts

A schema text may be malformed, in which case the fault has a place in the text.
Its definitions may also repeat a name or refer to types that do not fit, in
which case it has none.
-/

namespace QueryCheck

/-- What a name in a schema text is for. -/
inductive NameRole where
  | inputValue
  | field
  | interface
  | type
  | union
  | enum
  | inputType
  | scalar
deriving DecidableEq, Repr

inductive Malformation where
  | expectedToken (token : Token)
  | expectedName (role : NameRole)
  | expectedType
  | unterminatedList
  | unclosedValues (close : Token)
  | unclosedFields
  | expectedOperationType
  | expectedDirectiveName
  | expectedLocation (directive : String)
  | reservedEnumValue (enum : String)
  | expectedEnumValue
  | extensionNotSupported
  | expectedDefinition
  | repeatedSchema
  | invalidNode (kind : NodeKind)
deriving DecidableEq, Repr

inductive InputOwner where
  | field (name : String)
  | inputType (name : String)
  | directive (name : String)
deriving DecidableEq, Repr

inductive Conflict where
  | repeatedInputValue (name : String)
  | repeatedField (name : String)
  | repeatedRoot
  | repeatedDirective (name : String)
  | repeatedType (name : String)
  | fieldType (field type : String) (given : TypeRef)
  | inputValueType (name : String) (owner : InputOwner) (given : TypeRef)
  | unknownInterface (name type : String)
  | unionMember (name union : String)
  | rootNotObject (name : String)
  | rootMissing (name : String)
deriving DecidableEq, Repr

inductive SchemaFault where
  | malformed (malformation : Malformation)
  | conflicting (conflict : Conflict)
deriving DecidableEq, Repr

namespace NameRole

def label : NameRole → String
  | inputValue => "input value"
  | field => "field"
  | interface => "interface"
  | type => "type"
  | union => "union"
  | enum => "enum"
  | inputType => "input type"
  | scalar => "scalar"

end NameRole

namespace Malformation

/-- The message about a malformed text that goes on with the given tokens. -/
def message (left : List Token) : Malformation → String
  | expectedToken token => "Expected " ++ token.describe ++ ", got " ++ found
  | expectedName role => "Expected " ++ role.label ++ " name, got " ++ found
  | expectedType => "Expected type name or list type start `[`, got " ++ found
  | unterminatedList => "Unterminated list type"
  | unclosedValues close => "Expected " ++ close.describe ++ ", got end of input"
  | unclosedFields => "Expected `\x7d`, got end of input"
  | expectedOperationType => "Expected operation type, got " ++ found
  | expectedDirectiveName => "Expected directive name, got " ++ found
  | expectedLocation directive => "Expected a directive location on `@" ++ directive ++ "`"
  | reservedEnumValue enum => "Enum `" ++ enum ++ "` must not define a boolean or null value"
  | expectedEnumValue => "Expected either `\x7d` or an enum value, got " ++ found
  | extensionNotSupported => "Type system extensions are not supported"
  | expectedDefinition => "Expected a type definition, got " ++ found
  | repeatedSchema => "Must not specify more than one Schema Definition."
  | invalidNode kind => kind.invalidMessage
where
  found : String := Token.describe? left.head?

end Malformation

namespace InputOwner

def label : InputOwner → String
  | field name => "field `" ++ name ++ "`"
  | inputType name => "input type `" ++ name ++ "`"
  | directive name => "directive `" ++ name ++ "`"

end InputOwner

namespace Conflict

def message : Conflict → String
  | repeatedInputValue name => "Input value `" ++ name ++ "` must not be defined more than once."
  | repeatedField name => "Field `" ++ name ++ "` must not be defined more than once."
  | repeatedRoot => "Root operation types must not be defined more than once."
  | repeatedDirective name => "There can be only one directive named `@" ++ name ++ "`."
  | repeatedType name => "There can be only one type named `" ++ name ++ "`."
  | fieldType field type given =>
      "Field `" ++ field ++ "` of type `" ++ type ++ "` has an invalid type `" ++ given.print ++ "`."
  | inputValueType name owner given =>
      "Input value `" ++ name ++ "` on " ++ owner.label ++ " has an invalid type `" ++
        given.print ++ "`."
  | unknownInterface name type =>
      "Interface `" ++ name ++ "` on type `" ++ type ++ "` does not exist."
  | unionMember name union =>
      "Type `" ++ name ++ "` on union `" ++ union ++ "` must be an object type."
  | rootNotObject name => "Root type `" ++ name ++ "` must be an object type."
  | rootMissing name => "Root type `" ++ name ++ "` does not exist."

/-- A message about definitions as an error shows it. -/
def titled (message : String) : String :=
  "Validation error: " ++ message

end Conflict

end QueryCheck
