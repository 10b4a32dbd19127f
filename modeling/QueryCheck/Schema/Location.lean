import QueryCheck.Syntax.Document

/-!
# Directive locations

The places at which a directive may be declared to be used.
-/

namespace QueryCheck

inductive DirectiveLocation where
  | query
  | mutation
  | subscription
  | field
  | fragmentDefinition
  | fragmentSpread
  | inlineFragment
  | variableDefinition
  | schema
  | scalar
  | object
  | fieldDefinition
  | argumentDefinition
  | interface
  | union
  | enum
  | enumValue
  | inputObject
  | inputFieldDefinition
deriving DecidableEq, Repr

namespace DirectiveLocation

def all : List DirectiveLocation :=
  [query, mutation, subscription, field, fragmentDefinition, fragmentSpread, inlineFragment,
   variableDefinition, schema, scalar, object, fieldDefinition, argumentDefinition, interface,
   union, enum, enumValue, inputObject, inputFieldDefinition]

def name : DirectiveLocation → String
  | query => "Query"
  | mutation => "Mutation"
  | subscription => "Subscription"
  | field => "Field"
  | fragmentDefinition => "FragmentDefinition"
  | fragmentSpread => "FragmentSpread"
  | inlineFragment => "InlineFragment"
  | variableDefinition => "VariableDefinition"
  | schema => "Schema"
  | scalar => "Scalar"
  | object => "Object"
  | fieldDefinition => "FieldDefinition"
  | argumentDefinition => "ArgumentDefinition"
  | interface => "Interface"
  | union => "Union"
  | enum => "Enum"
  | enumValue => "EnumValue"
  | inputObject => "InputObject"
  | inputFieldDefinition => "InputFieldDefinition"

def spelling : DirectiveLocation → String
  | query => "QUERY"
  | mutation => "MUTATION"
  | subscription => "SUBSCRIPTION"
  | field => "FIELD"
  | fragmentDefinition => "FRAGMENT_DEFINITION"
  | fragmentSpread => "FRAGMENT_SPREAD"
  | inlineFragment => "INLINE_FRAGMENT"
  | variableDefinition => "VARIABLE_DEFINITION"
  | schema => "SCHEMA"
  | scalar => "SCALAR"
  | object => "OBJECT"
  | fieldDefinition => "FIELD_DEFINITION"
  | argumentDefinition => "ARGUMENT_DEFINITION"
  | interface => "INTERFACE"
  | union => "UNION"
  | enum => "ENUM"
  | enumValue => "ENUM_VALUE"
  | inputObject => "INPUT_OBJECT"
  | inputFieldDefinition => "INPUT_FIELD_DEFINITION"

def ofSpelling? (spelling : String) : Option DirectiveLocation :=
  all.find? fun location => location.spelling = spelling

def ofOperation : OperationKind → DirectiveLocation
  | .query => query
  | .mutation => mutation
  | .subscription => subscription

end DirectiveLocation

end QueryCheck
