/-!
# Kinds of nodes

Every part of a document has a kind. Errors name it.
-/

namespace QueryCheck

inductive NodeKind where
  | definition
  | document
  | operationDefinition
  | operationKind
  | fragmentDefinition
  | variableDefinitions
  | variableDefinition
  | typeRef
  | namedType
  | listType
  | nonNullType
  | field
  | fragmentSpread
  | inlineFragment
  | selectionSet
  | selection
  | directives
  | directive
  | arguments
  | argument
  | object
  | objectField
  | value
  | variableUse
  | string
  | float
  | int
  | boolean
  | enum
  | list
deriving DecidableEq, Repr

namespace NodeKind

def all : List NodeKind :=
  [definition, document, operationDefinition, operationKind, fragmentDefinition,
   variableDefinitions, variableDefinition, typeRef, namedType, listType, nonNullType, field,
   fragmentSpread, inlineFragment, selectionSet, selection, directives, directive, arguments,
   argument, object, objectField, value, variableUse, string, float, int, boolean, enum, list]

/-- The identifier of a kind in reports. -/
def name : NodeKind → String
  | definition => "Definition"
  | document => "Document"
  | operationDefinition => "OperationDefinition"
  | operationKind => "OperationKind"
  | fragmentDefinition => "FragmentDefinition"
  | variableDefinitions => "VariableDefinitions"
  | variableDefinition => "VariableDefinition"
  | typeRef => "Type"
  | namedType => "NamedType"
  | listType => "ListType"
  | nonNullType => "NonNullType"
  | field => "Field"
  | fragmentSpread => "FragmentSpread"
  | inlineFragment => "InlineFragment"
  | selectionSet => "SelectionSet"
  | selection => "Selection"
  | directives => "Directives"
  | directive => "Directive"
  | arguments => "Arguments"
  | argument => "Argument"
  | object => "Object"
  | objectField => "ObjectField"
  | value => "Value"
  | variableUse => "Variable"
  | string => "String"
  | float => "Float"
  | int => "Int"
  | boolean => "Boolean"
  | enum => "Enum"
  | list => "List"

/-- The words for a kind in messages. -/
def label : NodeKind → String
  | operationDefinition => "Operation Definition"
  | operationKind => "Operation Kind"
  | fragmentDefinition => "Fragment Definition"
  | variableDefinitions => "Variable Definitions"
  | variableDefinition => "Variable Definition"
  | namedType => "Type Name"
  | listType => "List Type"
  | nonNullType => "Non-null Type"
  | fragmentSpread => "Fragment Spread"
  | inlineFragment => "Inline Fragment"
  | selectionSet => "Selection Set"
  | objectField => "Object Field"
  | int => "Integer"
  | kind => kind.name

def ofName? (name : String) : Option NodeKind :=
  all.find? fun kind => kind.name = name

def invalidMessage (kind : NodeKind) : String :=
  "Invalid " ++ kind.label

end NodeKind

end QueryCheck
