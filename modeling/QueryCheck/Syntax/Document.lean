import QueryCheck.Syntax.Selection
import QueryCheck.Syntax.TypeRef

/-!
# Documents

A document is a sequence of operations and fragment definitions.
-/

namespace QueryCheck

inductive OperationKind where
  | query
  | mutation
  | subscription
deriving DecidableEq, Repr

/-- The declaration of a variable of an operation. Its default is `null` when none is given. -/
structure VariableDefinition where
  name : String
  type : TypeRef
  default : Value
  directives : List Directive
deriving DecidableEq, Repr

structure Operation where
  kind : OperationKind
  name? : Option String
  variableDefinitions : List VariableDefinition
  directives : List Directive
  selections : List Selection
deriving DecidableEq, Repr

/-- Selections on a type that spreads refer to by name. -/
structure Fragment where
  name : String
  typeCondition : String
  directives : List Directive
  selections : List Selection
deriving DecidableEq, Repr

inductive Definition where
  | operation (operation : Operation)
  | fragment (fragment : Fragment)
deriving DecidableEq, Repr

structure Document where
  definitions : List Definition
deriving DecidableEq, Repr

namespace OperationKind

/-- All kinds of operations, in the order in which a schema lists their root types. -/
def all : List OperationKind := [query, mutation, subscription]

def name : OperationKind → String
  | query => "Query"
  | mutation => "Mutation"
  | subscription => "Subscription"

def keyword : OperationKind → String
  | query => "query"
  | mutation => "mutation"
  | subscription => "subscription"

def ofKeyword? (word : String) : Option OperationKind :=
  all.find? fun kind => kind.keyword = word

end OperationKind

namespace VariableDefinition

def declares (definitions : List VariableDefinition) (name : String) : Bool :=
  definitions.any fun definition => definition.name = name

end VariableDefinition

namespace Document

def operations (document : Document) : List Operation :=
  document.definitions.filterMap fun
    | .operation operation => some operation
    | .fragment _ => none

def fragments (document : Document) : List Fragment :=
  document.definitions.filterMap fun
    | .operation _ => none
    | .fragment fragment => some fragment

end Document

end QueryCheck
