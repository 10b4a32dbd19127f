import QueryCheck.Traversal.Composite
import QueryCheck.Validation.Rule.Arguments
import QueryCheck.Validation.Rule.Directives
import QueryCheck.Validation.Rule.Fields
import QueryCheck.Validation.Rule.Fragments
import QueryCheck.Validation.Rule.Operations
import QueryCheck.Validation.Rule.Variables

/-!
# Sets of rules

Rules run side by side. A set of rules is a binary tree, whose leaves are called
from left to right at each event.
-/

namespace QueryCheck

inductive RuleState where
  | loneAnonymousOperation (operations : Nat)
  | uniqueOperationNames (used : List String)
  | uniqueFragmentNames (used : List String)
  | knownFragmentNames (known : List String)
  | uniqueArgumentNames (used : List String)
  | uniqueVariableNames (used : List String)
  | noUndefinedVariables (uses : NoUndefinedVariables.State)
  | fieldsOnCorrectType
  | knownArgumentNames
  | knownDirectives (locations : List DirectiveLocation)
  | providedNonNullArguments
deriving DecidableEq, Repr

inductive RuleSet where
  | rule (rule : Rule)
  | both (first second : RuleSet)
deriving DecidableEq, Repr

namespace RuleState

def start : Rule → RuleState
  | .loneAnonymousOperation => loneAnonymousOperation 0
  | .uniqueOperationNames => uniqueOperationNames []
  | .uniqueFragmentNames => uniqueFragmentNames []
  | .knownFragmentNames => knownFragmentNames []
  | .uniqueArgumentNames => uniqueArgumentNames []
  | .uniqueVariableNames => uniqueVariableNames []
  | .noUndefinedVariables => noUndefinedVariables .start
  | .fieldsOnCorrectType => fieldsOnCorrectType
  | .knownArgumentNames => knownArgumentNames
  | .knownDirectives => knownDirectives []
  | .providedNonNullArguments => providedNonNullArguments

def visitor (types : TypeInfo) : Visitor RuleState Finding
  | event, loneAnonymousOperation state =>
      (LoneAnonymousOperation.visitor event state).map loneAnonymousOperation
  | event, uniqueOperationNames state =>
      (UniqueOperationNames.visitor event state).map uniqueOperationNames
  | event, uniqueFragmentNames state =>
      (UniqueFragmentNames.visitor event state).map uniqueFragmentNames
  | event, knownFragmentNames state =>
      (KnownFragmentNames.visitor event state).map knownFragmentNames
  | event, uniqueArgumentNames state =>
      (UniqueArgumentNames.visitor event state).map uniqueArgumentNames
  | event, uniqueVariableNames state =>
      (UniqueVariableNames.visitor event state).map uniqueVariableNames
  | event, noUndefinedVariables state =>
      (NoUndefinedVariables.visitor event state).map noUndefinedVariables
  | event, fieldsOnCorrectType =>
      (FieldsOnCorrectType.visitor types event ()).map fun _ => fieldsOnCorrectType
  | event, knownArgumentNames =>
      (KnownArgumentNames.visitor types event ()).map fun _ => knownArgumentNames
  | event, knownDirectives state =>
      (KnownDirectives.visitor types event state).map knownDirectives
  | event, providedNonNullArguments =>
      (ProvidedNonNullArguments.visitor types event ()).map fun _ => providedNonNullArguments

end RuleState

namespace RuleSet

def rules : RuleSet → List Rule
  | rule single => [single]
  | both first second => first.rules ++ second.rules

def start : RuleSet → Composite RuleState
  | rule single => .single (.start single)
  | both first second => first.start.compose second.start

def schemaFree : RuleSet :=
  .both
    (.both
      (.both (.rule .loneAnonymousOperation) (.rule .uniqueOperationNames))
      (.both (.rule .uniqueFragmentNames) (.rule .knownFragmentNames)))
    (.both
      (.both (.rule .uniqueArgumentNames) (.rule .uniqueVariableNames))
      (.rule .noUndefinedVariables))

/-- The rules that compare a document with a schema. -/
def schemaBased : RuleSet :=
  .both
    (.both (.rule .fieldsOnCorrectType) (.rule .knownArgumentNames))
    (.both (.rule .knownDirectives) (.rule .providedNonNullArguments))

def all : RuleSet := .both schemaFree schemaBased

end RuleSet

end QueryCheck
