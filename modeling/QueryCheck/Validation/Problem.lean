import QueryCheck.Path
import QueryCheck.Schema.Location
import QueryCheck.Syntax.Kind

/-!
# Problems

What the rules of validation find in a document. A problem belongs to one rule,
is about a node of one kind, and has one message.
-/

namespace QueryCheck

inductive Rule where
  | loneAnonymousOperation
  | uniqueOperationNames
  | uniqueFragmentNames
  | knownFragmentNames
  | uniqueArgumentNames
  | uniqueVariableNames
  | noUndefinedVariables
  | fieldsOnCorrectType
  | knownArgumentNames
  | knownDirectives
  | providedNonNullArguments
deriving DecidableEq, Repr

inductive Problem where
  | anonymousOperation
  | repeatedOperation (name : String)
  | repeatedFragment (name : String)
  | unknownFragment (name : String)
  | repeatedArgument (name : String)
  | repeatedVariable (name : String)
  | undefinedVariable (name : String) (operation? : Option String)
  | unknownField (field type : String)
  | unknownFieldArgument (argument field type : String)
  | unknownDirectiveArgument (argument directive : String)
  | unknownDirective (name : String)
  | misplacedDirective (name : String) (location : DirectiveLocation)
  | missingFieldArgument (field argument : String) (type : TypeRef)
  | missingDirectiveArgument (directive argument : String) (type : TypeRef)
deriving DecidableEq, Repr

/-- A problem and the path to the node that has it. -/
structure Finding where
  problem : Problem
  path : Path
deriving DecidableEq, Repr

structure Diagnostic where
  code : String
  message : String
  kind : NodeKind
  path : Path
deriving DecidableEq, Repr

namespace Rule

def all : List Rule :=
  [loneAnonymousOperation, uniqueOperationNames, uniqueFragmentNames, knownFragmentNames,
   uniqueArgumentNames, uniqueVariableNames, noUndefinedVariables, fieldsOnCorrectType,
   knownArgumentNames, knownDirectives, providedNonNullArguments]

def name : Rule → String
  | loneAnonymousOperation => "LoneAnonymousOperation"
  | uniqueOperationNames => "UniqueOperationNames"
  | uniqueFragmentNames => "UniqueFragmentNames"
  | knownFragmentNames => "KnownFragmentNames"
  | uniqueArgumentNames => "UniqueArgumentNames"
  | uniqueVariableNames => "UniqueVariableNames"
  | noUndefinedVariables => "NoUndefinedVariables"
  | fieldsOnCorrectType => "FieldsOnCorrectType"
  | knownArgumentNames => "KnownArgumentNames"
  | knownDirectives => "KnownDirectives"
  | providedNonNullArguments => "ProvidedNonNullArguments"

def ofName? (name : String) : Option Rule :=
  all.find? fun rule => rule.name = name

/-- The section of the specification of the query language that states a rule. -/
def code : Rule → String
  | loneAnonymousOperation => "5.1.2.1"
  | uniqueOperationNames => "5.1.1.1"
  | uniqueFragmentNames => "5.4.1.1"
  | knownFragmentNames => "5.4.2.1"
  | uniqueArgumentNames => "5.3.2"
  | uniqueVariableNames => "5.7.1"
  | noUndefinedVariables => "5.7.4"
  | fieldsOnCorrectType => "5.2.1"
  | knownArgumentNames => "5.3.1"
  | knownDirectives => "5.6.1"
  | providedNonNullArguments => "5.3.3.2"

end Rule

namespace Problem

def rule : Problem → Rule
  | anonymousOperation => .loneAnonymousOperation
  | repeatedOperation _ => .uniqueOperationNames
  | repeatedFragment _ => .uniqueFragmentNames
  | unknownFragment _ => .knownFragmentNames
  | repeatedArgument _ => .uniqueArgumentNames
  | repeatedVariable _ => .uniqueVariableNames
  | undefinedVariable _ _ => .noUndefinedVariables
  | unknownField _ _ => .fieldsOnCorrectType
  | unknownFieldArgument _ _ _ => .knownArgumentNames
  | unknownDirectiveArgument _ _ => .knownArgumentNames
  | unknownDirective _ => .knownDirectives
  | misplacedDirective _ _ => .knownDirectives
  | missingFieldArgument _ _ _ => .providedNonNullArguments
  | missingDirectiveArgument _ _ _ => .providedNonNullArguments

def kind : Problem → NodeKind
  | anonymousOperation => .operationDefinition
  | repeatedOperation _ => .operationDefinition
  | repeatedFragment _ => .fragmentDefinition
  | unknownFragment _ => .fragmentSpread
  | repeatedArgument _ => .argument
  | repeatedVariable _ => .variableDefinition
  | undefinedVariable _ _ => .argument
  | unknownField _ _ => .field
  | unknownFieldArgument _ _ _ => .argument
  | unknownDirectiveArgument _ _ => .argument
  | unknownDirective _ => .directive
  | misplacedDirective _ _ => .directive
  | missingFieldArgument _ _ _ => .field
  | missingDirectiveArgument _ _ _ => .directive

def quoted (name : String) : String :=
  "\"" ++ name ++ "\""

def message : Problem → String
  | anonymousOperation => "This anonymous operation must be the only defined operation."
  | repeatedOperation name => "There can be only one operation named " ++ quoted name ++ "."
  | repeatedFragment name => "There can be only one fragment named " ++ quoted name ++ "."
  | unknownFragment name => "Unknown fragment " ++ quoted name ++ "."
  | repeatedArgument name => "There can be only one argument named " ++ quoted name ++ "."
  | repeatedVariable name => "There can be only one variable named " ++ quoted ("$" ++ name) ++ "."
  | undefinedVariable name (some operation) =>
      "Variable " ++ quoted ("$" ++ name) ++ " is not defined by operation " ++
        quoted operation ++ "."
  | undefinedVariable name none => "Variable " ++ quoted ("$" ++ name) ++ " is not defined."
  | unknownField field type =>
      "Cannot query field " ++ quoted field ++ " on type " ++ quoted type ++ "."
  | unknownFieldArgument argument field type =>
      "Unknown argument " ++ quoted argument ++ " on field " ++ quoted field ++ " of type " ++
        quoted type ++ "."
  | unknownDirectiveArgument argument directive =>
      "Unknown argument " ++ quoted argument ++ " on directive " ++ quoted ("@" ++ directive) ++ "."
  | unknownDirective name => "Unknown directive " ++ quoted ("@" ++ name) ++ "."
  | misplacedDirective name location =>
      "Directive " ++ quoted ("@" ++ name) ++ " may not be used on " ++ location.spelling ++ "."
  | missingFieldArgument field argument type =>
      "Field " ++ quoted field ++ " argument " ++ quoted argument ++ " of type " ++
        quoted type.print ++ " is required but not provided."
  | missingDirectiveArgument directive argument type =>
      "Directive " ++ quoted directive ++ " argument " ++ quoted argument ++ " of type " ++
        quoted type.print ++ " is required but not provided."

end Problem

namespace Finding

def diagnostic (finding : Finding) : Diagnostic :=
  ⟨finding.problem.rule.code, finding.problem.message, finding.problem.kind, finding.path⟩

end Finding

end QueryCheck
