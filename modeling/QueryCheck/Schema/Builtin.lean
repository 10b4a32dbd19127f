import QueryCheck.Schema.Basic

/-!
# Built-in definitions

Every schema that is read from a text has these scalars and directives, unless
it declares others of the same names.
-/

namespace QueryCheck.Schema

def builtinScalarNames : List String := ["String", "Int", "Float", "Boolean", "ID"]

def builtinTypes : List TypeDefinition :=
  builtinScalarNames.map fun name => .scalar ⟨name⟩

/-- A directive that decides whether a selection is taken. -/
def conditionDirective (name : String) : DirectiveDefinition :=
  ⟨name, [⟨"if", .nonNull (.named "Boolean"), none⟩], [.field, .fragmentSpread, .inlineFragment],
    false⟩

def deprecatedDirective : DirectiveDefinition :=
  ⟨"deprecated", [⟨"reason", .named "String", some (.string "No longer supported")⟩],
    [.fieldDefinition, .argumentDefinition, .inputFieldDefinition, .enumValue], false⟩

def specifiedByDirective : DirectiveDefinition :=
  ⟨"specifiedBy", [⟨"url", .nonNull (.named "String"), none⟩], [.scalar], false⟩

def builtinDirectives : List DirectiveDefinition :=
  [conditionDirective "skip", conditionDirective "include", deprecatedDirective,
   specifiedByDirective]

/-- Adds the built-in definitions whose names are free. -/
def addBuiltins (schema : Schema) : Schema :=
  { schema with
    types := builtinTypes.foldl Named.insertNew schema.types
    directives := builtinDirectives.foldl Named.insertNew schema.directives }

end QueryCheck.Schema
