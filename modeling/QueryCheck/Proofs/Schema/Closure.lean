import Mathlib.Data.List.Nodup
import QueryCheck.Proofs.Schema.Linking

/-!
# Built-in names

A schema is closed if each name of a built-in scalar is that of a scalar, and if the arguments
of all directives are of types that can be given. Linking checks only what is declared, and it
adds a built-in definition only if its name is free. So a text can take the name of a built-in
scalar for a type of another kind, to which the built-in directives then refer. Nothing else
keeps a schema from being closed.
-/

namespace QueryCheck

def DirectiveDefinition.ClosedIn (schema : Schema) (directive : DirectiveDefinition) : Prop :=
  ∀ argument ∈ directive.arguments,
    (schema.resolve? argument.type).any TypeDefinition.isInput = true

instance (schema : Schema) (directive : DirectiveDefinition) :
    Decidable (directive.ClosedIn schema) :=
  inferInstanceAs (Decidable (∀ argument ∈ directive.arguments, _))

/-- Built-in scalars are scalars, and directives have arguments that can be given. -/
structure Schema.Closed (schema : Schema) : Prop where
  scalars : ∀ name ∈ builtinScalarNames, schema.type? name = some (.scalar ⟨name⟩)
  directives : ∀ directive ∈ schema.directives, directive.ClosedIn schema

namespace Definitions

/-- A name is not declared, or only for a type of a kind that fits. -/
def Respects (definitions : Definitions) (name : String) (fits : TypeKind → Prop) : Prop :=
  ∀ declared ∈ definitions.types, declared.name = name → fits declared.kind

instance (definitions : Definitions) (name : String) (fits : TypeKind → Prop)
    [DecidablePred fits] : Decidable (definitions.Respects name fits) :=
  inferInstanceAs (Decidable (∀ declared ∈ definitions.types, declared.name = name → _))

variable {definitions : Definitions}

theorem mem_builtinTypes {name : String} (builtin : name ∈ Schema.builtinScalarNames) :
    .scalar ⟨name⟩ ∈ Schema.builtinTypes :=
  List.mem_map_of_mem builtin

/-- Built-in directives refer to built-in scalars only. -/
theorem namedType_mem_builtinScalarNames {directive : DirectiveDefinition}
    {argument : InputValueDefinition} (builtin : directive ∈ Schema.builtinDirectives)
    (member : argument ∈ directive.arguments) :
    argument.type.namedType ∈ Schema.builtinScalarNames := by
  have all : ∀ directive ∈ Schema.builtinDirectives, ∀ argument ∈ directive.arguments,
      argument.type.namedType ∈ Schema.builtinScalarNames := by decide
  exact all directive builtin argument member

/-- What a built-in name stands for is decided by the declaration of that name, if there is one. -/
theorem names_iff_respects (distinct : Named.Distinct definitions.types) {name : String}
    (builtin : name ∈ Schema.builtinScalarNames) {fits : TypeKind → Prop} (scalar : fits .scalar) :
    definitions.Names name fits ↔ definitions.Respects name fits := by
  constructor
  · rintro ⟨type, member | ⟨_, free⟩, rfl, kind⟩ declared among same
    · obtain rfl := List.inj_on_of_nodup_map distinct among member same
      exact kind
    · exact absurd same (free declared among)
  · intro respects
    by_cases declares : ∃ declared ∈ definitions.types, declared.name = name
    · obtain ⟨declared, member, same⟩ := declares
      exact ⟨declared, .inl member, same, respects declared member same⟩
    · have free : ∀ declared ∈ definitions.types, declared.name ≠ name :=
        fun declared member same => declares ⟨declared, member, same⟩
      exact ⟨.scalar ⟨name⟩, .inr ⟨mem_builtinTypes builtin, free⟩, rfl, scalar⟩

theorem checkDirective_eq_ok_iff {schema : Schema} {directive : DirectiveDefinition} :
    checkDirective schema directive = .ok () ↔ directive.ClosedIn schema := by
  rw [checkDirective, checkAll_eq_ok_iff]
  exact forall₂_congr fun argument _ => ensure_eq_ok_iff

section Linked

variable {schema : Schema} (unlinked : definitions.Unlinked)
  (linked : definitions.link = .ok schema)
include unlinked linked

theorem type?_of_link (name : String) : schema.type? name = definitions.assemble.type? name := by
  obtain ⟨_, rfl⟩ := (link_eq_ok_iff unlinked).mp linked
  rw [Schema.type?, (withRoots_types definitions definitions.assemble).1, Schema.type?]

theorem mem_directives_of_link {directive : DirectiveDefinition} :
    directive ∈ schema.directives ↔ directive ∈ definitions.directives ∨
      (directive ∈ Schema.builtinDirectives ∧
        ∀ declared ∈ definitions.directives, declared.name ≠ directive.name) := by
  obtain ⟨_, rfl⟩ := (link_eq_ok_iff unlinked).mp linked
  rw [(withRoots_types definitions definitions.assemble).2, mem_assemble_directives unlinked]

/-- A built-in name is always that of a type. -/
theorem exists_builtin {name : String} (builtin : name ∈ Schema.builtinScalarNames) :
    ∃ type, schema.type? name = some type := by
  have known : definitions.Names name fun _ => True :=
    (names_iff_respects unlinked.types builtin trivial).mpr fun _ _ _ => trivial
  have always (type : TypeDefinition) : true = true ↔ True := iff_of_true rfl trivial
  have found := (resolves_iff unlinked always).mpr known
  obtain ⟨type, found, _⟩ := (Option.any_eq_true _ _).mp found
  exact ⟨type, (type?_of_link unlinked linked name).trans found⟩

/-- A built-in name is that of the built-in scalar unless another kind of type is declared. -/
theorem builtin_iff_respects {name : String} (builtin : name ∈ Schema.builtinScalarNames) :
    schema.type? name = some (.scalar ⟨name⟩) ↔ definitions.Respects name (· = .scalar) := by
  have found : (definitions.assemble.type? name).any (·.kind = .scalar) = true ↔
      definitions.Names name (· = .scalar) :=
    resolves_iff unlinked fun type => decide_eq_true_iff
  have respects : definitions.Names name (· = .scalar) ↔ definitions.Respects name (· = .scalar) :=
    names_iff_respects unlinked.types builtin rfl
  rw [type?_of_link unlinked linked, ← respects, ← found, Option.any_eq_true]
  constructor
  · intro isScalar
    exact ⟨_, isScalar, rfl⟩
  · rintro ⟨type, isType, kind⟩
    have called := ((assemble_type?_eq_some_iff unlinked).mp isType).2
    cases type with
    | scalar type => rw [isType, ← called]; rfl
    | _ => cases of_decide_eq_true kind

theorem closedIn_iff_names {directive : DirectiveDefinition} :
    directive.ClosedIn schema ↔
      ∀ argument ∈ directive.arguments, definitions.Names argument.type.namedType IsInputKind := by
  rw [← checkDirective_iff unlinked, checkDirective_eq_ok_iff]
  refine forall₂_congr fun argument _ => ?_
  rw [Schema.resolve?, type?_of_link unlinked linked, Schema.resolve?]

/-- The arguments of a directive can be given if it is declared, or if the names of built-in
scalars in it are respected. -/
theorem closedIn_iff {directive : DirectiveDefinition} (member : directive ∈ schema.directives) :
    directive.ClosedIn schema ↔ directive ∈ definitions.directives ∨
      ∀ argument ∈ directive.arguments,
        definitions.Respects argument.type.namedType IsInputKind := by
  obtain ⟨wellLinked, _⟩ := (link_eq_ok_iff unlinked).mp linked
  rw [closedIn_iff_names unlinked linked]
  -- Linking has checked a declared directive. A built-in one was not checked.
  rcases (mem_directives_of_link unlinked linked).mp member with declared | ⟨builtin, free⟩
  · exact iff_of_true (wellLinked.directives directive declared) (.inl declared)
  · have undeclared : directive ∉ definitions.directives :=
      fun declared => free directive declared rfl
    rw [or_iff_right undeclared]
    refine forall₂_congr fun argument member => ?_
    exact names_iff_respects unlinked.types
      (namedType_mem_builtinScalarNames builtin member) (.inl rfl)

theorem closed_iff_respects :
    schema.Closed ↔
      ∀ name ∈ Schema.builtinScalarNames, definitions.Respects name (· = .scalar) := by
  constructor
  · intro closed name builtin
    exact (builtin_iff_respects unlinked linked builtin).mp (closed.scalars name builtin)
  · intro respects
    refine ⟨fun name builtin => ?_, fun directive member => ?_⟩
    · exact (builtin_iff_respects unlinked linked builtin).mpr (respects name builtin)
    · rw [closedIn_iff unlinked linked member]
      refine ((mem_directives_of_link unlinked linked).mp member).imp_right ?_
      rintro ⟨builtin, _⟩ argument among declared isDeclared called
      exact .inl (respects _ (namedType_mem_builtinScalarNames builtin among) declared isDeclared
        called)

end Linked

end Definitions

namespace Schema

/-- When the schema of a text is closed. The names of built-in scalars are always known. They are
those of the built-in scalars, and the arguments of undeclared directives can be given, as far as
these names are not declared for types of other kinds. -/
theorem closed_iff {text : String} {schema : Schema} (parsed : parse text = .ok schema) :
    ∃ definitions, Definitions.read (tokens text.toList) = .ok definitions ∧
      (schema.Closed ↔ ∀ name ∈ builtinScalarNames, definitions.Respects name (· = .scalar)) ∧
      (∀ name ∈ builtinScalarNames, (∃ type, schema.type? name = some type) ∧
        (schema.type? name = some (.scalar ⟨name⟩) ↔
          definitions.Respects name (· = .scalar))) ∧
      ∀ directive ∈ schema.directives, directive.ClosedIn schema ↔
        directive ∈ definitions.directives ∨ ∀ argument ∈ directive.arguments,
          definitions.Respects argument.type.namedType Definitions.IsInputKind := by
  obtain ⟨definitions, read, linked⟩ := parse_eq_ok_iff.mp parsed
  have unlinked := Definitions.unlinked_of_read read
  refine ⟨definitions, read, Definitions.closed_iff_respects unlinked linked, ?_, ?_⟩
  · intro name builtin
    exact ⟨Definitions.exists_builtin unlinked linked builtin,
      Definitions.builtin_iff_respects unlinked linked builtin⟩
  · intro directive member
    exact Definitions.closedIn_iff unlinked linked member

/-- A text that declares the name of a built-in scalar and that of a built-in directive again. -/
def sampleRedeclaring : String :=
  "scalar Boolean directive @skip(unless: [Boolean!], by: E) on FIELD enum E \x7b A \x7d"

theorem closed_iff_sampleRedeclaring :
    ∃ schema, parse sampleRedeclaring = .ok schema ∧ schema.Closed := by
  have read : Definitions.read (tokens sampleRedeclaring.toList) =
      .ok ⟨none, [.scalar ⟨"Boolean"⟩, .enum ⟨"E", ["A"]⟩],
        [⟨"skip", [⟨"unless", .list (.nonNull (.named "Boolean")), none⟩, ⟨"by", .named "E", none⟩],
          [.field], false⟩]⟩ := by
    decide +kernel
  obtain ⟨schema, parsed⟩ : ∃ schema, parse sampleRedeclaring = .ok schema :=
    ⟨_, parse_eq_ok_iff.mpr ⟨_, read, rfl⟩⟩
  obtain ⟨definitions, given, closed, _⟩ := closed_iff parsed
  rw [read] at given
  cases given
  exact ⟨schema, parsed, closed.mpr (by decide)⟩

/-- A text can take the name of a built-in scalar for an object type. Then built-in directives have
arguments that can not be given. -/
theorem not_closed_of_taken_name :
    ∃ schema, parse "type Boolean \x7b a: Int \x7d" = .ok schema ∧ ¬schema.Closed ∧
      conditionDirective "skip" ∈ schema.directives ∧
      ¬(conditionDirective "skip").ClosedIn schema := by
  have read : Definitions.read (tokens "type Boolean \x7b a: Int \x7d".toList) =
      .ok ⟨none, [.object ⟨"Boolean", [⟨"a", [], .named "Int"⟩], []⟩], []⟩ := by
    decide +kernel
  refine ⟨_, parse_eq_ok_iff.mpr ⟨_, read, rfl⟩, fun closed => ?_, ?_, ?_⟩
  · cases closed.scalars "Boolean" (by decide)
  · decide
  · decide

end Schema

end QueryCheck
