import QueryCheck.Proofs.Schema.PossibleTypes
import QueryCheck.Proofs.Schema.Texts
import QueryCheck.Schema.Source

/-!
# Linking definitions

Definitions are linked into a schema exactly if every name in them that should be that of a
type is the name of one of the right kind. The schema then holds what is declared and the
built-in definitions whose names are free, each under its own name.

What can be linked is said of the definitions alone. A reference is good if some type that is
known has its name and is of a kind that fits.
-/

namespace QueryCheck

namespace Definitions

/-- What is true of definitions that are read from a text: names are distinct, and interfaces have
no possible types yet. -/
structure Unlinked (definitions : Definitions) : Prop where
  types : Named.Distinct definitions.types
  directives : Named.Distinct definitions.directives
  interfaces : ∀ type, .interface type ∈ definitions.types → type.possibleTypes = []

/-- A type that is declared, or a built-in type whose name is not declared. -/
def Knows (definitions : Definitions) (type : TypeDefinition) : Prop :=
  type ∈ definitions.types ∨
    (type ∈ Schema.builtinTypes ∧ ∀ declared ∈ definitions.types, declared.name ≠ type.name)

/-- A name is that of a known type of a kind that fits. -/
def Names (definitions : Definitions) (name : String) (fits : TypeKind → Prop) : Prop :=
  ∃ type, definitions.Knows type ∧ type.name = name ∧ fits type.kind

def IsInputKind (kind : TypeKind) : Prop :=
  kind = .scalar ∨ kind = .enum ∨ kind = .inputObject

/-- The name of the root type of a kind of operation, which is a default if none are given. -/
def rootName? (definitions : Definitions) (kind : OperationKind) : Option String :=
  (definitions.roots?.getD .default).get? kind

/-- Every reference from one definition to another is good. -/
structure WellLinked (definitions : Definitions) : Prop where
  fields : ∀ type ∈ definitions.types, ∀ field ∈ type.fields,
    definitions.Names field.type.namedType (· ≠ .inputObject)
  arguments : ∀ type ∈ definitions.types, ∀ field ∈ type.fields, ∀ argument ∈ field.arguments,
    definitions.Names argument.type.namedType IsInputKind
  inputFields : ∀ type, .inputObject type ∈ definitions.types → ∀ field ∈ type.fields,
    definitions.Names field.type.namedType IsInputKind
  directives : ∀ directive ∈ definitions.directives, ∀ argument ∈ directive.arguments,
    definitions.Names argument.type.namedType IsInputKind
  interfaces : ∀ type ∈ definitions.types, ∀ name ∈ type.interfaces,
    definitions.Names name (· = .interface)
  members : ∀ type, .union type ∈ definitions.types → ∀ name ∈ type.possibleTypes,
    definitions.Names name (· = .object)
  roots : ∀ kind name, definitions.rootName? kind = some name →
    definitions.Names name (· = .object) ∨
      (definitions.roots? = none ∧ ¬definitions.Names name fun _ => True)

/-- Who says to implement what, in source order: an interface and a type. -/
def mentions (definitions : Definitions) : List (String × String) :=
  definitions.types.flatMap fun type => type.interfaces.map fun interface => (interface, type.name)

/-- A type as a schema holds it. The possible types of an interface are those that say to implement
it, in source order and once for each time. -/
def linkType (definitions : Definitions) : TypeDefinition → TypeDefinition
  | .interface type => .interface { type with
      possibleTypes := (definitions.mentions.filter fun mention => mention.1 = type.name).map
        Prod.snd }
  | other => other

/-- A schema holds exactly the definitions, and the built-in ones whose names are free, each under
its own name. A root type is the object type under its name. -/
structure Links (definitions : Definitions) (schema : Schema) : Prop where
  types : ∀ type, type ∈ schema.types ↔
    (∃ declared ∈ definitions.types, type = definitions.linkType declared) ∨
      (type ∈ Schema.builtinTypes ∧ ∀ declared ∈ definitions.types, declared.name ≠ type.name)
  directives : ∀ directive, directive ∈ schema.directives ↔
    directive ∈ definitions.directives ∨ (directive ∈ Schema.builtinDirectives ∧
      ∀ declared ∈ definitions.directives, declared.name ≠ directive.name)
  distinct : Named.Distinct schema.types ∧ Named.Distinct schema.directives
  typeNames : ∀ name type, schema.type? name = some type ↔ type ∈ schema.types ∧ type.name = name
  directiveNames : ∀ name directive, schema.directive? name = some directive ↔
    directive ∈ schema.directives ∧ directive.name = name
  roots : ∀ kind object, schema.root? kind = some object ↔
    ∃ name, definitions.rootName? kind = some name ∧ schema.type? name = some (.object object)

theorem unlinked_of_read {tokens : List Token} {definitions : Definitions}
    (ok : read tokens = .ok definitions) : definitions.Unlinked := by
  obtain ⟨items, derived, distinct, rfl⟩ := read_eq_ok_iff.mp ok
  refine ⟨distinct.types, distinct.directives, fun type member => ?_⟩
  obtain ⟨item, among, given⟩ := List.mem_filterMap.mp member
  obtain ⟨word, spelled⟩ := derived.exists_word among
  cases spelled with
  | type spelled =>
      cases given
      obtain ⟨body⟩ := spelled
      cases body with
      | interface => rfl
  | roots | directive => cases given

/-! ## The schema before references are checked -/

theorem implementers_eq (definitions : Definitions) (interface : String) :
    implementers definitions.types interface =
      (definitions.mentions.filter fun mention => mention.1 = interface).map Prod.snd := by
  rw [implementers, mentions, List.filter_flatMap, List.map_flatMap]
  refine congrArg (definitions.types.flatMap ·) (funext fun type => ?_)
  rw [List.filter_map, List.map_map]
  rfl

theorem withImplementers_eq {definitions : Definitions} (unlinked : definitions.Unlinked)
    {declared : TypeDefinition} (member : declared ∈ definitions.types) :
    withImplementers definitions.types declared = definitions.linkType declared := by
  cases declared with
  | interface type =>
      rw [withImplementers, linkType, implementers_eq, unlinked.interfaces type member,
        List.nil_append]
  | _ => rfl

@[simp]
theorem linkType_name (definitions : Definitions) (type : TypeDefinition) :
    (definitions.linkType type).name = type.name := by
  cases type <;> rfl

@[simp]
theorem linkType_kind (definitions : Definitions) (type : TypeDefinition) :
    (definitions.linkType type).kind = type.kind := by
  cases type <;> rfl

section Assembled

variable {definitions : Definitions}

def linkedTypes (definitions : Definitions) : List TypeDefinition :=
  definitions.types.map definitions.linkType

theorem assemble_eq (unlinked : definitions.Unlinked) :
    definitions.assemble = Schema.addBuiltins
      ⟨none, none, none, definitions.linkedTypes, definitions.directives⟩ := by
  have types : definitions.types.map (withImplementers definitions.types) =
      definitions.linkedTypes :=
    List.map_congr_left fun declared member => withImplementers_eq unlinked member
  rw [assemble, linkPossibleTypes_eq unlinked.types, types]
  rfl

theorem distinct_linkedTypes (unlinked : definitions.Unlinked) :
    Named.Distinct definitions.linkedTypes :=
  (Named.distinct_map (linkType_name definitions)).mpr unlinked.types

theorem contains_linkedTypes {name : String} :
    Named.contains definitions.linkedTypes name = false ↔
      ∀ declared ∈ definitions.types, declared.name ≠ name := by
  simp [Named.contains, linkedTypes, HasName.name]

theorem mem_assemble_types (unlinked : definitions.Unlinked) (type : TypeDefinition) :
    type ∈ definitions.assemble.types ↔
      (∃ declared ∈ definitions.types, type = definitions.linkType declared) ∨
        (type ∈ Schema.builtinTypes ∧
          ∀ declared ∈ definitions.types, declared.name ≠ type.name) := by
  have distinct : Named.Distinct Schema.builtinTypes := by decide
  rw [assemble_eq unlinked]
  refine (Named.mem_foldl_insertNew distinct).trans ?_
  rw [show HasName.name type = type.name from rfl, contains_linkedTypes]
  simp [linkedTypes, eq_comm]

theorem mem_assemble_directives (unlinked : definitions.Unlinked)
    (directive : DirectiveDefinition) :
    directive ∈ definitions.assemble.directives ↔ directive ∈ definitions.directives ∨
      (directive ∈ Schema.builtinDirectives ∧
        ∀ declared ∈ definitions.directives, declared.name ≠ directive.name) := by
  have distinct : Named.Distinct Schema.builtinDirectives := by decide
  rw [assemble_eq unlinked]
  refine (Named.mem_foldl_insertNew distinct).trans ?_
  rw [Named.contains_eq_false_iff]
  rfl

theorem distinct_assemble (unlinked : definitions.Unlinked) :
    Named.Distinct definitions.assemble.types ∧
      Named.Distinct definitions.assemble.directives := by
  rw [assemble_eq unlinked]
  exact ⟨Named.distinct_foldl_insertNew (distinct_linkedTypes unlinked) _,
    Named.distinct_foldl_insertNew unlinked.directives _⟩

theorem assemble_type?_eq_some_iff (unlinked : definitions.Unlinked) {name : String}
    {type : TypeDefinition} :
    definitions.assemble.type? name = some type ↔
      type ∈ definitions.assemble.types ∧ type.name = name :=
  Named.find?_eq_some_iff (distinct_assemble unlinked).1

theorem assemble_root? (kind : OperationKind) : definitions.assemble.root? kind = none := by
  cases kind <;> rfl

/-- Looking up a name in the schema and asking for a kind is the same as asking the definitions. -/
theorem resolves_iff (unlinked : definitions.Unlinked) {name : String}
    {test : TypeDefinition → Bool} {fits : TypeKind → Prop}
    (same : ∀ type, test type = true ↔ fits type.kind) :
    (definitions.assemble.type? name).any test = true ↔ definitions.Names name fits := by
  simp only [Option.any_eq_true, assemble_type?_eq_some_iff unlinked, mem_assemble_types unlinked,
    same]
  constructor
  · rintro ⟨_, ⟨⟨declared, member, rfl⟩ | free, rfl⟩, kind⟩
    · exact ⟨declared, .inl member, by simp, by simpa using kind⟩
    · exact ⟨_, .inr free, rfl, kind⟩
  · rintro ⟨type, member | free, rfl, kind⟩
    · exact ⟨definitions.linkType type, ⟨.inl ⟨type, member, rfl⟩, by simp⟩, by simpa using kind⟩
    · exact ⟨type, ⟨.inr free, rfl⟩, kind⟩

end Assembled

/-! ## Checking references -/

theorem checkAll_eq_ok_iff {α : Type} {check : α → Except Conflict Unit} {items : List α} :
    checkAll check items = .ok () ↔ ∀ item ∈ items, check item = .ok () := by
  induction items with
  | nil => simp [checkAll]
  | cons item items ih =>
      rw [checkAll, Except.bind_eq_ok_unit, ih, List.forall_mem_cons]

theorem ensure_eq_ok_iff {condition : Bool} {conflict : Conflict} :
    ensure condition conflict = .ok () ↔ condition = true := by
  cases condition <;> simp [ensure]

section Checked

variable {definitions : Definitions} (unlinked : definitions.Unlinked)
include unlinked

theorem checkInputValue_iff {owner : InputOwner} {value : InputValueDefinition} :
    checkInputValue definitions.assemble owner value = .ok () ↔
      definitions.Names value.type.namedType IsInputKind := by
  rw [checkInputValue, ensure_eq_ok_iff]
  refine resolves_iff unlinked fun type => ?_
  cases type <;> simp [TypeDefinition.isInput, IsInputKind, TypeDefinition.kind]

theorem checkField_iff {owner : String} {field : FieldDefinition} :
    checkField definitions.assemble owner field = .ok () ↔
      definitions.Names field.type.namedType (· ≠ .inputObject) ∧
        ∀ argument ∈ field.arguments,
          definitions.Names argument.type.namedType IsInputKind := by
  have output : (definitions.assemble.resolve? field.type).any TypeDefinition.isOutput = true ↔
      definitions.Names field.type.namedType (· ≠ .inputObject) := by
    refine resolves_iff unlinked fun type => ?_
    cases type <;> simp [TypeDefinition.isOutput, TypeDefinition.kind]
  rw [checkField, Except.bind_eq_ok_unit, ensure_eq_ok_iff, output, checkAll_eq_ok_iff]
  refine and_congr_right fun _ => forall₂_congr fun argument _ => ?_
  exact checkInputValue_iff unlinked

theorem checkInterface_iff {owner name : String} :
    checkInterface definitions.assemble owner name = .ok () ↔
      definitions.Names name (· = .interface) := by
  rw [checkInterface, ensure_eq_ok_iff]
  refine resolves_iff unlinked fun type => ?_
  cases type <;> simp [TypeDefinition.isInterface, TypeDefinition.kind]

theorem checkMember_iff {owner name : String} :
    checkMember definitions.assemble owner name = .ok () ↔
      definitions.Names name (· = .object) := by
  rw [checkMember, ensure_eq_ok_iff]
  refine resolves_iff unlinked fun type => ?_
  cases type <;> simp [TypeDefinition.isObject, TypeDefinition.kind]

/-- The references of a type are good. -/
theorem checkType_iff {type : TypeDefinition} :
    checkType definitions.assemble type = .ok () ↔
      (∀ field ∈ type.fields, definitions.Names field.type.namedType (· ≠ .inputObject)) ∧
      (∀ field ∈ type.fields, ∀ argument ∈ field.arguments,
        definitions.Names argument.type.namedType IsInputKind) ∧
      (∀ given, type = .inputObject given → ∀ field ∈ given.fields,
        definitions.Names field.type.namedType IsInputKind) ∧
      (∀ name ∈ type.interfaces, definitions.Names name (· = .interface)) ∧
      ∀ given, type = .union given → ∀ name ∈ given.possibleTypes,
        definitions.Names name (· = .object) := by
  cases type with
  | object type =>
      simp only [checkType, Except.bind_eq_ok_unit, checkAll_eq_ok_iff, checkField_iff unlinked,
        checkInterface_iff unlinked, TypeDefinition.fields, TypeDefinition.interfaces]
      grind
  | interface type =>
      simp only [checkType, Except.bind_eq_ok_unit, checkAll_eq_ok_iff, checkField_iff unlinked,
        checkInterface_iff unlinked, TypeDefinition.fields, TypeDefinition.interfaces]
      grind
  | union type =>
      simp [checkType, checkAll_eq_ok_iff, checkMember_iff unlinked, TypeDefinition.fields,
        TypeDefinition.interfaces]
  | inputObject type =>
      simp [checkType, checkAll_eq_ok_iff, checkInputValue_iff unlinked, TypeDefinition.fields,
        TypeDefinition.interfaces]
  | scalar type => simp [checkType, TypeDefinition.fields, TypeDefinition.interfaces]
  | enum type => simp [checkType, TypeDefinition.fields, TypeDefinition.interfaces]

theorem checkDirective_iff {directive : DirectiveDefinition} :
    checkDirective definitions.assemble directive = .ok () ↔
      ∀ argument ∈ directive.arguments, definitions.Names argument.type.namedType IsInputKind := by
  rw [checkDirective, checkAll_eq_ok_iff]
  refine forall₂_congr fun argument _ => ?_
  exact checkInputValue_iff unlinked

end Checked

/-! ## Root types -/

end Definitions

namespace Schema

def object? (schema : Schema) (name : String) : Option ObjectType :=
  match schema.type? name with
  | some (.object type) => some type
  | _ => none

theorem object?_eq_some_iff {schema : Schema} {name : String} {object : ObjectType} :
    schema.object? name = some object ↔ schema.type? name = some (.object object) := by
  unfold object?
  split
  next type found => simp [found]
  next other =>
    constructor
    · intro absurd
      cases absurd
    · intro found
      exact absurd found (other object)

def setRoot? (schema : Schema) (kind : OperationKind) : Option ObjectType → Schema
  | some object => schema.setRoot kind object
  | none => schema

variable (schema : Schema) (kind : OperationKind) (object? : Option ObjectType)

@[simp]
theorem setRoot?_types : (schema.setRoot? kind object?).types = schema.types := by
  cases object? with
  | none => rfl
  | some object => cases kind <;> rfl

@[simp]
theorem setRoot?_directives : (schema.setRoot? kind object?).directives = schema.directives := by
  cases object? with
  | none => rfl
  | some object => cases kind <;> rfl

@[simp]
theorem setRoot?_type? (name : String) :
    (schema.setRoot? kind object?).type? name = schema.type? name := by
  rw [type?, setRoot?_types, type?]

@[simp]
theorem setRoot?_object? : (schema.setRoot? kind object?).object? = schema.object? := by
  funext name
  rw [Schema.object?, setRoot?_type?, Schema.object?]

theorem setRoot?_root? (other : OperationKind) :
    (schema.setRoot? kind object?).root? other =
      if other = kind then object?.or (schema.root? kind) else schema.root? other := by
  cases object? <;> cases kind <;> cases other <;> rfl

end Schema

namespace Definitions

/-- A root type can be set if its name is not given, or is that of an object type, or is that of no
type and was not given explicitly. -/
def RootFits (schema : Schema) (explicit : Bool) (name? : Option String) : Prop :=
  ∀ name, name? = some name →
    (schema.type? name).any TypeDefinition.isObject = true ∨
      (explicit = false ∧ schema.type? name = none)

theorem rootFits_setRoot? (schema : Schema) (kind : OperationKind) (object? : Option ObjectType)
    (explicit : Bool) (name? : Option String) :
    RootFits (schema.setRoot? kind object?) explicit name? ↔ RootFits schema explicit name? := by
  simp [RootFits]

theorem linkRoot_eq_ok_iff {explicit : Bool} {name? : Option String} {kind : OperationKind}
    {schema result : Schema} :
    linkRoot explicit name? kind schema = .ok result ↔
      RootFits schema explicit name? ∧
        schema.setRoot? kind (name?.bind schema.object?) = result := by
  cases name? with
  | none => simp [linkRoot, RootFits, Schema.setRoot?]
  | some name =>
      cases found : schema.type? name with
      | none =>
          cases explicit <;> simp [linkRoot, RootFits, Schema.setRoot?, Schema.object?, found]
      | some type =>
          cases type <;>
            simp [linkRoot, RootFits, Schema.setRoot?, Schema.object?, found,
              TypeDefinition.isObject]

/-- A schema with all root types set whose names are those of object types. -/
def withRoots (definitions : Definitions) (schema : Schema) : Schema :=
  OperationKind.all.foldl (fun linked kind =>
    linked.setRoot? kind ((definitions.rootName? kind).bind schema.object?)) schema

theorem linkRoots_eq_ok_iff {definitions : Definitions} {schema result : Schema} :
    linkRoots definitions.roots? schema = .ok result ↔
      (∀ kind, RootFits schema definitions.roots?.isSome (definitions.rootName? kind)) ∧
        definitions.withRoots schema = result := by
  have all {p : OperationKind → Prop} : (∀ kind, p kind) ↔
      p .query ∧ p .mutation ∧ p .subscription := by
    constructor
    · intro each
      exact ⟨each .query, each .mutation, each .subscription⟩
    · rintro ⟨query, mutation, subscription⟩ (_ | _ | _)
      · exact query
      · exact mutation
      · exact subscription
  rw [all]
  simp only [linkRoots, Except.bind_eq_ok_iff, linkRoot_eq_ok_iff]
  constructor
  · rintro ⟨_, ⟨query, rfl⟩, _, ⟨mutation, rfl⟩, subscription, rfl⟩
    rw [rootFits_setRoot?] at mutation
    rw [rootFits_setRoot?, rootFits_setRoot?] at subscription
    refine ⟨⟨query, mutation, subscription⟩, ?_⟩
    simp [withRoots, OperationKind.all, rootName?, RootNames.get?]
  · rintro ⟨⟨query, mutation, subscription⟩, rfl⟩
    refine ⟨_, ⟨query, rfl⟩, _, ⟨?_, rfl⟩, ?_, ?_⟩
    · rw [rootFits_setRoot?]
      exact mutation
    · rw [rootFits_setRoot?, rootFits_setRoot?]
      exact subscription
    · simp [withRoots, OperationKind.all, rootName?, RootNames.get?]

theorem withRoots_types (definitions : Definitions) (schema : Schema) :
    (definitions.withRoots schema).types = schema.types ∧
      (definitions.withRoots schema).directives = schema.directives := by
  simp [withRoots, OperationKind.all]

theorem withRoots_root? {definitions : Definitions} {schema : Schema}
    (none : ∀ kind, schema.root? kind = none) (kind : OperationKind) :
    (definitions.withRoots schema).root? kind =
      (definitions.rootName? kind).bind schema.object? := by
  cases kind <;> simp [withRoots, OperationKind.all, Schema.setRoot?_root?, none]

/-! ## Linking -/

section Linked

variable {definitions : Definitions} (unlinked : definitions.Unlinked)
include unlinked

theorem rootFits_iff (kind : OperationKind) :
    RootFits definitions.assemble definitions.roots?.isSome (definitions.rootName? kind) ↔
      ∀ name, definitions.rootName? kind = some name →
        definitions.Names name (· = .object) ∨
          (definitions.roots? = none ∧ ¬definitions.Names name fun _ => True) := by
  have object (name : String) :
      (definitions.assemble.type? name).any TypeDefinition.isObject = true ↔
        definitions.Names name (· = .object) := by
    refine resolves_iff unlinked fun type => ?_
    cases type <;> simp [TypeDefinition.isObject, TypeDefinition.kind]
  have absent (name : String) : definitions.assemble.type? name = none ↔
      ¬definitions.Names name fun _ => True := by
    have known : (definitions.assemble.type? name).any (fun _ => true) = true ↔
        definitions.Names name fun _ => True := resolves_iff unlinked (by simp)
    rw [← known]
    cases definitions.assemble.type? name <;> simp
  refine forall₂_congr fun name _ => ?_
  rw [object, absent, Option.isSome_eq_false_iff, Option.isNone_iff_eq_none]

/-- All references are checked, and nothing else is. -/
theorem link_eq_ok_iff {schema : Schema} :
    definitions.link = .ok schema ↔
      definitions.WellLinked ∧ definitions.withRoots definitions.assemble = schema := by
  simp only [link, Except.bind_eq_ok_unit, checkAll_eq_ok_iff, checkType_iff unlinked,
    checkDirective_iff unlinked, linkRoots_eq_ok_iff, rootFits_iff unlinked]
  constructor
  · rintro ⟨types, directives, roots, same⟩
    refine ⟨⟨?_, ?_, ?_, directives, ?_, ?_, roots⟩, same⟩
    · exact fun type member => (types type member).1
    · exact fun type member => (types type member).2.1
    · exact fun type member => (types _ member).2.2.1 type rfl
    · exact fun type member => (types type member).2.2.2.1
    · exact fun type member => (types _ member).2.2.2.2 type rfl
  · rintro ⟨linked, same⟩
    refine ⟨fun type member => ⟨?_, ?_, ?_, ?_, ?_⟩, linked.directives, linked.roots, same⟩
    · exact linked.fields type member
    · exact linked.arguments type member
    · rintro given rfl
      exact linked.inputFields given member
    · exact linked.interfaces type member
    · rintro given rfl
      exact linked.members given member

theorem links_withRoots : definitions.Links (definitions.withRoots definitions.assemble) := by
  obtain ⟨types, directives⟩ := withRoots_types definitions definitions.assemble
  obtain ⟨distinctTypes, distinctDirectives⟩ := distinct_assemble unlinked
  have lookup (name : String) : (definitions.withRoots definitions.assemble).type? name =
      definitions.assemble.type? name := by
    rw [Schema.type?, types, Schema.type?]
  refine ⟨?_, ?_, ?_, ?_, ?_, ?_⟩
  · rw [types]
    exact mem_assemble_types unlinked
  · rw [directives]
    exact mem_assemble_directives unlinked
  · rw [types, directives]
    exact ⟨distinctTypes, distinctDirectives⟩
  · intro name type
    rw [lookup, types]
    exact assemble_type?_eq_some_iff unlinked
  · intro name directive
    rw [Schema.directive?, directives]
    exact Named.find?_eq_some_iff distinctDirectives
  · intro kind object
    rw [withRoots_root? assemble_root?, Option.bind_eq_some_iff]
    simp only [Schema.object?_eq_some_iff, lookup]

end Linked

/-- Definitions as they are read from a text can be linked exactly if every reference in them is
good. The schema then holds them and the built-in definitions whose names are free. -/
theorem link_exact {definitions : Definitions} (unlinked : definitions.Unlinked) :
    ((∃ schema, definitions.link = .ok schema) ↔ definitions.WellLinked) ∧
      ∀ schema, definitions.link = .ok schema → definitions.Links schema := by
  constructor
  · constructor
    · rintro ⟨schema, linked⟩
      exact ((link_eq_ok_iff unlinked).mp linked).1
    · intro wellLinked
      exact ⟨_, (link_eq_ok_iff unlinked).mpr ⟨wellLinked, rfl⟩⟩
  · intro schema linked
    rw [← ((link_eq_ok_iff unlinked).mp linked).2]
    exact links_withRoots unlinked

theorem link_exact_sampleRead :
    sampleRead.Unlinked ∧ sampleRead.WellLinked ∧
      ∃ schema, sampleRead.link = .ok schema ∧ sampleRead.Links schema := by
  have unlinked := unlinked_of_read read_sampleText
  have linked : ∃ schema, sampleRead.link = .ok schema := ⟨_, by rfl⟩
  obtain ⟨exact, links⟩ := link_exact unlinked
  obtain ⟨schema, ok⟩ := linked
  exact ⟨unlinked, exact.mp ⟨schema, ok⟩, schema, ok, links schema ok⟩

end Definitions

/-- A schema is read from a text by reading its definitions and linking them. -/
theorem Schema.parse_eq_ok_iff {text : String} {schema : Schema} :
    parse text = .ok schema ↔
      ∃ definitions, Definitions.read (tokens text.toList) = .ok definitions ∧
        definitions.link = .ok schema := by
  rw [parse]
  cases Definitions.read (tokens text.toList) with
  | error failure => simp
  | ok definitions => cases linked : definitions.link <;> simp [linked]

end QueryCheck
