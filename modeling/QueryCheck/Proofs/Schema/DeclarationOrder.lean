import QueryCheck.Proofs.Schema.Linking

/-!
# The order of declarations

A schema does not depend on the order in which its types and directives are declared, nor on
the order in which the fields of a type are kept. Two lists of definitions that differ in this
way can both be linked or neither, and then the same is found in both schemas. Only the possible
types of an interface are listed in another order.

Which references are good depends on the kinds of the types with certain names. So the checks
agree on two schemas if the same kind of type is found under each name in both.
-/

namespace QueryCheck

structure FieldOrder where
  arrange : String → List FieldDefinition → List FieldDefinition
  perm : ∀ owner fields, (arrange owner fields).Perm fields

def ObjectType.arrange (order : FieldOrder) (type : ObjectType) : ObjectType :=
  { type with fields := order.arrange type.name type.fields }

namespace TypeDefinition

def arrange (order : FieldOrder) : TypeDefinition → TypeDefinition
  | .object type => .object (type.arrange order)
  | .interface type => .interface { type with fields := order.arrange type.name type.fields }
  | other => other

/-- Two types are the same except for the order of possible types of an interface. -/
inductive Alike : TypeDefinition → TypeDefinition → Prop where
  | refl (type : TypeDefinition) : Alike type type
  | interface (type : InterfaceType) {possibleTypes : List String}
      (perm : possibleTypes.Perm type.possibleTypes) :
      Alike (.interface { type with possibleTypes }) (.interface type)

variable {first second : TypeDefinition}

theorem Alike.name (alike : Alike first second) : first.name = second.name := by
  cases alike <;> rfl

theorem Alike.kind (alike : Alike first second) : first.kind = second.kind := by
  cases alike <;> rfl

theorem Alike.map_kind {first second : Option TypeDefinition}
    (related : Option.Rel Alike first second) :
    first.map TypeDefinition.kind = second.map TypeDefinition.kind := by
  cases related with
  | some alike => exact congrArg some alike.kind
  | none => rfl

variable (order : FieldOrder) (type : TypeDefinition)

@[simp]
theorem name_arrange : (type.arrange order).name = type.name := by
  cases type <;> rfl

@[simp]
theorem kind_arrange : (type.arrange order).kind = type.kind := by
  cases type <;> rfl

@[simp]
theorem interfaces_arrange : (type.arrange order).interfaces = type.interfaces := by
  cases type <;> rfl

end TypeDefinition

/-- Definitions in another order. -/
structure Definitions.Rearranged (order : FieldOrder) (given permuted : Definitions) : Prop where
  roots : permuted.roots? = given.roots?
  types : permuted.types.Perm (given.types.map (TypeDefinition.arrange order))
  directives : permuted.directives.Perm given.directives

/-- A schema of definitions in another order: it holds the same types and directives, and the same
is found in it under each name. -/
structure Schema.Rearranged (order : FieldOrder) (given permuted : Schema) : Prop where
  types : ∃ turned, permuted.types.Perm turned ∧
    List.Forall₂ TypeDefinition.Alike turned (given.types.map (TypeDefinition.arrange order))
  directives : permuted.directives.Perm given.directives
  typeNames : ∀ name, Option.Rel TypeDefinition.Alike (permuted.type? name)
    ((given.type? name).map (TypeDefinition.arrange order))
  directiveNames : ∀ name, permuted.directive? name = given.directive? name
  roots : ∀ kind, permuted.root? kind = (given.root? kind).map (ObjectType.arrange order)

/-! ## Checks look at kinds -/

namespace Schema

def kind? (schema : Schema) (name : String) : Option TypeKind :=
  (schema.type? name).map TypeDefinition.kind

/-- A test of what is found under a name gives the same answer in schemas with the same kinds. -/
theorem any_type?_congr {first second : Schema} (kinds : first.kind? = second.kind?)
    {test : TypeDefinition → Bool} (fits : TypeKind → Bool)
    (byKind : ∀ type, test type = fits type.kind) (name : String) :
    (first.type? name).any test = (second.type? name).any test := by
  have any_kind? (schema : Schema) :
      (schema.type? name).any test = (schema.kind? name).any fits := by
    rw [kind?, Option.any_map, funext byKind]
  rw [any_kind?, any_kind?, kinds]

end Schema

namespace Definitions

section Kinds

variable {first second : Schema} (kinds : first.kind? = second.kind?)
include kinds

theorem checkInputValue_congr : checkInputValue first = checkInputValue second := by
  have input (type : TypeDefinition) :
      type.isInput = [TypeKind.scalar, .enum, .inputObject].contains type.kind := by
    cases type <;> rfl
  funext owner value
  rw [checkInputValue, checkInputValue, Schema.resolve?, Schema.resolve?,
    Schema.any_type?_congr kinds [TypeKind.scalar, .enum, .inputObject].contains input]

theorem checkField_congr : checkField first = checkField second := by
  have output (type : TypeDefinition) : type.isOutput = decide (type.kind ≠ .inputObject) := by
    cases type <;> rfl
  funext owner field
  rw [checkField, checkField, Schema.resolve?, Schema.resolve?,
    Schema.any_type?_congr kinds (· ≠ .inputObject) output, checkInputValue_congr kinds]

theorem checkInterface_congr : checkInterface first = checkInterface second := by
  have interface (type : TypeDefinition) : type.isInterface = decide (type.kind = .interface) := by
    cases type <;> rfl
  funext owner name
  rw [checkInterface, checkInterface, Schema.any_type?_congr kinds (· = .interface) interface]

theorem any_isObject_congr (name : String) :
    (first.type? name).any TypeDefinition.isObject =
      (second.type? name).any TypeDefinition.isObject := by
  have object (type : TypeDefinition) : type.isObject = decide (type.kind = .object) := by
    cases type <;> rfl
  exact Schema.any_type?_congr kinds (· = .object) object name

theorem checkMember_congr : checkMember first = checkMember second := by
  funext owner name
  rw [checkMember, checkMember, any_isObject_congr kinds]

theorem checkType_congr (type : TypeDefinition) : checkType first type = checkType second type := by
  cases type <;>
    simp only [checkType, checkField_congr kinds, checkInterface_congr kinds,
      checkMember_congr kinds, checkInputValue_congr kinds]

theorem checkDirective_congr (directive : DirectiveDefinition) :
    checkDirective first directive = checkDirective second directive := by
  rw [checkDirective, checkDirective, checkInputValue_congr kinds]

theorem rootFits_congr (explicit : Bool) (name? : Option String) :
    RootFits first explicit name? ↔ RootFits second explicit name? := by
  have missing (name : String) : first.type? name = none ↔ second.type? name = none := by
    have known (schema : Schema) : schema.type? name = none ↔ schema.kind? name = none :=
      Option.map_eq_none_iff.symm
    rw [known, known, kinds]
  refine forall₂_congr fun name _ => ?_
  rw [any_isObject_congr kinds, missing]

end Kinds

/-- The order of fields does not matter to the check of a type. -/
theorem checkType_arrange (schema : Schema) (order : FieldOrder) (type : TypeDefinition) :
    checkType schema (type.arrange order) = .ok () ↔ checkType schema type = .ok () := by
  cases type with
  | object type =>
      simp only [TypeDefinition.arrange, ObjectType.arrange, checkType, Except.bind_eq_ok_unit,
        checkAll_eq_ok_iff, (order.perm _ _).mem_iff]
  | interface type =>
      simp only [TypeDefinition.arrange, checkType, Except.bind_eq_ok_unit, checkAll_eq_ok_iff,
        (order.perm _ _).mem_iff]
  | _ => rfl

/-- All checks of definitions against the schema that they make. -/
structure Passes (definitions : Definitions) : Prop where
  types : ∀ type ∈ definitions.types, checkType definitions.assemble type = .ok ()
  directives : ∀ directive ∈ definitions.directives,
    checkDirective definitions.assemble directive = .ok ()
  roots : ∀ kind, RootFits definitions.assemble definitions.roots?.isSome
    (definitions.rootName? kind)

theorem link_eq_ok_iff_passes {definitions : Definitions} {schema : Schema} :
    definitions.link = .ok schema ↔
      definitions.Passes ∧ definitions.withRoots definitions.assemble = schema := by
  simp only [link, Except.bind_eq_ok_unit, checkAll_eq_ok_iff, linkRoots_eq_ok_iff]
  constructor
  · rintro ⟨types, directives, roots, same⟩
    exact ⟨⟨types, directives, roots⟩, same⟩
  · rintro ⟨⟨types, directives, roots⟩, same⟩
    exact ⟨types, directives, roots, same⟩

/-! ## The schema before references are checked -/

/-- The declared types come first, then the built-in types whose names are free. -/
theorem assemble_types {definitions : Definitions} (distinct : Named.Distinct definitions.types) :
    definitions.assemble.types =
      definitions.types.map (withImplementers definitions.types) ++
        Schema.builtinTypes.filter fun type => !Named.contains definitions.types type.name := by
  have builtin : Named.Distinct Schema.builtinTypes := by decide
  rw [assemble, linkPossibleTypes_eq distinct]
  refine (Named.foldl_insertNew_eq builtin).trans ?_
  simp only [Named.contains_map (name_withImplementers definitions.types)]
  rfl

theorem assemble_directives (definitions : Definitions) :
    definitions.assemble.directives =
      definitions.directives ++ Schema.builtinDirectives.filter fun directive =>
        !Named.contains definitions.directives directive.name := by
  have distinct : Named.Distinct Schema.builtinDirectives := by decide
  exact Named.foldl_insertNew_eq distinct

section Rearranged

variable {order : FieldOrder} {given permuted : Definitions}
  (rearranged : given.Rearranged order permuted)
include rearranged

/-- The same types implement an interface, in another order. -/
theorem implementers_perm (interface : String) :
    (implementers permuted.types interface).Perm (implementers given.types interface) := by
  have same : implementers (given.types.map (TypeDefinition.arrange order)) interface =
      implementers given.types interface := by
    rw [implementers, List.flatMap_map, implementers]
    simp only [TypeDefinition.interfaces_arrange, TypeDefinition.name_arrange]
  rw [← same]
  exact rearranged.types.flatMap_right _

theorem alike_withImplementers (type : TypeDefinition) :
    (withImplementers permuted.types (type.arrange order)).Alike
      ((withImplementers given.types type).arrange order) := by
  cases type with
  | interface type =>
      exact .interface { type with
          fields := order.arrange type.name type.fields
          possibleTypes := type.possibleTypes ++ implementers given.types type.name }
        ((implementers_perm rearranged type.name).append_left _)
  | _ => exact .refl _

theorem contains_types (name : String) :
    Named.contains permuted.types name = Named.contains given.types name := by
  rw [Named.contains_perm rearranged.types,
    Named.contains_map (TypeDefinition.name_arrange order)]

theorem directives_assemble :
    permuted.assemble.directives.Perm given.assemble.directives := by
  rw [assemble_directives, assemble_directives]
  simp only [Named.contains_perm rearranged.directives]
  exact rearranged.directives.append_right _

section Distinct

variable (distinct : Named.Distinct given.types)
include distinct

theorem distinct_permuted : Named.Distinct permuted.types := by
  rwa [Named.Distinct.perm rearranged.types,
    Named.distinct_map (TypeDefinition.name_arrange order)]

/-- The types of one schema are those of the other in another order. -/
theorem types_assemble : ∃ turned, permuted.assemble.types.Perm turned ∧
    List.Forall₂ TypeDefinition.Alike turned
      (given.assemble.types.map (TypeDefinition.arrange order)) := by
  have scalars : ∀ type ∈ Schema.builtinTypes, type.arrange order = type := by
    intro type member
    obtain ⟨name, _, rfl⟩ := List.mem_map.mp member
    rfl
  -- The same names are declared, so the same built-in types are added at the end of both lists.
  refine ⟨given.types.map (fun type => withImplementers permuted.types (type.arrange order)) ++
    Schema.builtinTypes.filter fun type => !Named.contains given.types type.name, ?_, ?_⟩
  · rw [assemble_types (distinct_permuted rearranged distinct)]
    simp only [contains_types rearranged]
    have perm := rearranged.types.map (withImplementers permuted.types)
    rw [List.map_map] at perm
    exact perm.append_right _
  · rw [assemble_types distinct, List.map_append, List.map_map]
    refine List.rel_append ?_ ?_
    · rw [List.forall₂_map_left_iff, List.forall₂_map_right_iff, List.forall₂_same]
      exact fun type _ => alike_withImplementers rearranged type
    · rw [List.forall₂_map_right_iff, List.forall₂_same]
      intro type member
      rw [scalars type (List.mem_of_mem_filter member)]
      exact .refl type

/-- The same type is found under each name. -/
theorem rel_type? (name : String) :
    Option.Rel TypeDefinition.Alike (permuted.assemble.type? name)
      ((given.assemble.type? name).map (TypeDefinition.arrange order)) := by
  obtain ⟨turned, perm, alike⟩ := types_assemble rearranged distinct
  have others := distinct_permuted rearranged distinct
  have linked : Named.Distinct permuted.assemble.types := by
    rw [assemble, linkPossibleTypes_eq others]
    refine Named.distinct_foldl_insertNew ?_ _
    rwa [Named.distinct_map (name_withImplementers permuted.types)]
  rw [Schema.type?, Named.find?_perm perm linked, Schema.type?,
    ← Named.find?_map (TypeDefinition.name_arrange order)]
  exact Named.rel_find? (fun _ _ => TypeDefinition.Alike.name) alike name

theorem kind?_assemble : permuted.assemble.kind? = given.assemble.kind? := by
  funext name
  have related := rel_type? rearranged distinct name
  rw [Schema.kind?, TypeDefinition.Alike.map_kind related, Option.map_map, Schema.kind?]
  exact congrArg (Option.map · _) (funext (TypeDefinition.kind_arrange order))

theorem object?_assemble (name : String) :
    permuted.assemble.object? name =
      (given.assemble.object? name).map (ObjectType.arrange order) := by
  have related := rel_type? rearranged distinct name
  rw [Schema.object?, Schema.object?]
  -- Alike types are of one kind, and alike object types are the same.
  revert related
  generalize permuted.assemble.type? name = other
  cases given.assemble.type? name with
  | none =>
      intro related
      cases related
      rfl
  | some type =>
      rintro (⟨alike⟩ | _)
      cases type with
      | object => cases alike; rfl
      | interface => cases alike <;> rfl
      | _ => cases alike; rfl

theorem passes_iff : permuted.Passes ↔ given.Passes := by
  have kinds := kind?_assemble rearranged distinct
  have names (kind : OperationKind) : permuted.rootName? kind = given.rootName? kind := by
    rw [rootName?, rearranged.roots, rootName?]
  have types : (∀ type ∈ permuted.types, checkType permuted.assemble type = .ok ()) ↔
      ∀ type ∈ given.types, checkType given.assemble type = .ok () := by
    simp only [rearranged.types.mem_iff, List.forall_mem_map, checkType_congr kinds,
      checkType_arrange]
  have directives : (∀ directive ∈ permuted.directives,
      checkDirective permuted.assemble directive = .ok ()) ↔
        ∀ directive ∈ given.directives, checkDirective given.assemble directive = .ok () := by
    simp only [rearranged.directives.mem_iff, checkDirective_congr kinds]
  have roots : (∀ kind, RootFits permuted.assemble permuted.roots?.isSome
      (permuted.rootName? kind)) ↔
        ∀ kind, RootFits given.assemble given.roots?.isSome (given.rootName? kind) := by
    simp only [rearranged.roots, names, rootFits_congr kinds]
  constructor
  · intro passes
    exact ⟨types.mp passes.types, directives.mp passes.directives, roots.mp passes.roots⟩
  · intro passes
    exact ⟨types.mpr passes.types, directives.mpr passes.directives, roots.mpr passes.roots⟩

end Distinct

/-- Definitions in another order make a schema with the same definitions. -/
theorem rearranged_withRoots (types : Named.Distinct given.types)
    (directives : Named.Distinct given.directives) :
    (given.withRoots given.assemble).Rearranged order (permuted.withRoots permuted.assemble) := by
  obtain ⟨givenTypes, givenDirectives⟩ := withRoots_types given given.assemble
  obtain ⟨permutedTypes, permutedDirectives⟩ := withRoots_types permuted permuted.assemble
  refine ⟨?_, ?_, fun name => ?_, fun name => ?_, fun kind => ?_⟩
  · rw [givenTypes, permutedTypes]
    exact types_assemble rearranged types
  · rw [givenDirectives, permutedDirectives]
    exact directives_assemble rearranged
  · rw [Schema.type?, permutedTypes, Schema.type?, givenTypes]
    exact rel_type? rearranged types name
  · have distinct : Named.Distinct given.assemble.directives :=
      Named.distinct_foldl_insertNew directives _
    have perm := (directives_assemble rearranged).symm
    rw [Schema.directive?, permutedDirectives, Schema.directive?, givenDirectives,
      Named.find?_perm perm distinct]
  · have name : permuted.rootName? kind = given.rootName? kind := by
      rw [rootName?, rearranged.roots, rootName?]
    rw [withRoots_root? assemble_root?, withRoots_root? assemble_root?, name, Option.map_bind,
      funext (object?_assemble rearranged types)]
    rfl

end Rearranged

/-- Linking does not depend on the order of definitions. -/
theorem link_rearranged {order : FieldOrder} {given permuted : Definitions}
    (rearranged : given.Rearranged order permuted) (types : Named.Distinct given.types)
    (directives : Named.Distinct given.directives) :
    ((∃ schema, permuted.link = .ok schema) ↔ ∃ schema, given.link = .ok schema) ∧
      ∀ schema other, given.link = .ok schema → permuted.link = .ok other →
        schema.Rearranged order other := by
  constructor
  · simp only [link_eq_ok_iff_passes, passes_iff rearranged types, exists_and_left, exists_eq']
  · intro schema other linked otherLinked
    obtain ⟨_, rfl⟩ := link_eq_ok_iff_passes.mp linked
    obtain ⟨_, rfl⟩ := link_eq_ok_iff_passes.mp otherLinked
    exact rearranged_withRoots rearranged types directives

def backwards : FieldOrder where
  arrange _ := List.reverse
  perm _ := List.reverse_perm

/-- Definitions that refer to later ones, with an interface that implements itself and one that is
implemented twice by the same type. -/
def sampleDeclared : Definitions where
  roots? := none
  types :=
    [.object ⟨"Query", [⟨"pet", [⟨"by", .named "Filter", none⟩], .named "Pet"⟩,
        ⟨"id", [], .nonNull (.named "ID")⟩], ["Node", "Node"]⟩,
      .interface ⟨"Node", [⟨"id", [], .nonNull (.named "ID")⟩], ["Node"], []⟩,
      .union ⟨"Pet", ["Cat"]⟩, .object ⟨"Cat", [], ["Node"]⟩,
      .inputObject ⟨"Filter", [⟨"limit", .named "Int", none⟩]⟩]
  directives :=
    [⟨"d", [⟨"by", .named "Filter", none⟩], [.field], false⟩, ⟨"skip", [], [.field], true⟩]

def sampleBackwards : Definitions where
  roots? := sampleDeclared.roots?
  types := (sampleDeclared.types.map (TypeDefinition.arrange backwards)).reverse
  directives := sampleDeclared.directives.reverse

theorem link_rearranged_sampleBackwards :
    sampleDeclared.Rearranged backwards sampleBackwards ∧
      Named.Distinct sampleDeclared.types ∧ Named.Distinct sampleDeclared.directives ∧
      ∃ schema other, sampleDeclared.link = .ok schema ∧ sampleBackwards.link = .ok other ∧
        schema.Rearranged backwards other := by
  have rearranged : sampleDeclared.Rearranged backwards sampleBackwards :=
    ⟨rfl, List.reverse_perm _, List.reverse_perm _⟩
  have types : Named.Distinct sampleDeclared.types := by decide
  have directives : Named.Distinct sampleDeclared.directives := by decide
  obtain ⟨links, same⟩ := link_rearranged rearranged types directives
  have linked : ∃ schema, sampleDeclared.link = .ok schema := ⟨_, rfl⟩
  obtain ⟨other, otherLinked⟩ := links.mpr linked
  obtain ⟨schema, linked⟩ := linked
  exact ⟨rearranged, types, directives, schema, other, linked, otherLinked,
    same schema other linked otherLinked⟩

end Definitions

end QueryCheck
