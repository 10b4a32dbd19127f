import QueryCheck.Proofs.Reading.Documents

/-!
# Rendering documents

The documents that can be written down at all are the regular ones. Each of them has a
rendering, from which it is read again. The main result says that reading takes exactly the
words of the grammar, and which documents those words stand for.
-/

namespace QueryCheck

open QueryCheck.Language (Many)

namespace Language.Many

variable {α : Type} {item : Language α}

/-- Words for the items, one after another. -/
theorem flatMap {spell : α → List Token} {values : List α}
    (each : ∀ value ∈ values, item (spell value) value) :
    Many item (values.flatMap spell) values := by
  induction values with
  | nil => exact nil
  | cons value values ih =>
      rw [List.forall_mem_cons] at each
      exact cons each.1 (ih each.2)

theorem forall_mem {p : α → Prop} {word : List Token} {values : List α}
    (many : Many item word values) (each : ∀ {word value}, item word value → p value) :
    ∀ value ∈ values, p value := by
  induction many with
  | nil => simp
  | cons head _ ih => exact List.forall_mem_cons.mpr ⟨each head, ih⟩

end Language.Many

namespace Value

mutual

/-- A value can be written down if no enum value in it is named like another value. -/
def Regular : Value → Prop
  | enum name => IsEnumName name
  | list items => RegularList items
  | object fields => RegularFields fields
  | _ => True

def RegularList : List Value → Prop
  | [] => True
  | item :: items => item.Regular ∧ RegularList items

def RegularFields : List (String × Value) → Prop
  | [] => True
  | (_, value) :: fields => value.Regular ∧ RegularFields fields

end

mutual

def spell : Value → List Token
  | var name => [.variableName name]
  | string value => [.string value]
  | float text => [.float text]
  | int text => [.integer text]
  | boolean true => [.name "true"]
  | boolean false => [.name "false"]
  | enum name => [.name name]
  | list items => .bracketOpen :: (spellList items ++ [.bracketClose])
  | object fields => .braceOpen :: (spellFields fields ++ [.braceClose])
  | null => [.name "null"]

def spellList : List Value → List Token
  | [] => []
  | item :: items => item.spell ++ spellList items

def spellFields : List (String × Value) → List Token
  | [] => []
  | (name, value) :: fields => .name name :: .colon :: value.spell ++ spellFields fields

end

mutual

theorem derives_spell : (value : Value) → value.Regular → Derives value.spell value
  | var name, _ => .var name
  | string value, _ => .string value
  | float text, _ => .float text
  | int text, _ => .int text
  | boolean true, _ => .yes
  | boolean false, _ => .no
  | enum _, free => .enum free
  | list items, regular => .list (many_spellList items regular)
  | object fields, regular => .object (many_spellFields fields regular)
  | null, _ => .null

theorem many_spellList : (items : List Value) → RegularList items →
    Many Derives (spellList items) items
  | [], _ => .nil
  | item :: items, regular => .cons (derives_spell item regular.1) (many_spellList items regular.2)

theorem many_spellFields : (fields : List (String × Value)) → RegularFields fields →
    Many (Language.Labelled Derives) (spellFields fields) fields
  | [], _ => .nil
  | (name, value) :: fields, regular =>
      .cons (.intro name (derives_spell value regular.1)) (many_spellFields fields regular.2)

end

mutual

theorem regular_of_derives : (value : Value) → {word : List Token} → Derives word value →
    value.Regular
  | enum _, _, .enum free => free
  | list items, _, .list many => regularList_of_many items many
  | object fields, _, .object many => regularFields_of_many fields many
  | var _, _, _ | string _, _, _ | float _, _, _ | int _, _, _ | boolean _, _, _ | null, _, _ =>
      trivial

theorem regularList_of_many : (items : List Value) → {word : List Token} →
    Many Derives word items → RegularList items
  | [], _, _ => trivial
  | item :: items, _, .cons head tail =>
      ⟨regular_of_derives item head, regularList_of_many items tail⟩

theorem regularFields_of_many : (fields : List (String × Value)) → {word : List Token} →
    Many (Language.Labelled Derives) word fields → RegularFields fields
  | [], _, _ => trivial
  | (_, value) :: fields, _, .cons (.intro _ head) tail =>
      ⟨regular_of_derives value head, regularFields_of_many fields tail⟩

end

end Value

namespace TypeRef

/-- A type can be written down if it is marked at most once at each level. -/
def Regular : TypeRef → Prop
  | named _ => True
  | list item => item.Regular
  | nonNull inner => inner.isNonNull = false ∧ inner.Regular

def spell : TypeRef → List Token
  | named name => [.name name]
  | list item => .bracketOpen :: (item.spell ++ [.bracketClose])
  | nonNull inner => inner.spell ++ [.exclam]

theorem derives_spell {type : TypeRef} (regular : type.Regular) : Derives type.spell type := by
  induction type with
  | named name => exact .named name
  | list item ih => exact .list (ih regular)
  | nonNull inner ih => exact .nonNull (ih regular.2) regular.1

theorem Derives.regular {word : List Token} {type : TypeRef} (derived : Derives word type) :
    type.Regular := by
  induction derived with
  | named => trivial
  | list _ ih => exact ih
  | nonNull _ once ih => exact ⟨once, ih⟩

end TypeRef

namespace Argument

def spellAll : List Argument → List Token
  | [] => []
  | arguments =>
      .parenOpen :: (arguments.flatMap (fun argument =>
        .name argument.name :: .colon :: argument.value.spell) ++ [.parenClose])

theorem derives_spellAll {arguments : List Argument}
    (regular : ∀ argument ∈ arguments, argument.value.Regular) :
    ListDerives (spellAll arguments) arguments := by
  unfold spellAll
  split
  · exact .absent
  · refine .present (.flatMap fun argument member => ?_)
    exact .intro argument.name (Value.derives_spell _ (regular argument member))

theorem ListDerives.regular {word : List Token} {arguments : List Argument}
    (derived : ListDerives word arguments) :
    ∀ argument ∈ arguments, argument.value.Regular := by
  cases derived with
  | absent => simp
  | present many =>
      refine many.forall_mem ?_
      rintro _ _ ⟨_, derived⟩
      exact Value.regular_of_derives _ derived

end Argument

namespace Directive

def Regular (directive : Directive) : Prop :=
  ∀ argument ∈ directive.arguments, argument.value.Regular

def spell (directive : Directive) : List Token :=
  .directiveName directive.name :: Argument.spellAll directive.arguments

theorem many_spell {directives : List Directive}
    (regular : ∀ directive ∈ directives, directive.Regular) :
    Many Derives (directives.flatMap spell) directives :=
  .flatMap fun directive member =>
    .intro directive.name (Argument.derives_spellAll (regular directive member))

theorem regular_of_many {word : List Token} {directives : List Directive}
    (many : Many Derives word directives) : ∀ directive ∈ directives, directive.Regular := by
  refine many.forall_mem ?_
  rintro _ _ ⟨_, derived⟩
  exact derived.regular

end Directive

def Field.spellName (name : String) : Option String → List Token
  | none => [.name name]
  | some other => [.name other, .colon, .name name]

theorem Field.derives_spellName (name : String) (alias? : Option String) :
    NameDerives (spellName name alias?) (alias?, name) := by
  cases alias? with
  | none => exact .plain name
  | some other => exact .aliased other name

def InlineFragment.spellCondition : Option String → List Token
  | none => []
  | some name => [.name "on", .name name]

theorem InlineFragment.derives_spellCondition (type? : Option String) :
    ConditionDerives (spellCondition type?) type? := by
  cases type? with
  | none => exact .absent
  | some name => exact .present name

namespace Selection

mutual

/-- A selection can be written down if no spread in it has the name of a type condition's first
word and no inline fragment in it is without selections. -/
def Regular : Selection → Prop
  | .field chosen => RegularField chosen
  | .spread place => place.name ≠ "on" ∧ ∀ directive ∈ place.directives, directive.Regular
  | .inline fragment => RegularInline fragment

def RegularField : Field → Prop
  | ⟨_, _, arguments, directives, selections⟩ =>
      (∀ argument ∈ arguments, argument.value.Regular) ∧
        (∀ directive ∈ directives, directive.Regular) ∧ RegularList selections

def RegularInline : InlineFragment → Prop
  | ⟨_, directives, selections⟩ =>
      (∀ directive ∈ directives, directive.Regular) ∧ RegularList selections ∧ selections ≠ []

def RegularList : List Selection → Prop
  | [] => True
  | selection :: selections => selection.Regular ∧ RegularList selections

end

mutual

def spell : Selection → List Token
  | .field chosen => spellField chosen
  | .spread place => .ellipsis :: .name place.name :: place.directives.flatMap Directive.spell
  | .inline fragment => spellInline fragment

def spellField : Field → List Token
  | ⟨alias?, name, arguments, directives, selections⟩ =>
      Field.spellName name alias? ++ (Argument.spellAll arguments ++
        (directives.flatMap Directive.spell ++ spellSet selections))

def spellInline : InlineFragment → List Token
  | ⟨type?, directives, selections⟩ =>
      .ellipsis :: (InlineFragment.spellCondition type? ++
        (directives.flatMap Directive.spell ++ spellSet selections))

def spellList : List Selection → List Token
  | [] => []
  | selection :: selections => selection.spell ++ spellList selections

def spellSet : List Selection → List Token
  | [] => []
  | selection :: selections =>
      .braceOpen :: (selection.spell ++ spellList selections ++ [.braceClose])

end

theorem optional_of_set {selections : List Selection}
    (set : selections ≠ [] → SetDerives (spellSet selections) selections) :
    OptionalDerives (spellSet selections) selections := by
  cases selections with
  | nil => exact .absent
  | cons selection selections => exact .present (set (by simp))

mutual

theorem derives_spell : (selection : Selection) → selection.Regular →
    Derives selection.spell selection
  | .field chosen, regular => .field (derives_spellField chosen regular)
  | .spread ⟨_, _⟩, regular => .spread (.intro regular.1 (Directive.many_spell regular.2))
  | .inline fragment, regular => .inline (derives_spellInline fragment regular)

theorem derives_spellField : (field : Field) → RegularField field →
    Field.Derives (spellField field) field
  | ⟨alias?, name, _, _, selections⟩, ⟨arguments, directives, regular⟩ =>
      .intro (Field.derives_spellName name alias?) (Argument.derives_spellAll arguments)
        (Directive.many_spell directives)
        (optional_of_set (derives_spellSet selections regular))

theorem derives_spellInline : (fragment : InlineFragment) → RegularInline fragment →
    InlineFragment.Derives (spellInline fragment) fragment
  | ⟨type?, _, selections⟩, ⟨directives, regular, nonempty⟩ =>
      .intro (InlineFragment.derives_spellCondition type?) (Directive.many_spell directives)
        (derives_spellSet selections regular nonempty)

theorem many_spellList : (selections : List Selection) → RegularList selections →
    Many Derives (spellList selections) selections
  | [], _ => .nil
  | selection :: selections, regular =>
      .cons (derives_spell selection regular.1) (many_spellList selections regular.2)

theorem derives_spellSet : (selections : List Selection) → RegularList selections →
    selections ≠ [] → SetDerives (spellSet selections) selections
  | [], _, nonempty => absurd rfl nonempty
  | selection :: selections, regular, nonempty =>
      .intro (.cons (derives_spell selection regular.1) (many_spellList selections regular.2))
        nonempty

end

mutual

theorem regular_of_derives : (selection : Selection) → {word : List Token} →
    Derives word selection → selection.Regular
  | .field chosen, _, .field derived => regularField_of_derives chosen derived
  | .spread _, _, .spread (.intro free marks) => ⟨free, Directive.regular_of_many marks⟩
  | .inline fragment, _, .inline derived => regularInline_of_derives fragment derived

theorem regularField_of_derives : (field : Field) → {word : List Token} →
    Field.Derives word field → RegularField field
  | ⟨_, _, _, _, selections⟩, _, .intro _ given marks body =>
      ⟨given.regular, Directive.regular_of_many marks, by
        cases body with
        | absent => trivial
        | present set =>
            cases set with
            | intro many _ => exact regularList_of_many selections many⟩

theorem regularInline_of_derives : (fragment : InlineFragment) → {word : List Token} →
    InlineFragment.Derives word fragment → RegularInline fragment
  | ⟨_, _, selections⟩, _, .intro _ marks (.intro many nonempty) =>
      ⟨Directive.regular_of_many marks, regularList_of_many selections many, nonempty⟩

theorem regularList_of_many : (selections : List Selection) → {word : List Token} →
    Many Derives word selections → RegularList selections
  | [], _, _ => trivial
  | selection :: selections, _, .cons head tail =>
      ⟨regular_of_derives selection head, regularList_of_many selections tail⟩

end

theorem SetDerives.regular {word : List Token} {selections : List Selection}
    (set : SetDerives word selections) : RegularList selections ∧ selections ≠ [] := by
  cases set with
  | intro many nonempty => exact ⟨regularList_of_many selections many, nonempty⟩

end Selection

namespace VariableDefinition

/-- The definition of a variable can be written down if its parts can and there are no variables in
the default. -/
structure Regular (definition : VariableDefinition) : Prop where
  type : definition.type.Regular
  default : definition.default.Regular
  constant : definition.default.variableNames = []
  directives : ∀ directive ∈ definition.directives, directive.Regular

def spellDefault : Value → List Token
  | .null => []
  | value => .equal :: value.spell

def spell (definition : VariableDefinition) : List Token :=
  .variableName definition.name :: .colon :: (definition.type.spell ++
    (spellDefault definition.default ++ definition.directives.flatMap Directive.spell))

def spellAll : List VariableDefinition → List Token
  | [] => []
  | definitions => .parenOpen :: (definitions.flatMap spell ++ [.parenClose])

theorem derives_spellDefault {default : Value} (regular : default.Regular)
    (constant : default.variableNames = []) : DefaultDerives (spellDefault default) default := by
  unfold spellDefault
  split
  · exact .absent
  · exact .present (Value.derives_spell _ regular) constant

theorem derives_spell {definition : VariableDefinition} (regular : definition.Regular) :
    Derives definition.spell definition :=
  .intro definition.name (TypeRef.derives_spell regular.type)
    (derives_spellDefault regular.default regular.constant)
    (Directive.many_spell regular.directives)

theorem derives_spellAll {definitions : List VariableDefinition}
    (regular : ∀ definition ∈ definitions, definition.Regular) :
    ListDerives (spellAll definitions) definitions := by
  unfold spellAll
  split
  · exact .absent
  next some =>
    exact .present (.flatMap fun definition member => derives_spell (regular definition member))
      some

theorem Derives.regular {word : List Token} {definition : VariableDefinition}
    (derived : Derives word definition) : definition.Regular := by
  obtain ⟨_, type, default, marks⟩ := derived
  cases default with
  | absent => exact ⟨type.regular, trivial, rfl, Directive.regular_of_many marks⟩
  | present given constant =>
      exact ⟨type.regular, Value.regular_of_derives _ given, constant,
        Directive.regular_of_many marks⟩

theorem ListDerives.regular {word : List Token} {definitions : List VariableDefinition}
    (derived : ListDerives word definitions) : ∀ definition ∈ definitions, definition.Regular := by
  cases derived with
  | absent => simp
  | present many _ => exact many.forall_mem Derives.regular

end VariableDefinition

namespace Operation

/-- An operation can be written down if its parts can and it has selections. -/
structure Regular (operation : Operation) : Prop where
  definitions : ∀ definition ∈ operation.variableDefinitions, definition.Regular
  directives : ∀ directive ∈ operation.directives, directive.Regular
  selections : Selection.RegularList operation.selections
  nonempty : operation.selections ≠ []

def spellName : Option String → List Token
  | none => []
  | some name => [.name name]

def spell (operation : Operation) : List Token :=
  .name operation.kind.keyword :: (spellName operation.name? ++
    (VariableDefinition.spellAll operation.variableDefinitions ++
      (operation.directives.flatMap Directive.spell ++ Selection.spellSet operation.selections)))

theorem derives_spellName (name? : Option String) : NameDerives (spellName name?) name? := by
  cases name? with
  | none => exact .absent
  | some name => exact .present name

theorem derives_spell {operation : Operation} (regular : operation.Regular) :
    Derives operation.spell operation :=
  .full operation.kind (derives_spellName operation.name?)
    (VariableDefinition.derives_spellAll regular.definitions)
    (Directive.many_spell regular.directives)
    (Selection.derives_spellSet _ regular.selections regular.nonempty)

theorem Derives.regular {word : List Token} {operation : Operation}
    (derived : Derives word operation) : operation.Regular := by
  cases derived with
  | short body => exact ⟨by simp, by simp, body.regular.1, body.regular.2⟩
  | full _ _ given marks body =>
      exact ⟨given.regular, Directive.regular_of_many marks, body.regular.1, body.regular.2⟩

end Operation

namespace Fragment

structure Regular (fragment : Fragment) : Prop where
  directives : ∀ directive ∈ fragment.directives, directive.Regular
  selections : Selection.RegularList fragment.selections
  nonempty : fragment.selections ≠ []

def spell (fragment : Fragment) : List Token :=
  .name "fragment" :: .name fragment.name :: .name "on" :: .name fragment.typeCondition ::
    (fragment.directives.flatMap Directive.spell ++ Selection.spellSet fragment.selections)

theorem derives_spell {fragment : Fragment} (regular : fragment.Regular) :
    Derives fragment.spell fragment :=
  .intro fragment.name fragment.typeCondition (Directive.many_spell regular.directives)
    (Selection.derives_spellSet _ regular.selections regular.nonempty)

theorem Derives.regular {word : List Token} {fragment : Fragment}
    (derived : Derives word fragment) : fragment.Regular := by
  obtain ⟨_, _, marks, body⟩ := derived
  exact ⟨Directive.regular_of_many marks, body.regular.1, body.regular.2⟩

end Fragment

namespace Definition

def Regular : Definition → Prop
  | .operation given => given.Regular
  | .fragment given => given.Regular

def spell : Definition → List Token
  | .operation given => given.spell
  | .fragment given => given.spell

theorem derives_spell {definition : Definition} (regular : definition.Regular) :
    Derives definition.spell definition := by
  cases definition with
  | operation operation => exact .operation (Operation.derives_spell regular)
  | fragment fragment => exact .fragment (Fragment.derives_spell regular)

theorem Derives.regular {word : List Token} {definition : Definition}
    (derived : Derives word definition) : definition.Regular := by
  cases derived with
  | operation derived => exact derived.regular
  | fragment derived => exact derived.regular

end Definition

namespace Document

def Regular (document : Document) : Prop :=
  ∀ definition ∈ document.definitions, definition.Regular

def spell (document : Document) : List Token :=
  document.definitions.flatMap Definition.spell

theorem derives_spell {document : Document} (regular : document.Regular) :
    Derives document.spell document :=
  .flatMap fun definition member => Definition.derives_spell (regular definition member)

theorem Derives.regular {tokens : List Token} {document : Document}
    (derived : Derives tokens document) : document.Regular :=
  Many.forall_mem derived Definition.Derives.regular

/-- A document is read exactly if the tokens derive it. Tokens derive at most one document, the
derived documents are the regular ones, and those are read from their renderings. -/
theorem reads_grammar :
    (∀ tokens document, read tokens = .ok document ↔ Derives tokens document) ∧
      (∀ tokens first second, Derives tokens first → Derives tokens second → first = second) ∧
        (∀ document, (∃ tokens, Derives tokens document) ↔ document.Regular) ∧
          ∀ document, document.Regular ↔ read document.spell = .ok document := by
  refine ⟨fun _ _ => read_eq_ok_iff, ?_, ?_, ?_⟩
  · intro tokens first second one other
    have ok := read_eq_ok_iff.mpr one
    rw [read_eq_ok_iff.mpr other] at ok
    exact (Except.ok.inj ok).symm
  · intro document
    constructor
    · rintro ⟨tokens, derived⟩
      exact derived.regular
    · intro regular
      exact ⟨document.spell, derives_spell regular⟩
  · intro document
    constructor
    · intro regular
      exact read_eq_ok_iff.mpr (derives_spell regular)
    · intro ok
      exact (read_eq_ok_iff.mp ok).regular

/-- A query with a variable, a directive, an alias, arguments and all kinds of selections. -/
def sampleQuery : Document :=
  ⟨[.operation ⟨.query, none,
    [⟨"size", .nonNull (.list (.nonNull (.named "Int"))), .list [.int "1"], []⟩],
    [⟨"only", [⟨"on", .object [("kind", .enum "OLD"), ("size", .var "size")]⟩]⟩],
    [.field ⟨some "first", "pet", [], [],
      [.spread ⟨"Name", []⟩, .inline ⟨some "Dog", [], [.field ⟨none, "age", [], [], []⟩]⟩]⟩]⟩]⟩

theorem reads_grammar_sampleQuery :
    sampleQuery.Regular ∧ (∃ tokens, Derives tokens sampleQuery) ∧
      read sampleQuery.spell = .ok sampleQuery := by
  have regular : sampleQuery.Regular := by
    refine List.forall_mem_singleton.mpr ⟨?_, ?_, ?_, ?_⟩
    · refine List.forall_mem_singleton.mpr ⟨?_, ?_, ?_, ?_⟩
      · simp [TypeRef.Regular, TypeRef.isNonNull]
      · simp [Value.Regular, Value.RegularList]
      · simp [Value.variableNames, Value.listVariableNames]
      · simp
    · simp [Directive.Regular, Value.Regular, Value.RegularFields, Value.IsEnumName]
    · simp [Selection.RegularList, Selection.Regular, Selection.RegularField,
        Selection.RegularInline]
    · simp
  obtain ⟨_, _, derived, spelled⟩ := reads_grammar
  exact ⟨regular, (derived sampleQuery).mpr regular, (spelled sampleQuery).mp regular⟩

end Document

end QueryCheck
