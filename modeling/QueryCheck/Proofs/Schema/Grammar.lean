import QueryCheck.Proofs.Named
import QueryCheck.Proofs.Reading.Grammar
import QueryCheck.Schema.Definitions

/-!
# The grammar of schema texts

Which words stand for which definitions. As in the grammar of documents, nothing is said
about how the words are read. Whether names are repeated is no matter of the grammar, but of
what the words stand for.

Descriptions, and directives on definitions, are spelled but stand for nothing.
-/

namespace QueryCheck

open QueryCheck.Language (Many)

namespace Language

variable {α : Type}

inductive Description : List Token → Prop
  | absent : Description []
  | present (text : String) : Description [.string text]

/-- Any number of words of a language, each after an optional description. After the last there may
be a description alone. -/
inductive Described (item : Language α) : Language (List α)
  | nil {description : List Token} : Description description → Described item description []
  | cons {description word rest : List Token} {value : α} {values : List α} :
      Description description → item word value → Described item rest values →
        Described item (description ++ (word ++ rest)) (value :: values)

theorem Described.exists_word {item : Language α} {word : List Token} {values : List α}
    (described : Described item word values) {value : α} (member : value ∈ values) :
    ∃ word, item word value := by
  induction described with
  | nil => cases member
  | cons _ derived _ ih =>
      rcases List.mem_cons.mp member with rfl | member
      · exact ⟨_, derived⟩
      · exact ih member

inductive Separated (separator : Token) (item : Language α) : Language (List α)
  | one {word : List Token} {value : α} : item word value → Separated separator item word [value]
  | more {word rest : List Token} {value : α} {values : List α} :
      item word value → Separated separator item rest values →
        Separated separator item (word ++ separator :: rest) (value :: values)

/-- Like `Separated`, where the token may also come before the first word. -/
inductive Led (separator : Token) (item : Language α) : Language (List α)
  | plain {word : List Token} {values : List α} :
      Separated separator item word values → Led separator item word values
  | led {word : List Token} {values : List α} :
      Separated separator item word values → Led separator item (separator :: word) values

/-- A name, which stands for itself. -/
def named : Language String :=
  fun word name => word = [.name name]

end Language

open QueryCheck.Language (Described Description Led named)

namespace InputValueDefinition

/-- How the default of an input value is spelled. There are no variables in it at any depth. -/
inductive DefaultDerives : List Token → Option Value → Prop
  | absent : DefaultDerives [] none
  | present {word : List Token} {value : Value} :
      Value.Derives word value → value.variableNames = [] →
        DefaultDerives (.equal :: word) (some value)

inductive Derives : List Token → InputValueDefinition → Prop
  | intro (name : String) {description spelled given marks : List Token} {type : TypeRef}
      {default? : Option Value} {directives : List Directive} :
      Description description → TypeRef.Derives spelled type → DefaultDerives given default? →
        Many Directive.Derives marks directives →
          Derives (description ++ (.name name :: .colon :: (spelled ++ (given ++ marks))))
            ⟨name, type, default?⟩

inductive ListDerives (opening close : Token) : List Token → List InputValueDefinition → Prop
  | absent : ListDerives opening close [] []
  | present {body : List Token} {values : List InputValueDefinition} :
      Many Derives body values → ListDerives opening close (opening :: (body ++ [close])) values

end InputValueDefinition

namespace FieldDefinition

inductive Derives : List Token → FieldDefinition → Prop
  | intro (name : String) {description given spelled marks : List Token} {type : TypeRef}
      {arguments : List InputValueDefinition} {directives : List Directive} :
      Description description →
        InputValueDefinition.ListDerives .parenOpen .parenClose given arguments →
          TypeRef.Derives spelled type → Many Directive.Derives marks directives →
            Derives (description ++ (.name name :: (given ++ (.colon :: (spelled ++ marks)))))
              ⟨name, arguments, type⟩

inductive ListDerives : List Token → List FieldDefinition → Prop
  | absent : ListDerives [] []
  | present {body : List Token} {fields : List FieldDefinition} :
      Many Derives body fields → ListDerives (.braceOpen :: (body ++ [.braceClose])) fields

end FieldDefinition

inductive EnumType.ValueDerives : List Token → String → Prop
  | intro {value : String} {marks : List Token} {directives : List Directive} :
      Value.IsEnumName value → Many Directive.Derives marks directives →
        ValueDerives (.name value :: marks) value

inductive EnumType.ListDerives : List Token → List String → Prop
  | absent : ListDerives [] []
  | present {body : List Token} {values : List String} :
      Described EnumType.ValueDerives body values →
        ListDerives (.braceOpen :: (body ++ [.braceClose])) values

namespace TypeDefinition

inductive InterfacesDerive : List Token → List String → Prop
  | absent : InterfacesDerive [] []
  | present {word : List Token} {names : List String} :
      Led .ampersand named word names → InterfacesDerive (.name "implements" :: word) names

inductive MembersDerive : List Token → List String → Prop
  | absent : MembersDerive [] []
  | present {word : List Token} {names : List String} :
      Led .pipe named word names → MembersDerive (.equal :: word) names

/-- How types of a kind are spelled after their keyword. Values of an enum count once. -/
inductive BodyDerives : TypeKind → List Token → TypeDefinition → Prop
  | object (name : String) {heads marks body : List Token} {interfaces : List String}
      {directives : List Directive} {fields : List FieldDefinition} :
      InterfacesDerive heads interfaces → Many Directive.Derives marks directives →
        FieldDefinition.ListDerives body fields →
          BodyDerives .object (.name name :: (heads ++ (marks ++ body)))
            (.object ⟨name, fields, interfaces⟩)
  | interface (name : String) {heads marks body : List Token} {interfaces : List String}
      {directives : List Directive} {fields : List FieldDefinition} :
      InterfacesDerive heads interfaces → Many Directive.Derives marks directives →
        FieldDefinition.ListDerives body fields →
          BodyDerives .interface (.name name :: (heads ++ (marks ++ body)))
            (.interface ⟨name, fields, interfaces, []⟩)
  | union (name : String) {marks body : List Token} {directives : List Directive}
      {members : List String} :
      Many Directive.Derives marks directives → MembersDerive body members →
        BodyDerives .union (.name name :: (marks ++ body)) (.union ⟨name, members⟩)
  | enum (name : String) {marks body : List Token} {directives : List Directive}
      {values : List String} :
      Many Directive.Derives marks directives → EnumType.ListDerives body values →
        BodyDerives .enum (.name name :: (marks ++ body)) (.enum ⟨name, values.eraseDups⟩)
  | scalar (name : String) {marks : List Token} {directives : List Directive} :
      Many Directive.Derives marks directives →
        BodyDerives .scalar (.name name :: marks) (.scalar ⟨name⟩)
  | inputObject (name : String) {marks body : List Token} {directives : List Directive}
      {fields : List InputValueDefinition} :
      Many Directive.Derives marks directives →
        InputValueDefinition.ListDerives .braceOpen .braceClose body fields →
          BodyDerives .inputObject (.name name :: (marks ++ body)) (.inputObject ⟨name, fields⟩)

inductive Derives : List Token → TypeDefinition → Prop
  | intro {kind : TypeKind} {word : List Token} {type : TypeDefinition} :
      BodyDerives kind word type → Derives (.name kind.keyword :: word) type

end TypeDefinition

namespace DirectiveDefinition

inductive RepeatableDerives : List Token → Bool → Prop
  | absent : RepeatableDerives [] false
  | present : RepeatableDerives [.name "repeatable"] true

def LocationDerives : Language DirectiveLocation :=
  fun word location => word = [.name location.spelling]

/-- How directives are spelled. Locations count once. -/
inductive Derives : List Token → DirectiveDefinition → Prop
  | intro (name : String) {given often places : List Token}
      {arguments : List InputValueDefinition} {isRepeatable : Bool}
      {locations : List DirectiveLocation} :
      InputValueDefinition.ListDerives .parenOpen .parenClose given arguments →
        RepeatableDerives often isRepeatable → Led .pipe LocationDerives places locations →
          Derives (.name "directive" :: .directiveName name ::
              (given ++ (often ++ (.name "on" :: places))))
            ⟨name, arguments, locations.eraseDups, isRepeatable⟩

end DirectiveDefinition

/-- A definition in a schema text. The root types are given as they are spelled. -/
inductive SchemaItem where
  | roots (entries : List (OperationKind × String))
  | type (definition : TypeDefinition)
  | directive (definition : DirectiveDefinition)
deriving DecidableEq, Repr

namespace SchemaItem

inductive RootDerives : List Token → OperationKind × String → Prop
  | intro (kind : OperationKind) (name : String) :
      RootDerives [.name kind.keyword, .colon, .name name] (kind, name)

inductive Derives : List Token → SchemaItem → Prop
  | roots {marks body : List Token} {directives : List Directive}
      {entries : List (OperationKind × String)} :
      Many Directive.Derives marks directives → Many RootDerives body entries →
        Derives (.name "schema" :: (marks ++ (.braceOpen :: (body ++ [.braceClose]))))
          (.roots entries)
  | type {word : List Token} {definition : TypeDefinition} :
      TypeDefinition.Derives word definition → Derives word (.type definition)
  | directive {word : List Token} {definition : DirectiveDefinition} :
      DirectiveDefinition.Derives word definition → Derives word (.directive definition)

def TextDerives : Language (List SchemaItem) :=
  Described Derives

end SchemaItem

/-! ## Repeated names -/

namespace SchemaItem

/-- No two fields have the same name, and no two arguments of one field. -/
def DistinctFields (fields : List FieldDefinition) : Prop :=
  Named.Distinct fields ∧ ∀ field ∈ fields, Named.Distinct field.arguments

def Distinct : SchemaItem → Prop
  | .roots entries => (entries.map Prod.fst).Nodup
  | .type (.object definition) => DistinctFields definition.fields
  | .type (.interface definition) => DistinctFields definition.fields
  | .type (.inputObject definition) => Named.Distinct definition.fields
  | .type _ => True
  | .directive definition => Named.Distinct definition.arguments

def type? : SchemaItem → Option TypeDefinition
  | .type definition => some definition
  | _ => none

def directive? : SchemaItem → Option DirectiveDefinition
  | .directive definition => some definition
  | _ => none

def roots? : SchemaItem → Option (List (OperationKind × String))
  | .roots entries => some entries
  | _ => none

/-- No name is repeated in a schema text, and the root types are defined at most once. -/
structure AllDistinct (items : List SchemaItem) : Prop where
  inside : ∀ item ∈ items, item.Distinct
  types : Named.Distinct (items.filterMap type?)
  directives : Named.Distinct (items.filterMap directive?)
  roots : (items.filterMap roots?).length ≤ 1

/-- The name of the root type of a kind, which is the first that is given. -/
def rootNames (entries : List (OperationKind × String)) : RootNames where
  query? := entries.lookup .query
  mutation? := entries.lookup .mutation
  subscription? := entries.lookup .subscription

/-- The definitions that a schema text stands for, in source order. -/
def collect (items : List SchemaItem) : Definitions where
  roots? := (items.filterMap roots?).head?.map rootNames
  types := items.filterMap type?
  directives := items.filterMap directive?

end SchemaItem

end QueryCheck
