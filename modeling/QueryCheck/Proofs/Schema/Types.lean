import QueryCheck.Proofs.Schema.Phrases

/-!
# Reading types

Types of each kind are read exactly if the words derive them and no name in them is repeated.
-/

namespace QueryCheck

open QueryCheck.Language (Described Many)

namespace Definitions

/-- What may follow a definition: the end, a description, or a word that starts another one. -/
def FollowsDefinition (next : Option Token) : Prop :=
  next = none ∨ (∃ text, next = some (.string text)) ∨
    ∃ word, next = some (.name word) ∧ word ≠ "implements"

theorem FollowsDefinition.ne {next : Option Token} (follow : FollowsDefinition next) {token : Token}
    (noString : token.string? = none) (noName : token.name? = none) : next ≠ some token := by
  rcases follow with rfl | ⟨text, rfl⟩ | ⟨word, rfl, _⟩
  · exact (Option.some_ne_none token).symm
  · rintro ⟨⟩
    cases noString
  · rintro ⟨⟩
    cases noName

theorem FollowsDefinition.directives {next : Option Token} (follow : FollowsDefinition next) :
    Directive.Follows next :=
  ⟨follow.ne rfl rfl, fun _ => follow.ne rfl rfl⟩

/-- Directives may be followed by a part that starts with a token and may be left out. -/
theorem directiveFollows_optional (token : Token) (noParen : token ≠ .parenOpen)
    (noDirective : ∀ name, token ≠ .directiveName name) (next : Option Token)
    (start : next = some token ∨ next = none) : Directive.Follows next := by
  rcases start with rfl | rfl
  · simpa [Directive.Follows] using And.intro noParen noDirective
  · simp [Directive.Follows]

def enumName? (token : Token) : Option String :=
  match token.name?.map Value.ofName with
  | some (.enum name) => some name
  | _ => none

theorem enumName?_eq_some {token : Token} {name : String} :
    enumName? token = some name ↔ token = .name name ∧ Value.IsEnumName name := by
  cases token with
  | name text =>
      simp only [enumName?, Token.name?, Option.map_some, Token.name.injEq, Value.ofName,
        Value.IsEnumName]
      grind
  | _ => simp [enumName?, Token.name?]

def enumCause (enum : String) : Option Token → SchemaFault
  | some (.name _) => .malformed (.reservedEnumValue enum)
  | _ => .malformed .expectedEnumValue

theorem plain_readEnumValue (enum : String) (tokens : List Token) :
    (readEnumValue enum tokens).plain = Scan.take enumName? (enumCause enum) tokens := by
  rcases tokens with _ | ⟨next, rest⟩
  · rfl
  · cases next with
    | name text =>
        cases given : Value.ofName text <;>
          simp [readEnumValue, Scan.take, enumName?, enumCause, Token.name?, given, Reading.plain,
            Reading.fail]
    | _ => rfl

theorem scan_readEnumValues (enum : String) :
    Scan.of (readEnumValues enum) = (do
      scanDescription
      Scan.choose (· = some .braceClose)
        (do
          Scan.exactly .braceClose (.malformed .expectedEnumValue)
          pure [])
        (do
          let value ← Scan.take enumName? (enumCause enum)
          Scan.of skipDirectives
          let others ← Scan.of (readEnumValues enum)
          pure (value :: others))) := by
  funext tokens
  rw [description_bind, Scan.of, readEnumValues]
  split
  next brace accepted =>
    rw [Scan.choose_accepted accepted]
    rfl
  next refused =>
    rw [Scan.choose_refused refused]
    refine Scan.plain_bind (plain_readEnumValue enum _) fun value => ?_
    refine Scan.plain_bind rfl fun directives => ?_
    exact Scan.plain_bind rfl fun _ => rfl

/-- Values of an enum up to the closing brace. -/
theorem recognizes_readEnumValues (bound : Nat) (enum : String) :
    Recognizes bound (Scan.of (readEnumValues enum))
      (fun word values => ∃ body, word = body ++ [.braceClose] ∧
        Described EnumType.ValueDerives body values)
      (fun next => StartsEntry next ∨ next = some .braceClose) fun _ => True := by
  induction bound with
  | zero =>
      refine .zero ?_
      rintro _ _ ⟨_, rfl, ⟨_ | text⟩ | ⟨_ | text, ⟨_, _⟩, _⟩⟩
      · exact .inr rfl
      · exact .inl (.inl ⟨text, rfl⟩)
      · exact .inl (.inr ⟨_, rfl⟩)
      · exact .inl (.inl ⟨text, rfl⟩)
  | succ bound ih =>
      have value : Recognizes (bound + 1) _ _ _ _ := .take enumName? (enumCause enum)
      rw [scan_readEnumValues]
      refine ((recognizes_description (bound + 1)).bind (fun _ =>
        ((Recognizes.exactly .braceClose _).map fun _ => []).choose
          (value.bindLess (by simp) (fun value => (recognizes_skipDirectives bound).bind
            (fun _ => ih.map (value :: ·)) ?afterDirectives) fun _ _ => trivial) ?passes ?fails)
              ?afterDescription).congr ?words ?starts fun _ => id
      case afterDirectives => grind [Ahead, StartsEntry, Directive.Follows]
      case passes => grind [Ahead]
      case fails => grind [Ahead, enumName?_eq_some]
      case afterDescription => grind [Ahead, enumName?_eq_some]
      case words =>
        intro word values
        constructor
        · rintro ⟨_, _, _, rfl, description, ⟨_, rfl, rfl⟩ | ⟨_, _, _, rfl, ⟨_, rfl, taken⟩,
            _, _, _, rfl, ⟨_, marks⟩, _, ⟨_, rfl, others⟩, rfl⟩⟩
          · exact ⟨_, rfl, .nil description⟩
          · obtain ⟨rfl, free⟩ := enumName?_eq_some.mp taken
            exact ⟨_, by simp, .cons description (.intro free marks) others⟩
        · rintro ⟨_, rfl, description | ⟨description, ⟨free, marks⟩, others⟩⟩
          · exact ⟨_, _, (), rfl, description, .inl ⟨(), rfl, rfl⟩⟩
          · exact ⟨_, _, (), by simp, description, .inr ⟨[_], _, _, rfl,
              ⟨_, rfl, enumName?_eq_some.mpr ⟨rfl, free⟩⟩, _, _, (), rfl, ⟨_, marks⟩, _,
              ⟨_, rfl, others⟩, rfl⟩⟩
      case starts => grind [Ahead, StartsEntry, enumName?_eq_some]

/-- A name, the interfaces that a type implements, directives and fields. -/
theorem recognizes_fielded {β : Type} (bound : Nat) (role : NameRole)
    (build : String → List FieldDefinition → List String → β) :
    Recognizes bound (do
      let name ← Scan.name (SchemaFault.malformed (.expectedName role))
      let interfaces ← Scan.of readImplements
      Scan.of skipDirectives
      let fields ← Scan.of readFields
      pure (build name fields interfaces))
      (fun word type => ∃ name heads marks body interfaces directives fields,
        word = .name name :: (heads ++ (marks ++ body)) ∧
          TypeDefinition.InterfacesDerive heads interfaces ∧
          Many Directive.Derives marks directives ∧
          (FieldDefinition.ListDerives body fields ∧ SchemaItem.DistinctFields fields) ∧
          type = build name fields interfaces)
      (fun next => ∃ name, next = some (.name name)) FollowsDefinition := by
  have fields (name : String) (interfaces : List String) :=
    ((recognizes_readFields bound).narrow FollowsDefinition fun _ follow =>
      follow.ne rfl rfl).map fun fields => build name fields interfaces
  refine ((recognizes_readName role).bind (fun name => (recognizes_readImplements bound).bind
    (fun interfaces => (recognizes_skipDirectives bound).bind (fun _ => fields name interfaces)
      ?afterDirectives) ?afterInterfaces) fun _ _ => trivial).congr ?words ?starts fun _ => id
  case afterDirectives => grind [Ahead, Directive.Follows, → FollowsDefinition.directives]
  case afterInterfaces => grind [Ahead, FollowsDefinition]
  case words =>
    intro word type
    constructor
    · rintro ⟨_, _, name, rfl, rfl, _, _, _, rfl, heads, _, _, _, rfl, ⟨_, marks⟩, _, body, rfl⟩
      exact ⟨name, _, _, _, _, _, _, by rfl, heads, marks, body, rfl⟩
    · rintro ⟨name, _, _, _, _, _, _, rfl, heads, marks, body, rfl⟩
      exact ⟨_, _, name, rfl, rfl, _, _, _, rfl, heads, _, _, (), rfl, ⟨_, marks⟩, _, body, rfl⟩
  case starts => grind [Ahead]

/-- A name, directives and something else. -/
theorem recognizes_marked {β : Type} {bound : Nat} (role : NameRole)
    {tail : String → Scan SchemaFault β} {language : String → Language β}
    {starts : Option Token → Prop}
    (recognizes : ∀ name, Recognizes bound (tail name) (language name) starts FollowsDefinition)
    (starting : ∀ next, starts next → Directive.Follows next) :
    Recognizes bound (do
      let name ← Scan.name (SchemaFault.malformed (.expectedName role))
      Scan.of skipDirectives
      tail name)
      (fun word type => ∃ name marks body directives, word = .name name :: (marks ++ body) ∧
        Many Directive.Derives marks directives ∧ language name body type)
      (fun next => ∃ name, next = some (.name name)) FollowsDefinition := by
  refine ((recognizes_readName role).bind (fun name => (recognizes_skipDirectives bound).bind
    (fun _ => recognizes name) ?afterDirectives) fun _ _ => trivial).congr ?words ?starts
      fun _ => id
  case afterDirectives =>
    rintro next (⟨start, _⟩ | ⟨_, follow⟩)
    · exact starting next start
    · exact follow.directives
  case words =>
    intro word type
    constructor
    · rintro ⟨_, _, name, rfl, rfl, _, _, _, rfl, ⟨_, marks⟩, body⟩
      exact ⟨name, _, _, _, by rfl, marks, body⟩
    · rintro ⟨name, _, _, _, rfl, marks, body⟩
      exact ⟨_, _, name, rfl, rfl, _, _, (), rfl, ⟨_, marks⟩, body⟩
  case starts => grind [Ahead]

theorem scan_readObject :
    Scan.of readObject = (do
      let name ← Scan.name (.malformed (.expectedName .type))
      let interfaces ← Scan.of readImplements
      Scan.of skipDirectives
      let fields ← Scan.of readFields
      pure ⟨name, fields, interfaces⟩) := by
  funext tokens
  refine Scan.plain_bind (Scan.plain_name _ _) fun name => ?_
  refine Scan.plain_bind rfl fun interfaces => ?_
  refine Scan.plain_bind rfl fun directives => ?_
  exact Scan.plain_bind rfl fun _ => rfl

theorem recognizes_readObject (bound : Nat) :
    Recognizes bound (Scan.of readObject)
      (fun word type => TypeDefinition.BodyDerives .object word (.object type) ∧
        SchemaItem.DistinctFields type.fields)
      (fun next => ∃ name, next = some (.name name)) FollowsDefinition := by
  rw [scan_readObject]
  refine (recognizes_fielded bound .type ObjectType.mk).congr ?_ (fun _ => id) fun _ => id
  intro word type
  constructor
  · rintro ⟨name, _, _, _, _, _, _, rfl, heads, marks, body, rfl⟩
    exact ⟨.object name heads marks body.1, body.2⟩
  · rintro ⟨derived, distinct⟩
    cases derived with
    | object name heads marks body =>
        exact ⟨name, _, _, _, _, _, _, rfl, heads, marks, ⟨body, distinct⟩, rfl⟩

theorem scan_readInterface :
    Scan.of readInterface = (do
      let name ← Scan.name (.malformed (.expectedName .interface))
      let interfaces ← Scan.of readImplements
      Scan.of skipDirectives
      let fields ← Scan.of readFields
      pure ⟨name, fields, interfaces, []⟩) := by
  funext tokens
  refine Scan.plain_bind (Scan.plain_name _ _) fun name => ?_
  refine Scan.plain_bind rfl fun interfaces => ?_
  refine Scan.plain_bind rfl fun directives => ?_
  exact Scan.plain_bind rfl fun _ => rfl

theorem recognizes_readInterface (bound : Nat) :
    Recognizes bound (Scan.of readInterface)
      (fun word type => TypeDefinition.BodyDerives .interface word (.interface type) ∧
        SchemaItem.DistinctFields type.fields)
      (fun next => ∃ name, next = some (.name name)) FollowsDefinition := by
  rw [scan_readInterface]
  refine (recognizes_fielded bound .interface fun name fields interfaces =>
    InterfaceType.mk name fields interfaces []).congr ?_ (fun _ => id) fun _ => id
  intro word type
  constructor
  · rintro ⟨name, _, _, _, _, _, _, rfl, heads, marks, body, rfl⟩
    exact ⟨.interface name heads marks body.1, body.2⟩
  · rintro ⟨derived, distinct⟩
    cases derived with
    | interface name heads marks body =>
        exact ⟨name, _, _, _, _, _, _, rfl, heads, marks, ⟨body, distinct⟩, rfl⟩

theorem scan_readUnion :
    Scan.of readUnion = (do
      let name ← Scan.name (.malformed (.expectedName .union))
      Scan.of skipDirectives
      let members ← Scan.of readMembers
      pure ⟨name, members⟩) := by
  funext tokens
  refine Scan.plain_bind (Scan.plain_name _ _) fun name => ?_
  refine Scan.plain_bind rfl fun directives => ?_
  exact Scan.plain_bind rfl fun _ => rfl

theorem recognizes_readUnion (bound : Nat) :
    Recognizes bound (Scan.of readUnion)
      (fun word type => TypeDefinition.BodyDerives .union word (.union type) ∧ True)
      (fun next => ∃ name, next = some (.name name)) FollowsDefinition := by
  have members (name : String) := ((recognizes_readMembers bound).narrow FollowsDefinition
    fun _ follow => ⟨follow.ne rfl rfl, follow.ne rfl rfl⟩).map (UnionType.mk name)
  have starting := directiveFollows_optional .equal (by decide) (by simp)
  rw [scan_readUnion]
  refine (recognizes_marked .union members starting).congr ?_ (fun _ => id) fun _ => id
  intro word type
  constructor
  · rintro ⟨name, _, _, _, rfl, marks, _, body, rfl⟩
    exact ⟨.union name marks body, trivial⟩
  · rintro ⟨derived, _⟩
    cases derived with
    | union name marks body => exact ⟨name, _, _, _, rfl, marks, _, body, rfl⟩

theorem scan_readEnum :
    Scan.of readEnum = (do
      let name ← Scan.name (.malformed (.expectedName .enum))
      Scan.of skipDirectives
      Scan.optional .braceOpen (.malformed .expectedEnumValue) (do
        let values ← Scan.of (readEnumValues name)
        pure ⟨name, values.eraseDups⟩) ⟨name, []⟩) := by
  funext tokens
  refine Scan.plain_bind (Scan.plain_name _ _) fun name => ?_
  refine Scan.plain_bind rfl fun directives => ?_
  rw [Scan.optional]
  split
  next brace accepted =>
    rw [Scan.choose_accepted accepted]
    exact Scan.plain_bind rfl fun _ => rfl
  next refused =>
    rw [Scan.choose_refused refused]
    rfl

theorem recognizes_readEnum (bound : Nat) :
    Recognizes bound (Scan.of readEnum)
      (fun word type => TypeDefinition.BodyDerives .enum word (.enum type) ∧ True)
      (fun next => ∃ name, next = some (.name name)) FollowsDefinition := by
  have values (name : String) := ((recognizes_readEnumValues bound name).map
    fun values => EnumType.mk name values.eraseDups).optional FollowsDefinition .braceOpen
      (SchemaFault.malformed .expectedEnumValue) ⟨name, []⟩ fun _ follow =>
        ⟨follow.ne rfl rfl, trivial⟩
  have starting := directiveFollows_optional .braceOpen (by decide) (by simp)
  rw [scan_readEnum]
  refine (recognizes_marked .enum values starting).congr ?_ (fun _ => id) fun _ => id
  intro word type
  constructor
  · rintro ⟨name, _, _, _, rfl, marks, ⟨_, rfl, _, ⟨_, rfl, described⟩, rfl⟩ | ⟨rfl, rfl⟩⟩
    · exact ⟨.enum name marks (.present described), trivial⟩
    · exact ⟨.enum name marks .absent, trivial⟩
  · rintro ⟨derived, _⟩
    cases derived with
    | enum name marks body =>
        cases body with
        | absent => exact ⟨name, _, _, _, rfl, marks, .inr ⟨rfl, rfl⟩⟩
        | present described =>
            exact ⟨name, _, _, _, rfl, marks, .inl ⟨_, rfl, _, ⟨_, rfl, described⟩, rfl⟩⟩

theorem scan_readScalar :
    Scan.of readScalar = (do
      let name ← Scan.name (.malformed (.expectedName .scalar))
      Scan.of skipDirectives
      pure ⟨name⟩) := by
  funext tokens
  refine Scan.plain_bind (Scan.plain_name _ _) fun name => ?_
  exact Scan.plain_bind rfl fun _ => rfl

theorem recognizes_readScalar (bound : Nat) :
    Recognizes bound (Scan.of readScalar)
      (fun word type => TypeDefinition.BodyDerives .scalar word (.scalar type) ∧ True)
      (fun next => ∃ name, next = some (.name name)) FollowsDefinition := by
  rw [scan_readScalar]
  have starting (next : Option Token) (ended : next = none) : Directive.Follows next := by
    simp [Directive.Follows, ended]
  refine (recognizes_marked .scalar (fun name => .pure (ScalarType.mk name)) starting).congr ?_
    (fun _ => id) fun _ => id
  intro word type
  constructor
  · rintro ⟨name, _, _, _, rfl, marks, rfl, rfl⟩
    rw [List.append_nil]
    exact ⟨.scalar name marks, trivial⟩
  · rintro ⟨derived, _⟩
    cases derived with
    | scalar name marks =>
        exact ⟨name, _, [], _, by rw [List.append_nil], marks, rfl, rfl⟩

theorem scan_readInputObject :
    Scan.of readInputObject = (do
      let name ← Scan.name (.malformed (.expectedName .inputType))
      Scan.of skipDirectives
      let fields ← Scan.of (readInputValues .braceOpen .braceClose)
      pure ⟨name, fields⟩) := by
  funext tokens
  refine Scan.plain_bind (Scan.plain_name _ _) fun name => ?_
  refine Scan.plain_bind rfl fun directives => ?_
  exact Scan.plain_bind rfl fun _ => rfl

theorem recognizes_readInputObject (bound : Nat) :
    Recognizes bound (Scan.of readInputObject)
      (fun word type => TypeDefinition.BodyDerives .inputObject word (.inputObject type) ∧
        Named.Distinct type.fields)
      (fun next => ∃ name, next = some (.name name)) FollowsDefinition := by
  have values : Recognizes bound (Scan.of (readInputValues .braceOpen .braceClose)) _ _ _ :=
    recognizes_readInputValues (.inr rfl)
  have fields (name : String) := (values.narrow FollowsDefinition fun _ follow =>
    follow.ne rfl rfl).map (InputObjectType.mk name)
  have starting := directiveFollows_optional .braceOpen (by decide) (by simp)
  rw [scan_readInputObject]
  refine (recognizes_marked .inputType fields starting).congr ?_ (fun _ => id) fun _ => id
  intro word type
  constructor
  · rintro ⟨name, _, _, _, rfl, marks, _, body, rfl⟩
    exact ⟨.inputObject name marks body.1, body.2⟩
  · rintro ⟨derived, distinct⟩
    cases derived with
    | inputObject name marks body =>
        exact ⟨name, _, _, _, rfl, marks, _, ⟨body, distinct⟩, rfl⟩

theorem scan_wrapped {α : Type} {limit : List Token → Nat}
    (read : (tokens : List Token) → Reading SchemaFault α (limit tokens))
    (wrap : α → TypeDefinition) :
    (Scan.of fun tokens => do .ok ((← read tokens).map wrap)) = (do
      let value ← Scan.of read
      pure (wrap value)) := by
  funext tokens
  exact Scan.plain_bind rfl fun _ => rfl

/-- A type of one kind as a definition of any kind. -/
theorem recognizes_wrapped {α : Type} {bound : Nat} {kind : TypeKind} {wrap : α → TypeDefinition}
    {limit : List Token → Nat} {starts : Option Token → Prop}
    {read : (tokens : List Token) → Reading SchemaFault α (limit tokens)}
    (recognizes : Recognizes bound (Scan.of read) (fun word type =>
      TypeDefinition.BodyDerives kind word (wrap type) ∧ (SchemaItem.type (wrap type)).Distinct)
      starts FollowsDefinition)
    (unwrap : ∀ {word type}, TypeDefinition.BodyDerives kind word type →
      ∃ given, type = wrap given) :
    Recognizes bound (Scan.of fun tokens => do .ok ((← read tokens).map wrap))
      (fun word type => TypeDefinition.BodyDerives kind word type ∧
        (SchemaItem.type type).Distinct) starts FollowsDefinition := by
  rw [scan_wrapped]
  refine (recognizes.map wrap).congr ?_ (fun _ => id) fun _ => id
  intro word type
  constructor
  · rintro ⟨given, derived, rfl⟩
    exact derived
  · intro derived
    obtain ⟨given, rfl⟩ := unwrap derived.1
    exact ⟨given, derived, rfl⟩

/-- A type of a kind after its keyword, in which no name is repeated. -/
theorem recognizes_readKind (bound : Nat) (kind : TypeKind) :
    Recognizes bound (Scan.of (readKind kind))
      (fun word type => TypeDefinition.BodyDerives kind word type ∧
        (SchemaItem.type type).Distinct)
      (fun next => ∃ name, next = some (.name name)) FollowsDefinition := by
  cases kind with
  | object => exact recognizes_wrapped (recognizes_readObject bound) fun | .object .. => ⟨_, rfl⟩
  | interface =>
      exact recognizes_wrapped (recognizes_readInterface bound) fun | .interface .. => ⟨_, rfl⟩
  | union => exact recognizes_wrapped (recognizes_readUnion bound) fun | .union .. => ⟨_, rfl⟩
  | enum => exact recognizes_wrapped (recognizes_readEnum bound) fun | .enum .. => ⟨_, rfl⟩
  | scalar => exact recognizes_wrapped (recognizes_readScalar bound) fun | .scalar .. => ⟨_, rfl⟩
  | inputObject =>
      exact recognizes_wrapped (recognizes_readInputObject bound) fun | .inputObject .. => ⟨_, rfl⟩

theorem scan_readType :
    Scan.of readType = (do
      let kind ← Scan.take (Token.word? TypeKind.ofKeyword?) fun next =>
        if next = some (.name "extend") then .malformed .extensionNotSupported
        else .malformed .expectedDefinition
      Scan.of (readKind kind)) := by
  funext tokens
  rcases tokens with _ | ⟨next, rest⟩
  · rfl
  · cases next with
    | name text =>
        cases keyword : TypeKind.ofKeyword? text with
        | none =>
            refine Eq.trans ?_ (Scan.bind_error (Scan.take_eq_error.mpr ⟨rfl, ?_⟩)).symm
            · simp only [Scan.of, readType, keyword, List.head?_cons, Option.some.injEq,
                Token.name.injEq]
              split <;> rfl
            · simpa [Token.word?, Token.name?] using keyword
        | some kind =>
            rw [Scan.bind_ok (Scan.take_eq_ok.mpr ⟨_, rfl, by
              simpa [Token.word?, Token.name?] using keyword⟩)]
            simp only [Scan.of, readType, keyword]
            exact Scan.plain_weaken _ _
    | _ => rfl

theorem ofKeyword?_eq_some {text : String} {kind : TypeKind} :
    TypeKind.ofKeyword? text = some kind ↔ text = kind.keyword :=
  find?_spelling (by rintro (_ | _ | _ | _ | _ | _) <;> decide)

def StartsType (next : Option Token) : Prop :=
  ∃ kind : TypeKind, next = some (.name kind.keyword)

theorem recognizes_readType (bound : Nat) :
    Recognizes bound (Scan.of readType)
      (fun word type => TypeDefinition.Derives word type ∧ (SchemaItem.type type).Distinct)
      StartsType FollowsDefinition := by
  rw [scan_readType]
  refine ((Recognizes.take _ _).bind (recognizes_readKind bound) fun _ _ => trivial).congr
    ?words ?starts fun _ => id
  case words =>
    intro word type
    constructor
    · rintro ⟨_, _, kind, rfl, ⟨_, rfl, taken⟩, derived, distinct⟩
      rw [(Token.word?_eq_some ofKeyword?_eq_some).mp taken]
      exact ⟨.intro derived, distinct⟩
    · rintro ⟨⟨derived⟩, distinct⟩
      exact ⟨[_], _, _, rfl, ⟨_, rfl, (Token.word?_eq_some ofKeyword?_eq_some).mpr rfl⟩, derived,
        distinct⟩
  case starts => grind [Ahead, StartsType, Token.word?_eq_some ofKeyword?_eq_some]

end Definitions

end QueryCheck
