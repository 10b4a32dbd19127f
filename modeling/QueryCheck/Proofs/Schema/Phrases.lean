import QueryCheck.Proofs.Reading.Phrases
import QueryCheck.Proofs.Schema.Grammar

/-!
# Reading the parts of definitions

Each reader recognizes the words that derive what it reads, where no name in it is repeated.
These readers are not predictive: a repeated name is noticed only after the whole of what has
the name.
-/

namespace QueryCheck

open QueryCheck.Language (Described Description Led Many Separated named)

def Token.string? : Token → Option String
  | string text => some text
  | _ => none

namespace Named

variable {α : Type} [HasName α]

/-- No two things have the same name, and none has the name of one of those before. -/
def DistinctFrom (before items : List α) : Prop :=
  Distinct items ∧ ∀ item ∈ items, contains before (HasName.name item) = false

theorem distinctFrom_nil {items : List α} : DistinctFrom [] items ↔ Distinct items := by
  simp [DistinctFrom, contains]

/-- Names are distinct if each differs from all before it. -/
theorem distinctFrom_cons {before items : List α} {first : α} :
    DistinctFrom before (first :: items) ↔
      DistinctFrom (before ++ [first]) items ∧ contains before (HasName.name first) = false := by
  simp only [DistinctFrom, Distinct, List.map_cons, List.nodup_cons, List.mem_map,
    List.forall_mem_cons, contains_eq_false_iff, List.mem_append, List.mem_singleton]
  grind

end Named

namespace Scan

variable {ε α : Type}

def eat (token : Token) (cause : ε) : Scan ε Bool :=
  optional token cause (pure true) false

theorem eat_eq (token : Token) (cause : ε) (tokens : List Token) :
    eat token cause tokens =
      .ok ((Reading.eat token tokens).value, (Reading.eat token tokens).rest) := by
  rw [eat, Reading.eat, optional]
  split
  next accepted =>
    rw [choose_accepted accepted]
    rfl
  next refused =>
    rw [choose_refused refused]
    rfl

/-- What is read after a token that may be left out. -/
theorem eat_bind (token : Token) (cause : ε) (read : Scan ε α) (tokens : List Token) :
    (do
      let _ ← eat token cause
      read) tokens = read (Reading.eat token tokens).rest :=
  bind_ok (eat_eq token cause tokens)

/-- Something read after a token, or nothing. -/
theorem plain_optional {token : Token} {tokens : List Token} (cause : ε) (default : α)
    {read : Scan ε α} {bound : Nat}
    {present : Parsed Unit tokens.length → Reading ε α bound} {absent : Reading ε α bound}
    (yes : ∀ parsed, (present parsed).plain = read parsed.rest)
    (no : absent.plain = .ok (default, tokens)) :
    Reading.plain (match Reading.accept? token tokens with
      | some parsed => present parsed
      | none => absent) = optional token cause read default tokens := by
  rw [optional]
  split
  next parsed accepted =>
    rw [choose_accepted accepted]
    exact yes parsed
  next refused =>
    rw [choose_refused refused]
    exact no

/-- A list read after a token, or none. -/
theorem plain_optionalList {token : Token} {tokens : List Token} (cause : ε)
    (read : (left : List Token) → Reading ε (List α) left.length) :
    Reading.plain (match Reading.accept? token tokens with
      | some parsed => do
          let values ← read parsed.rest
          .ok ⟨values.value, values.rest, Nat.lt_succ_of_lt (parsed.after values)⟩
      | none => .ok (Reading.nothing [] tokens)) =
        optional token cause (Scan.of read) [] tokens :=
  plain_optional cause [] (fun parsed =>
    plain_weaken _ (Nat.le_succ_of_le (Nat.le_of_lt parsed.rest_lt))) rfl

end Scan

namespace Recognizes

variable {ε α : Type} {bound : Nat} {read : Scan ε α} {language : Language α}
  {starts follows : Option Token → Prop}

theorem eat (token : Token) (cause : ε) :
    Recognizes bound (Scan.eat token cause)
      (fun word value => (word = [token] ∧ value = true) ∨ (word = [] ∧ value = false))
      (fun next => next = some token ∨ next = none) (· ≠ some token) := by
  refine ((Recognizes.pure true).optional _ token cause false
    fun _ differ => ⟨differ, trivial⟩).congr ?_ (fun _ => id) fun _ => id
  intro word value
  constructor
  · rintro (⟨_, rfl, rfl, rfl⟩ | empty)
    · exact .inl ⟨rfl, rfl⟩
    · exact .inr empty
  · rintro (⟨rfl, rfl⟩ | empty)
    · exact .inl ⟨_, rfl, rfl, rfl⟩
    · exact .inr empty

/-- One or more items with a token between them. -/
theorem separated {separator : Token} {cause : ε} {loop : Scan ε (List α)}
    {follows' : Option Token → Prop}
    (equation : loop = do
      let first ← read
      Scan.optional separator cause (do
        let others ← loop
        Pure.pure (first :: others)) [first])
    (item : Recognizes bound read language starts follows) (nonempty : ¬starts none)
    (ahead : ∀ next, next = some separator ∨ follows' next → follows next)
    (differ : ∀ next, follows' next → next ≠ some separator) :
    Recognizes bound loop (language.Separated separator) starts follows' := by
  induction bound with
  | zero =>
      refine zero ?_
      rintro _ _ (one | @⟨word, rest, _, _, one, _⟩)
      · exact item.start one
      · have next : Ahead starts (· = some separator) (word ++ separator :: rest).head? :=
          ahead_append (item.start one) rfl
        grind [Ahead]
  | succ bound ih =>
      have others := ih (item.of_le (Nat.le_succ bound))
      rw [equation]
      refine (item.bindLess nonempty (fun first => (others.map (first :: ·)).optional follows'
        separator cause [first] fun next follow => ⟨differ next follow, follow⟩) ?afterItem).congr
          ?words ?starts fun _ => id
      case afterItem => grind [Ahead]
      case words =>
        intro word values
        constructor
        · rintro ⟨_, _, _, rfl, one, ⟨_, rfl, _, more, rfl⟩ | ⟨rfl, rfl⟩⟩
          · exact .more one more
          · rw [List.append_nil]
            exact .one one
        · rintro (one | ⟨one, more⟩)
          · exact ⟨_, [], _, (List.append_nil _).symm, one, .inr ⟨rfl, rfl⟩⟩
          · exact ⟨_, _, _, rfl, one, .inl ⟨_, rfl, _, more, rfl⟩⟩
      case starts => grind [Ahead]

/-- One or more items with a token between them and possibly before them. -/
theorem led {separator : Token} (cause : ε) {loop : Scan ε (List α)}
    (items : Recognizes bound loop (language.Separated separator) starts follows)
    (nonempty : ¬starts none) (apart : ¬starts (some separator)) :
    Recognizes bound (do
      let _ ← Scan.eat separator cause
      loop) (language.Led separator) (fun next => next = some separator ∨ starts next)
      follows := by
  refine ((eat separator cause).bind (fun _ => items) ?afterSeparator).congr ?words ?starts
    fun _ => id
  case afterSeparator => grind [Ahead]
  case words =>
    intro word values
    constructor
    · rintro ⟨_, _, _, rfl, ⟨rfl, rfl⟩ | ⟨rfl, rfl⟩, derived⟩
      · exact .led derived
      · exact .plain derived
    · rintro (derived | derived)
      · exact ⟨[], _, false, rfl, .inr ⟨rfl, rfl⟩, derived⟩
      · exact ⟨[separator], _, true, rfl, .inl ⟨rfl, rfl⟩, derived⟩
  case starts => grind [Ahead]

end Recognizes

namespace Definitions

def scanDescription : Scan SchemaFault Unit :=
  Scan.choose (fun next => (next.bind Token.string?).isSome)
    (do
      let _ ← Scan.take Token.string? fun _ => .malformed .expectedDefinition
      pure ())
    (pure ())

theorem scanDescription_eq (tokens : List Token) :
    scanDescription tokens = .ok ((), (skipDescription tokens).rest) := by
  rcases tokens with _ | ⟨next, rest⟩
  · rfl
  · cases next <;> rfl

/-- What is read after a description. -/
theorem description_bind {α : Type} (read : Scan SchemaFault α) (tokens : List Token) :
    (do scanDescription; read) tokens = read (skipDescription tokens).rest :=
  Scan.bind_ok (scanDescription_eq tokens)

theorem recognizes_description (bound : Nat) :
    Recognizes bound scanDescription (fun word _ => Description word)
      (fun next => (∃ text, next = some (.string text)) ∨ next = none)
      fun next => ∀ text, next ≠ some (.string text) := by
  have string : ∀ token text, Token.string? token = some text ↔ token = .string text := by
    intro token text
    cases token <;> simp [Token.string?]
  have present : Recognizes bound _ _ _ fun next => ∀ text, next ≠ some (.string text) :=
    ((Recognizes.take Token.string?
      fun _ => SchemaFault.malformed .expectedDefinition).map fun _ => ()).narrow _
        fun _ _ => trivial
  refine (present.choose (.pure ()) ?passes ?fails).congr ?words ?starts fun _ => id
  case passes => grind [Ahead]
  case fails =>
    intro next ahead
    have other := ahead.of_none
    rcases next with _ | token
    · rfl
    · cases token with
      | string text => exact absurd rfl (other text)
      | _ => rfl
  case words =>
    intro word value
    constructor
    · rintro (⟨text, ⟨token, rfl, taken⟩, rfl⟩ | ⟨rfl, rfl⟩)
      · rw [(string token text).mp taken]
        exact .present text
      · exact .absent
    · rintro (_ | text)
      · exact .inr ⟨rfl, rfl⟩
      · exact .inl ⟨text, ⟨_, rfl, rfl⟩, rfl⟩
  case starts => grind

theorem recognizes_ofNode {α : Type} {bound : Nat} {limit : List Token → Nat}
    {read : (tokens : List Token) → Reading NodeKind α (limit tokens)} {language : Language α}
    {starts follows : Option Token → Prop}
    (recognizes : Recognizes bound (Scan.of read) language starts follows) :
    Recognizes bound (Scan.of fun tokens => ofNode (read tokens)) language starts follows := by
  refine recognizes.of_same fun {tokens value rest} => ?_
  rw [Scan.of, Scan.of]
  cases read tokens with
  | error failure => simp [ofNode, Reading.fail, Reading.plain]
  | ok parsed => simp [ofNode, Reading.plain]

theorem scan_skipDirectives :
    Scan.of skipDirectives = (do
      let _ ← Scan.of fun tokens => ofNode (Directive.readAll tokens)
      pure ()) := by
  funext tokens
  exact Scan.plain_bind rfl fun _ => rfl

theorem recognizes_skipDirectives (bound : Nat) :
    Recognizes bound (Scan.of skipDirectives)
      (fun word _ => ∃ directives, Many Directive.Derives word directives)
      (fun next => next = none ∨ ∃ name, next = some (.directiveName name)) Directive.Follows := by
  have directives := recognizes_ofNode (Directive.predictive_readAll bound).toRecognizes
  rw [scan_skipDirectives]
  refine (directives.map fun _ => ()).congr ?_ (fun _ => id) fun _ => id
  simp

theorem scan_readTypeRef :
    Scan.of readTypeRef = Scan.choose (· = some .bracketOpen)
      (do
        Scan.exactly .bracketOpen (.malformed .expectedType)
        let item ← Scan.of readTypeRef
        Scan.exactly .bracketClose (.malformed .unterminatedList)
        TypeRef.scanMark (.malformed .expectedType) (.list item))
      (do
        let name ← Scan.name (.malformed .expectedType)
        TypeRef.scanMark (.malformed .expectedType) (.named name)) := by
  funext tokens
  rcases tokens with _ | ⟨next, rest⟩
  · rfl
  · cases next with
    | bracketOpen =>
        rw [Scan.of, readTypeRef, Scan.choose_exactly]
        refine Scan.plain_bind rfl fun item => ?_
        refine Scan.plain_bind (Scan.plain_expect _ _ _) fun close => ?_
        exact TypeRef.plain_readMark _ _ _ _
    | name text =>
        rw [Scan.of, readTypeRef]
        exact TypeRef.plain_readMark _ _ _ _
    | _ => rfl

theorem readsType_readTypeRef : TypeRef.ReadsType (Scan.of readTypeRef) :=
  ⟨.malformed .expectedType, .malformed .unterminatedList, scan_readTypeRef⟩

theorem recognizes_readTypeRef (bound : Nat) :
    Recognizes bound (Scan.of readTypeRef) TypeRef.Derives TypeRef.Starts (· ≠ some .exclam) :=
  (readsType_readTypeRef.predictive bound).toRecognizes

theorem recognizes_readName {bound : Nat} (role : NameRole) :
    Recognizes bound (Scan.name (SchemaFault.malformed (.expectedName role))) named
      (fun next => ∃ name, next = some (.name name)) fun _ => True :=
  (Predictive.name _).toRecognizes

theorem scan_readDefault :
    Scan.of readDefault = Scan.optional .equal (.malformed .expectedType) (do
      let value ← Scan.of fun tokens => ofNode (Value.read true tokens)
      pure (some value)) none := by
  funext tokens
  exact Scan.plain_optional _ none (fun _ => Scan.plain_bind rfl fun _ => rfl) rfl

theorem recognizes_readDefault (bound : Nat) :
    Recognizes bound (Scan.of readDefault) InputValueDefinition.DefaultDerives
      (fun next => next = some .equal ∨ next = none) (· ≠ some .equal) := by
  have value := recognizes_ofNode (Value.predictive_read bound true).toRecognizes
  rw [scan_readDefault]
  refine ((value.map some).optional _ .equal _ none
    fun _ differ => ⟨differ, trivial⟩).congr ?_ (fun _ => id) fun _ => id
  intro word default?
  constructor
  · rintro (⟨_, rfl, _, derived, rfl⟩ | ⟨rfl, rfl⟩)
    · exact .present derived.1 (derived.2 rfl)
    · exact .absent
  · rintro (_ | ⟨derived, fixed⟩)
    · exact .inr ⟨rfl, rfl⟩
    · exact .inl ⟨_, rfl, _, ⟨derived, fun _ => fixed⟩, rfl⟩

def StartsEntry (next : Option Token) : Prop :=
  (∃ text, next = some (.string text)) ∨ ∃ name, next = some (.name name)

def FollowsEntry (next : Option Token) : Prop :=
  StartsEntry next ∨ next = some .parenClose ∨ next = some .braceClose

theorem FollowsEntry.directives {next : Option Token} (follow : FollowsEntry next) :
    Directive.Follows next := by
  grind [FollowsEntry, StartsEntry, Directive.Follows]

theorem followsEntry_of_close {close : Token} (closing : close = .parenClose ∨ close = .braceClose)
    (next : Option Token) (ahead : StartsEntry next ∨ next = some close) : FollowsEntry next := by
  rcases ahead with start | rfl
  · exact .inl start
  · rcases closing with rfl | rfl
    · exact .inr (.inl rfl)
    · exact .inr (.inr rfl)

theorem scan_readInputValue :
    Scan.of readInputValue = (do
      scanDescription
      let name ← Scan.name (.malformed (.expectedName .inputValue))
      Scan.exactly .colon (.malformed (.expectedToken .colon))
      let type ← Scan.of readTypeRef
      let default? ← Scan.of readDefault
      Scan.of skipDirectives
      pure ⟨name, type, default?⟩) := by
  funext tokens
  rw [description_bind]
  refine Scan.plain_bind (Scan.plain_name _ _) fun name => ?_
  refine Scan.plain_bind (Scan.plain_expect _ _ _) fun colon => ?_
  refine Scan.plain_bind rfl fun type => ?_
  refine Scan.plain_bind rfl fun default => ?_
  exact Scan.plain_bind rfl fun _ => rfl

theorem recognizes_readInputValue (bound : Nat) :
    Recognizes bound (Scan.of readInputValue) InputValueDefinition.Derives StartsEntry
      FollowsEntry := by
  have marks (value : InputValueDefinition) :=
    ((recognizes_skipDirectives bound).narrow FollowsEntry
      fun _ => FollowsEntry.directives).map fun _ => value
  rw [scan_readInputValue]
  refine ((recognizes_description bound).bind (fun _ =>
    (recognizes_readName .inputValue).bind (fun name =>
      ((recognizes_readTypeRef bound).bind (fun type =>
        (recognizes_readDefault bound).bind (fun default? => marks ⟨name, type, default?⟩)
          ?afterDefault) ?afterType).after .colon _) fun _ _ => trivial) ?afterDescription).congr
            ?words ?starts fun _ => id
  case afterDefault => grind [Ahead, FollowsEntry, StartsEntry]
  case afterType => grind [Ahead, FollowsEntry, StartsEntry]
  case afterDescription => grind [Ahead]
  case words =>
    intro word value
    constructor
    · rintro ⟨_, _, _, rfl, description, _, _, name, rfl, rfl, _, rfl, _, _, _, rfl, spelled, _, _,
        _, rfl, given, _, ⟨_, marks⟩, rfl⟩
      exact .intro name description spelled given marks
    · rintro ⟨name, description, spelled, given, marks⟩
      exact ⟨_, _, (), rfl, description, _, _, name, rfl, rfl, _, rfl, _, _, _, rfl, spelled, _, _,
        _, rfl, given, (), ⟨_, marks⟩, rfl⟩
  case starts => grind [Ahead, StartsEntry]

section Distinct

variable {α : Type} [HasName α] {close : Token} {unclosed : Malformation}
  {repeated : String → Conflict} {item : (left : List Token) → Reading SchemaFault α left.length}

theorem scan_distinctUntil (before : List α) :
    Scan.of (distinctUntil close unclosed repeated item before) =
      Scan.choose (· = some close)
        (do
          Scan.exactly close (.malformed unclosed)
          pure [])
        (Scan.refuse (· = none) (.malformed unclosed) (do
          let first ← Scan.of item
          Scan.failIf (Named.contains before (HasName.name first))
            (.conflicting (repeated (HasName.name first))) (do
              let others ← Scan.of
                (distinctUntil close unclosed repeated item (before ++ [first]))
              pure (first :: others)))) := by
  funext tokens
  rw [Scan.of, distinctUntil]
  split
  next closed accepted =>
    rw [Scan.choose_accepted accepted]
    rfl
  next refused =>
    rw [Scan.choose_refused refused]
    cases tokens with
    | nil => rfl
    | cons next rest =>
        refine Scan.plain_bind rfl fun first => ?_
        rw [Scan.failIf]
        split
        · rfl
        · exact Scan.plain_bind rfl fun _ => rfl

/-- Entries up to a closing token, no two of which have the same name. -/
theorem recognizes_distinctUntil {bound : Nat} {language : Language α}
    {starts follows : Option Token → Prop}
    (recognizes : Recognizes bound (Scan.of item) language starts follows)
    (nonempty : ¬starts none) (apart : ¬starts (some close))
    (ahead : ∀ next, starts next ∨ next = some close → follows next) (before : List α) :
    Recognizes bound (Scan.of (distinctUntil close unclosed repeated item before))
      (fun word values => language.closedBy close word values ∧ Named.DistinctFrom before values)
      (fun next => starts next ∨ next = some close) fun _ => True := by
  -- The names before an entry grow from step to step, so they are not fixed.
  induction bound generalizing before with
  | zero =>
      refine .zero ?_
      rintro _ values ⟨⟨body, rfl, many⟩, _⟩
      have start := many.start fun derived => ⟨recognizes.start derived, nonempty⟩
      have next : Ahead (fun next => next = none ∨ starts next) (· = some close)
          (body ++ [close]).head? := ahead_append start rfl
      grind [Ahead]
  | succ bound ih =>
      have others := ih (recognizes.of_le (Nat.le_succ bound))
      rw [scan_distinctUntil]
      refine (((Recognizes.exactly close _).map fun _ => []).choose
        ((recognizes.bindLess nonempty (fun first =>
          ((others (before ++ [first])).map (first :: ·)).failIf _ _) ?afterEntry).refuse
            _ ?admits) ?passes ?fails).congr ?words ?starts fun _ => id
      case afterEntry => grind [Ahead]
      case admits => grind [Ahead]
      case passes => grind [Ahead]
      case fails => grind [Ahead]
      case words =>
        intro word values
        constructor
        · rintro (⟨_, rfl, rfl⟩ |
            ⟨_, _, first, rfl, one, ⟨_, ⟨⟨_, rfl, many⟩, distinct⟩, rfl⟩, fresh⟩)
          · exact ⟨⟨[], rfl, .nil⟩, by simp [Named.DistinctFrom, Named.Distinct]⟩
          · exact ⟨⟨_, (List.append_assoc _ _ _).symm, .cons one many⟩,
              Named.distinctFrom_cons.mpr ⟨distinct, fresh⟩⟩
        · rintro ⟨⟨_, rfl, _ | ⟨one, many⟩⟩, distinct⟩
          · exact .inl ⟨(), rfl, rfl⟩
          · obtain ⟨distinct, fresh⟩ := Named.distinctFrom_cons.mp distinct
            exact .inr ⟨_, _, _, List.append_assoc _ _ _, one,
              ⟨_, ⟨⟨_, rfl, many⟩, distinct⟩, rfl⟩, fresh⟩
      case starts => grind [Ahead]

end Distinct

theorem scan_readInputValues (opening close : Token) :
    Scan.of (readInputValues opening close) =
      Scan.optional opening (.malformed .expectedType) (Scan.of (distinctUntil close
        (.unclosedValues close) .repeatedInputValue readInputValue [])) [] := by
  funext tokens
  exact Scan.plain_optionalList _ _

/-- Input values between two tokens, no two of which have the same name, or nothing. -/
theorem recognizes_readInputValues {bound : Nat} {opening close : Token}
    (closing : close = .parenClose ∨ close = .braceClose) :
    Recognizes bound (Scan.of (readInputValues opening close))
      (fun word values => InputValueDefinition.ListDerives opening close word values ∧
        Named.Distinct values)
      (fun next => next = some opening ∨ next = none) (· ≠ some opening) := by
  have values : Recognizes bound (Scan.of (distinctUntil close (.unclosedValues close)
      .repeatedInputValue readInputValue [])) _ _ _ :=
    recognizes_distinctUntil (recognizes_readInputValue bound) (by simp [StartsEntry])
      (by rcases closing with rfl | rfl <;> simp [StartsEntry]) (followsEntry_of_close closing) []
  rw [scan_readInputValues]
  refine (values.optional _ opening _ [] fun _ differ => ⟨differ, trivial⟩).congr ?_
    (fun _ => id) fun _ => id
  intro word values
  constructor
  · rintro (⟨_, rfl, ⟨_, rfl, many⟩, distinct⟩ | ⟨rfl, rfl⟩)
    · exact ⟨.present many, Named.distinctFrom_nil.mp distinct⟩
    · exact ⟨.absent, List.nodup_nil⟩
  · rintro ⟨_ | many, distinct⟩
    · exact .inr ⟨rfl, rfl⟩
    · exact .inl ⟨_, rfl, ⟨_, rfl, many⟩, Named.distinctFrom_nil.mpr distinct⟩

theorem scan_readField :
    Scan.of readField = (do
      scanDescription
      let name ← Scan.name (.malformed (.expectedName .field))
      let arguments ← Scan.of (readInputValues .parenOpen .parenClose)
      Scan.exactly .colon (.malformed (.expectedToken .colon))
      let type ← Scan.of readTypeRef
      Scan.of skipDirectives
      pure ⟨name, arguments, type⟩) := by
  funext tokens
  rw [description_bind]
  refine Scan.plain_bind (Scan.plain_name _ _) fun name => ?_
  refine Scan.plain_bind rfl fun arguments => ?_
  refine Scan.plain_bind (Scan.plain_expect _ _ _) fun colon => ?_
  refine Scan.plain_bind rfl fun type => ?_
  exact Scan.plain_bind rfl fun _ => rfl

theorem recognizes_readField (bound : Nat) :
    Recognizes bound (Scan.of readField)
      (fun word field => FieldDefinition.Derives word field ∧ Named.Distinct field.arguments)
      StartsEntry FollowsEntry := by
  have marks (field : FieldDefinition) :=
    ((recognizes_skipDirectives bound).narrow FollowsEntry
      fun _ => FollowsEntry.directives).map fun _ => field
  rw [scan_readField]
  refine ((recognizes_description bound).bind (fun _ =>
    (recognizes_readName .field).bind (fun name =>
      (recognizes_readInputValues (.inl rfl)).bind (fun arguments =>
        ((recognizes_readTypeRef bound).bind (fun type => marks ⟨name, arguments, type⟩)
          ?afterType).after .colon _) ?afterArguments) fun _ _ => trivial) ?afterDescription).congr
            ?words ?starts fun _ => id
  case afterType => grind [Ahead, FollowsEntry, StartsEntry]
  case afterArguments => grind [Ahead]
  case afterDescription => grind [Ahead]
  case words =>
    intro word field
    constructor
    · rintro ⟨_, _, _, rfl, description, _, _, name, rfl, rfl, _, _, _, rfl, ⟨given, distinct⟩, _,
        rfl, _, _, _, rfl, spelled, _, ⟨_, marks⟩, rfl⟩
      have derived := FieldDefinition.Derives.intro name description given spelled marks
      exact ⟨derived, distinct⟩
    · rintro ⟨⟨name, description, given, spelled, marks⟩, distinct⟩
      exact ⟨_, _, (), rfl, description, _, _, name, rfl, rfl, _, _, _, rfl, ⟨given, distinct⟩, _,
        rfl, _, _, _, rfl, spelled, (), ⟨_, marks⟩, rfl⟩
  case starts => grind [Ahead, StartsEntry]

theorem scan_readFields :
    Scan.of readFields = Scan.optional .braceOpen (.malformed .unclosedFields)
      (Scan.of (distinctUntil .braceClose .unclosedFields .repeatedField readField [])) [] := by
  funext tokens
  exact Scan.plain_optionalList _ _

/-- Fields in braces, in which no name is repeated, or nothing. -/
theorem recognizes_readFields (bound : Nat) :
    Recognizes bound (Scan.of readFields)
      (fun word fields => FieldDefinition.ListDerives word fields ∧
        SchemaItem.DistinctFields fields)
      (fun next => next = some .braceOpen ∨ next = none) (· ≠ some .braceOpen) := by
  have fields : Recognizes bound (Scan.of (distinctUntil .braceClose .unclosedFields
      .repeatedField readField [])) _ _ _ :=
    recognizes_distinctUntil (recognizes_readField bound) (by simp [StartsEntry])
      (by simp [StartsEntry]) (followsEntry_of_close (.inr rfl)) []
  rw [scan_readFields]
  refine (fields.optional _ .braceOpen _ [] fun _ differ => ⟨differ, trivial⟩).congr ?_
    (fun _ => id) fun _ => id
  intro word fields
  constructor
  · rintro (⟨_, rfl, ⟨_, rfl, many⟩, distinct⟩ | ⟨rfl, rfl⟩)
    · obtain ⟨many, each⟩ := Many.and_iff.mp many
      exact ⟨.present many, Named.distinctFrom_nil.mp distinct, each⟩
    · exact ⟨.absent, List.nodup_nil, by simp⟩
  · rintro ⟨_ | many, distinct, each⟩
    · exact .inr ⟨rfl, rfl⟩
    · exact .inl ⟨_, rfl, ⟨_, rfl, Many.and_iff.mpr ⟨many, each⟩⟩,
        Named.distinctFrom_nil.mpr distinct⟩

/-! ## Lists of names -/

theorem scan_readSeparated (separator : Token) (role : NameRole) :
    Scan.of (readSeparated separator role) = (do
      let first ← Scan.name (.malformed (.expectedName role))
      Scan.optional separator (.malformed (.expectedName role)) (do
        let others ← Scan.of (readSeparated separator role)
        pure (first :: others)) [first]) := by
  funext tokens
  rw [Scan.of, readSeparated]
  refine Scan.plain_bind (Scan.plain_name _ _) fun first => ?_
  rw [Scan.optional]
  split
  next refused =>
    rw [Scan.choose_refused refused]
    rfl
  next next accepted =>
    rw [Scan.choose_accepted accepted]
    exact Scan.plain_bind rfl fun _ => rfl

theorem scan_readLedSeparated (separator : Token) (role : NameRole) :
    Scan.of (readLedSeparated separator role) = (do
      let _ ← Scan.eat separator (.malformed (.expectedName role))
      Scan.of (readSeparated separator role)) := by
  funext tokens
  rw [Scan.eat_bind]
  exact Scan.plain_weaken _ _

theorem recognizes_readLedSeparated {bound : Nat} {separator : Token} (role : NameRole)
    (apart : ∀ name, separator ≠ .name name) :
    Recognizes bound (Scan.of (readLedSeparated separator role)) (Led separator named)
      (fun next => next = some separator ∨ ∃ name, next = some (.name name))
      (· ≠ some separator) := by
  have names : Recognizes bound (Scan.of (readSeparated separator role)) _ _ (· ≠ some separator) :=
    .separated (scan_readSeparated separator role) (recognizes_readName role) (by simp)
      (fun _ _ => trivial) fun _ => id
  rw [scan_readLedSeparated]
  exact names.led _ (by simp) (by simpa using apart)

theorem scan_readImplements :
    Scan.of readImplements = Scan.optional (.name "implements")
      (.malformed (.expectedName .interface))
      (Scan.of (readLedSeparated .ampersand .interface)) [] := by
  funext tokens
  exact Scan.plain_optionalList _ _

/-- The interfaces that a type implements, or nothing. -/
theorem recognizes_readImplements (bound : Nat) :
    Recognizes bound (Scan.of readImplements) TypeDefinition.InterfacesDerive
      (fun next => next = some (.name "implements") ∨ next = none)
      fun next => next ≠ some (.name "implements") ∧ next ≠ some .ampersand := by
  have names : Recognizes bound (Scan.of (readLedSeparated .ampersand .interface)) _ _ _ :=
    recognizes_readLedSeparated .interface (by simp)
  rw [scan_readImplements]
  refine (names.optional _ _ _ [] fun _ => id).congr ?_ (fun _ => id) fun _ => id
  intro word interfaces
  constructor
  · rintro (⟨_, rfl, derived⟩ | ⟨rfl, rfl⟩)
    · exact .present derived
    · exact .absent
  · rintro (_ | derived)
    · exact .inr ⟨rfl, rfl⟩
    · exact .inl ⟨_, rfl, derived⟩

theorem scan_readMembers :
    Scan.of readMembers = Scan.optional .equal (.malformed (.expectedName .type))
      (Scan.of (readLedSeparated .pipe .type)) [] := by
  funext tokens
  exact Scan.plain_optionalList _ _

/-- The members of a union, or nothing. -/
theorem recognizes_readMembers (bound : Nat) :
    Recognizes bound (Scan.of readMembers) TypeDefinition.MembersDerive
      (fun next => next = some .equal ∨ next = none)
      fun next => next ≠ some .equal ∧ next ≠ some .pipe := by
  have names : Recognizes bound (Scan.of (readLedSeparated .pipe .type)) _ _ _ :=
    recognizes_readLedSeparated .type (by simp)
  rw [scan_readMembers]
  refine (names.optional _ _ _ [] fun _ => id).congr ?_ (fun _ => id) fun _ => id
  intro word members
  constructor
  · rintro (⟨_, rfl, derived⟩ | ⟨rfl, rfl⟩)
    · exact .present derived
    · exact .absent
  · rintro (_ | derived)
    · exact .inr ⟨rfl, rfl⟩
    · exact .inl ⟨_, rfl, derived⟩

end Definitions

end QueryCheck
