import QueryCheck.Proofs.Reading.Grammar
import QueryCheck.Proofs.Reading.Prediction
import QueryCheck.Reading.Document

/-!
# Reading values, types, arguments and directives

These readers are predictive, each for the words that derive what it reads.
-/

namespace QueryCheck

open QueryCheck.Language (Many)

namespace Value

/-- The value that a token stands for by itself. -/
def leaf? (constant : Bool) : Token → Option Value
  | .name text => some (ofName text)
  | .variableName name => if constant then none else some (.var name)
  | .float text => some (.float text)
  | .integer text => some (.int text)
  | .string value => some (.string value)
  | _ => none

def leafCause (constant : Bool) : Option Token → NodeKind
  | some (.variableName _) => if constant then .variableDefinition else .value
  | _ => .value

theorem scan_read (constant : Bool) :
    Scan.of (read constant) =
      Scan.choose (· = some .bracketOpen)
        (do
          Scan.exactly .bracketOpen .value
          let items ← Scan.manyUntil .bracketClose (read constant)
          pure (.list items))
        (Scan.choose (· = some .braceOpen)
          (do
            Scan.exactly .braceOpen .value
            let fields ← Scan.manyUntil .braceClose (readNamed .objectField constant)
            pure (.object fields))
          (Scan.take (leaf? constant) (leafCause constant))) := by
  funext tokens
  rw [Scan.of, read.eq_def]
  rcases tokens with _ | ⟨token, rest⟩
  · rfl
  · cases token with
    | bracketOpen =>
        rw [Scan.choose_exactly]
        exact Scan.plain_bind rfl fun _ => rfl
    | braceOpen =>
        rw [Scan.choose_other _ _ (by simp), Scan.choose_exactly]
        exact Scan.plain_bind rfl fun _ => rfl
    | variableName name => cases constant <;> rfl
    | _ => rfl

theorem scan_readNamed (kind : NodeKind) (constant : Bool) :
    Scan.of (readNamed kind constant) = (do
      let name ← Scan.name kind
      Scan.exactly .colon kind
      let value ← Scan.of (read constant)
      pure (name, value)) := by
  funext tokens
  rw [Scan.of, readNamed.eq_def]
  rcases tokens with _ | ⟨first, _ | ⟨second, rest⟩⟩
  · rfl
  · cases first <;> rfl
  · cases first with
    | name text =>
        cases second with
        | colon =>
            show _ = (do
              let value ← Scan.of (read constant)
              pure (text, value) : Scan _ _) rest
            exact Scan.plain_bind rfl fun _ => rfl
        | _ => rfl
    | _ => rfl

/-- How values are spelled where variables may not be allowed. -/
def DerivesIn (constant : Bool) (word : List Token) (value : Value) : Prop :=
  Derives word value ∧ (constant = true → value.variableNames = [])

/-- No value starts with the end of a list. -/
def Starts (next : Option Token) : Prop :=
  next ≠ none ∧ next ≠ some .bracketClose

theorem Derives.start {word : List Token} {value : Value} (derived : Derives word value) :
    Starts word.head? := by
  cases derived <;> simp [Starts]

theorem listVariableNames_eq_nil_iff (items : List Value) :
    listVariableNames items = [] ↔ ∀ item ∈ items, item.variableNames = [] := by
  induction items with
  | nil => simp [listVariableNames]
  | cons item items ih => simp [listVariableNames, ih]

theorem fieldVariableNames_eq_nil_iff (fields : List (String × Value)) :
    fieldVariableNames fields = [] ↔ ∀ field ∈ fields, field.2.variableNames = [] := by
  induction fields with
  | nil => simp [fieldVariableNames]
  | cons field fields ih => simp [fieldVariableNames, ih]

theorem labelled_derivesIn {constant : Bool} {word : List Token} {field : String × Value} :
    Language.Labelled (DerivesIn constant) word field ↔
      Language.Labelled Derives word field ∧ (constant = true → field.2.variableNames = []) := by
  constructor
  · rintro ⟨name, derived⟩
    exact ⟨⟨name, derived.1⟩, derived.2⟩
  · rintro ⟨⟨name, derived⟩, fixed⟩
    exact ⟨name, derived, fixed⟩

theorem many_derivesIn {constant : Bool} {word : List Token} {items : List Value} :
    Many (DerivesIn constant) word items ↔
      Many Derives word items ∧ (constant = true → listVariableNames items = []) := by
  rw [listVariableNames_eq_nil_iff]
  exact Many.and_iff.trans (and_congr_right fun _ => by grind)

theorem many_labelled_derivesIn {constant : Bool} {word : List Token}
    {fields : List (String × Value)} :
    Many (Language.Labelled (DerivesIn constant)) word fields ↔
      Many (Language.Labelled Derives) word fields ∧
        (constant = true → fieldVariableNames fields = []) := by
  rw [fieldVariableNames_eq_nil_iff]
  have same : Language.Labelled (DerivesIn constant) = fun word field =>
      Language.Labelled Derives word field ∧ (constant = true → field.2.variableNames = []) := by
    funext word field
    exact propext labelled_derivesIn
  rw [same]
  exact Many.and_iff.trans (and_congr_right fun _ => by grind)

theorem derives_name_iff {text : String} {value : Value} :
    Derives [.name text] value ↔ value = ofName text := by
  constructor
  · intro derived
    cases derived with
    | yes | no | null => rfl
    | enum free =>
        rw [ofName, if_neg free.2.2, if_neg free.1, if_neg free.2.1]
  · rintro rfl
    unfold ofName
    split
    next same => exact same ▸ .null
    next differ =>
      split
      next same => exact same ▸ .yes
      next differ' =>
        split
        next same => exact same ▸ .no
        next differ'' => exact .enum ⟨differ', differ'', differ⟩

theorem variableNames_ofName (text : String) : (ofName text).variableNames = [] := by
  unfold ofName
  repeat' split
  all_goals rfl

theorem derivesIn_of_leaf? {constant : Bool} {token : Token} {value : Value}
    (taken : leaf? constant token = some value) : DerivesIn constant [token] value := by
  cases token with
  | name text =>
      cases taken
      exact ⟨derives_name_iff.mpr rfl, fun _ => variableNames_ofName text⟩
  | variableName name =>
      cases constant with
      | true => cases taken
      | false =>
          cases taken
          exact ⟨.var name, by simp⟩
  | float text =>
      cases taken
      exact ⟨.float text, fun _ => rfl⟩
  | integer text =>
      cases taken
      exact ⟨.int text, fun _ => rfl⟩
  | string text =>
      cases taken
      exact ⟨.string text, fun _ => rfl⟩
  | _ => cases taken

/-- A value is a list, an object or a single token. -/
theorem DerivesIn.split {constant : Bool} {word : List Token} {value : Value}
    (derived : DerivesIn constant word value) :
    (∃ body items, word = .bracketOpen :: (body ++ [.bracketClose]) ∧ value = .list items ∧
      Many (DerivesIn constant) body items) ∨
    (∃ body fields, word = .braceOpen :: (body ++ [.braceClose]) ∧ value = .object fields ∧
      Many (Language.Labelled (DerivesIn constant)) body fields) ∨
    ∃ token, word = [token] ∧ leaf? constant token = some value := by
  obtain ⟨derived, fixed⟩ := derived
  cases derived with
  | list many => exact .inl ⟨_, _, rfl, rfl, many_derivesIn.mpr ⟨many, fixed⟩⟩
  | object many =>
      exact .inr (.inl ⟨_, _, rfl, rfl, many_labelled_derivesIn.mpr ⟨many, fixed⟩⟩)
  | var name =>
      cases constant with
      | true => cases fixed rfl
      | false => exact .inr (.inr ⟨_, rfl, rfl⟩)
  | enum free =>
      exact .inr (.inr ⟨_, rfl, congrArg some (derives_name_iff.mp (.enum free)).symm⟩)
  | string | float | int | yes | no | null => exact .inr (.inr ⟨_, rfl, rfl⟩)

theorem predictive_readNamed {bound : Nat} {constant : Bool} (kind : NodeKind)
    (value : Predictive bound (Scan.of (read constant)) (DerivesIn constant) Starts
      fun _ => True) :
    Predictive bound (Scan.of (readNamed kind constant)) (Language.Labelled (DerivesIn constant))
      (fun next => ∃ name, next = some (.name name)) fun _ => True := by
  rw [scan_readNamed]
  refine ((Predictive.name kind).bind (fun name => (value.map (name, ·)).after .colon kind)
    fun _ _ => trivial).congr ?words ?starts fun _ => id
  case words =>
    intro word field
    constructor
    · rintro ⟨_, _, name, rfl, rfl, _, rfl, _, derived, rfl⟩
      exact ⟨name, derived⟩
    · rintro ⟨name, derived⟩
      exact ⟨_, _, name, rfl, rfl, _, rfl, _, derived, rfl⟩
  case starts => grind [Ahead]

/-- A value is read exactly if a word derives it. -/
theorem predictive_read (bound : Nat) (constant : Bool) :
    Predictive bound (Scan.of (read constant)) (DerivesIn constant) Starts fun _ => True := by
  -- A bracket or a brace takes one token, so what is inside has the smaller bound.
  induction bound with
  | zero =>
      exact .zero (fun derived => derived.1.start) ⟨_, .null, .null, fun _ => rfl⟩
  | succ bound ih =>
      have items : Predictive bound (Scan.manyUntil .bracketClose (read constant)) _ _ _ :=
        ih.manyUntil .value (by simp [Starts]) (by simp [Starts]) fun _ _ => trivial
      have fields : Predictive bound
          (Scan.manyUntil .braceClose (readNamed .objectField constant)) _ _ _ :=
        (predictive_readNamed .objectField ih).manyUntil .value (by simp) (by simp)
          fun _ _ => trivial
      have leaf : Predictive (bound + 1) _ _ _ _ :=
        .take (leaf? constant) (leafCause constant) (.string "") rfl
      rw [scan_read]
      refine (((items.map .list).afterLess .bracketOpen .value).choose
        (((fields.map .object).afterLess .braceOpen .value).choose leaf ?objectPasses ?leafFails)
          ?listPasses ?othersFail).congr ?words ?starts fun _ => id
      case objectPasses => grind [Ahead]
      case leafFails => grind [Ahead, leaf?]
      case listPasses => grind [Ahead]
      case othersFail => grind [Ahead, leaf?]
      case words =>
        intro word value
        constructor
        · rintro (⟨_, rfl, _, ⟨_, rfl, many⟩, rfl⟩ | ⟨_, rfl, _, ⟨_, rfl, many⟩, rfl⟩ |
            ⟨token, rfl, taken⟩)
          · rw [many_derivesIn] at many
            exact ⟨.list many.1, many.2⟩
          · rw [many_labelled_derivesIn] at many
            exact ⟨.object many.1, many.2⟩
          · exact derivesIn_of_leaf? taken
        · intro derived
          rcases derived.split with ⟨_, _, rfl, rfl, many⟩ | ⟨_, _, rfl, rfl, many⟩ | leaf
          · exact .inl ⟨_, rfl, _, ⟨_, rfl, many⟩, rfl⟩
          · exact .inr (.inl ⟨_, rfl, _, ⟨_, rfl, many⟩, rfl⟩)
          · exact .inr (.inr leaf)
      case starts => grind [Ahead, leaf?, Starts]

end Value

namespace TypeRef

variable {ε : Type}

def scanMark (cause : ε) (type : TypeRef) : Scan ε TypeRef :=
  Scan.optional .exclam cause (pure (.nonNull type)) type

theorem plain_readMark {bound : Nat} (cause : ε) (type : TypeRef) (tokens : List Token)
    (lt : (readMark type tokens).rest.length < bound) :
    Reading.plain (.ok ⟨(readMark type tokens).value, (readMark type tokens).rest, lt⟩) =
      scanMark cause type tokens := by
  rcases tokens with _ | ⟨next, rest⟩
  · rfl
  · cases next <;> rfl

/-- What is read after a type: a mark, or nothing. -/
theorem predictive_scanMark {bound : Nat} (cause : ε) (type : TypeRef) :
    Predictive bound (scanMark cause type)
      (fun word value => (word = [.exclam] ∧ value = .nonNull type) ∨ (word = [] ∧ value = type))
      (fun next => next = some .exclam ∨ next = none) (· ≠ some .exclam) := by
  refine ((Predictive.pure (TypeRef.nonNull type)).optional _ .exclam cause type
    fun _ differ => ⟨differ, trivial⟩).congr ?_ (fun _ => id) fun _ => id
  intro word value
  constructor
  · rintro (⟨_, rfl, rfl, rfl⟩ | empty)
    · exact .inl ⟨rfl, rfl⟩
    · exact .inr empty
  · rintro (⟨rfl, rfl⟩ | empty)
    · exact .inl ⟨_, rfl, rfl, rfl⟩
    · exact .inr empty

/-- How a type reference is read, whatever is said about faults. -/
def ReadsType (read : Scan ε TypeRef) : Prop :=
  ∃ start close : ε, read =
    Scan.choose (· = some .bracketOpen)
      (do
        Scan.exactly .bracketOpen start
        let item ← read
        Scan.exactly .bracketClose close
        scanMark start (.list item))
      (do
        let name ← Scan.name start
        scanMark start (.named name))

def Starts (next : Option Token) : Prop :=
  next = some .bracketOpen ∨ ∃ name, next = some (.name name)

theorem Derives.start {word : List Token} {type : TypeRef} (derived : Derives word type) :
    Starts word.head? := by
  induction derived with
  | named name => exact .inr ⟨name, rfl⟩
  | list => exact .inl rfl
  | @nonNull word _ _ _ ih =>
      cases word with
      | nil => simp [Starts] at ih
      | cons token word => exact ih

/-- A type reference is read exactly if a word derives it. -/
theorem ReadsType.predictive {read : Scan ε TypeRef} (reads : ReadsType read) (bound : Nat) :
    Predictive bound read Derives Starts (· ≠ some .exclam) := by
  obtain ⟨start, close, equation⟩ := reads
  induction bound with
  | zero => exact .zero Derives.start ⟨_, _, .named ""⟩
  | succ bound ih =>
      rw [equation]
      refine (((ih.bind (fun item => (predictive_scanMark start (.list item)).after
        .bracketClose close) ?afterItem).afterLess .bracketOpen start).choose
        ((Predictive.name start).bind (fun name => predictive_scanMark start (.named name))
          fun _ _ => trivial) ?passes ?fails).congr ?words ?starts fun _ => id
      case afterItem => grind [Ahead]
      case passes => grind [Ahead]
      case fails => grind [Ahead]
      case words =>
        intro word value
        constructor
        · rintro (⟨_, rfl, _, _, item, rfl, derived, _, rfl, ⟨rfl, rfl⟩ | ⟨rfl, rfl⟩⟩ |
            ⟨_, _, name, rfl, rfl, ⟨rfl, rfl⟩ | ⟨rfl, rfl⟩⟩)
          · have marked := Derives.nonNull (.list derived) rfl
            simpa using marked
          · exact .list derived
          · exact .nonNull (.named name) rfl
          · exact .named name
        · intro derived
          cases derived with
          | named name => exact .inr ⟨_, _, name, rfl, rfl, .inr ⟨rfl, rfl⟩⟩
          | list derived => exact .inl ⟨_, rfl, _, _, _, rfl, derived, _, rfl, .inr ⟨rfl, rfl⟩⟩
          | nonNull derived once =>
              cases derived with
              | named name => exact .inr ⟨_, _, name, rfl, rfl, .inl ⟨rfl, rfl⟩⟩
              | list derived =>
                  exact .inl ⟨_, rfl, _, _, _, by simp, derived, _, rfl, .inl ⟨rfl, rfl⟩⟩
              | nonNull => cases once
      case starts => grind [Ahead, Starts]

theorem scan_read :
    Scan.of read = Scan.choose (· = some .bracketOpen)
      (do
        Scan.exactly .bracketOpen .typeRef
        let item ← Scan.of read
        Scan.exactly .bracketClose .listType
        scanMark .typeRef (.list item))
      (do
        let name ← Scan.name .typeRef
        scanMark .typeRef (.named name)) := by
  funext tokens
  rcases tokens with _ | ⟨next, rest⟩
  · rfl
  · cases next with
    | bracketOpen =>
        rw [Scan.of, read, Scan.choose_exactly]
        refine Scan.plain_bind rfl fun item => ?_
        refine Scan.plain_bind (Scan.plain_expect _ _ _) fun close => ?_
        exact plain_readMark _ _ _ _
    | name text =>
        rw [Scan.of, read]
        exact plain_readMark _ _ _ _
    | _ => rfl

theorem readsType_read : ReadsType (Scan.of read) :=
  ⟨.typeRef, .listType, scan_read⟩

end TypeRef

namespace Argument

theorem scan_read :
    Scan.of read = (do
      let named ← Scan.of (Value.readNamed .argument false)
      pure ⟨named.1, named.2⟩) := by
  funext tokens
  exact Scan.plain_bind rfl fun _ => rfl

theorem predictive_read (bound : Nat) :
    Predictive bound (Scan.of read) Derives (fun next => ∃ name, next = some (.name name))
      fun _ => True := by
  rw [scan_read]
  refine ((Value.predictive_readNamed .argument (Value.predictive_read bound false)).map
    fun named => Argument.mk named.1 named.2).congr ?_ (fun _ => id) fun _ => id
  intro word argument
  constructor
  · rintro ⟨_, ⟨name, derived⟩, rfl⟩
    exact ⟨name, derived.1⟩
  · rintro ⟨name, derived⟩
    exact ⟨_, ⟨name, derived, by simp⟩, rfl⟩

theorem scan_readAll :
    Scan.of readAll = Scan.optional .parenOpen .arguments (Scan.manyUntil .parenClose read) [] := by
  funext tokens
  rcases tokens with _ | ⟨next, rest⟩
  · rfl
  · cases next with
    | parenOpen =>
        rw [Scan.of, readAll, Scan.optional, Scan.choose_exactly]
        exact Scan.plain_weaken _ _
    | _ => rfl

/-- Arguments in parentheses, or nothing. -/
theorem predictive_readAll (bound : Nat) :
    Predictive bound (Scan.of readAll) ListDerives
      (fun next => next = some .parenOpen ∨ next = none) (· ≠ some .parenOpen) := by
  have items : Predictive bound (Scan.manyUntil .parenClose read) _ _ _ :=
    (predictive_read bound).manyUntil .argument (by simp) (by simp) fun _ _ => trivial
  rw [scan_readAll]
  refine (items.optional _ .parenOpen _ [] fun _ differ => ⟨differ, trivial⟩).congr ?_
    (fun _ => id) fun _ => id
  intro word arguments
  constructor
  · rintro (⟨_, rfl, _, rfl, many⟩ | ⟨rfl, rfl⟩)
    · exact .present many
    · exact .absent
  · rintro (_ | many)
    · exact .inr ⟨rfl, rfl⟩
    · exact .inl ⟨_, rfl, _, rfl, many⟩

end Argument

namespace Directive

def Follows (next : Option Token) : Prop :=
  next ≠ some .parenOpen ∧ ∀ name, next ≠ some (.directiveName name)

theorem scan_read :
    Scan.of read = (do
      let name ← Scan.take Token.directiveName? fun _ => .directive
      let arguments ← Scan.of Argument.readAll
      pure ⟨name, arguments⟩) := by
  funext tokens
  rcases tokens with _ | ⟨next, rest⟩
  · rfl
  · cases next with
    | directiveName name =>
        show Reading.plain _ = (do
          let arguments ← Scan.of Argument.readAll
          pure (⟨name, arguments⟩ : Directive)) rest
        exact Scan.plain_bind rfl fun _ => rfl
    | _ => rfl

theorem predictive_read (bound : Nat) :
    Predictive bound (Scan.of read) Derives
      (fun next => ∃ name, next = some (.directiveName name)) (· ≠ some .parenOpen) := by
  rw [scan_read]
  refine ((Predictive.spelled .directive Token.directiveName?_eq_some "").bind
    (fun name => (Argument.predictive_readAll bound).map (Directive.mk name))
    fun _ _ => trivial).congr ?words ?starts fun _ => id
  case words =>
    intro word directive
    constructor
    · rintro ⟨_, _, name, rfl, rfl, _, derived, rfl⟩
      exact ⟨name, derived⟩
    · rintro ⟨name, derived⟩
      exact ⟨_, _, name, rfl, rfl, _, derived, rfl⟩
  case starts => grind [Ahead]

theorem scan_readAll :
    Scan.of readAll = Scan.choose (fun next => (next.bind Token.directiveName?).isSome)
      (do
        let first ← Scan.of read
        let others ← Scan.of readAll
        pure (first :: others))
      (pure []) := by
  funext tokens
  rw [Scan.of, readAll.eq_def]
  rcases tokens with _ | ⟨next, rest⟩
  · rfl
  · cases next with
    | directiveName name =>
        show Reading.plain _ = (do
          let first ← Scan.of read
          let others ← Scan.of readAll
          pure (first :: others)) (.directiveName name :: rest)
        refine Scan.plain_bind rfl fun first => ?_
        exact Scan.plain_bind rfl fun _ => rfl
    | _ => rfl

/-- Directives as long as there are any. -/
theorem predictive_readAll (bound : Nat) :
    Predictive bound (Scan.of readAll) (Many Derives)
      (fun next => next = none ∨ ∃ name, next = some (.directiveName name)) Follows := by
  refine .many scan_readAll (predictive_read bound) ?nonempty ?passes ?fails ?ahead
  case nonempty => simp
  case passes =>
    rintro _ ⟨name, rfl⟩
    rfl
  case fails =>
    rintro (_ | token) ⟨_, other⟩
    · rfl
    · cases token with
      | directiveName name => exact absurd rfl (other name)
      | _ => rfl
  case ahead => grind [Follows]

end Directive

end QueryCheck
