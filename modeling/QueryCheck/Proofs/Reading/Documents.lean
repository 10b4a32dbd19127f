import QueryCheck.Proofs.Reading.Selections

/-!
# Reading documents

A document is read exactly if the tokens derive it. If reading fails, it fails at the first
token with which no document goes on.
-/

namespace QueryCheck

open QueryCheck.Language (Many)

namespace VariableDefinition

theorem scan_readDefault :
    Scan.of readDefault =
      Scan.optional .equal .variableDefinition (Scan.of (Value.read true)) .null := by
  funext tokens
  rw [Scan.of, readDefault, Scan.optional]
  split
  next equal accepted =>
    rw [Scan.choose_accepted accepted]
    exact Scan.plain_weaken _ (Nat.le_succ_of_le (Nat.le_of_lt equal.rest_lt))
  next refused =>
    rw [Scan.choose_refused refused]
    rfl

theorem predictive_readDefault (bound : Nat) :
    Predictive bound (Scan.of readDefault) DefaultDerives
      (fun next => next = some .equal ∨ next = none) (· ≠ some .equal) := by
  rw [scan_readDefault]
  refine ((Value.predictive_read bound true).optional _ .equal _ .null
    fun _ differ => ⟨differ, trivial⟩).congr ?_ (fun _ => id) fun _ => id
  intro word value
  constructor
  · rintro (⟨_, rfl, derived⟩ | ⟨rfl, rfl⟩)
    · exact .present derived.1 (derived.2 rfl)
    · exact .absent
  · rintro (_ | ⟨derived, fixed⟩)
    · exact .inr ⟨rfl, rfl⟩
    · exact .inl ⟨_, rfl, derived, fun _ => fixed⟩

theorem scan_read :
    Scan.of read = (do
      let name ← Scan.take Token.variableName? fun _ => .variableUse
      Scan.exactly .colon .variableDefinition
      let type ← Scan.of TypeRef.read
      let default ← Scan.of readDefault
      let directives ← Scan.of Directive.readAll
      pure ⟨name, type, default, directives⟩) := by
  have name (tokens : List Token) : (Value.readVariable tokens).plain =
      Scan.take Token.variableName? (fun _ => .variableUse) tokens := by
    rcases tokens with _ | ⟨next, rest⟩
    · rfl
    · cases next <;> rfl
  funext tokens
  refine Scan.plain_bind (name tokens) fun name => ?_
  refine Scan.plain_bind (Scan.plain_expect _ _ _) fun colon => ?_
  refine Scan.plain_bind rfl fun type => ?_
  refine Scan.plain_bind rfl fun default => ?_
  exact Scan.plain_bind rfl fun _ => rfl

def Follows (next : Option Token) : Prop :=
  Directive.Follows next ∧ next ≠ some .equal ∧ next ≠ some .exclam

theorem predictive_read (bound : Nat) :
    Predictive bound (Scan.of read) Derives (fun next => ∃ name, next = some (.variableName name))
      Follows := by
  have directives (name : String) (type : TypeRef) (default : Value) :=
    ((Directive.predictive_readAll bound).narrow Follows fun _ follow => follow.1).map
      fun directives => VariableDefinition.mk name type default directives
  rw [scan_read]
  refine ((Predictive.spelled _ Token.variableName?_eq_some "").bind (fun name =>
    ((TypeRef.readsType_read.predictive _).bind (fun type =>
      (predictive_readDefault _).bind (fun default => directives name type default)
        ?afterDefault) ?afterType).after .colon _) fun _ _ => trivial).congr ?words ?starts
          fun _ => id
  case afterDefault => grind [Ahead, Follows, Directive.Follows]
  case afterType => grind [Ahead, Follows, Directive.Follows]
  case words =>
    intro word definition
    constructor
    · rintro ⟨_, _, name, rfl, rfl, _, rfl, _, _, _, rfl, spelled, _, _, _, rfl, given, _, marks,
        rfl⟩
      exact .intro name spelled given marks
    · rintro ⟨name, spelled, given, marks⟩
      exact ⟨_, _, name, rfl, rfl, _, rfl, _, _, _, rfl, spelled, _, _, _, rfl, given, _, marks,
        rfl⟩
  case starts => grind [Ahead]

theorem scan_readAll :
    Scan.of readAll = Scan.optional .parenOpen .variableDefinitions
      (Scan.refuse (· = some .parenClose) .variableDefinitions (Scan.manyUntil .parenClose read))
      [] := by
  funext tokens
  rw [Scan.of, readAll.eq_def, Scan.optional]
  rcases tokens with _ | ⟨next, rest⟩
  · rfl
  · cases next with
    | parenOpen =>
        rw [Scan.choose_exactly]
        rcases rest with _ | ⟨after, rest⟩
        · exact Scan.plain_weaken _ _
        · cases after with
          | parenClose => rfl
          | _ => exact Scan.plain_weaken _ _
    | _ => rfl

theorem predictive_readAll (bound : Nat) :
    Predictive bound (Scan.of readAll) ListDerives
      (fun next => next = some .parenOpen ∨ next = none) (· ≠ some .parenOpen) := by
  have ahead (next : Option Token)
      (ahead : (∃ name, next = some (.variableName name)) ∨ next = some .parenClose) :
      Follows next := by
    grind [Follows, Directive.Follows]
  have items : Predictive bound (Scan.refuse (· = some .parenClose) .variableDefinitions
      (Scan.manyUntil .parenClose read)) _ _ _ :=
    (predictive_read bound).someUntil .variableDefinitions (by simp) (by simp) ahead
  rw [scan_readAll]
  refine (items.optional _ .parenOpen _ [] fun _ differ => ⟨differ, trivial⟩).congr ?_
    (fun _ => id) fun _ => id
  intro word definitions
  constructor
  · rintro (⟨_, rfl, ⟨_, rfl, many⟩, some⟩ | ⟨rfl, rfl⟩)
    · exact .present many some
    · exact .absent
  · rintro (_ | ⟨many, some⟩)
    · exact .inr ⟨rfl, rfl⟩
    · exact .inl ⟨_, rfl, ⟨_, rfl, many⟩, some⟩

end VariableDefinition

namespace Selection

theorem predictive_readRequired (bound : Nat) (kind : NodeKind) :
    Predictive bound (Scan.of (readRequired kind)) SetDerives (· = some .braceOpen)
      fun _ => True :=
  (predictive_readRequired_succ (predictive_read bound) kind).of_le (Nat.le_succ bound)

end Selection

namespace Fragment

theorem scan_read :
    Scan.of read = (do
      Scan.exactly (.name "fragment") .fragmentDefinition
      let name ← Scan.name .namedType
      Scan.exactly (.name "on") .fragmentDefinition
      let type ← Scan.name .namedType
      let directives ← Scan.of Directive.readAll
      let selections ← Scan.of (Selection.readRequired .fragmentDefinition)
      pure ⟨name, type, directives, selections⟩) := by
  funext tokens
  refine Scan.plain_bind (Scan.plain_expect _ _ _) fun keyword => ?_
  refine Scan.plain_bind (Scan.plain_name _ _) fun name => ?_
  refine Scan.plain_bind (Scan.plain_expect _ _ _) fun on => ?_
  refine Scan.plain_bind (Scan.plain_name _ _) fun type => ?_
  refine Scan.plain_bind rfl fun directives => ?_
  exact Scan.plain_bind rfl fun _ => rfl

theorem predictive_read (bound : Nat) :
    Predictive bound (Scan.of read) Derives (· = some (.name "fragment")) fun _ => True := by
  have selections (name type : String) (directives : List Directive) :=
    (Selection.predictive_readRequired bound .fragmentDefinition).map fun selections =>
      Fragment.mk name type directives selections
  rw [scan_read]
  refine (((Predictive.name _).bind (fun name => ((Predictive.name _).bind (fun type =>
    (Directive.predictive_readAll _).bind (fun directives => selections name type directives)
      ?afterDirectives) fun _ _ => trivial).after (.name "on") _) fun _ _ => trivial).after
        (.name "fragment") _).congr ?words (fun _ => id) fun _ => id
  case afterDirectives => grind [Ahead, Directive.Follows]
  case words =>
    intro word fragment
    constructor
    · rintro ⟨_, rfl, _, _, name, rfl, rfl, _, rfl, _, _, type, rfl, rfl, _, _, _, rfl, marks, _,
        body, rfl⟩
      have derived := Derives.intro name type marks body
      exact derived
    · rintro ⟨name, type, marks, body⟩
      exact ⟨_, rfl, _, _, name, rfl, rfl, _, rfl, _, _, type, rfl, rfl, _, _, _, rfl, marks, _,
        body, rfl⟩

end Fragment

namespace OperationKind

theorem ofKeyword?_eq_some {text : String} {kind : OperationKind} :
    ofKeyword? text = some kind ↔ text = kind.keyword :=
  find?_spelling (by rintro (_ | _ | _) <;> decide)

theorem word?_eq_some {token : Token} {kind : OperationKind} :
    token.word? ofKeyword? = some kind ↔ token = .name kind.keyword :=
  Token.word?_eq_some ofKeyword?_eq_some

theorem plain_read (tokens : List Token) :
    (read tokens).plain = Scan.take (Token.word? ofKeyword?) (fun _ => .operationKind) tokens := by
  rcases tokens with _ | ⟨next, rest⟩
  · rfl
  · cases next with
    | name text =>
        cases keyword : ofKeyword? text with
        | none =>
            simp [read, keyword, Reading.fail, Reading.plain, Scan.take, Token.word?, Token.name?]
        | some kind => simp [read, keyword, Reading.plain, Scan.take, Token.word?, Token.name?]
    | _ => rfl

end OperationKind

namespace Operation

def scanName : Scan NodeKind (Option String) :=
  Scan.choose (fun next => (next.bind Token.name?).isSome)
    (do
      let name ← Scan.name .operationDefinition
      pure (some name))
    (pure none)

theorem plain_readName (tokens : List Token) :
    Reading.plain (.ok (readName tokens)) = scanName tokens := by
  rcases tokens with _ | ⟨next, rest⟩
  · rfl
  · cases next <;> rfl

theorem predictive_scanName (bound : Nat) :
    Predictive bound scanName NameDerives
      (fun next => (∃ name, next = some (.name name)) ∨ next = none)
      fun next => ∀ name, next ≠ some (.name name) := by
  have present : Predictive bound _ _ _ fun next => ∀ name, next ≠ some (.name name) :=
    ((Predictive.name NodeKind.operationDefinition).map some).narrow _ fun _ _ => trivial
  refine (present.choose (.pure none) ?passes ?fails).congr ?words (fun _ => id) fun _ => id
  case passes => grind [Ahead, Token.name?]
  case fails =>
    intro next ahead
    have other := ahead.of_none
    rcases next with _ | token
    · rfl
    · cases token with
      | name text => exact absurd rfl (other text)
      | _ => rfl
  case words =>
    intro word name?
    constructor
    · rintro (⟨name, rfl, rfl⟩ | ⟨rfl, rfl⟩)
      · exact .present name
      · exact .absent
    · rintro (_ | name)
      · exact .inr ⟨rfl, rfl⟩
      · exact .inl ⟨name, rfl, rfl⟩

theorem scan_readFull :
    Scan.of readFull = (do
      let kind ← Scan.take (Token.word? OperationKind.ofKeyword?) fun _ => .operationDefinition
      let name? ← scanName
      let definitions ← Scan.of VariableDefinition.readAll
      let directives ← Scan.of Directive.readAll
      let selections ← Scan.of (Selection.readRequired .operationDefinition)
      pure ⟨kind, name?, definitions, directives, selections⟩) := by
  funext tokens
  have first := OperationKind.plain_read tokens
  rw [Scan.of, readFull]
  split
  next failure error =>
    rw [error] at first
    obtain ⟨rfl, refused⟩ := Scan.take_eq_error.mp first.symm
    refine (Scan.bind_error ?_).symm
    exact Scan.take_eq_error.mpr ⟨rfl, refused⟩
  next kind ok =>
    rw [ok] at first
    rw [Scan.bind_ok (Scan.take_eq_ok.mpr (Scan.take_eq_ok.mp first.symm)),
      Scan.bind_ok (plain_readName kind.rest).symm]
    refine Scan.plain_bind rfl fun definitions => ?_
    refine Scan.plain_bind rfl fun directives => ?_
    exact Scan.plain_bind rfl fun _ => rfl

def Starts (next : Option Token) : Prop :=
  next = some .braceOpen ∨ ∃ kind : OperationKind, next = some (.name kind.keyword)

theorem scan_read :
    Scan.of read = Scan.choose (· = some .braceOpen)
      (do
        let selections ← Scan.of (Selection.readRequired .selectionSet)
        pure ⟨.query, none, [], [], selections⟩)
      (Scan.of readFull) := by
  funext tokens
  rcases tokens with _ | ⟨next, rest⟩
  · rfl
  · cases next with
    | braceOpen => exact Scan.plain_bind rfl fun _ => rfl
    | _ => rfl

theorem predictive_read (bound : Nat) :
    Predictive bound (Scan.of read) Derives Starts fun _ => True := by
  have short := (Selection.predictive_readRequired bound .selectionSet).map fun selections =>
    Operation.mk .query none [] [] selections
  have kind : Predictive bound _ _ _ _ :=
    .spelled NodeKind.operationDefinition OperationKind.word?_eq_some .query
  rw [scan_read, scan_readFull]
  refine (short.choose (kind.bind (fun kind => (predictive_scanName bound).bind (fun name? =>
    (VariableDefinition.predictive_readAll bound).bind (fun definitions =>
      (Directive.predictive_readAll bound).bind (fun directives =>
        (Selection.predictive_readRequired bound .operationDefinition).map
          fun selections => Operation.mk kind name? definitions directives selections)
        ?afterDirectives) ?afterDefinitions) ?afterName) fun _ _ => trivial)
      ?passes ?fails).congr ?words ?starts fun _ => id
  case afterDirectives => grind [Ahead, Directive.Follows]
  case afterDefinitions => grind [Ahead]
  case afterName => grind [Ahead]
  case passes => grind [Ahead]
  case fails => grind [Ahead]
  case words =>
    intro word operation
    constructor
    · rintro (⟨_, body, rfl⟩ | ⟨_, _, kind, rfl, rfl, _, _, _, rfl, name, _, _, _, rfl, given, _, _,
        _, rfl, marks, _, body, rfl⟩)
      · exact .short body
      · have derived := Derives.full kind name given marks body
        exact derived
    · rintro (body | ⟨kind, name, given, marks, body⟩)
      · exact .inl ⟨_, body, rfl⟩
      · exact .inr ⟨_, _, kind, rfl, rfl, _, _, _, rfl, name, _, _, _, rfl, given, _, _, _, rfl,
          marks, _, body, rfl⟩
  case starts => grind [Ahead, Starts]

end Operation

namespace Definition

def starts (next : Option Token) : Bool :=
  next = some (.name "fragment") || next.any startsOperation

theorem starts_of_operation {next : Option Token} (start : Operation.Starts next) :
    starts next = true ∧ next ≠ some (.name "fragment") ∧ next ≠ none := by
  rcases start with rfl | ⟨kind, rfl⟩
  · decide
  · cases kind <;> decide

theorem scan_read :
    Scan.of read = Scan.refuse (fun next => !starts next) .document
      (Scan.choose (· = some (.name "fragment"))
        (do
          let fragment ← Scan.of Fragment.read
          pure (.fragment fragment))
        (do
          let operation ← Scan.of Operation.read
          pure (.operation operation))) := by
  funext tokens
  rcases tokens with _ | ⟨next, rest⟩
  · rfl
  · rw [Scan.of, read, Scan.refuse, Scan.choose]
    by_cases fragment : next = .name "fragment"
    · subst fragment
      simp only [starts, List.head?_cons, decide_true, Bool.true_or, Bool.not_true,
        Bool.false_eq_true, if_true, if_false]
      exact Scan.plain_bind rfl fun _ => rfl
    · by_cases operation : startsOperation next
      · simp only [fragment, operation, starts, List.head?_cons, Option.some.injEq, decide_false,
          Option.any_some, Bool.or_true, Bool.not_true, Bool.false_eq_true, if_true, if_false]
        exact Scan.plain_bind rfl fun _ => rfl
      · simp [fragment, operation, starts, Reading.fail, Reading.plain]

theorem predictive_read (bound : Nat) :
    Predictive bound (Scan.of read) Derives (fun next => starts next = true) fun _ => True := by
  have fragment := (Fragment.predictive_read bound).map Definition.fragment
  have operation := (Operation.predictive_read bound).map Definition.operation
  rw [scan_read]
  refine ((fragment.choose operation ?passes ?fails).refuse .document ?admits).congr ?words ?starts
    fun _ => id
  case passes => grind [Ahead]
  case fails => grind [Ahead, → starts_of_operation]
  case admits => grind [Ahead, → starts_of_operation, starts]
  case words =>
    intro word definition
    constructor
    · rintro (⟨_, derived, rfl⟩ | ⟨_, derived, rfl⟩)
      · exact .fragment derived
      · exact .operation derived
    · rintro (derived | derived)
      · exact .inr ⟨_, derived, rfl⟩
      · exact .inl ⟨_, derived, rfl⟩
  case starts => grind [→ starts_of_operation, starts]

end Definition

namespace Document

theorem whole_readDefinitions :
    Scan.whole readDefinitions = Scan.choose Option.isSome
      (do
        let first ← Scan.of Definition.read
        let others ← Scan.whole readDefinitions
        pure (first :: others))
      (pure []) := by
  funext tokens
  rw [Scan.whole, readDefinitions.eq_def]
  rcases tokens with _ | ⟨next, rest⟩
  · rfl
  · rw [Scan.choose, List.head?_cons, Option.isSome_some, if_pos rfl]
    exact Scan.map_bind rfl fun first => Scan.map_whole readDefinitions _ first.rest

theorem predictive_readDefinitions (bound : Nat) :
    Predictive bound (Scan.whole readDefinitions) (Many Definition.Derives)
      (fun next => next = none ∨ Definition.starts next = true) (· = none) := by
  refine .many whole_readDefinitions (Definition.predictive_read bound) ?_ ?_ ?_ ?_
  · decide
  · rintro (_ | token) start
    · cases start
    · rfl
  · rintro _ rfl
    rfl
  · exact fun _ _ => trivial

theorem read_eq_map (tokens : List Token) : read tokens = (readDefinitions tokens).map .mk := by
  rw [read]
  cases readDefinitions tokens with
  | error failure => rfl
  | ok definitions => rfl

theorem read_eq_ok_iff {tokens : List Token} {document : Document} :
    read tokens = .ok document ↔ Derives tokens document := by
  have exact : readDefinitions tokens = .ok document.definitions ↔ Derives tokens document :=
    Recognizes.whole_iff fun bound => (predictive_readDefinitions bound).toRecognizes
  obtain ⟨given⟩ := document
  rw [← exact, read_eq_map]
  cases readDefinitions tokens with
  | error failure => simp [Except.map]
  | ok definitions => simp [Except.map]

/-- Where reading fails, the tokens before that place begin a sequence that is read. Reading fails
in the same way however the sequence goes on after the next token. -/
theorem prompt_read {tokens : List Token} {failure : Failure NodeKind}
    (rejected : read tokens = .error failure) :
    ∃ word, tokens = word ++ failure.rest ∧ (∃ more document, read (word ++ more) = .ok document) ∧
      ∀ other, other.head? = failure.rest.head? →
        read (word ++ other) = .error ⟨failure.cause, other⟩ := by
  have error : readDefinitions tokens = .error failure := by
    rw [read_eq_map] at rejected
    cases first : readDefinitions tokens with
    | error given =>
        rw [first] at rejected
        cases rejected
        rfl
    | ok definitions =>
        rw [first] at rejected
        cases rejected
  obtain ⟨word, split, ⟨more, definitions, ok⟩, same⟩ :=
    Predictive.whole_error predictive_readDefinitions error
  refine ⟨word, split, ⟨more, ⟨definitions⟩, ?_⟩, fun other head => ?_⟩
  · rw [read_eq_map, ok, Except.map]
  · rw [read_eq_map, same other head, Except.map]

end Document

end QueryCheck
