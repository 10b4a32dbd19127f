import QueryCheck.Proofs.Reading.Phrases

/-!
# Reading selections

The readers of selections are predictive. They use each other, so all of them are shown to
be so by one induction on the number of tokens: each needs the reader of selections for
fewer tokens only.
-/

namespace QueryCheck

open QueryCheck.Language (Many)

namespace Field

theorem scan_readName :
    Scan.of readName = (do
      let first ← Scan.name .field
      Scan.choose (· = some .colon)
        (do
          Scan.exactly .colon .field
          let name ← Scan.name .field
          pure (some first, name))
        (pure (none, first))) := by
  funext tokens
  refine Scan.plain_bind (Scan.plain_name _ _) fun first => ?_
  split
  next colon accepted =>
    rw [Scan.choose_accepted accepted]
    exact Scan.plain_bind (Scan.plain_name _ _) fun _ => rfl
  next refused =>
    rw [Scan.choose_refused refused]
    rfl

theorem predictive_readName (bound : Nat) :
    Predictive bound (Scan.of readName) NameDerives (fun next => ∃ name, next = some (.name name))
      (· ≠ some .colon) := by
  rw [scan_readName]
  have aliased (first : String) : Predictive bound _ _ _ (· ≠ some .colon) :=
    (((Predictive.name NodeKind.field).map fun name => (some first, name)).after .colon
      .field).narrow _ fun _ _ => trivial
  refine ((Predictive.name _).bind (fun first => (aliased first).choose (.pure (none, first))
    ?passes ?fails) fun _ _ => trivial).congr ?words ?starts fun _ => id
  case passes => grind [Ahead]
  case fails => grind [Ahead]
  case words =>
    intro word value
    constructor
    · rintro ⟨_, _, first, rfl, rfl, ⟨_, rfl, name, rfl, rfl⟩ | ⟨rfl, rfl⟩⟩
      · exact .aliased first name
      · exact .plain first
    · rintro (name | ⟨other, name⟩)
      · exact ⟨_, _, name, rfl, rfl, .inr ⟨rfl, rfl⟩⟩
      · exact ⟨_, _, other, rfl, rfl, .inl ⟨_, rfl, name, rfl, rfl⟩⟩
  case starts => grind [Ahead]

theorem scan_read :
    Scan.of read = (do
      let name ← Scan.of readName
      let arguments ← Scan.of Argument.readAll
      let directives ← Scan.of Directive.readAll
      let selections ← Scan.of Selection.readOptional
      pure ⟨name.1, name.2, arguments, directives, selections⟩) := by
  have head : Scan.of readHead = (do
      let name ← Scan.of readName
      let arguments ← Scan.of Argument.readAll
      let directives ← Scan.of Directive.readAll
      pure ⟨name.1, name.2, arguments, directives, []⟩) := by
    funext tokens
    refine Scan.plain_bind rfl fun name => ?_
    refine Scan.plain_bind rfl fun arguments => ?_
    exact Scan.plain_bind rfl fun _ => rfl
  have whole : Scan.of read = (do
      let head ← Scan.of readHead
      let selections ← Scan.of Selection.readOptional
      pure ⟨head.alias?, head.name, head.arguments, head.directives, selections⟩) := by
    funext tokens
    rw [Scan.of, read]
    refine Scan.plain_bind rfl fun head => ?_
    exact Scan.plain_bind rfl fun _ => rfl
  rw [whole, head]
  simp only [bind_assoc, pure_bind]

end Field

namespace InlineFragment

theorem scan_readCondition :
    Scan.of readCondition = Scan.choose (· = some (.name "on"))
      (do
        Scan.exactly (.name "on") .inlineFragment
        let type ← Scan.name .namedType
        pure (some type))
      (pure none) := by
  funext tokens
  rw [Scan.of, readCondition]
  split
  next on accepted =>
    rw [Scan.choose_accepted accepted]
    exact Scan.plain_bind (Scan.plain_name _ _) fun _ => rfl
  next refused =>
    rw [Scan.choose_refused refused]
    rfl

theorem predictive_readCondition (bound : Nat) :
    Predictive bound (Scan.of readCondition) ConditionDerives
      (fun next => next = some (.name "on") ∨ next = none) (· ≠ some (.name "on")) := by
  have present : Predictive bound _ _ _ (· ≠ some (.name "on")) :=
    (((Predictive.name .namedType).map some).after (.name "on") NodeKind.inlineFragment).narrow _
      fun _ _ => trivial
  rw [scan_readCondition]
  refine (present.choose (.pure none) ?passes ?fails).congr ?words (fun _ => id) fun _ => id
  case passes => grind [Ahead]
  case fails => grind [Ahead]
  case words =>
    intro word value
    constructor
    · rintro (⟨_, rfl, name, rfl, rfl⟩ | ⟨rfl, rfl⟩)
      · exact .present name
      · exact .absent
    · rintro (_ | name)
      · exact .inr ⟨rfl, rfl⟩
      · exact .inl ⟨_, rfl, name, rfl, rfl⟩

def scanHead : Scan NodeKind InlineFragment := do
  let condition ← Scan.of readCondition
  let directives ← Scan.of Directive.readAll
  pure ⟨condition, directives, []⟩

def scanBody : Scan NodeKind InlineFragment := do
  let head ← scanHead
  let selections ← Scan.of (Selection.readRequired .inlineFragment)
  pure ⟨head.typeCondition?, head.directives, selections⟩

/-- Where no dots come next, those of the fragment have been read. -/
theorem plain_read {tokens : List Token} (undotted : tokens.head? ≠ some .ellipsis) :
    (read tokens).plain = scanBody tokens := by
  have dots : (Reading.eat .ellipsis tokens).rest = tokens := by
    cases tokens with
    | nil => rfl
    | cons token rest =>
        have differ : token ≠ .ellipsis := by simpa using undotted
        simp [Reading.eat, Reading.accept?, Reading.nothing, differ]
  have head : (readHead tokens).plain = scanHead tokens := by
    refine Scan.plain_bind (congrArg (Scan.of readCondition) dots) fun condition => ?_
    exact Scan.plain_bind rfl fun _ => rfl
  rw [read]
  refine Scan.plain_bind head fun head => ?_
  exact Scan.plain_bind rfl fun _ => rfl

end InlineFragment

namespace FragmentSpread

/-- The name of a token if a fragment of that name can be spread. -/
def name? : Token → Option String
  | .name text => if text = "on" then none else some text
  | _ => none

theorem name?_eq_some {token : Token} {text : String} :
    name? token = some text ↔ token = .name text ∧ text ≠ "on" := by
  cases token with
  | name other =>
      by_cases same : other = "on"
      · simp [name?, same, eq_comm]
      · simp [name?, same]
        grind
  | _ => simp [name?]

def scanBody : Scan NodeKind FragmentSpread := do
  let name ← Scan.take name? fun _ => .selection
  let directives ← Scan.of Directive.readAll
  pure ⟨name, directives⟩

/-- Where a name comes next, the dots of the spread have been read. -/
theorem plain_read {text : String} {rest : List Token} (free : text ≠ "on") :
    (read (.name text :: rest)).plain = scanBody (.name text :: rest) := by
  have taken : Scan.take name? (fun _ => NodeKind.selection) (.name text :: rest) =
      .ok (text, rest) := Scan.take_eq_ok.mpr ⟨_, rfl, name?_eq_some.mpr ⟨rfl, free⟩⟩
  rw [scanBody, Scan.bind_ok taken]
  show Reading.plain (ite (text = "on") _ _) = _
  rw [if_neg free]
  exact Scan.plain_bind rfl fun _ => rfl

end FragmentSpread

namespace Selection

def startsInline : Option Token → Bool
  | some (.name text) => text = "on"
  | some (.directiveName _) => true
  | some .braceOpen => true
  | _ => false

theorem scan_read :
    Scan.of read = Scan.choose (fun next => (next.bind Token.name?).isSome)
      (do
        let field ← Scan.of Field.read
        pure (.field field))
      (do
        Scan.exactly .ellipsis .selection
        Scan.choose startsInline
          (do
            let fragment ← InlineFragment.scanBody
            pure (.inline fragment))
          (do
            let spread ← FragmentSpread.scanBody
            pure (.spread spread))) := by
  funext tokens
  rw [Scan.of, read.eq_def]
  rcases tokens with _ | ⟨next, rest⟩
  · rfl
  · cases next with
    | name text => exact Scan.plain_bind rfl fun _ => rfl
    | ellipsis =>
        show Reading.plain _ = (Scan.choose startsInline
          (do
            let fragment ← InlineFragment.scanBody
            pure (.inline fragment))
          (do
            let spread ← FragmentSpread.scanBody
            pure (.spread spread)) : Scan NodeKind Selection) rest
        rcases rest with _ | ⟨after, rest⟩
        · rfl
        · cases after with
          | name text =>
              by_cases on : text = "on"
              · subst on
                exact Scan.plain_bind (InlineFragment.plain_read (by simp)) fun _ => rfl
              · have other : startsInline (some (.name text)) = false := decide_eq_false on
                rw [Scan.choose, List.head?_cons, other]
                simp only [on, if_false]
                exact Scan.plain_bind (FragmentSpread.plain_read on) fun _ => rfl
          | directiveName name =>
              exact Scan.plain_bind (InlineFragment.plain_read (by simp)) fun _ => rfl
          | braceOpen =>
              exact Scan.plain_bind (InlineFragment.plain_read (by simp)) fun _ => rfl
          | _ => rfl
    | _ => rfl

theorem scan_readRequired (kind : NodeKind) :
    Scan.of (readRequired kind) = (do
      Scan.exactly .braceOpen kind
      Scan.refuse (· = some .braceClose) .selectionSet (Scan.manyUntil .braceClose read)) := by
  funext tokens
  rw [Scan.of, readRequired.eq_def]
  rcases tokens with _ | ⟨next, rest⟩
  · rfl
  · cases next with
    | braceOpen =>
        show Reading.plain _ = (Scan.refuse (· = some .braceClose) .selectionSet
          (Scan.manyUntil .braceClose read)) rest
        rcases rest with _ | ⟨after, rest⟩
        · exact Scan.plain_weaken _ _
        · cases after with
          | braceClose => rfl
          | _ => exact Scan.plain_weaken _ _
    | _ => rfl

theorem scan_readOptional :
    Scan.of readOptional = Scan.choose (· = some .braceOpen)
      (Scan.of (readRequired .selectionSet)) (pure []) := by
  funext tokens
  rw [Scan.of, readOptional.eq_def]
  rcases tokens with _ | ⟨next, rest⟩
  · rfl
  · cases next with
    | braceOpen => exact Scan.plain_weaken _ _
    | _ => rfl

def Starts (next : Option Token) : Prop :=
  next = some .ellipsis ∨ ∃ name, next = some (.name name)

def Follows (next : Option Token) : Prop :=
  Directive.Follows next ∧ next ≠ some .colon ∧ next ≠ some .braceOpen

section Step

variable {bound : Nat} (selection : Predictive bound (Scan.of read) Derives Starts Follows)

include selection

theorem predictive_readRequired_succ (kind : NodeKind) :
    Predictive (bound + 1) (Scan.of (readRequired kind)) SetDerives (· = some .braceOpen)
      fun _ => True := by
  have ahead (next : Option Token) (ahead : Starts next ∨ next = some .braceClose) :
      Follows next := by
    grind [Starts, Follows, Directive.Follows]
  have items : Predictive bound (Scan.refuse (· = some .braceClose) .selectionSet
      (Scan.manyUntil .braceClose read)) _ _ _ :=
    selection.someUntil .selectionSet (by simp [Starts]) (by simp [Starts]) ahead
  rw [scan_readRequired]
  refine (items.afterLess .braceOpen kind).congr ?_ (fun _ => id) fun _ => id
  intro word selections
  constructor
  · rintro ⟨_, rfl, ⟨_, rfl, many⟩, some⟩
    exact .intro many some
  · rintro ⟨many, some⟩
    exact ⟨_, rfl, ⟨_, rfl, many⟩, some⟩

theorem predictive_readOptional_succ :
    Predictive (bound + 1) (Scan.of readOptional) OptionalDerives
      (fun next => next = some .braceOpen ∨ next = none) (· ≠ some .braceOpen) := by
  have present := (predictive_readRequired_succ selection .selectionSet).narrow
    (· ≠ some .braceOpen) fun _ _ => trivial
  rw [scan_readOptional]
  refine (present.choose (.pure []) ?passes ?fails).congr ?words (fun _ => id) fun _ => id
  case passes => grind [Ahead]
  case fails => grind [Ahead]
  case words =>
    intro word selections
    constructor
    · rintro (derived | ⟨rfl, rfl⟩)
      · exact .present derived
      · exact .absent
    · rintro (_ | derived)
      · exact .inr ⟨rfl, rfl⟩
      · exact .inl derived

theorem predictive_field_succ :
    Predictive (bound + 1) (Scan.of Field.read) Field.Derives
      (fun next => ∃ name, next = some (.name name)) Follows := by
  have body (name : Option String × String) (arguments : List Argument)
      (directives : List Directive) :=
    ((predictive_readOptional_succ selection).narrow Follows fun _ follow => follow.2.2).map
      fun selections => Field.mk name.1 name.2 arguments directives selections
  rw [Field.scan_read]
  refine ((Field.predictive_readName _).bind (fun name =>
    (Argument.predictive_readAll _).bind (fun arguments =>
      (Directive.predictive_readAll _).bind (fun directives => body name arguments directives)
        ?afterDirectives) ?afterArguments) ?afterName).congr ?words ?starts fun _ => id
  case afterDirectives => grind [Ahead, Follows, Directive.Follows]
  case afterArguments => grind [Ahead, Follows, Directive.Follows]
  case afterName => grind [Ahead, Follows, Directive.Follows]
  case words =>
    intro word field
    constructor
    · rintro ⟨_, _, ⟨_, _⟩, rfl, head, _, _, _, rfl, given, _, _, _, rfl, marks, _, body, rfl⟩
      exact .intro head given marks body
    · rintro ⟨head, given, marks, body⟩
      exact ⟨_, _, _, rfl, head, _, _, _, rfl, given, _, _, _, rfl, marks, _, body, rfl⟩
  case starts => grind [Ahead]

/-- An inline fragment without its dots. -/
theorem predictive_inline_succ :
    Predictive (bound + 1) InlineFragment.scanBody
      (fun word fragment => InlineFragment.Derives (.ellipsis :: word) fragment)
      (fun next => startsInline next = true) fun _ => True := by
  have body (condition : Option String) (directives : List Directive) :=
    (predictive_readRequired_succ selection .inlineFragment).map fun selections =>
      InlineFragment.mk condition directives selections
  unfold InlineFragment.scanBody InlineFragment.scanHead
  simp only [bind_assoc, pure_bind]
  refine ((InlineFragment.predictive_readCondition _).bind (fun condition =>
    (Directive.predictive_readAll _).bind (fun directives => body condition directives)
      ?afterDirectives) ?afterCondition).congr ?words ?starts fun _ => id
  case afterDirectives => grind [Ahead, Directive.Follows]
  case afterCondition => grind [Ahead]
  case words =>
    intro word fragment
    constructor
    · rintro ⟨_, _, _, rfl, condition, _, _, _, rfl, marks, _, body, rfl⟩
      exact .intro condition marks body
    · rintro ⟨condition, marks, body⟩
      exact ⟨_, _, _, rfl, condition, _, _, _, rfl, marks, _, body, rfl⟩
  case starts => grind [Ahead, startsInline]

end Step

/-- A spread without its dots. -/
theorem predictive_spread (bound : Nat) :
    Predictive bound FragmentSpread.scanBody
      (fun word spread => FragmentSpread.Derives (.ellipsis :: word) spread)
      (fun next => ∃ name, next = some (.name name) ∧ name ≠ "on") Directive.Follows := by
  have name : Predictive bound (Scan.take FragmentSpread.name? fun _ => NodeKind.selection) _ _ _ :=
    .take FragmentSpread.name? _ (.name "") rfl
  refine (name.bind (fun name => (Directive.predictive_readAll _).map (FragmentSpread.mk name))
    fun _ _ => trivial).congr ?words ?starts fun _ => id
  case words =>
    intro word spread
    constructor
    · rintro ⟨_, _, name, rfl, ⟨token, rfl, taken⟩, _, marks, rfl⟩
      obtain ⟨rfl, free⟩ := FragmentSpread.name?_eq_some.mp taken
      exact .intro free marks
    · rintro ⟨free, marks⟩
      exact ⟨_, _, _, rfl, ⟨_, rfl, FragmentSpread.name?_eq_some.mpr ⟨rfl, free⟩⟩, _, marks, rfl⟩
  case starts => grind [Ahead, FragmentSpread.name?_eq_some]

theorem Derives.start {word : List Token} {selection : Selection}
    (derived : Derives word selection) : Starts word.head? := by
  cases derived with
  | field derived =>
      cases derived with
      | intro head _ _ _ =>
          cases head with
          | plain => exact .inr ⟨_, rfl⟩
          | aliased => exact .inr ⟨_, rfl⟩
  | spread derived =>
      cases derived
      exact .inl rfl
  | inline derived =>
      cases derived
      exact .inl rfl

/-- A selection is read exactly if a word derives it. -/
theorem predictive_read (bound : Nat) :
    Predictive bound (Scan.of read) Derives Starts Follows := by
  -- Selections inside a selection are in braces, so they have the smaller bound.
  induction bound with
  | zero => exact .zero Derives.start ⟨_, _, .field (.intro (.plain "") .absent .nil .absent)⟩
  | succ bound ih =>
      have field := (predictive_field_succ ih).map Selection.field
      have inline := ((predictive_inline_succ ih).map Selection.inline).narrow Follows
        fun _ _ => trivial
      have spread := ((predictive_spread (bound + 1)).map Selection.spread).narrow Follows
        fun _ follow => follow.1
      rw [scan_read]
      refine (field.choose
        ((inline.choose spread ?inlinePasses ?spreadFails).after .ellipsis .selection)
          ?fieldPasses ?othersFail).congr ?words ?starts fun _ => id
      case inlinePasses => grind [Ahead, startsInline]
      case spreadFails => grind [Ahead, startsInline]
      case fieldPasses => grind [Ahead, Token.name?]
      case othersFail => grind [Ahead, Token.name?]
      case words =>
        intro word selection
        constructor
        · rintro (⟨_, derived, rfl⟩ | ⟨_, rfl, ⟨_, derived, rfl⟩ | ⟨_, derived, rfl⟩⟩)
          · exact .field derived
          · exact .inline derived
          · exact .spread derived
        · rintro (derived | derived | derived)
          · exact .inl ⟨_, derived, rfl⟩
          · cases derived with
            | intro free marks => exact .inr ⟨_, rfl, .inr ⟨_, .intro free marks, rfl⟩⟩
          · cases derived with
            | intro condition marks body =>
                exact .inr ⟨_, rfl, .inl ⟨_, .intro condition marks body, rfl⟩⟩
      case starts => grind [Starts]

end Selection

end QueryCheck
