import QueryCheck.Proofs.Reading.Documents

/-!
# Reading documents comes to an end

The readers of documents are written once more, with nothing that says why they should end. Every
turn of a loop is a call, and so is every reading of what is nested in a value, a type or a
selection set. An attempt at reading has no outcome if it makes calls forever.

It always has one. Whatever is read in a turn of a loop takes a token, and so does what comes
before a nested call. So a call makes only calls with fewer tokens, and its outcome is that of the
reader.
-/

namespace QueryCheck

/-- A reader that may go on forever, and then has no outcome. -/
abbrev Attempt (ε : Type) : Type → Type :=
  StateT (List Token) (ExceptT (Failure ε) Option)

/-! ## Scans that take tokens -/

namespace Scan

variable {ε α : Type} {scan : Scan ε α}

/-- What is left is no more than there was. -/
def Keeps (scan : Scan ε α) : Prop :=
  ∀ tokens value rest, scan tokens = .ok (value, rest) → rest.length ≤ tokens.length

def Shrinks (scan : Scan ε α) : Prop :=
  ∀ tokens value rest, scan tokens = .ok (value, rest) → rest.length < tokens.length

/-- A success takes at least one token off the front, and there is none at the end. -/
structure Consumes (scan : Scan ε α) : Prop where
  takes : ∀ {tokens value rest}, scan tokens = .ok (value, rest) →
    ∃ used, used ≠ [] ∧ tokens = used ++ rest
  fails : ∃ failure, scan [] = .error failure

theorem Shrinks.keeps (shrinks : scan.Shrinks) : scan.Keeps :=
  fun tokens value rest ok => Nat.le_of_lt (shrinks tokens value rest ok)

theorem rest_lt_of_plain {bound : Nat} {reading : Reading ε α bound} {value : α}
    {rest : List Token} (ok : reading.plain = .ok (value, rest)) : rest.length < bound := by
  cases reading with
  | error failure => cases ok
  | ok parsed =>
      cases ok
      exact parsed.rest_lt

theorem keeps_of (read : (tokens : List Token) → Reading ε α (tokens.length + 1)) :
    (Scan.of read).Keeps :=
  fun _ _ _ ok => Nat.le_of_lt_succ (rest_lt_of_plain ok)

theorem shrinks_of (read : (tokens : List Token) → Reading ε α tokens.length) :
    (Scan.of read).Shrinks :=
  fun _ _ _ ok => rest_lt_of_plain ok

theorem shrinks_take (value? : Token → Option α) (cause : Option Token → ε) :
    (take value? cause).Shrinks := by
  intro tokens value rest ok
  obtain ⟨token, rfl, -⟩ := take_eq_ok.mp ok
  exact Nat.lt_succ_self _

theorem shrinks_exactly (token : Token) (cause : ε) : (exactly token cause).Shrinks :=
  shrinks_take _ _

theorem shrinks_name (cause : ε) : (name cause).Shrinks :=
  shrinks_take _ _

/-- What recognizes a language without an empty word takes a token. -/
theorem consumes_of_recognizes {language : Language α} {starts follows : Option Token → Prop}
    (recognizes : ∀ bound, Recognizes bound scan language starts follows)
    (nonempty : ¬starts none) : scan.Consumes where
  takes {tokens value rest} ok := by
    obtain ⟨word, split, derived⟩ := (recognizes _).sound (Nat.lt_succ_self _) ok
    refine ⟨word, ?_, split⟩
    rintro rfl
    exact nonempty ((recognizes 0).start derived)
  fails := by
    cases outcome : scan [] with
    | error failure => exact ⟨failure, rfl⟩
    | ok parsed =>
        obtain ⟨word, split, derived⟩ := (recognizes _).sound (Nat.lt_succ_self _) outcome
        obtain ⟨rfl, -⟩ := List.append_eq_nil_iff.mp split.symm
        exact absurd ((recognizes 0).start derived) nonempty

theorem consumes_of_predictive {language : Language α} {starts follows : Option Token → Prop}
    (predictive : ∀ bound, Predictive bound scan language starts follows)
    (nonempty : ¬starts none) : scan.Consumes :=
  consumes_of_recognizes (fun bound => (predictive bound).toRecognizes) nonempty

end Scan

/-! ## Attempts -/

namespace Attempt

variable {ε α β : Type}

def of (scan : Scan ε α) : Attempt ε α :=
  fun tokens => some (scan tokens)

def take (value? : Token → Option α) (cause : Option Token → ε) : Attempt ε α :=
  of (Scan.take value? cause)

def exactly (token : Token) (cause : ε) : Attempt ε Unit :=
  of (Scan.exactly token cause)

def name (cause : ε) : Attempt ε String :=
  of (Scan.name cause)

def fail (cause : ε) : Attempt ε α :=
  fun tokens => some (.error ⟨cause, tokens⟩)

def choose (test : Option Token → Bool) (yes no : Attempt ε α) : Attempt ε α :=
  fun tokens => if test tokens.head? then yes tokens else no tokens

def refuse (test : Option Token → Bool) (cause : ε) (attempt : Attempt ε α) : Attempt ε α :=
  choose test (fail cause) attempt

def failIf (condition : Bool) (cause : ε) (attempt : Attempt ε α) : Attempt ε α :=
  if condition then fail cause else attempt

def optional (token : Token) (cause : ε) (attempt : Attempt ε α) (default : α) : Attempt ε α :=
  choose (· = some token)
    (do
      exactly token cause
      attempt)
    (pure default)

/-- A turn of a loop up to a closing token, and the turns after it. -/
def manyUntil (close : Token) (cause : ε) (item : Attempt ε α) (again : Attempt ε (List α)) :
    Attempt ε (List α) :=
  choose (· = some close)
    (do
      exactly close cause
      pure [])
    (do
      let first ← item
      let others ← again
      pure (first :: others))

/-- A turn of a loop that goes on as long as the next token passes a test, and the turns after
it. -/
def many (test : Option Token → Bool) (item : Attempt ε α) (again : Attempt ε (List α)) :
    Attempt ε (List α) :=
  choose test
    (do
      let first ← item
      let others ← again
      pure (first :: others))
    (pure [])

/-- For fewer tokens than a bound an attempt ends, with the outcome of a scan. -/
def EndsAs (bound : Nat) (attempt : Attempt ε α) (scan : Scan ε α) : Prop :=
  ∀ tokens : List Token, tokens.length < bound → attempt tokens = some (scan tokens)

namespace EndsAs

variable {bound : Nat} {attempt : Attempt ε α} {scan : Scan ε α}

theorem pred (ends : EndsAs (bound + 1) attempt scan) : EndsAs bound attempt scan :=
  fun tokens lt => ends tokens (Nat.lt_succ_of_lt lt)

theorem of (scan : Scan ε α) : EndsAs bound (Attempt.of scan) scan :=
  fun _ _ => rfl

theorem pure (value : α) : EndsAs bound (Pure.pure value : Attempt ε α) (Pure.pure value) :=
  fun _ _ => rfl

/-- One attempt after another, where the second ends for all tokens that the first leaves. -/
theorem bindOf {next : α → Attempt ε β} {after : α → Scan ε β}
    (first : EndsAs bound attempt scan)
    (others : ∀ {tokens value rest}, tokens.length < bound → scan tokens = .ok (value, rest) →
      next value rest = some (after value rest)) :
    EndsAs bound (attempt >>= next) (scan >>= after) := by
  intro tokens lt
  have ended := first tokens lt
  show (attempt tokens).bind _ = _
  cases outcome : scan tokens with
  | error failure =>
      rw [ended, outcome, Scan.bind_error outcome]
      rfl
  | ok parsed =>
      obtain ⟨value, rest⟩ := parsed
      rw [ended, outcome, Scan.bind_ok outcome]
      exact others lt outcome

theorem bind {next : α → Attempt ε β} {after : α → Scan ε β} (first : EndsAs bound attempt scan)
    (keeps : scan.Keeps) (others : ∀ value, EndsAs bound (next value) (after value)) :
    EndsAs bound (attempt >>= next) (scan >>= after) :=
  first.bindOf fun lt ok => others _ _ (Nat.lt_of_le_of_lt (keeps _ _ _ ok) lt)

/-- What comes after a token that was taken is attempted with fewer tokens. -/
theorem bindLess {next : α → Attempt ε β} {after : α → Scan ε β}
    (first : EndsAs (bound + 1) attempt scan) (shrinks : scan.Shrinks)
    (others : ∀ value, EndsAs bound (next value) (after value)) :
    EndsAs (bound + 1) (attempt >>= next) (scan >>= after) :=
  first.bindOf fun lt ok =>
    others _ _ (Nat.lt_of_lt_of_le (shrinks _ _ _ ok) (Nat.le_of_lt_succ lt))

theorem map {f : α → β} (ends : EndsAs bound attempt scan) :
    EndsAs bound (attempt >>= fun value => Pure.pure (f value))
      (scan >>= fun value => Pure.pure (f value)) :=
  ends.bindOf fun _ _ => rfl

theorem choose {test : Option Token → Bool} {yes no : Attempt ε α} {first second : Scan ε α}
    (taken : EndsAs bound yes first) (other : EndsAs bound no second) :
    EndsAs bound (Attempt.choose test yes no) (Scan.choose test first second) := by
  intro tokens lt
  rw [Attempt.choose, Scan.choose]
  split
  · exact taken tokens lt
  · exact other tokens lt

theorem refuse {test : Option Token → Bool} {cause : ε} (ends : EndsAs bound attempt scan) :
    EndsAs bound (Attempt.refuse test cause attempt) (Scan.refuse test cause scan) := by
  intro tokens lt
  rw [Attempt.refuse, Attempt.choose, Scan.refuse]
  split
  · rfl
  · exact ends tokens lt

theorem failIf {condition : Bool} {cause : ε} (ends : EndsAs bound attempt scan) :
    EndsAs bound (Attempt.failIf condition cause attempt) (Scan.failIf condition cause scan) := by
  intro tokens lt
  rw [Attempt.failIf, Scan.failIf]
  split
  · rfl
  · exact ends tokens lt

theorem optional {token : Token} {cause : ε} {default : α} (ends : EndsAs bound attempt scan) :
    EndsAs (bound + 1) (Attempt.optional token cause attempt default)
      (Scan.optional token cause scan default) :=
  .choose ((of _).bindLess (Scan.shrinks_exactly _ _) fun _ => ends) (.pure default)

theorem manyUntil {close : Token} {cause : ε} {again : Attempt ε (List α)}
    {item : (left : List Token) → Reading ε α left.length}
    (first : EndsAs (bound + 1) attempt (Scan.of item))
    (others : EndsAs bound again (Scan.manyUntil close item)) :
    EndsAs (bound + 1) (Attempt.manyUntil close cause attempt again)
      (Scan.manyUntil close item) := by
  rw [Scan.manyUntil_eq close cause]
  exact .choose (of _).map
    (first.bindLess (Scan.shrinks_of item) fun value => others.map)

theorem many {test : Option Token → Bool} {again : Attempt ε (List α)} {loop : Scan ε (List α)}
    (equation : loop = Scan.choose test
      (do
        let first ← scan
        let others ← loop
        Pure.pure (first :: others))
      (Pure.pure []))
    (first : EndsAs (bound + 1) attempt scan) (shrinks : scan.Shrinks)
    (others : EndsAs bound again loop) :
    EndsAs (bound + 1) (Attempt.many test attempt again) loop := by
  rw [equation]
  exact .choose (first.bindLess shrinks fun value => others.map) (.pure [])

end EndsAs

/-! ## Calls -/

variable {Call : Type → Type}

abbrev Calling (Call : Type → Type) (ε : Type) : Type 1 :=
  (α : Type) → Call α → Attempt ε α

/-- For fewer tokens than a bound all calls end, with the outcomes of readers. -/
def Answers (bound : Nat) (ask : Calling Call ε) (read : (α : Type) → Call α → Scan ε α) : Prop :=
  ∀ (α : Type) (call : Call α), EndsAs bound (ask α call) (read α call)

end Attempt

/-! ## Documents -/

namespace TypeRef

def attempt {ε : Type} (start close : ε) (again : Attempt ε TypeRef) : Attempt ε TypeRef :=
  Attempt.choose (· = some .bracketOpen)
    (do
      Attempt.exactly .bracketOpen start
      let item ← again
      Attempt.exactly .bracketClose close
      Attempt.of (scanMark start (.list item)))
    (do
      let name ← Attempt.name start
      Attempt.of (scanMark start (.named name)))

theorem endsAs_attempt {ε : Type} {start close : ε} {bound : Nat} {again : Attempt ε TypeRef}
    {read : Scan ε TypeRef}
    (equation : read = Scan.choose (· = some .bracketOpen)
      (do
        Scan.exactly .bracketOpen start
        let item ← read
        Scan.exactly .bracketClose close
        scanMark start (.list item))
      (do
        let name ← Scan.name start
        scanMark start (.named name)))
    (keeps : read.Keeps) (ends : Attempt.EndsAs bound again read) :
    Attempt.EndsAs (bound + 1) (attempt start close again) read := by
  rw [equation]
  refine .choose ?_ ?_
  · refine (Attempt.EndsAs.of _).bindLess (Scan.shrinks_exactly _ _) fun _ => ?_
    refine ends.bind keeps fun item => ?_
    exact (Attempt.EndsAs.of _).bind (Scan.shrinks_exactly _ _).keeps fun _ => .of _
  · exact (Attempt.EndsAs.of _).bind (Scan.shrinks_name _).keeps fun _ => .of _

end TypeRef

theorem Operation.keeps_scanName : scanName.Keeps := by
  intro tokens name? rest ok
  rw [← plain_readName] at ok
  exact Nat.le_of_lt_succ (Scan.rest_lt_of_plain ok)

namespace Document

/-- The loops in documents, and what is nested in itself. -/
inductive Call : Type → Type
  | typeRef : Call TypeRef
  | listItems (constant : Bool) : Call (List Value)
  | objectFields (constant : Bool) : Call (List (String × Value))
  | arguments : Call (List Argument)
  | directives : Call (List Directive)
  | selections : Call (List Selection)
  | variableDefinitions : Call (List VariableDefinition)
  | definitions : Call (List Definition)

def Call.read : (α : Type) → Call α → Scan NodeKind α
  | _, typeRef => Scan.of TypeRef.read
  | _, listItems constant => Scan.manyUntil .bracketClose (Value.read constant)
  | _, objectFields constant =>
      Scan.manyUntil .braceClose (Value.readNamed .objectField constant)
  | _, arguments => Scan.manyUntil .parenClose Argument.read
  | _, directives => Scan.of Directive.readAll
  | _, selections => Scan.manyUntil .braceClose Selection.read
  | _, variableDefinitions => Scan.manyUntil .parenClose VariableDefinition.read
  | _, definitions => Scan.whole readDefinitions

section Attempts

variable (ask : Attempt.Calling Call NodeKind)

-- Each attempt follows the reader of the same thing, with calls in place of loops.

def attemptValue (constant : Bool) : Attempt NodeKind Value :=
  Attempt.choose (· = some .bracketOpen)
    (do
      Attempt.exactly .bracketOpen .value
      let items ← ask _ (.listItems constant)
      pure (.list items))
    (Attempt.choose (· = some .braceOpen)
      (do
        Attempt.exactly .braceOpen .value
        let fields ← ask _ (.objectFields constant)
        pure (.object fields))
      (Attempt.take (Value.leaf? constant) (Value.leafCause constant)))

def attemptNamed (kind : NodeKind) (constant : Bool) : Attempt NodeKind (String × Value) := do
  let name ← Attempt.name kind
  Attempt.exactly .colon kind
  let value ← attemptValue ask constant
  pure (name, value)

def attemptArgument : Attempt NodeKind Argument := do
  let named ← attemptNamed ask .argument false
  pure ⟨named.1, named.2⟩

def attemptArguments : Attempt NodeKind (List Argument) :=
  Attempt.optional .parenOpen .arguments (ask _ .arguments) []

def attemptDirective : Attempt NodeKind Directive := do
  let name ← Attempt.take Token.directiveName? fun _ => .directive
  let arguments ← attemptArguments ask
  pure ⟨name, arguments⟩

def attemptRequired (kind : NodeKind) : Attempt NodeKind (List Selection) := do
  Attempt.exactly .braceOpen kind
  Attempt.refuse (· = some .braceClose) .selectionSet (ask _ .selections)

def attemptField : Attempt NodeKind Field := do
  let name ← Attempt.of (Scan.of Field.readName)
  let arguments ← attemptArguments ask
  let directives ← ask _ .directives
  let selections ← Attempt.choose (· = some .braceOpen) (attemptRequired ask .selectionSet)
    (pure [])
  pure ⟨name.1, name.2, arguments, directives, selections⟩

def attemptInline : Attempt NodeKind InlineFragment := do
  let condition ← Attempt.of (Scan.of InlineFragment.readCondition)
  let directives ← ask _ .directives
  let selections ← attemptRequired ask .inlineFragment
  pure ⟨condition, directives, selections⟩

def attemptSpread : Attempt NodeKind FragmentSpread := do
  let name ← Attempt.take FragmentSpread.name? fun _ => .selection
  let directives ← ask _ .directives
  pure ⟨name, directives⟩

def attemptSelection : Attempt NodeKind Selection :=
  Attempt.choose (fun next => (next.bind Token.name?).isSome)
    (do
      let field ← attemptField ask
      pure (.field field))
    (do
      Attempt.exactly .ellipsis .selection
      Attempt.choose Selection.startsInline
        (do
          let fragment ← attemptInline ask
          pure (.inline fragment))
        (do
          let spread ← attemptSpread ask
          pure (.spread spread)))

def attemptVariableDefinition : Attempt NodeKind VariableDefinition := do
  let name ← Attempt.take Token.variableName? fun _ => .variableUse
  Attempt.exactly .colon .variableDefinition
  let type ← ask _ .typeRef
  let default ← Attempt.optional .equal .variableDefinition (attemptValue ask true) .null
  let directives ← ask _ .directives
  pure ⟨name, type, default, directives⟩

def attemptVariableDefinitions : Attempt NodeKind (List VariableDefinition) :=
  Attempt.optional .parenOpen .variableDefinitions
    (Attempt.refuse (· = some .parenClose) .variableDefinitions (ask _ .variableDefinitions)) []

def attemptFragment : Attempt NodeKind Fragment := do
  Attempt.exactly (.name "fragment") .fragmentDefinition
  let name ← Attempt.name .namedType
  Attempt.exactly (.name "on") .fragmentDefinition
  let type ← Attempt.name .namedType
  let directives ← ask _ .directives
  let selections ← attemptRequired ask .fragmentDefinition
  pure ⟨name, type, directives, selections⟩

def attemptOperation : Attempt NodeKind Operation :=
  Attempt.choose (· = some .braceOpen)
    (do
      let selections ← attemptRequired ask .selectionSet
      pure ⟨.query, none, [], [], selections⟩)
    (do
      let kind ← Attempt.take (Token.word? OperationKind.ofKeyword?) fun _ => .operationDefinition
      let name? ← Attempt.of Operation.scanName
      let definitions ← attemptVariableDefinitions ask
      let directives ← ask _ .directives
      let selections ← attemptRequired ask .operationDefinition
      pure ⟨kind, name?, definitions, directives, selections⟩)

def attemptDefinition : Attempt NodeKind Definition :=
  Attempt.refuse (fun next => !Definition.starts next) .document
    (Attempt.choose (· = some (.name "fragment"))
      (do
        let fragment ← attemptFragment ask
        pure (.fragment fragment))
      (do
        let operation ← attemptOperation ask
        pure (.operation operation)))

def Call.perform : Attempt.Calling Call NodeKind
  | _, typeRef => TypeRef.attempt .typeRef .listType (ask _ typeRef)
  | _, listItems constant =>
      Attempt.manyUntil .bracketClose .value (attemptValue ask constant)
        (ask _ (listItems constant))
  | _, objectFields constant =>
      Attempt.manyUntil .braceClose .value (attemptNamed ask .objectField constant)
        (ask _ (objectFields constant))
  | _, arguments =>
      Attempt.manyUntil .parenClose .arguments (attemptArgument ask) (ask _ arguments)
  | _, directives =>
      Attempt.many (fun next => (next.bind Token.directiveName?).isSome) (attemptDirective ask)
        (ask _ directives)
  | _, selections =>
      Attempt.manyUntil .braceClose .selectionSet (attemptSelection ask) (ask _ selections)
  | _, variableDefinitions =>
      Attempt.manyUntil .parenClose .variableDefinitions (attemptVariableDefinition ask)
        (ask _ variableDefinitions)
  | _, definitions => Attempt.many Option.isSome (attemptDefinition ask) (ask _ definitions)

end Attempts

section Ends

open Attempt (Answers EndsAs)
open Scan (keeps_of shrinks_exactly shrinks_name shrinks_of shrinks_take)

variable {ask : Attempt.Calling Call NodeKind} {bound : Nat}
  (answers : Answers bound ask Call.read)

include answers

theorem endsAs_value (constant : Bool) :
    EndsAs (bound + 1) (attemptValue ask constant) (Scan.of (Value.read constant)) := by
  rw [Value.scan_read]
  refine .choose ?_ (.choose ?_ (.of _))
  · refine (EndsAs.of _).bindLess (shrinks_exactly _ _) fun _ => ?_
    exact (answers _ (.listItems constant)).map
  · refine (EndsAs.of _).bindLess (shrinks_exactly _ _) fun _ => ?_
    exact (answers _ (.objectFields constant)).map

theorem endsAs_named (kind : NodeKind) (constant : Bool) :
    EndsAs (bound + 1) (attemptNamed ask kind constant)
      (Scan.of (Value.readNamed kind constant)) := by
  rw [Value.scan_readNamed]
  refine (EndsAs.of _).bindLess (shrinks_name _) fun name => ?_
  refine (EndsAs.of _).bind (shrinks_exactly _ _).keeps fun _ => ?_
  exact (endsAs_value answers constant).pred.map

theorem endsAs_argument :
    EndsAs (bound + 1) (attemptArgument ask) (Scan.of Argument.read) := by
  rw [Argument.scan_read]
  exact (endsAs_named answers .argument false).map

theorem endsAs_arguments :
    EndsAs (bound + 1) (attemptArguments ask) (Scan.of Argument.readAll) := by
  rw [Argument.scan_readAll]
  exact .optional (answers _ .arguments)

theorem endsAs_directive :
    EndsAs (bound + 1) (attemptDirective ask) (Scan.of Directive.read) := by
  rw [Directive.scan_read]
  refine (EndsAs.of _).bindLess (shrinks_take _ _) fun name => ?_
  exact (endsAs_arguments answers).pred.map

theorem endsAs_required (kind : NodeKind) :
    EndsAs (bound + 1) (attemptRequired ask kind) (Scan.of (Selection.readRequired kind)) := by
  rw [Selection.scan_readRequired]
  exact (EndsAs.of _).bindLess (shrinks_exactly _ _) fun _ => .refuse (answers _ .selections)

theorem endsAs_field : EndsAs (bound + 1) (attemptField ask) (Scan.of Field.read) := by
  have set : EndsAs bound
      (Attempt.choose (· = some .braceOpen) (attemptRequired ask .selectionSet) (pure []))
      (Scan.of Selection.readOptional) := by
    rw [Selection.scan_readOptional]
    exact .choose (endsAs_required answers .selectionSet).pred (.pure [])
  rw [Field.scan_read]
  refine (EndsAs.of _).bindLess (shrinks_of _) fun name => ?_
  refine (endsAs_arguments answers).pred.bind (keeps_of _) fun arguments => ?_
  refine (answers _ .directives).bind (keeps_of _) fun directives => ?_
  exact set.map

theorem endsAs_inline : EndsAs bound (attemptInline ask) InlineFragment.scanBody := by
  unfold InlineFragment.scanBody InlineFragment.scanHead
  simp only [bind_assoc, pure_bind]
  refine (EndsAs.of _).bind (keeps_of _) fun condition => ?_
  refine (answers _ .directives).bind (keeps_of _) fun directives => ?_
  exact (endsAs_required answers .inlineFragment).pred.map

theorem endsAs_spread : EndsAs bound (attemptSpread ask) FragmentSpread.scanBody := by
  refine (EndsAs.of _).bind (shrinks_take _ _).keeps fun name => ?_
  exact (answers _ .directives).map

theorem endsAs_selection :
    EndsAs (bound + 1) (attemptSelection ask) (Scan.of Selection.read) := by
  rw [Selection.scan_read]
  refine .choose (endsAs_field answers).map ?_
  refine (EndsAs.of _).bindLess (shrinks_exactly _ _) fun _ => ?_
  exact .choose (endsAs_inline answers).map (endsAs_spread answers).map

theorem endsAs_variableDefinition :
    EndsAs (bound + 1) (attemptVariableDefinition ask) (Scan.of VariableDefinition.read) := by
  have value : EndsAs bound
      (Attempt.optional .equal .variableDefinition (attemptValue ask true) .null)
      (Scan.of VariableDefinition.readDefault) := by
    rw [VariableDefinition.scan_readDefault]
    exact (EndsAs.optional (endsAs_value answers true).pred).pred
  rw [VariableDefinition.scan_read]
  refine (EndsAs.of _).bindLess (shrinks_take _ _) fun name => ?_
  refine (EndsAs.of _).bind (shrinks_exactly _ _).keeps fun _ => ?_
  refine (answers _ .typeRef).bind (shrinks_of _).keeps fun type => ?_
  refine value.bind (keeps_of _) fun default => ?_
  exact (answers _ .directives).map

theorem endsAs_variableDefinitions :
    EndsAs (bound + 1) (attemptVariableDefinitions ask) (Scan.of VariableDefinition.readAll) := by
  rw [VariableDefinition.scan_readAll]
  exact .optional (.refuse (answers _ .variableDefinitions))

theorem endsAs_fragment : EndsAs (bound + 1) (attemptFragment ask) (Scan.of Fragment.read) := by
  rw [Fragment.scan_read]
  refine (EndsAs.of _).bindLess (shrinks_exactly _ _) fun _ => ?_
  refine (EndsAs.of _).bind (shrinks_name _).keeps fun name => ?_
  refine (EndsAs.of _).bind (shrinks_exactly _ _).keeps fun _ => ?_
  refine (EndsAs.of _).bind (shrinks_name _).keeps fun type => ?_
  refine (answers _ .directives).bind (keeps_of _) fun directives => ?_
  exact (endsAs_required answers .fragmentDefinition).pred.map

theorem endsAs_operation :
    EndsAs (bound + 1) (attemptOperation ask) (Scan.of Operation.read) := by
  rw [Operation.scan_read, Operation.scan_readFull]
  refine .choose (endsAs_required answers .selectionSet).map ?_
  refine (EndsAs.of _).bindLess (shrinks_take _ _) fun kind => ?_
  refine (EndsAs.of _).bind Operation.keeps_scanName fun name? => ?_
  refine (endsAs_variableDefinitions answers).pred.bind (keeps_of _) fun definitions => ?_
  refine (answers _ .directives).bind (keeps_of _) fun directives => ?_
  exact (endsAs_required answers .operationDefinition).pred.map

theorem endsAs_definition :
    EndsAs (bound + 1) (attemptDefinition ask) (Scan.of Definition.read) := by
  rw [Definition.scan_read]
  exact .refuse (.choose (endsAs_fragment answers).map (endsAs_operation answers).map)

theorem answers_perform : Answers (bound + 1) (Call.perform ask) Call.read := by
  intro α call
  cases call with
  | typeRef =>
      exact TypeRef.endsAs_attempt TypeRef.scan_read (shrinks_of _).keeps (answers _ .typeRef)
  | listItems constant =>
      exact .manyUntil (endsAs_value answers constant) (answers _ (.listItems constant))
  | objectFields constant =>
      exact .manyUntil (endsAs_named answers .objectField constant)
        (answers _ (.objectFields constant))
  | arguments => exact .manyUntil (endsAs_argument answers) (answers _ .arguments)
  | directives =>
      exact .many Directive.scan_readAll (endsAs_directive answers) (shrinks_of _)
        (answers _ .directives)
  | selections => exact .manyUntil (endsAs_selection answers) (answers _ .selections)
  | variableDefinitions =>
      exact .manyUntil (endsAs_variableDefinition answers) (answers _ .variableDefinitions)
  | definitions =>
      exact .many whole_readDefinitions (endsAs_definition answers) (shrinks_of _)
        (answers _ .definitions)

end Ends

/-- Calls inside of each other up to a given depth. A deeper call has no outcome. -/
def Call.within : Nat → Attempt.Calling Call NodeKind
  | 0, _, _, _ => none
  | depth + 1, α, call, tokens => perform (within depth) α call tokens

/-- A depth of more than the number of tokens is enough. -/
theorem answers_within (depth : Nat) : Attempt.Answers depth (Call.within depth) Call.read := by
  induction depth with
  | zero => exact fun _ _ _ lt => absurd lt (Nat.not_lt_zero _)
  | succ depth ih => exact answers_perform ih

def attempt (depth : Nat) (tokens : List Token) : Option (Except (Failure NodeKind) Document) :=
  Option.map (Except.map fun parsed => ⟨parsed.1⟩) (Call.within depth _ .definitions tokens)

theorem attempt_eq {depth : Nat} {tokens : List Token} (lt : tokens.length < depth) :
    attempt depth tokens = some (read tokens) := by
  rw [attempt, answers_within depth _ .definitions tokens lt, read_eq_map]
  show some (Except.map _ (Except.map _ (readDefinitions tokens))) = _
  cases readDefinitions tokens with
  | error failure => rfl
  | ok definitions => rfl

inductive LoopItem : (α : Type) → Scan NodeKind α → Prop
  | listItem (constant : Bool) : LoopItem _ (Scan.of (Value.read constant))
  | objectField (constant : Bool) : LoopItem _ (Scan.of (Value.readNamed .objectField constant))
  | argument : LoopItem _ (Scan.of Argument.read)
  | directive : LoopItem _ (Scan.of Directive.read)
  | selection : LoopItem _ (Scan.of Selection.read)
  | variableDefinition : LoopItem _ (Scan.of VariableDefinition.read)
  | definition : LoopItem _ (Scan.of Definition.read)

theorem LoopItem.consumes {α : Type} {scan : Scan NodeKind α} (item : LoopItem α scan) :
    scan.Consumes := by
  cases item with
  | listItem constant =>
      exact Scan.consumes_of_predictive (Value.predictive_read · constant) (by simp [Value.Starts])
  | objectField constant =>
      exact Scan.consumes_of_predictive (fun bound =>
        Value.predictive_readNamed .objectField (Value.predictive_read bound constant)) (by simp)
  | argument => exact Scan.consumes_of_predictive Argument.predictive_read (by simp)
  | directive => exact Scan.consumes_of_predictive Directive.predictive_read (by simp)
  | selection =>
      exact Scan.consumes_of_predictive Selection.predictive_read (by simp [Selection.Starts])
  | variableDefinition =>
      exact Scan.consumes_of_predictive VariableDefinition.predictive_read (by simp)
  | definition => exact Scan.consumes_of_predictive Definition.predictive_read (by decide)

end Document

end QueryCheck
