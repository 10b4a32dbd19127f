import QueryCheck.Proofs.Reading.Halting
import QueryCheck.Proofs.Schema.Texts

/-!
# Reading schema texts comes to an end

The readers of schema texts are attempted as those of documents are. Values and directives in a
schema text are attempted with the calls of documents.

The main result is about both. What is read in a turn of a loop takes a token and fails at the end.
A call makes only calls with fewer tokens. So with as many calls inside of each other as there are
tokens, and one more, every sequence of tokens has an outcome, which is a document, definitions or
a failure.
-/

namespace QueryCheck

namespace Attempt

variable {ε α : Type}

/-- A turn of a loop over items with a token between them, and the turns after it. -/
def separated (separator : Token) (cause : ε) (item : Attempt ε α) (again : Attempt ε (List α)) :
    Attempt ε (List α) := do
  let first ← item
  optional separator cause
    (do
      let others ← again
      pure (first :: others))
    [first]

/-- A turn of a loop up to a closing token over items with names, and the turns after it. -/
def distinctUntil [HasName α] (close : Token) (unclosed : Malformation)
    (repeated : String → Conflict) (item : Attempt SchemaFault α) (before : List α)
    (again : List α → Attempt SchemaFault (List α)) : Attempt SchemaFault (List α) :=
  choose (· = some close)
    (do
      exactly close (.malformed unclosed)
      pure [])
    (refuse (· = none) (.malformed unclosed) (do
      let first ← item
      failIf (Named.contains before (HasName.name first))
        (.conflicting (repeated (HasName.name first))) (do
          let others ← again (before ++ [first])
          pure (first :: others))))

def ofNode (attempt : Attempt NodeKind α) : Attempt SchemaFault α :=
  fun tokens => Option.map (Except.mapError fun failure =>
    ⟨.malformed (.invalidNode failure.cause), failure.rest⟩) (attempt tokens)

namespace EndsAs

variable {bound : Nat}

theorem separated {separator : Token} {cause : ε} {attempt : Attempt ε α}
    {again : Attempt ε (List α)} {scan : Scan ε α} {loop : Scan ε (List α)}
    (equation : loop = do
      let first ← scan
      Scan.optional separator cause
        (do
          let others ← loop
          Pure.pure (first :: others))
        [first])
    (first : EndsAs (bound + 1) attempt scan) (shrinks : scan.Shrinks)
    (others : EndsAs bound again loop) :
    EndsAs (bound + 1) (Attempt.separated separator cause attempt again) loop := by
  rw [equation]
  exact first.bindLess shrinks fun _ => (optional others.map).pred

theorem distinctUntil [HasName α] {close : Token} {unclosed : Malformation}
    {repeated : String → Conflict} {attempt : Attempt SchemaFault α} {before : List α}
    {item : (left : List Token) → Reading SchemaFault α left.length}
    {again : List α → Attempt SchemaFault (List α)}
    (first : EndsAs (bound + 1) attempt (Scan.of item))
    (others : ∀ before, EndsAs bound (again before)
      (Scan.of (Definitions.distinctUntil close unclosed repeated item before))) :
    EndsAs (bound + 1) (Attempt.distinctUntil close unclosed repeated attempt before again)
      (Scan.of (Definitions.distinctUntil close unclosed repeated item before)) := by
  rw [Definitions.scan_distinctUntil]
  refine .choose (of _).map (.refuse ?_)
  exact first.bindLess (Scan.shrinks_of item) fun _ => .failIf (others _).map

theorem ofNode {limit : List Token → Nat} {attempt : Attempt NodeKind α}
    {read : (tokens : List Token) → Reading NodeKind α (limit tokens)}
    (ends : EndsAs bound attempt (Scan.of read)) :
    EndsAs bound (Attempt.ofNode attempt)
      (Scan.of fun tokens => Definitions.ofNode (read tokens)) := by
  intro tokens lt
  rw [Attempt.ofNode, ends tokens lt, Scan.of, Scan.of]
  cases read tokens with
  | error failure => rfl
  | ok parsed => rfl

end EndsAs

end Attempt

namespace Definitions

/-- The loops in schema texts, with what earlier turns have found, and types in types. -/
inductive Call : Type → Type
  | typeRef : Call TypeRef
  | inputValues (close : Token) (before : List InputValueDefinition) :
      Call (List InputValueDefinition)
  | fields (before : List FieldDefinition) : Call (List FieldDefinition)
  | names (separator : Token) (role : NameRole) : Call (List String)
  | enumValues (enum : String) : Call (List String)
  | roots (before : RootNames) : Call RootNames
  | locations (directive : String) : Call (List DirectiveLocation)
  | definitions (found : Definitions) : Call Definitions

def Call.read : (α : Type) → Call α → Scan SchemaFault α
  | _, typeRef => Scan.of readTypeRef
  | _, inputValues close before =>
      Scan.of (distinctUntil close (.unclosedValues close) .repeatedInputValue readInputValue
        before)
  | _, fields before =>
      Scan.of (distinctUntil .braceClose .unclosedFields .repeatedField readField before)
  | _, names separator role => Scan.of (readSeparated separator role)
  | _, enumValues enum => Scan.of (readEnumValues enum)
  | _, roots before => Scan.of (readRoots before)
  | _, locations directive => Scan.of (readLocations directive)
  | _, definitions found => Scan.whole (readAll found)

section Attempts

variable (nodes : Attempt.Calling Document.Call NodeKind) (ask : Attempt.Calling Call SchemaFault)

-- Each attempt follows the reader of the same thing, with calls in place of loops.

def attemptDirectives : Attempt SchemaFault Unit := do
  let _ ← Attempt.ofNode (nodes _ .directives)
  pure ()

def attemptDefault : Attempt SchemaFault (Option Value) :=
  Attempt.optional .equal (.malformed .expectedType)
    (do
      let value ← Attempt.ofNode (Document.attemptValue nodes true)
      pure (some value))
    none

def attemptInputValue : Attempt SchemaFault InputValueDefinition := do
  Attempt.of scanDescription
  let name ← Attempt.name (.malformed (.expectedName .inputValue))
  Attempt.exactly .colon (.malformed (.expectedToken .colon))
  let type ← ask _ .typeRef
  let default? ← attemptDefault nodes
  attemptDirectives nodes
  pure ⟨name, type, default?⟩

def attemptInputValues (opening close : Token) : Attempt SchemaFault (List InputValueDefinition) :=
  Attempt.optional opening (.malformed .expectedType) (ask _ (.inputValues close [])) []

def attemptField : Attempt SchemaFault FieldDefinition := do
  Attempt.of scanDescription
  let name ← Attempt.name (.malformed (.expectedName .field))
  let arguments ← attemptInputValues ask .parenOpen .parenClose
  Attempt.exactly .colon (.malformed (.expectedToken .colon))
  let type ← ask _ .typeRef
  attemptDirectives nodes
  pure ⟨name, arguments, type⟩

def attemptFields : Attempt SchemaFault (List FieldDefinition) :=
  Attempt.optional .braceOpen (.malformed .unclosedFields) (ask _ (.fields [])) []

def attemptNames (separator : Token) (role : NameRole) : Attempt SchemaFault (List String) := do
  let _ ← Attempt.of (Scan.eat separator (.malformed (.expectedName role)))
  ask _ (.names separator role)

def attemptImplements : Attempt SchemaFault (List String) :=
  Attempt.optional (.name "implements") (.malformed (.expectedName .interface))
    (attemptNames ask .ampersand .interface) []

def attemptMembers : Attempt SchemaFault (List String) :=
  Attempt.optional .equal (.malformed (.expectedName .type)) (attemptNames ask .pipe .type) []

def attemptFielded {β : Type} (role : NameRole)
    (build : String → List FieldDefinition → List String → β) : Attempt SchemaFault β := do
  let name ← Attempt.name (.malformed (.expectedName role))
  let interfaces ← attemptImplements ask
  attemptDirectives nodes
  let fields ← attemptFields ask
  pure (build name fields interfaces)

def attemptMarked {β : Type} (role : NameRole) (tail : String → Attempt SchemaFault β) :
    Attempt SchemaFault β := do
  let name ← Attempt.name (.malformed (.expectedName role))
  attemptDirectives nodes
  tail name

def attemptObject : Attempt SchemaFault ObjectType :=
  attemptFielded nodes ask .type ObjectType.mk

def attemptInterface : Attempt SchemaFault InterfaceType :=
  attemptFielded nodes ask .interface fun name fields interfaces => ⟨name, fields, interfaces, []⟩

def attemptUnion : Attempt SchemaFault UnionType :=
  attemptMarked nodes .union fun name => do
    let members ← attemptMembers ask
    pure ⟨name, members⟩

def attemptEnum : Attempt SchemaFault EnumType :=
  attemptMarked nodes .enum fun name =>
    Attempt.optional .braceOpen (.malformed .expectedEnumValue)
      (do
        let values ← ask _ (.enumValues name)
        pure ⟨name, values.eraseDups⟩)
      ⟨name, []⟩

def attemptScalar : Attempt SchemaFault ScalarType :=
  attemptMarked nodes .scalar fun name => pure ⟨name⟩

def attemptInputObject : Attempt SchemaFault InputObjectType :=
  attemptMarked nodes .inputType fun name => do
    let fields ← attemptInputValues ask .braceOpen .braceClose
    pure ⟨name, fields⟩

def attemptKind : TypeKind → Attempt SchemaFault TypeDefinition
  | .object => do pure (.object (← attemptObject nodes ask))
  | .interface => do pure (.interface (← attemptInterface nodes ask))
  | .union => do pure (.union (← attemptUnion nodes ask))
  | .enum => do pure (.enum (← attemptEnum nodes ask))
  | .scalar => do pure (.scalar (← attemptScalar nodes))
  | .inputObject => do pure (.inputObject (← attemptInputObject nodes ask))

def attemptType : Attempt SchemaFault TypeDefinition := do
  let kind ← Attempt.take (Token.word? TypeKind.ofKeyword?) fun next =>
    if next = some (.name "extend") then .malformed .extensionNotSupported
    else .malformed .expectedDefinition
  attemptKind nodes ask kind

def attemptDirective : Attempt SchemaFault DirectiveDefinition := do
  let name ← Attempt.take Token.directiveName? fun _ => .malformed .expectedDirectiveName
  let arguments ← attemptInputValues ask .parenOpen .parenClose
  let isRepeatable ←
    Attempt.of (Scan.eat (.name "repeatable") (.malformed .expectedDirectiveName))
  Attempt.exactly (.name "on") (.malformed (.expectedToken (.name "on")))
  let locations ← (do
    let _ ← Attempt.of (Scan.eat .pipe (.malformed .expectedDirectiveName))
    ask _ (.locations name))
  pure ⟨name, arguments, locations.eraseDups, isRepeatable⟩

def attemptSchema : Attempt SchemaFault RootNames := do
  attemptDirectives nodes
  Attempt.exactly .braceOpen (.malformed (.expectedToken .braceOpen))
  ask _ (.roots .empty)

def attemptNext (found : Definitions) : Attempt SchemaFault Definitions :=
  Attempt.choose (· = some (.name "schema"))
    (Attempt.failIf found.roots?.isSome (.malformed .repeatedSchema) (do
      Attempt.exactly (.name "schema") (.malformed .expectedDefinition)
      let names ← attemptSchema nodes ask
      pure { found with roots? := some names }))
    (Attempt.choose (· = some (.name "directive"))
      (do
        Attempt.exactly (.name "directive") (.malformed .expectedDefinition)
        let definition ← attemptDirective ask
        Attempt.failIf (Named.contains found.directives definition.name)
          (.conflicting (.repeatedDirective definition.name))
          (pure { found with directives := found.directives ++ [definition] }))
      (do
        let definition ← attemptType nodes ask
        Attempt.failIf (Named.contains found.types definition.name)
          (.conflicting (.repeatedType definition.name))
          (pure { found with types := found.types ++ [definition] })))

def attemptEnumValues (enum : String) : Attempt SchemaFault (List String) := do
  Attempt.of scanDescription
  Attempt.choose (· = some .braceClose)
    (do
      Attempt.exactly .braceClose (.malformed .expectedEnumValue)
      pure [])
    (do
      let value ← Attempt.take enumName? (enumCause enum)
      attemptDirectives nodes
      let others ← ask _ (.enumValues enum)
      pure (value :: others))

def attemptRoots (before : RootNames) : Attempt SchemaFault RootNames :=
  Attempt.choose (· = some .braceClose)
    (do
      Attempt.exactly .braceClose (.malformed .expectedOperationType)
      pure before)
    (do
      let kind ← Attempt.take (Token.word? OperationKind.ofKeyword?)
        fun _ => .malformed .expectedOperationType
      Attempt.failIf (before.get? kind).isSome (.conflicting .repeatedRoot) (do
        Attempt.exactly .colon (.malformed (.expectedToken .colon))
        let name ← Attempt.name (.malformed (.expectedName .type))
        ask _ (.roots (before.set kind name))))

def attemptDefinitions (found : Definitions) : Attempt SchemaFault Definitions := do
  Attempt.of scanDescription
  Attempt.choose Option.isSome
    (do
      let next ← attemptNext nodes ask found
      ask _ (.definitions next))
    (pure found)

def Call.perform : Attempt.Calling Call SchemaFault
  | _, typeRef =>
      TypeRef.attempt (.malformed .expectedType) (.malformed .unterminatedList) (ask _ typeRef)
  | _, inputValues close before =>
      Attempt.distinctUntil close (.unclosedValues close) .repeatedInputValue
        (attemptInputValue nodes ask) before fun before => ask _ (inputValues close before)
  | _, fields before =>
      Attempt.distinctUntil .braceClose .unclosedFields .repeatedField (attemptField nodes ask)
        before fun before => ask _ (fields before)
  | _, names separator role =>
      Attempt.separated separator (.malformed (.expectedName role))
        (Attempt.name (.malformed (.expectedName role))) (ask _ (names separator role))
  | _, enumValues enum => attemptEnumValues nodes ask enum
  | _, roots before => attemptRoots ask before
  | _, locations directive =>
      Attempt.separated .pipe (.malformed (.expectedLocation directive))
        (Attempt.take (Token.word? DirectiveLocation.ofSpelling?)
          fun _ => .malformed (.expectedLocation directive))
        (ask _ (locations directive))
  | _, definitions found => attemptDefinitions nodes ask found

end Attempts

section Ends

open Attempt (Answers EndsAs)
open Scan (keeps_of shrinks_exactly shrinks_name shrinks_of shrinks_take)

theorem keeps_scanDescription : scanDescription.Keeps := by
  intro tokens value rest ok
  rw [scanDescription_eq] at ok
  cases ok
  exact Nat.le_of_lt_succ (skipDescription tokens).rest_lt

theorem keeps_eat (token : Token) (cause : SchemaFault) : (Scan.eat token cause).Keeps := by
  intro tokens value rest ok
  rw [Scan.eat_eq] at ok
  cases ok
  exact Nat.le_of_lt_succ (Reading.eat token tokens).rest_lt

variable {nodes : Attempt.Calling Document.Call NodeKind} {ask : Attempt.Calling Call SchemaFault}
  {bound : Nat}

theorem endsAs_wrapped {α : Type} {limit : List Token → Nat} {attempt : Attempt SchemaFault α}
    {read : (tokens : List Token) → Reading SchemaFault α (limit tokens)}
    {wrap : α → TypeDefinition} (ends : EndsAs bound attempt (Scan.of read)) :
    EndsAs bound (do pure (wrap (← attempt)))
      (Scan.of fun tokens => do .ok ((← read tokens).map wrap)) := by
  rw [scan_wrapped]
  exact ends.map

section Nodes

variable (inner : Answers bound nodes Document.Call.read)

include inner

theorem endsAs_directives : EndsAs bound (attemptDirectives nodes) (Scan.of skipDirectives) := by
  rw [scan_skipDirectives]
  exact (EndsAs.ofNode (inner _ .directives)).map

theorem endsAs_default : EndsAs bound (attemptDefault nodes) (Scan.of readDefault) := by
  rw [scan_readDefault]
  exact (EndsAs.optional (EndsAs.ofNode (Document.endsAs_value inner true).pred).map).pred

theorem endsAs_marked {β : Type} {role : NameRole} {tail : String → Attempt SchemaFault β}
    {scan : String → Scan SchemaFault β} (ends : ∀ name, EndsAs bound (tail name) (scan name)) :
    EndsAs bound (attemptMarked nodes role tail) (do
      let name ← Scan.name (.malformed (.expectedName role))
      Scan.of skipDirectives
      scan name) := by
  refine (EndsAs.of _).bind (shrinks_name _).keeps fun name => ?_
  exact (endsAs_directives inner).bind (keeps_of _) fun _ => ends name

end Nodes

section Calls

variable (answers : Answers bound ask Call.read)

include answers

theorem endsAs_inputValues (opening close : Token) :
    EndsAs (bound + 1) (attemptInputValues ask opening close)
      (Scan.of (readInputValues opening close)) := by
  rw [scan_readInputValues]
  exact .optional (answers _ (.inputValues close []))

theorem endsAs_fields : EndsAs (bound + 1) (attemptFields ask) (Scan.of readFields) := by
  rw [scan_readFields]
  exact .optional (answers _ (.fields []))

theorem endsAs_names (separator : Token) (role : NameRole) :
    EndsAs bound (attemptNames ask separator role)
      (Scan.of (readLedSeparated separator role)) := by
  rw [scan_readLedSeparated]
  exact (EndsAs.of _).bind (keeps_eat _ _) fun _ => answers _ (.names separator role)

theorem endsAs_implements :
    EndsAs (bound + 1) (attemptImplements ask) (Scan.of readImplements) := by
  rw [scan_readImplements]
  exact .optional (endsAs_names answers .ampersand .interface)

theorem endsAs_members : EndsAs (bound + 1) (attemptMembers ask) (Scan.of readMembers) := by
  rw [scan_readMembers]
  exact .optional (endsAs_names answers .pipe .type)

theorem endsAs_directive :
    EndsAs (bound + 1) (attemptDirective ask) (Scan.of readDirective) := by
  rw [scan_readDirective]
  refine (EndsAs.of _).bindLess (shrinks_take _ _) fun name => ?_
  refine (endsAs_inputValues answers _ _).pred.bind (keeps_of _) fun arguments => ?_
  refine (EndsAs.of _).bind (keeps_eat _ _) fun isRepeatable => ?_
  refine (EndsAs.of _).bind (shrinks_exactly _ _).keeps fun _ => ?_
  refine EndsAs.map ?_
  exact (EndsAs.of _).bind (keeps_eat _ _) fun _ => answers _ (.locations name)

theorem endsAs_roots (before : RootNames) :
    EndsAs (bound + 1) (attemptRoots ask before) (Scan.of (readRoots before)) := by
  rw [scan_readRoots]
  refine .choose (EndsAs.of _).map ?_
  refine (EndsAs.of _).bindLess (shrinks_take _ _) fun kind => .failIf ?_
  refine (EndsAs.of _).bind (shrinks_exactly _ _).keeps fun _ => ?_
  exact (EndsAs.of _).bind (shrinks_name _).keeps fun name =>
    answers _ (.roots (before.set kind name))

variable (inner : Answers bound nodes Document.Call.read)

include inner

theorem endsAs_fielded {β : Type} (role : NameRole)
    (build : String → List FieldDefinition → List String → β) :
    EndsAs bound (attemptFielded nodes ask role build) (do
      let name ← Scan.name (.malformed (.expectedName role))
      let interfaces ← Scan.of readImplements
      Scan.of skipDirectives
      let fields ← Scan.of readFields
      pure (build name fields interfaces)) := by
  refine (EndsAs.of _).bind (shrinks_name _).keeps fun name => ?_
  refine (endsAs_implements answers).pred.bind (keeps_of _) fun interfaces => ?_
  refine (endsAs_directives inner).bind (keeps_of _) fun _ => ?_
  exact (endsAs_fields answers).pred.map

theorem endsAs_kind (kind : TypeKind) :
    EndsAs bound (attemptKind nodes ask kind) (Scan.of (readKind kind)) := by
  cases kind with
  | object =>
      refine endsAs_wrapped ?_
      rw [scan_readObject]
      exact endsAs_fielded answers inner .type ObjectType.mk
  | interface =>
      refine endsAs_wrapped ?_
      rw [scan_readInterface]
      exact endsAs_fielded answers inner .interface _
  | union =>
      refine endsAs_wrapped ?_
      rw [scan_readUnion]
      exact endsAs_marked inner fun _ => (endsAs_members answers).pred.map
  | enum =>
      refine endsAs_wrapped ?_
      rw [scan_readEnum]
      exact endsAs_marked inner fun name =>
        (EndsAs.optional (answers _ (.enumValues name)).map).pred
  | scalar =>
      refine endsAs_wrapped ?_
      rw [scan_readScalar]
      exact endsAs_marked inner fun _ => .pure _
  | inputObject =>
      refine endsAs_wrapped ?_
      rw [scan_readInputObject]
      exact endsAs_marked inner fun _ => (endsAs_inputValues answers _ _).pred.map

theorem endsAs_type : EndsAs (bound + 1) (attemptType nodes ask) (Scan.of readType) := by
  rw [scan_readType]
  exact (EndsAs.of _).bindLess (shrinks_take _ _) fun kind => endsAs_kind answers inner kind

theorem endsAs_schema : EndsAs bound (attemptSchema nodes ask) (Scan.of readSchema) := by
  rw [scan_readSchema]
  refine (endsAs_directives inner).bind (keeps_of _) fun _ => ?_
  exact (EndsAs.of _).bind (shrinks_exactly _ _).keeps fun _ => answers _ (.roots .empty)

theorem endsAs_inputValue :
    EndsAs (bound + 1) (attemptInputValue nodes ask) (Scan.of readInputValue) := by
  rw [scan_readInputValue]
  refine (EndsAs.of _).bind keeps_scanDescription fun _ => ?_
  refine (EndsAs.of _).bindLess (shrinks_name _) fun name => ?_
  refine (EndsAs.of _).bind (shrinks_exactly _ _).keeps fun _ => ?_
  refine (answers _ .typeRef).bind (shrinks_of _).keeps fun type => ?_
  refine (endsAs_default inner).bind (keeps_of _) fun default? => ?_
  exact (endsAs_directives inner).map

theorem endsAs_field : EndsAs (bound + 1) (attemptField nodes ask) (Scan.of readField) := by
  rw [scan_readField]
  refine (EndsAs.of _).bind keeps_scanDescription fun _ => ?_
  refine (EndsAs.of _).bindLess (shrinks_name _) fun name => ?_
  refine (endsAs_inputValues answers _ _).pred.bind (keeps_of _) fun arguments => ?_
  refine (EndsAs.of _).bind (shrinks_exactly _ _).keeps fun _ => ?_
  refine (answers _ .typeRef).bind (shrinks_of _).keeps fun type => ?_
  exact (endsAs_directives inner).map

theorem endsAs_next (found : Definitions) :
    EndsAs (bound + 1) (attemptNext nodes ask found) (Scan.of (readNext found)) := by
  rw [scan_readNext]
  refine .choose (.failIf ?_) (.choose ?_ ?_)
  · refine (EndsAs.of _).bindLess (shrinks_exactly _ _) fun _ => ?_
    exact (endsAs_schema answers inner).map
  · refine (EndsAs.of _).bindLess (shrinks_exactly _ _) fun _ => ?_
    exact (endsAs_directive answers).pred.bind (shrinks_of _).keeps fun _ => .failIf (.pure _)
  · exact (endsAs_type answers inner).bind (shrinks_of _).keeps fun _ => .failIf (.pure _)

theorem endsAs_enumValues (enum : String) :
    EndsAs (bound + 1) (attemptEnumValues nodes ask enum) (Scan.of (readEnumValues enum)) := by
  rw [scan_readEnumValues]
  refine (EndsAs.of _).bind keeps_scanDescription fun _ => .choose (EndsAs.of _).map ?_
  refine (EndsAs.of _).bindLess (shrinks_take _ _) fun value => ?_
  refine (endsAs_directives inner).bind (keeps_of _) fun _ => ?_
  exact (answers _ (.enumValues enum)).map

theorem endsAs_definitions (found : Definitions) :
    EndsAs (bound + 1) (attemptDefinitions nodes ask found) (Scan.whole (readAll found)) := by
  rw [whole_readAll]
  refine (EndsAs.of _).bind keeps_scanDescription fun _ => .choose ?_ (.pure found)
  exact (endsAs_next answers inner found).bindLess (shrinks_of _) fun next =>
    answers _ (.definitions next)

theorem answers_perform : Answers (bound + 1) (Call.perform nodes ask) Call.read := by
  intro α call
  cases call with
  | typeRef =>
      exact TypeRef.endsAs_attempt scan_readTypeRef (shrinks_of _).keeps (answers _ .typeRef)
  | inputValues close before =>
      rw [Call.perform, Call.read]
      exact .distinctUntil (endsAs_inputValue answers inner) fun before =>
        answers _ (.inputValues close before)
  | fields before =>
      rw [Call.perform, Call.read]
      exact .distinctUntil (endsAs_field answers inner) fun before => answers _ (.fields before)
  | names separator role =>
      exact .separated (scan_readSeparated separator role) (.of _) (shrinks_name _)
        (answers _ (.names separator role))
  | enumValues enum => exact endsAs_enumValues answers inner enum
  | roots before => exact endsAs_roots answers before
  | locations directive =>
      exact .separated (scan_readLocations directive) (.of _) (shrinks_take _ _)
        (answers _ (.locations directive))
  | definitions found => exact endsAs_definitions answers inner found

end Calls

end Ends

/-- Calls inside of each other up to a given depth. A deeper call has no outcome. -/
def Call.within : Nat → Attempt.Calling Call SchemaFault
  | 0, _, _, _ => none
  | depth + 1, α, call, tokens =>
      perform (Document.Call.within depth) (within depth) α call tokens

/-- A depth of more than the number of tokens is enough. -/
theorem answers_within (depth : Nat) : Attempt.Answers depth (Call.within depth) Call.read := by
  induction depth with
  | zero => exact fun _ _ _ lt => absurd lt (Nat.not_lt_zero _)
  | succ depth ih => exact answers_perform ih (Document.answers_within depth)

def attempt (depth : Nat) (tokens : List Token) :
    Option (Except (Failure SchemaFault) Definitions) :=
  Option.map (Except.map Prod.fst) (Call.within depth _ (.definitions ⟨none, [], []⟩) tokens)

theorem attempt_eq {depth : Nat} {tokens : List Token} (lt : tokens.length < depth) :
    attempt depth tokens = some (read tokens) := by
  rw [attempt, answers_within depth _ (.definitions ⟨none, [], []⟩) tokens lt]
  show some (Except.map _ (Except.map _ (read tokens))) = _
  cases read tokens with
  | error failure => rfl
  | ok definitions => rfl

inductive LoopItem : (α : Type) → Scan SchemaFault α → Prop
  | inputValue : LoopItem _ (Scan.of readInputValue)
  | field : LoopItem _ (Scan.of readField)
  | name (role : NameRole) : LoopItem _ (Scan.name (.malformed (.expectedName role)))
  | enumValue (enum : String) :
      LoopItem _ (do
        let value ← Scan.take enumName? (enumCause enum)
        Scan.of skipDirectives
        pure value)
  | root (before : RootNames) :
      LoopItem _ (do
        let kind ← Scan.take (Token.word? OperationKind.ofKeyword?)
          fun _ => .malformed .expectedOperationType
        Scan.failIf (before.get? kind).isSome (.conflicting .repeatedRoot) (do
          Scan.exactly .colon (.malformed (.expectedToken .colon))
          let name ← Scan.name (.malformed (.expectedName .type))
          pure (before.set kind name)))
  | location (directive : String) :
      LoopItem _ (Scan.take (Token.word? DirectiveLocation.ofSpelling?)
        fun _ => .malformed (.expectedLocation directive))
  | definition (found : Definitions) : LoopItem _ (Scan.of (readNext found))

theorem LoopItem.consumes {α : Type} {scan : Scan SchemaFault α} (item : LoopItem α scan) :
    scan.Consumes := by
  cases item with
  | inputValue =>
      exact Scan.consumes_of_recognizes recognizes_readInputValue (by simp [StartsEntry])
  | field => exact Scan.consumes_of_recognizes recognizes_readField (by simp [StartsEntry])
  | name role => exact Scan.consumes_of_recognizes (fun _ => recognizes_readName role) (by simp)
  | enumValue enum =>
      have value (bound : Nat) := (Recognizes.take enumName? (enumCause enum)).bind
        (fun value => (recognizes_skipDirectives bound).map fun _ => value) fun _ _ => trivial
      exact Scan.consumes_of_recognizes value (by simp [Ahead])
  | root before =>
      have name (bound : Nat) (kind : OperationKind) : Recognizes bound _ _ _ _ :=
        (((recognizes_readName .type).map (before.set kind ·)).after .colon
          (.malformed (.expectedToken .colon))).failIf (before.get? kind).isSome
            (.conflicting .repeatedRoot)
      have entry (bound : Nat) := (Recognizes.take (Token.word? OperationKind.ofKeyword?)
        fun _ => SchemaFault.malformed .expectedOperationType).bind (name bound) fun _ _ => trivial
      exact Scan.consumes_of_recognizes entry (by simp [Ahead])
  | location directive => exact Scan.consumes_of_recognizes (fun _ => .take _ _) (by simp)
  | definition found =>
      exact Scan.consumes_of_recognizes (recognizes_readNext · found)
        (by simp [StartsItem, StartsType])

end Definitions

/-- Reading comes to an end. What is read in a turn of a loop takes a token off the front, and fails
at the end. What is done for a call makes only calls with fewer tokens: with the outcomes of those
it has the outcome of the reader. So as many calls inside of each other as there are tokens, and
one more, are enough for the outcome of a document and of a schema text. -/
theorem reading_halts :
    (∀ (α : Type) (scan : Scan NodeKind α), Document.LoopItem α scan → scan.Consumes) ∧
      (∀ (α : Type) (scan : Scan SchemaFault α), Definitions.LoopItem α scan → scan.Consumes) ∧
      (∀ ask tokens, Attempt.Answers tokens.length ask Document.Call.read →
        ∀ α call, Document.Call.perform ask α call tokens =
          some (Document.Call.read α call tokens)) ∧
      (∀ nodes ask tokens, Attempt.Answers tokens.length nodes Document.Call.read →
        Attempt.Answers tokens.length ask Definitions.Call.read →
          ∀ α call, Definitions.Call.perform nodes ask α call tokens =
            some (Definitions.Call.read α call tokens)) ∧
      ∀ (tokens : List Token) (depth : Nat), tokens.length < depth →
        Document.attempt depth tokens = some (Document.read tokens) ∧
          Definitions.attempt depth tokens = some (Definitions.read tokens) := by
  refine ⟨?_, ?_, ?_, ?_, ?_⟩
  · exact fun _ _ => Document.LoopItem.consumes
  · exact fun _ _ => Definitions.LoopItem.consumes
  · exact fun ask tokens answers α call =>
      Document.answers_perform answers α call tokens (Nat.lt_succ_self _)
  · exact fun nodes ask tokens inner answers α call =>
      Definitions.answers_perform answers inner α call tokens (Nat.lt_succ_self _)
  · exact fun tokens depth lt => ⟨Document.attempt_eq lt, Definitions.attempt_eq lt⟩

def Document.sampleUnterminated : List Token :=
  [.braceOpen, .name "a", .parenOpen, .name "x", .colon, .bracketOpen, .integer "1", .braceOpen,
    .name "y", .colon]

def Definitions.sampleUnterminated : List Token :=
  [.name "type", .name "T", .braceOpen, .name "a", .parenOpen, .name "x", .colon, .bracketOpen,
    .name "Int"]

theorem reading_halts_sampleUnterminated :
    (Scan.of Selection.read).Consumes ∧ (Scan.of Definitions.readField).Consumes ∧
      Document.Call.perform (Document.Call.within 10) _ .definitions Document.sampleUnterminated =
        some (Document.Call.read _ .definitions Document.sampleUnterminated) ∧
      Definitions.Call.perform (Document.Call.within 9) (Definitions.Call.within 9) _
          (.definitions ⟨none, [], []⟩) Definitions.sampleUnterminated =
        some (Definitions.Call.read _ (.definitions ⟨none, [], []⟩)
          Definitions.sampleUnterminated) ∧
      Document.attempt 11 Document.sampleUnterminated = some (.error ⟨.value, []⟩) ∧
      Definitions.attempt 10 Definitions.sampleUnterminated =
        some (.error ⟨.malformed .unterminatedList, []⟩) := by
  obtain ⟨items, entries, called, calledIn, ended⟩ := reading_halts
  have document : Document.read Document.sampleUnterminated = .error ⟨.value, []⟩ := by
    cbv
  have definitions : Definitions.read Definitions.sampleUnterminated =
      .error ⟨.malformed .unterminatedList, []⟩ := by
    cbv
  refine ⟨items _ _ .selection, entries _ _ .field, ?_, ?_, ?_, ?_⟩
  · exact called _ Document.sampleUnterminated (Document.answers_within 10) _ _
  · exact calledIn _ _ Definitions.sampleUnterminated (Document.answers_within 9)
      (Definitions.answers_within 9) _ _
  · rw [(ended Document.sampleUnterminated 11 (by decide)).1, document]
  · rw [(ended Definitions.sampleUnterminated 10 (by decide)).2, definitions]

-- With fewer calls inside of each other there is no outcome.
example : Document.attempt 2 [.braceOpen, .name "a", .braceClose] = none := rfl

end QueryCheck
