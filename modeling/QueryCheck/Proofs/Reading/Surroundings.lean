import QueryCheck.Proofs.Reading.Documents
import QueryCheck.Proofs.Traversal.Following

/-!
# Surroundings of selection sets

A selection set of a document has surroundings: what is around it in the document, and the
tokens before and after it. Every selection set that a path leads to has them.

Any other selection set can be put there, and then the tokens are read with it in that place.
If the tokens that are put there can not be read, reading the document fails as reading them
does.
-/

namespace QueryCheck

open QueryCheck.Language (Many)

namespace Language.Many

variable {α : Type} {item : Language α}

theorem append {left right : List Token} {firsts lasts : List α} (first : Many item left firsts)
    (second : Many item right lasts) : Many item (left ++ right) (firsts ++ lasts) := by
  induction first with
  | nil => exact second
  | cons head _ ih =>
      rw [List.append_assoc, List.cons_append]
      exact cons head ih

/-- The word for the member at a place, between the words for those before and after it. -/
theorem split {word : List Token} {values : List α} (many : Many item word values) {place : Nat}
    {value : α} (member : values[place]? = some value) :
    ∃ left middle right firsts lasts, word = left ++ (middle ++ right) ∧
      values = firsts ++ value :: lasts ∧ firsts.length = place ∧ Many item left firsts ∧
        item middle value ∧ Many item right lasts := by
  induction many generalizing place with
  | nil => cases member
  | @cons first others one rest head tail ih =>
      cases place with
      | zero =>
          obtain rfl := Option.some.inj member
          exact ⟨[], first, others, [], rest, rfl, rfl, rfl, nil, head, tail⟩
      | succ place =>
          obtain ⟨left, middle, right, firsts, lasts, rfl, rfl, rfl, before, here, after⟩ :=
            ih member
          exact ⟨first ++ left, middle, right, one :: firsts, lasts, by rw [List.append_assoc], rfl,
            rfl, cons head before, here, after⟩

end Language.Many

theorem Root.foldlM_child?_cons {part last : Root} {segment : PathSegment}
    {steps : List PathSegment} :
    (segment :: steps).foldlM child? part = some last ↔
      ∃ next, part.child? segment = some next ∧ steps.foldlM child? next = some last := by
  rw [List.foldlM_cons, Option.bind_eq_bind, Option.bind_eq_some_iff]

/-! ## Surroundings -/

namespace Selection

/-- A selection with the given selections inside of it, if it can have any. -/
def withSelections : Selection → List Selection → Selection
  | .field owner, selections => .field { owner with selections := selections }
  | .inline owner, selections => .inline { owner with selections := selections }
  | .spread place, _ => .spread place

/-- How selections are spelled up to the selection set inside of them. -/
inductive HeadDerives : List Token → Selection → Prop
  | field {head given marks : List Token} {owner : Field} :
      Field.NameDerives head (owner.alias?, owner.name) →
        Argument.ListDerives given owner.arguments → Many Directive.Derives marks owner.directives →
          HeadDerives (head ++ (given ++ marks)) (.field owner)
  | inline {condition marks : List Token} {owner : InlineFragment} :
      InlineFragment.ConditionDerives condition owner.typeCondition? →
        Many Directive.Derives marks owner.directives →
          HeadDerives (.ellipsis :: (condition ++ marks)) (.inline owner)

/-- What is around a selection set inside of another one. Of the selection that owns the inner
set, only what comes before the set is looked at. -/
inductive Surroundings where
  | nothing
  | inside (firsts : List Selection) (owner : Selection) (inner : Surroundings)
      (lasts : List Selection)

namespace Surroundings

def fill : Surroundings → List Selection → List Selection
  | nothing, selections => selections
  | inside firsts owner inner lasts, selections =>
      firsts ++ owner.withSelections (inner.fill selections) :: lasts

def steps : Surroundings → List PathSegment
  | nothing => []
  | inside firsts _ inner _ => .index firsts.length :: .selectionSet :: inner.steps

/-- How surroundings are spelled before and after the inner selection set. -/
inductive Derives : List Token → List Token → Surroundings → Prop
  | nothing : Derives [] [] .nothing
  | inside {left head before after right : List Token} {firsts lasts : List Selection}
      {owner : Selection} {inner : Surroundings} :
      Many Selection.Derives left firsts → HeadDerives head owner → Derives before after inner →
        Many Selection.Derives right lasts →
          Derives (.braceOpen :: (left ++ (head ++ before))) (after ++ (right ++ [.braceClose]))
            (.inside firsts owner inner lasts)

end Surroundings

theorem HeadDerives.derives {head body : List Token} {owner : Selection}
    {selections : List Selection} (headed : HeadDerives head owner)
    (set : SetDerives body selections) :
    Derives (head ++ body) (owner.withSelections selections) := by
  cases headed with
  | field name given marks =>
      rw [List.append_assoc, List.append_assoc]
      exact .field (.intro name given marks (.present set))
  | inline condition marks =>
      rw [List.cons_append, List.append_assoc]
      exact .inline (.intro condition marks set)

namespace Surroundings

variable {before after : List Token} {surroundings : Surroundings}

/-- Any selection set can be put into surroundings. -/
theorem derives_fill (around : Derives before after surroundings) {word : List Token}
    {selections : List Selection} (set : SetDerives word selections) :
    SetDerives (before ++ (word ++ after)) (surroundings.fill selections) := by
  induction around with
  | nothing =>
      rw [List.append_nil]
      exact set
  | @inside left head before after right firsts lasts owner inner firstOnes headed _ lastOnes
      ih =>
      have middle : Many Selection.Derives ((head ++ (before ++ (word ++ after))) ++ right)
          (owner.withSelections (inner.fill selections) :: lasts) :=
        .cons (headed.derives ih) lastOnes
      have whole := SetDerives.intro (firstOnes.append middle) (by simp)
      simpa [fill] using whole

/-- The steps of surroundings lead to what is put into them. -/
theorem follow_fill (around : Derives before after surroundings) (selections : List Selection) :
    surroundings.steps.foldlM Root.child? (.selectionSet (surroundings.fill selections)) =
      some (.selectionSet selections) := by
  induction around with
  | nothing => rfl
  | @inside _ _ _ _ _ firsts lasts owner inner _ headed _ _ ih =>
      have member : Root.child? (.selectionSet (fill (.inside firsts owner inner lasts) selections))
          (.index firsts.length) =
            some (.ofSelection (owner.withSelections (inner.fill selections))) := by
        simp [Root.child?, fill]
      have owned : Root.child? (.ofSelection (owner.withSelections (inner.fill selections)))
          .selectionSet = some (.selectionSet (inner.fill selections)) := by
        cases headed <;> rfl
      exact Root.foldlM_child?_cons.mpr
        ⟨_, member, Root.foldlM_child?_cons.mpr ⟨_, owned, ih⟩⟩

end Surroundings

end Selection

/-! ## The way to a selection set -/

namespace Root

/-- Whether a part stands beside the selection sets of a document. -/
def isAside : Root → Bool
  | .variableDefinitions _ | .variableDefinition _ | .directives _ | .directive _ | .arguments _
  | .argument _ => true
  | _ => false

theorem isAside_of_child? {part next : Root} {segment : PathSegment} (aside : part.isAside = true)
    (step : part.child? segment = some next) : next.isAside = true := by
  -- A step is to a member of a list, or to the one part that has the segment.
  cases part <;> cases aside <;> cases segment <;> first
    | obtain ⟨_, -, rfl⟩ := Option.map_eq_some_iff.mp step
      rfl
    | cases step <;> rfl

/-- Where members are found by their places, every step is to one of them. -/
theorem child?_member {α : Type} {part next : Root} {members : List α} {toRoot : α → Root}
    (listed : ∀ place, part.child? (.index place) = members[place]?.map toRoot)
    (only : ∀ segment, (∀ place, segment ≠ .index place) → part.child? segment = none)
    {segment : PathSegment} (step : part.child? segment = some next) :
    ∃ place member, segment = .index place ∧ members[place]? = some member ∧
      next = toRoot member := by
  cases segment with
  | index place =>
      rw [listed, Option.map_eq_some_iff] at step
      obtain ⟨member, found, rfl⟩ := step
      exact ⟨place, member, rfl, found, rfl⟩
  | _ =>
      rw [only _ (by simp)] at step
      cases step

theorem child?_selectionSet {selections : List Selection} {next : Root} {segment : PathSegment}
    (step : child? (.selectionSet selections) segment = some next) :
    ∃ place selection, segment = .index place ∧ selections[place]? = some selection ∧
      next = .ofSelection selection :=
  child?_member (fun _ => rfl) (by rintro (_ | _) <;> simp [child?]) step

theorem child?_document {document : Document} {next : Root} {segment : PathSegment}
    (step : child? (.document document) segment = some next) :
    ∃ place definition, segment = .index place ∧ document.definitions[place]? = some definition ∧
      next = .ofDefinition definition :=
  child?_member (fun _ => rfl) (by rintro (_ | _) <;> simp [child?]) step

/-- From a part beside the selection sets no selection set is reached. -/
theorem not_selectionSet_of_isAside {part : Root} (aside : part.isAside = true)
    (steps : List PathSegment) (selections : List Selection) :
    steps.foldlM child? part ≠ some (.selectionSet selections) := by
  induction steps generalizing part with
  | nil =>
      intro reached
      obtain rfl := Option.some.inj reached
      cases aside
  | cons segment steps ih =>
      intro reached
      obtain ⟨next, step, onward⟩ := foldlM_child?_cons.mp reached
      exact ih (isAside_of_child? aside step) onward

/-- A part all of whose steps lead aside but the one to its own selection set. -/
def Owns (part : Root) : Prop :=
  ∀ segment next, part.child? segment = some next → segment = .selectionSet ∨ next.isAside = true

/-- Selection sets inside of an owner are reached through its own one. -/
theorem Owns.through {part : Root} (owns : part.Owns) {steps : List PathSegment}
    {selections : List Selection} (other : part ≠ .selectionSet selections)
    (reached : steps.foldlM child? part = some (.selectionSet selections)) :
    ∃ own rest, steps = .selectionSet :: rest ∧ part.child? .selectionSet = some own ∧
      rest.foldlM child? own = some (.selectionSet selections) := by
  cases steps with
  | nil => exact absurd (Option.some.inj reached) other
  | cons segment rest =>
      obtain ⟨own, step, onward⟩ := foldlM_child?_cons.mp reached
      rcases owns segment own step with rfl | aside
      · exact ⟨own, rest, rfl, step, onward⟩
      · exact absurd onward (not_selectionSet_of_isAside aside rest selections)

theorem owns_ofSelection (selection : Selection) : (ofSelection selection).Owns := by
  intro segment next step
  cases selection <;> cases segment <;> cases step <;> simp [isAside]

theorem owns_ofDefinition (definition : Definition) : (ofDefinition definition).Owns := by
  intro segment next step
  cases definition <;> cases segment <;> cases step <;> simp [isAside]

end Root

namespace Selection

/-- A selection in which a selection set is reached is spelled by what comes before its own
selection set, and by that set. -/
theorem Derives.headed {word : List Token} {owner : Selection} (derived : Derives word owner)
    {steps : List PathSegment} {selections : List Selection}
    (reached : steps.foldlM Root.child? (.ofSelection owner) = some (.selectionSet selections)) :
    ∃ head body own rest, steps = .selectionSet :: rest ∧ word = head ++ body ∧
      HeadDerives head owner ∧ OptionalDerives body own ∧ owner.withSelections own = owner ∧
        rest.foldlM Root.child? (.selectionSet own) = some (.selectionSet selections) := by
  have other : Root.ofSelection owner ≠ .selectionSet selections := by
    cases owner <;> simp [Root.ofSelection]
  obtain ⟨own, rest, rfl, step, reached⟩ := (Root.owns_ofSelection owner).through other reached
  cases derived with
  | field derived =>
      obtain @⟨head, given, marks, body, _, _, _, _, own, name, arguments, directives, set⟩ :=
        derived
      cases step
      exact ⟨head ++ (given ++ marks), body, own, rest, rfl, by simp,
        .field name arguments directives, set, rfl, reached⟩
  | spread _ => cases step
  | inline derived =>
      obtain @⟨condition, marks, body, _, _, own, type, directives, set⟩ := derived
      cases step
      exact ⟨.ellipsis :: (condition ++ marks), body, own, rest, rfl, by simp,
        .inline type directives, .present set, rfl, reached⟩

/-- A selection set that is reached from another one has surroundings in it. -/
theorem exists_surroundings {word : List Token} {whole selections : List Selection}
    {steps : List PathSegment} (derived : OptionalDerives word whole)
    (reached : steps.foldlM Root.child? (.selectionSet whole) = some (.selectionSet selections)) :
    ∃ surroundings before inner after, Surroundings.Derives before after surroundings ∧
      word = before ++ (inner ++ after) ∧ OptionalDerives inner selections ∧
        surroundings.fill selections = whole ∧ surroundings.steps = steps := by
  cases steps with
  | nil =>
      cases reached
      exact ⟨.nothing, [], word, [], .nothing, (List.append_nil word).symm, derived, rfl, rfl⟩
  | cons segment rest =>
      obtain ⟨next, step, onward⟩ := Root.foldlM_child?_cons.mp reached
      obtain ⟨place, owner, rfl, member, rfl⟩ := Root.child?_selectionSet step
      cases derived with
      | absent => cases member
      | present set =>
          obtain ⟨many, -⟩ := set
          obtain ⟨left, middle, right, firsts, lasts, rfl, rfl, rfl, firstOnes, here, lastOnes⟩ :=
            many.split member
          obtain ⟨head, body, own, others, rfl, rfl, headed, set, same, inside⟩ :=
            here.headed onward
          obtain ⟨inner, before, hole, after, around, rfl, spelled, filled, rfl⟩ :=
            exists_surroundings set inside
          exact ⟨.inside firsts owner inner lasts, _, hole, _,
            .inside firstOnes headed around lastOnes, by simp, spelled,
            by rw [Surroundings.fill, filled, same], rfl⟩
termination_by steps.length

end Selection

/-! ## Failing inside of surroundings -/

theorem Scan.exactly_bind {ε β : Type} (token : Token) (cause : ε) (next : Unit → Scan ε β)
    (rest : List Token) : (exactly token cause >>= next) (token :: rest) = next () rest :=
  bind_ok (take_eq_ok.mpr ⟨token, rfl, if_pos rfl⟩)

theorem Scan.name_bind {ε β : Type} (text : String) (cause : ε) (next : String → Scan ε β)
    (rest : List Token) : (name cause >>= next) (.name text :: rest) = next text rest :=
  bind_ok (take_eq_ok.mpr ⟨.name text, rfl, rfl⟩)

namespace Predictive

variable {ε α β : Type} {read : Scan ε α} {language : Language α}
  {starts follows : Option Token → Prop} {word rest : List Token} {value : α}

/-- What comes next where a word is read. -/
theorem ahead (predictive : ∀ bound, Predictive bound read language starts follows)
    (derived : language word value) {after : Option Token → Prop} (follow : after rest.head?) :
    Ahead starts after (word ++ rest).head? :=
  ahead_append ((predictive 0).start derived) follow

/-- A word is read, and what comes next goes on behind it. -/
theorem bind_append (predictive : ∀ bound, Predictive bound read language starts follows)
    (derived : language word value) (follow : follows rest.head?) (next : α → Scan ε β) :
    (read >>= next) (word ++ rest) = next value rest :=
  Scan.bind_ok ((predictive _).complete (Nat.lt_succ_self _) derived follow)

end Predictive

namespace Selection

/-- A selection fails where its selection set does. -/
theorem read_headed {head tail : List Token} {owner : Selection} {failure : Failure NodeKind}
    (headed : HeadDerives head owner) (opens : tail.head? = some .braceOpen)
    (fails : ∀ kind, Scan.of (readRequired kind) tail = .error failure) :
    Scan.of read (head ++ tail) = .error failure := by
  have noDirective : Directive.Follows tail.head? := by grind [Directive.Follows]
  rw [scan_read]
  cases headed with
  | @field name given marks owner named arguments directives =>
      have afterMarks : Ahead _ (· = some .braceOpen) (marks ++ tail).head? :=
        Predictive.ahead Directive.predictive_readAll directives opens
      have afterGiven := Predictive.ahead Argument.predictive_readAll arguments afterMarks
      have starts := Predictive.ahead Field.predictive_readName named afterGiven
      have noArgument : (marks ++ tail).head? ≠ some .parenOpen := by grind [Ahead]
      have noAlias : (given ++ (marks ++ tail)).head? ≠ some .colon := by grind [Ahead]
      have field : Scan.of Field.read (name ++ (given ++ (marks ++ tail))) = .error failure := by
        rw [Field.scan_read, Predictive.bind_append Field.predictive_readName named noAlias,
          Predictive.bind_append Argument.predictive_readAll arguments noArgument,
          Predictive.bind_append Directive.predictive_readAll directives noDirective]
        refine Scan.bind_error ?_
        rw [scan_readOptional, Scan.choose, if_pos (by simpa using opens)]
        exact fails _
      rw [List.append_assoc, List.append_assoc, Scan.choose, if_pos (by grind [Ahead, Token.name?]),
        Scan.bind_error field]
  | @inline condition marks owner type directives =>
      have afterMarks : Ahead _ (· = some .braceOpen) (marks ++ tail).head? :=
        Predictive.ahead Directive.predictive_readAll directives opens
      have starts := Predictive.ahead InlineFragment.predictive_readCondition type afterMarks
      have noCondition : (marks ++ tail).head? ≠ some (.name "on") := by grind [Ahead]
      have fragment : InlineFragment.scanBody (condition ++ (marks ++ tail)) = .error failure := by
        unfold InlineFragment.scanBody InlineFragment.scanHead
        simp only [bind_assoc, pure_bind]
        rw [Predictive.bind_append InlineFragment.predictive_readCondition type noCondition,
          Predictive.bind_append Directive.predictive_readAll directives noDirective]
        exact Scan.bind_error (fails _)
      rw [List.cons_append, List.append_assoc, Scan.choose, if_neg (by simp [Token.name?])]
      show Scan.choose startsInline _ _ (condition ++ (marks ++ tail)) = _
      rw [Scan.choose, if_pos (by grind [Ahead, startsInline]), Scan.bind_error fragment]

theorem HeadDerives.start {head : List Token} {owner : Selection}
    (headed : HeadDerives head owner) : Starts head.head? := by
  cases headed with
  | field named _ _ =>
      obtain ⟨name, first⟩ := (Field.predictive_readName 0).start named
      exact .inr ⟨name, by rw [List.head?_append, first]; rfl⟩
  | inline _ _ => exact .inl rfl

theorem Starts.append {word : List Token} (start : Starts word.head?) (rest : List Token) :
    Starts (word ++ rest).head? := by
  cases word with
  | nil => simp [Starts] at start
  | cons _ _ => exact start

theorem starts_append {left tail : List Token} {firsts : List Selection}
    (many : Many Derives left firsts) (starts : Starts tail.head?) :
    Starts (left ++ tail).head? := by
  cases many with
  | nil => exact starts
  | cons first _ =>
      rw [List.append_assoc]
      exact first.start.append _

/-- Selections fail where one after the others does. -/
theorem manyUntil_fails {left tail : List Token} {firsts : List Selection}
    {failure : Failure NodeKind} (many : Many Derives left firsts) (starts : Starts tail.head?)
    (fails : Scan.of read tail = .error failure) :
    Scan.manyUntil .braceClose read (left ++ tail) = .error failure := by
  have first := starts_append many starts
  rw [Scan.manyUntil_eq _ .selectionSet, Scan.choose_other _ _ (by grind [Starts])]
  induction many with
  | nil => exact Scan.bind_error fails
  | @cons word others _ _ derived rest ih =>
      have next := starts_append rest starts
      have follow : Follows (others ++ tail).head? := by grind [Starts, Follows, Directive.Follows]
      rw [List.append_assoc, Predictive.bind_append predictive_read derived follow,
        Scan.manyUntil_eq _ .selectionSet]
      refine Scan.bind_error ?_
      rw [Scan.choose_other _ _ (by grind [Starts])]
      exact ih next

namespace Surroundings

variable {before after word : List Token} {surroundings : Surroundings}

theorem Derives.head? (around : Derives before after surroundings)
    (opens : word.head? = some .braceOpen) (rest : List Token) :
    (before ++ (word ++ rest)).head? = some .braceOpen := by
  cases around with
  | nothing =>
      rw [List.nil_append, List.head?_append, opens]
      rfl
  | inside _ _ _ _ => rfl

/-- A selection set fails where one inside of it does. -/
theorem readRequired_fails (around : Derives before after surroundings)
    (opens : word.head? = some .braceOpen) {cause : NodeKind} {lost : List Token}
    (fails : ∀ kind rest, Scan.of (readRequired kind) (word ++ rest) = .error ⟨cause, lost ++ rest⟩)
    (kind : NodeKind) (rest : List Token) :
    Scan.of (readRequired kind) (before ++ (word ++ (after ++ rest))) =
      .error ⟨cause, lost ++ (after ++ rest)⟩ := by
  induction around generalizing kind rest with
  | nothing => exact fails kind rest
  | @inside left head before after right firsts _ _ _ firstOnes headed around _ ih =>
      have inner (kind : NodeKind) := ih kind (right ++ (.braceClose :: rest))
      have owner := read_headed headed (around.head? opens _) inner
      have starts :=
        headed.start.append (before ++ (word ++ (after ++ (right ++ .braceClose :: rest))))
      have next := starts_append firstOnes starts
      have items := manyUntil_fails firstOnes starts owner
      simp only [List.append_assoc, List.cons_append, List.nil_append]
      rw [scan_readRequired, Scan.exactly_bind, Scan.refuse, if_neg (by grind [Starts])]
      exact items

end Surroundings

end Selection

/-! ## Definitions and documents -/

namespace Definition

def withSelections : Definition → List Selection → Definition
  | .operation owner, selections => .operation { owner with selections := selections }
  | .fragment owner, selections => .fragment { owner with selections := selections }

inductive HeadDerives : List Token → Definition → Prop
  | short {selections : List Selection} :
      HeadDerives [] (.operation ⟨.query, none, [], [], selections⟩)
  | full (owner : Operation) {head given marks : List Token} :
      Operation.NameDerives head owner.name? →
        VariableDefinition.ListDerives given owner.variableDefinitions →
          Many Directive.Derives marks owner.directives →
            HeadDerives (.name owner.kind.keyword :: (head ++ (given ++ marks))) (.operation owner)
  | fragment (owner : Fragment) {marks : List Token} :
      Many Directive.Derives marks owner.directives →
        HeadDerives (.name "fragment" :: .name owner.name :: .name "on" ::
          .name owner.typeCondition :: marks) (.fragment owner)

theorem HeadDerives.derives {head body : List Token} {owner : Definition}
    {selections : List Selection} (headed : HeadDerives head owner)
    (set : Selection.SetDerives body selections) :
    Derives (head ++ body) (owner.withSelections selections) := by
  cases headed with
  | short => exact .operation (.short set)
  | full _ name given marks =>
      rw [List.cons_append, List.append_assoc, List.append_assoc]
      exact .operation (.full _ name given marks set)
  | fragment _ marks => exact .fragment (.intro _ _ marks set)

/-- A definition in which a selection set is reached is spelled by what comes before its own
selection set, and by that set. -/
theorem Derives.headed {word : List Token} {owner : Definition} (derived : Derives word owner)
    {steps : List PathSegment} {selections : List Selection}
    (reached : steps.foldlM Root.child? (.ofDefinition owner) = some (.selectionSet selections)) :
    ∃ head body own rest, steps = .selectionSet :: rest ∧ word = head ++ body ∧
      HeadDerives head owner ∧ Selection.SetDerives body own ∧ owner.withSelections own = owner ∧
        rest.foldlM Root.child? (.selectionSet own) = some (.selectionSet selections) := by
  have other : Root.ofDefinition owner ≠ .selectionSet selections := by
    cases owner <;> simp [Root.ofDefinition]
  obtain ⟨own, rest, rfl, step, reached⟩ := (Root.owns_ofDefinition owner).through other reached
  cases derived with
  | operation derived =>
      cases derived with
      | short set =>
          cases step
          exact ⟨[], _, _, rest, rfl, rfl, .short, set, rfl, reached⟩
      | @full kind head given marks body name? _ _ own name definitions directives set =>
          cases step
          exact ⟨.name kind.keyword :: (head ++ (given ++ marks)), body, own, rest, rfl, by simp,
            .full ⟨kind, name?, _, _, own⟩ name definitions directives, set, rfl, reached⟩
  | fragment derived =>
      obtain ⟨name, type, directives, set⟩ := derived
      cases step
      exact ⟨.name "fragment" :: .name name :: .name "on" :: .name type :: _, _, _, rest, rfl, rfl,
        .fragment ⟨name, type, _, _⟩ directives, set, rfl, reached⟩

/-- A definition fails where its selection set does. -/
theorem read_headed {head tail : List Token} {owner : Definition} {failure : Failure NodeKind}
    (headed : HeadDerives head owner) (opens : tail.head? = some .braceOpen)
    (fails : ∀ kind, Scan.of (Selection.readRequired kind) tail = .error failure) :
    Scan.of read (head ++ tail) = .error failure := by
  have noDirective : Directive.Follows tail.head? := by grind [Directive.Follows]
  rw [scan_read]
  cases headed with
  | short =>
      rw [List.nil_append, Scan.refuse, opens, if_neg (by decide),
        Scan.choose_other _ _ (by simp [opens])]
      refine Scan.bind_error ?_
      rw [Operation.scan_read, Scan.choose, if_pos (by simpa using opens)]
      exact Scan.bind_error (fails _)
  | @full owner name given marks named definitions directives =>
      have afterMarks : Ahead _ (· = some .braceOpen) (marks ++ tail).head? :=
        Predictive.ahead Directive.predictive_readAll directives opens
      have afterGiven :=
        Predictive.ahead VariableDefinition.predictive_readAll definitions afterMarks
      have noDefinition : (marks ++ tail).head? ≠ some .parenOpen := by grind [Ahead]
      have noName (word : String) : (given ++ (marks ++ tail)).head? ≠ some (.name word) := by
        grind [Ahead]
      have operation : Scan.of Operation.readFull
          (.name owner.kind.keyword :: (name ++ (given ++ (marks ++ tail)))) = .error failure := by
        rw [Operation.scan_readFull, Scan.bind_ok (Scan.take_eq_ok.mpr
          ⟨_, rfl, OperationKind.word?_eq_some.mpr rfl⟩),
          Predictive.bind_append Operation.predictive_scanName named noName,
          Predictive.bind_append VariableDefinition.predictive_readAll definitions noDefinition,
          Predictive.bind_append Directive.predictive_readAll directives noDirective]
        exact Scan.bind_error (fails _)
      obtain ⟨starts, other, -⟩ := starts_of_operation (.inr ⟨owner.kind, rfl⟩)
      rw [List.cons_append, List.append_assoc, List.append_assoc, Scan.refuse, List.head?_cons,
        starts, if_neg (by decide), Scan.choose, if_neg (by simpa using other)]
      refine Scan.bind_error ?_
      rw [Operation.scan_read, Scan.choose_other _ _ (by simp)]
      exact operation
  | @fragment owner marks directives =>
      have fragment : Scan.of Fragment.read (.name "fragment" :: .name owner.name :: .name "on" ::
          .name owner.typeCondition :: (marks ++ tail)) = .error failure := by
        rw [Fragment.scan_read, Scan.exactly_bind, Scan.name_bind, Scan.exactly_bind,
          Scan.name_bind,
          Predictive.bind_append Directive.predictive_readAll directives noDirective]
        exact Scan.bind_error (fails _)
      rw [Scan.refuse, if_neg (by simp [starts]), Scan.choose, if_pos (by simp)]
      exact Scan.bind_error fragment

end Definition

namespace Document

/-- What is around a selection set of a document. Of the definition that owns the set, only what
comes before its own selection set is looked at. -/
structure Surroundings where
  firsts : List Definition
  owner : Definition
  inner : Selection.Surroundings
  lasts : List Definition

namespace Surroundings

def fill (surroundings : Surroundings) (selections : List Selection) : Document where
  definitions := surroundings.firsts ++
    surroundings.owner.withSelections (surroundings.inner.fill selections) :: surroundings.lasts

def path (surroundings : Surroundings) : Path :=
  .ofSegments (.index surroundings.firsts.length :: .selectionSet :: surroundings.inner.steps)

inductive Derives : List Token → List Token → Surroundings → Prop
  | intro (surroundings : Surroundings) {left head before after right : List Token} :
      Many Definition.Derives left surroundings.firsts →
        Definition.HeadDerives head surroundings.owner →
          Selection.Surroundings.Derives before after surroundings.inner →
            Many Definition.Derives right surroundings.lasts →
              Derives (left ++ (head ++ before)) (after ++ right) surroundings

variable {before after word : List Token} {surroundings : Surroundings}

theorem derives_fill (around : Derives before after surroundings) {selections : List Selection}
    (set : Selection.SetDerives word selections) :
    Document.Derives (before ++ (word ++ after)) (surroundings.fill selections) := by
  obtain @⟨_, left, head, before, after, right, firsts, headed, inner, lasts⟩ := around
  have owner := headed.derives (Selection.Surroundings.derives_fill inner set)
  have whole := firsts.append (.cons owner lasts)
  simpa [Document.Derives, fill] using whole

theorem follow_fill (around : Derives before after surroundings) (selections : List Selection) :
    (Root.document (surroundings.fill selections)).follow? surroundings.path =
      some (.selectionSet selections) := by
  obtain ⟨_, -, -, inner, -⟩ := around
  have member : Root.child? (.document (surroundings.fill selections))
      (.index surroundings.firsts.length) =
        some (.ofDefinition
          (surroundings.owner.withSelections (surroundings.inner.fill selections))) := by
    simp [Root.child?, fill]
  have owned : Root.child? (.ofDefinition
      (surroundings.owner.withSelections (surroundings.inner.fill selections))) .selectionSet =
        some (.selectionSet (surroundings.inner.fill selections)) := by
    cases surroundings.owner <;> rfl
  rw [Root.follow?, path, Path.segments_ofSegments]
  show List.foldlM Root.child? (.document (surroundings.fill selections)) _ = _
  exact Root.foldlM_child?_cons.mpr ⟨_, member, Root.foldlM_child?_cons.mpr
    ⟨_, owned, Selection.Surroundings.follow_fill inner selections⟩⟩

/-- Definitions fail where one after the others does. -/
theorem whole_fails {left tail : List Token} {firsts : List Definition} {failure : Failure NodeKind}
    (many : Many Definition.Derives left firsts) (some : tail ≠ [])
    (fails : Scan.of Definition.read tail = .error failure) :
    Scan.whole readDefinitions (left ++ tail) = .error failure := by
  induction many with
  | nil =>
      rw [whole_readDefinitions, Scan.choose, if_pos (by simp [some])]
      exact Scan.bind_error fails
  | cons derived _ ih =>
      rw [whole_readDefinitions, Scan.choose, if_pos (by simp [some]), List.append_assoc,
        Predictive.bind_append Definition.predictive_read derived trivial]
      exact Scan.bind_error ih

/-- A document fails where a selection set in it does. -/
theorem read_fails (around : Derives before after surroundings)
    (opens : word.head? = some .braceOpen) {cause : NodeKind} {lost : List Token}
    (fails : ∀ kind rest,
      Scan.of (Selection.readRequired kind) (word ++ rest) = .error ⟨cause, lost ++ rest⟩) :
    read (before ++ (word ++ after)) = .error ⟨cause, lost ++ after⟩ := by
  obtain @⟨_, left, head, before, after, right, firsts, headed, inner, -⟩ := around
  have set (kind : NodeKind) :=
    Selection.Surroundings.readRequired_fails inner opens fails kind right
  have first := inner.head? opens (after ++ right)
  have owner := Definition.read_headed headed first set
  have some : head ++ (before ++ (word ++ (after ++ right))) ≠ [] := by
    intro none
    rw [(List.append_eq_nil_iff.mp none).2] at first
    cases first
  have whole := whole_fails firsts some owner
  rw [read_eq_map, List.append_assoc, List.append_assoc, Scan.whole_eq_error.mp whole]
  rfl

end Surroundings

/-- A selection set of a document that is read from tokens: the path to it, what is around it, the
tokens before it, its own tokens, which may be none, and the tokens after it. -/
structure Occurs (document : Document) (tokens : List Token) (path : Path)
    (surroundings : Surroundings) (before word after : List Token)
    (selections : List Selection) : Prop where
  around : surroundings.Derives before after
  spelled : Selection.OptionalDerives word selections
  tokens_eq : tokens = before ++ (word ++ after)
  document_eq : document = surroundings.fill selections
  path_eq : path = surroundings.path

/-- Every selection set of a document that is read occurs in it. -/
theorem exists_occurs {document : Document} {tokens : List Token}
    (derived : Derives tokens document) {path : Path} {selections : List Selection}
    (reached : (Root.document document).follow? path = some (.selectionSet selections)) :
    ∃ surroundings before word after,
      Occurs document tokens path surroundings before word after selections := by
  replace reached : path.segments.foldlM Root.child? (.document document) =
    some (.selectionSet selections) := reached
  cases steps : path.segments with
  | nil =>
      rw [steps] at reached
      cases reached
  | cons segment rest =>
      rw [steps] at reached
      obtain ⟨next, step, onward⟩ := Root.foldlM_child?_cons.mp reached
      obtain ⟨place, owner, rfl, member, rfl⟩ := Root.child?_document step
      obtain ⟨definitions⟩ := document
      obtain ⟨left, middle, right, firsts, lasts, rfl, rfl, rfl, firstOnes, here, lastOnes⟩ :=
        derived.split member
      obtain ⟨head, body, own, others, rfl, rfl, headed, set, same, inside⟩ := here.headed onward
      obtain ⟨inner, before, hole, after, around, rfl, spelled, filled, rfl⟩ :=
        Selection.exists_surroundings (.present set) inside
      refine ⟨⟨firsts, owner, inner, lasts⟩, _, hole, _, .intro _ firstOnes headed around lastOnes,
        spelled, by simp, ?_, ?_⟩
      · rw [Surroundings.fill, filled, same]
      · rw [Surroundings.path, ← steps, Path.ofSegments_segments]

end Document

end QueryCheck
