import QueryCheck.Proofs.Syntax.Variables
import QueryCheck.Proofs.Validation.Problems

/-!
# Variables that operations define

An operation has to define the variables in its arguments and in those of the fragments
that spreads lead to. This is said here of the syntax alone. The main result is that the
rule on undefined variables accepts a document if and only if its operations define
these variables, apart from those in the directives of spreads, which the rule does not
see. So a document that it accepts can use an undefined variable there.
-/

namespace QueryCheck

/-! ## Arguments in selections -/

namespace Selection

/-- A selection is another one or stands inside of it. -/
inductive Within : Selection → Selection → Prop where
  | self (selection : Selection) : Within selection selection
  | field {field : Field} {child inner : Selection} (member : child ∈ field.selections)
      (within : Within child inner) : Within (.field field) inner
  | inline {fragment : InlineFragment} {child inner : Selection}
      (member : child ∈ fragment.selections) (within : Within child inner) :
      Within (.inline fragment) inner

def isSpread : Selection → Bool
  | spread _ => true
  | _ => false

def directives : Selection → List Directive
  | field selected => selected.directives
  | spread used => used.directives
  | inline used => used.directives

def arguments : Selection → List Argument
  | field selected => selected.arguments
  | _ => []

def Gives (selection : Selection) (argument : Argument) : Prop :=
  argument ∈ selection.arguments ∨
    ∃ directive ∈ selection.directives, argument ∈ directive.arguments

theorem within_field {field : Field} {inner : Selection} :
    Within (.field field) inner ↔
      inner = .field field ∨ ∃ child ∈ field.selections, child.Within inner := by
  constructor
  · intro within
    cases within with
    | self => exact .inl rfl
    | field member within => exact .inr ⟨_, member, within⟩
  · rintro (rfl | ⟨child, member, within⟩)
    · exact .self _
    · exact .field member within

theorem within_spread {spread : FragmentSpread} {inner : Selection} :
    Within (.spread spread) inner ↔ inner = .spread spread := by
  constructor
  · intro within
    cases within
    rfl
  · rintro rfl
    exact .self _

theorem within_inline {fragment : InlineFragment} {inner : Selection} :
    Within (.inline fragment) inner ↔
      inner = .inline fragment ∨ ∃ child ∈ fragment.selections, child.Within inner := by
  constructor
  · intro within
    cases within with
    | self => exact .inl rfl
    | inline member within => exact .inr ⟨_, member, within⟩
  · rintro (rfl | ⟨child, member, within⟩)
    · exact .self _
    · exact .inline member within

end Selection

/-- The directives and selections of an operation or a fragment. -/
structure Body where
  directives : List Directive
  selections : List Selection
deriving DecidableEq, Repr

def Operation.body (operation : Operation) : Body :=
  ⟨operation.directives, operation.selections⟩

def Fragment.body (fragment : Fragment) : Body :=
  ⟨fragment.directives, fragment.selections⟩

def Definition.body : Definition → Body
  | operation defined => defined.body
  | fragment defined => defined.body

namespace Body

/-- A selection stands in a body, at any depth. -/
def Selects (body : Body) (inner : Selection) : Prop :=
  ∃ outer ∈ body.selections, outer.Within inner

/-- An argument is given in a body, but not to a directive of a spread. -/
def Gives (body : Body) (argument : Argument) : Prop :=
  (∃ directive ∈ body.directives, argument ∈ directive.arguments) ∨
    ∃ inner, body.Selects inner ∧ inner.isSpread = false ∧ inner.Gives argument

/-- An argument is given to a directive of a spread. -/
def GivesAtSpread (body : Body) (argument : Argument) : Prop :=
  ∃ inner, body.Selects inner ∧ inner.isSpread = true ∧ inner.Gives argument

def GivesAnywhere (body : Body) (argument : Argument) : Prop :=
  (∃ directive ∈ body.directives, argument ∈ directive.arguments) ∨
    ∃ inner, body.Selects inner ∧ inner.Gives argument

theorem givesAnywhere_iff {body : Body} {argument : Argument} :
    body.GivesAnywhere argument ↔ body.Gives argument ∨ body.GivesAtSpread argument := by
  constructor
  · rintro (directive | ⟨inner, selects, gives⟩)
    · exact .inl (.inl directive)
    · cases isSpread : inner.isSpread with
      | false => exact .inl (.inr ⟨inner, selects, isSpread, gives⟩)
      | true => exact .inr ⟨inner, selects, isSpread, gives⟩
  · rintro ((directive | ⟨inner, selects, _, gives⟩) | ⟨inner, selects, _, gives⟩)
    · exact .inl directive
    · exact .inr ⟨inner, selects, gives⟩
    · exact .inr ⟨inner, selects, gives⟩

end Body

/-! ## Variables that are used -/

namespace Document

/-- The first fragment with a name. -/
def fragment? (document : Document) (name : String) : Option Fragment :=
  document.fragments.find? (·.name = name)

/-- A fragment that spreads lead to from a body. A name stands for the first fragment that has
it. -/
inductive Reaches (document : Document) (body : Body) : Fragment → Prop where
  | spread {spread : FragmentSpread} {fragment : Fragment} (selects : body.Selects (.spread spread))
      (found : document.fragment? spread.name = some fragment) : Reaches document body fragment
  | onward {fragment next : Fragment} {spread : FragmentSpread}
      (reaches : Reaches document body fragment) (selects : fragment.body.Selects (.spread spread))
      (found : document.fragment? spread.name = some next) : Reaches document body next

theorem Reaches.mem_fragments {document : Document} {body : Body} {fragment : Fragment}
    (reaches : document.Reaches body fragment) : fragment ∈ document.fragments := by
  cases reaches with
  | spread _ found => exact List.mem_of_find?_eq_some found
  | onward _ _ found => exact List.mem_of_find?_eq_some found

/-- The bodies that belong to an operation: its own and those of the fragments it reaches. -/
def Covers (document : Document) (operation : Operation) (body : Body) : Prop :=
  body = operation.body ∨
    ∃ fragment, document.Reaches operation.body fragment ∧ body = fragment.body

/-- Each operation defines the variables in the arguments that are given in one of its bodies. -/
def Defines (gives : Body → Argument → Prop) (document : Document) : Prop :=
  ∀ operation ∈ document.operations, ∀ body, document.Covers operation body →
    ∀ argument, gives body argument → ∀ name, argument.value.Mentions name →
      ∃ definition ∈ operation.variableDefinitions, definition.name = name

theorem defines_givesAnywhere_iff (document : Document) :
    document.Defines Body.GivesAnywhere ↔
      document.Defines Body.Gives ∧ document.Defines Body.GivesAtSpread := by
  constructor
  · intro defines
    constructor
    · intro operation isOperation body covers argument gives
      exact defines operation isOperation body covers argument
        (Body.givesAnywhere_iff.mpr (.inl gives))
    · intro operation isOperation body covers argument gives
      exact defines operation isOperation body covers argument
        (Body.givesAnywhere_iff.mpr (.inr gives))
  · rintro ⟨elsewhere, atSpread⟩ operation isOperation body covers argument gives
    rcases Body.givesAnywhere_iff.mp gives with gives | gives
    · exact elsewhere operation isOperation body covers argument gives
    · exact atSpread operation isOperation body covers argument gives

end Document

/-! ## What the rule looks at -/

namespace NoUndefinedVariables

def directiveNodes (directives : List Directive) : List Node :=
  directives.flatMap fun directive => .directive directive :: directive.arguments.map .argument

/-- The nodes of a selection that are not in selections inside of it. -/
def topNodes : Selection → List Node
  | .field field =>
      .field field :: (field.arguments.map .argument ++ directiveNodes field.directives ++
        [.selectionSet field.selections])
  | .spread spread => [.spread spread]
  | .inline fragment =>
      .inline fragment ::
        (directiveNodes fragment.directives ++ [.selectionSet fragment.selections])

theorem nodes_ofArguments (path : Path) (arguments : List Argument) :
    (Outline.ofArguments path arguments).flatMap (Outline.nodes hidden) =
      arguments.map .argument := by
  rw [Outline.ofArguments, Outline.flatMap_nodes_ofMembers Outline.nodes_ofArgument path .root,
    List.map_eq_flatMap]
  rfl

theorem nodes_ofDirectives (path : Path) (directives : List Directive) :
    (Outline.ofDirectives path directives).flatMap (Outline.nodes hidden) =
      directiveNodes directives := by
  have each (directive : Directive) : Outline.nodes hidden (Outline.ofDirective .root directive) =
      .directive directive :: directive.arguments.map .argument := by
    rw [Outline.ofDirective, Outline.nodes_branch, nodes_ofArguments]
    rfl
  rw [Outline.ofDirectives, Outline.flatMap_nodes_ofMembers Outline.nodes_ofDirective path .root]
  simp only [each]
  rfl

variable {node : Node}

theorem exists_within_iff {top : Selection} {children : List Selection} :
    (∃ inner, (inner = top ∨ ∃ child ∈ children, child.Within inner) ∧ node ∈ topNodes inner) ↔
      node ∈ topNodes top ∨
        ∃ outer ∈ children, ∃ inner, outer.Within inner ∧ node ∈ topNodes inner := by
  constructor
  · rintro ⟨inner, rfl | ⟨child, member, within⟩, isNode⟩
    · exact .inl isNode
    · exact .inr ⟨child, member, inner, within, isNode⟩
  · rintro (isNode | ⟨child, member, inner, within, isNode⟩)
    · exact ⟨top, .inl rfl, isNode⟩
    · exact ⟨inner, .inr ⟨child, member, within⟩, isNode⟩

mutual

/-- The nodes of a selection are those of the selections in it. -/
theorem mem_nodes_ofSelection (path : Path) : (selection : Selection) →
    (node ∈ Outline.nodes hidden (Outline.ofSelection path selection) ↔
      ∃ inner, selection.Within inner ∧ node ∈ topNodes inner)
  | .field ⟨alias?, name, arguments, directives, selections⟩ => by
      simp only [Selection.within_field, exists_within_iff,
        ← mem_nodes_ofSelections (path.push .selectionSet) 0 selections]
      rw [Outline.ofSelection, Outline.ofField, Outline.nodes_branch]
      simp only [hidden, Bool.false_eq_true, if_false, List.flatMap_append, nodes_ofArguments,
        nodes_ofDirectives, List.flatMap_singleton, Outline.nodes_branch, topNodes, List.mem_cons,
        List.mem_append, List.not_mem_nil, or_false, or_assoc]
  | .spread spread => by
      rw [Outline.ofSelection, Outline.ofSpread, Outline.nodes_branch]
      simp only [Selection.within_spread, exists_eq_left]
      rfl
  | .inline ⟨typeCondition?, directives, selections⟩ => by
      simp only [Selection.within_inline, exists_within_iff,
        ← mem_nodes_ofSelections (path.push .selectionSet) 0 selections]
      rw [Outline.ofSelection, Outline.ofInline, Outline.nodes_branch]
      simp only [hidden, Bool.false_eq_true, if_false, List.flatMap_append, nodes_ofDirectives,
        List.flatMap_singleton, Outline.nodes_branch, topNodes, List.mem_cons, List.mem_append,
        List.not_mem_nil, or_false, or_assoc]

theorem mem_nodes_ofSelections (path : Path) (place : Nat) : (selections : List Selection) →
    (node ∈ (Outline.ofSelections path place selections).flatMap (Outline.nodes hidden) ↔
      ∃ outer ∈ selections, ∃ inner, outer.Within inner ∧ node ∈ topNodes inner)
  | [] => by simp [Outline.ofSelections]
  | selection :: selections => by
      rw [Outline.ofSelections, List.flatMap_cons, List.mem_append,
        mem_nodes_ofSelection (path.push (.index place)) selection,
        mem_nodes_ofSelections path (place + 1) selections, List.exists_mem_cons_iff]

end

theorem nodes_ofSelectionSet (path : Path) (selections : List Selection) :
    Outline.nodes hidden (Outline.ofSelectionSet path selections) =
      .selectionSet selections ::
        (Outline.ofSelections path 0 selections).flatMap (Outline.nodes hidden) := by
  rw [Outline.ofSelectionSet, Outline.nodes_branch]
  rfl

theorem looked_operation (operation : Operation) :
    looked (.operation operation) =
      operation.variableDefinitions.map .variableDefinition ++
        directiveNodes operation.directives ++
        Outline.nodes hidden
          (Outline.ofSelectionSet (Path.root.push .selectionSet) operation.selections) := by
  have variablesOnly : (Outline.ofVariableDefinitions (Path.root.push .variableDefinitions)
      operation.variableDefinitions).flatMap (Outline.nodes hidden) =
        operation.variableDefinitions.map .variableDefinition := by
    rw [Outline.ofVariableDefinitions, Outline.flatMap_nodes_ofMembers
      Outline.nodes_ofVariableDefinition _ .root, List.map_eq_flatMap]
    rfl
  rw [← variablesOnly, ← nodes_ofDirectives (Path.root.push .directives), looked,
    Outline.ofDefinition, Outline.ofOperation, Outline.children, List.flatMap_append,
    List.flatMap_append, List.flatMap_singleton]

theorem looked_fragment (fragment : Fragment) :
    looked (.fragment fragment) =
      directiveNodes fragment.directives ++
        Outline.nodes hidden
          (Outline.ofSelectionSet (Path.root.push .selectionSet) fragment.selections) := by
  rw [← nodes_ofDirectives (Path.root.push .directives), looked, Outline.ofDefinition,
    Outline.ofFragment, Outline.children, List.flatMap_append, List.flatMap_singleton]

/-- Apart from definitions of variables and selection sets, the rule looks at the nodes of the
body of a definition. -/
theorem mem_looked_iff {definition : Definition} (isVariable : node.kind ≠ .variableDefinition)
    (isSet : node.kind ≠ .selectionSet) :
    node ∈ looked definition ↔
      node ∈ directiveNodes definition.body.directives ∨
        ∃ inner, definition.body.Selects inner ∧ node ∈ topNodes inner := by
  have selected (selections : List Selection) :
      node ∈ Outline.nodes hidden
          (Outline.ofSelectionSet (Path.root.push .selectionSet) selections) ↔
        ∃ inner, (∃ outer ∈ selections, outer.Within inner) ∧ node ∈ topNodes inner := by
    rw [nodes_ofSelectionSet, List.mem_cons, mem_nodes_ofSelections]
    constructor
    · rintro (rfl | ⟨outer, isOuter, inner, within, isNode⟩)
      · exact absurd rfl isSet
      · exact ⟨inner, ⟨outer, isOuter, within⟩, isNode⟩
    · rintro ⟨inner, ⟨outer, isOuter, within⟩, isNode⟩
      exact .inr ⟨outer, isOuter, inner, within, isNode⟩
  cases definition with
  | operation operation =>
      have noVariable : node ∉ operation.variableDefinitions.map Node.variableDefinition := by
        intro member
        obtain ⟨defined, _, rfl⟩ := List.mem_map.mp member
        exact isVariable rfl
      rw [looked_operation, List.mem_append, List.mem_append, selected, or_iff_right noVariable]
      rfl
  | fragment fragment =>
      rw [looked_fragment, List.mem_append, selected]
      rfl

theorem argument_mem_directiveNodes {argument : Argument} {directives : List Directive} :
    .argument argument ∈ directiveNodes directives ↔
      ∃ directive ∈ directives, argument ∈ directive.arguments := by
  simp [directiveNodes]

theorem argument_mem_topNodes {argument : Argument} {selection : Selection} :
    .argument argument ∈ topNodes selection ↔
      selection.isSpread = false ∧ selection.Gives argument := by
  cases selection <;>
    simp [topNodes, argument_mem_directiveNodes, Selection.isSpread, Selection.Gives,
      Selection.arguments, Selection.directives]

theorem spread_mem_topNodes {spread : FragmentSpread} {selection : Selection} :
    .spread spread ∈ topNodes selection ↔ selection = .spread spread := by
  cases selection <;> simp [topNodes, directiveNodes, eq_comm]

theorem argument_mem_looked {argument : Argument} {definition : Definition} :
    .argument argument ∈ looked definition ↔ definition.body.Gives argument := by
  have looks : Node.argument argument ∈ looked definition ↔ _ := mem_looked_iff nofun nofun
  simp only [looks, argument_mem_directiveNodes, argument_mem_topNodes]
  rfl

theorem spread_mem_looked {spread : FragmentSpread} {definition : Definition} :
    .spread spread ∈ looked definition ↔ definition.body.Selects (.spread spread) := by
  have looks : Node.spread spread ∈ looked definition ↔ _ := mem_looked_iff nofun nofun
  simp [looks, spread_mem_topNodes, directiveNodes]

/-- The variables that the rule sees in a definition. -/
theorem mem_variablesIn {name : String} {definition : Definition} :
    name ∈ variablesIn definition ↔
      ∃ argument, definition.body.Gives argument ∧ argument.value.Mentions name := by
  rw [variablesIn, List.mem_flatMap]
  constructor
  · rintro ⟨node, isLooked, member⟩
    cases node with
    | argument argument =>
        exact ⟨argument, argument_mem_looked.mp isLooked, Value.mem_variableNames_iff.mp member⟩
    | _ => cases member
  · rintro ⟨argument, gives, mentions⟩
    exact ⟨.argument argument, argument_mem_looked.mpr gives,
      Value.mem_variableNames_iff.mpr mentions⟩

/-- The fragments that are spread in a definition. -/
theorem mem_spreadsIn {name : String} {definition : Definition} :
    name ∈ spreadsIn definition ↔
      ∃ spread, definition.body.Selects (.spread spread) ∧ spread.name = name := by
  rw [spreadsIn, List.mem_filterMap]
  constructor
  · rintro ⟨node, isLooked, named⟩
    cases node with
    | spread spread => exact ⟨spread, spread_mem_looked.mp isLooked, Option.some.inj named⟩
    | _ => cases named
  · rintro ⟨spread, selects, rfl⟩
    exact ⟨.spread spread, spread_mem_looked.mpr selects, rfl⟩

/-- The search finds the fragments that the operation reaches. -/
theorem reached_iff {document : Document} {operation : Operation} {uses : FragmentUses} :
    Reached (table document) (spreadsIn (.operation operation)) uses ↔
      ∃ fragment, document.Reaches operation.body fragment ∧
        uses = fragmentUses .root fragment := by
  constructor
  · intro reached
    induction reached with
    | named member found =>
        obtain ⟨spread, selects, rfl⟩ := mem_spreadsIn.mp member
        rw [find?_table] at found
        obtain ⟨fragment, isFragment, rfl⟩ := Option.map_eq_some_iff.mp found
        exact ⟨fragment, .spread selects isFragment, rfl⟩
    | onward _ member found ih =>
        obtain ⟨fragment, reaches, rfl⟩ := ih
        obtain ⟨spread, selects, rfl⟩ := mem_spreadsIn.mp member
        rw [find?_table] at found
        obtain ⟨next, isNext, rfl⟩ := Option.map_eq_some_iff.mp found
        exact ⟨next, .onward reaches selects isNext, rfl⟩
  · rintro ⟨fragment, reaches, rfl⟩
    have found {name : String} {fragment : Fragment}
        (isFragment : document.fragment? name = some fragment) :
        Named.find? (table document) name = some (fragmentUses .root fragment) := by
      rw [find?_table]
      exact congrArg _ isFragment
    induction reaches with
    | spread selects isFragment =>
        exact .named (mem_spreadsIn.mpr ⟨_, selects, rfl⟩) (found isFragment)
    | onward _ selects isNext ih =>
        exact .onward ih (mem_spreadsIn.mpr ⟨_, selects, rfl⟩) (found isNext)

/-- There is no problem with variables if they are defined. -/
theorem problemsOf_eq_nil_iff {operation : Operation} {names : List String} :
    problemsOf operation names = [] ↔
      ∀ name ∈ names, ∃ definition ∈ operation.variableDefinitions, definition.name = name := by
  simp [problemsOf, VariableDefinition.declares]

theorem problemsOf_variablesIn_eq_nil_iff {operation : Operation} {definition : Definition} :
    problemsOf operation (variablesIn definition) = [] ↔
      ∀ argument, definition.body.Gives argument → ∀ name, argument.value.Mentions name →
        ∃ defined ∈ operation.variableDefinitions, defined.name = name := by
  rw [problemsOf_eq_nil_iff]
  constructor
  · intro defined argument gives name mentions
    exact defined name (mem_variablesIn.mpr ⟨argument, gives, mentions⟩)
  · intro defined name member
    obtain ⟨argument, gives, mentions⟩ := mem_variablesIn.mp member
    exact defined argument gives name mentions

theorem problemsReached_eq_nil_iff {document : Document} {operation : Operation} :
    problemsReached document operation = [] ↔
      ∀ fragment, document.Reaches operation.body fragment →
        problemsOf operation (variablesIn (.fragment fragment)) = [] := by
  rw [problemsReached, List.flatMap_eq_nil_iff]
  constructor
  · intro none fragment reaches
    have reached := mem_reach_iff.mpr (reached_iff.mpr ⟨fragment, reaches, rfl⟩)
    have bare := none _ reached
    rwa [bare_fragmentUses] at bare
  · intro none uses member
    obtain ⟨fragment, reaches, rfl⟩ := reached_iff.mp (mem_reach_iff.mp member)
    rw [bare_fragmentUses]
    exact none fragment reaches

end NoUndefinedVariables

namespace Validation

/-- The rule on undefined variables accepts a document if its operations define the variables that
are not in directives of spreads. -/
theorem isValid_iff_defines (schema : Schema) (limit? : Option Nat) (document : Document) :
    (validate schema limit? (.rule .noUndefinedVariables) document).isValid = true ↔
      document.Defines Body.Gives := by
  rw [isValid_validate_iff, problems_noUndefinedVariables, List.append_eq_nil_iff,
    List.flatMap_eq_nil_iff, List.flatMap_eq_nil_iff]
  constructor
  · rintro ⟨own, reached⟩ operation isOperation body (rfl | ⟨fragment, reaches, rfl⟩)
    · exact NoUndefinedVariables.problemsOf_variablesIn_eq_nil_iff.mp (own operation isOperation)
    · exact NoUndefinedVariables.problemsOf_variablesIn_eq_nil_iff.mp
        (NoUndefinedVariables.problemsReached_eq_nil_iff.mp (reached operation isOperation) fragment
          reaches)
  · intro defines
    constructor
    · intro operation isOperation
      exact NoUndefinedVariables.problemsOf_variablesIn_eq_nil_iff.mpr
        (defines operation isOperation _ (.inl rfl))
    · intro operation isOperation
      refine NoUndefinedVariables.problemsReached_eq_nil_iff.mpr fun fragment reaches => ?_
      exact NoUndefinedVariables.problemsOf_variablesIn_eq_nil_iff.mpr
        (defines operation isOperation _ (.inr ⟨fragment, reaches, rfl⟩))

/-- What the rule on undefined variables says about a document, and what it leaves open: that the
operations define the variables in the directives of spreads, too. -/
theorem noUndefinedVariables_iff (schema : Schema) (limit? : Option Nat) (document : Document) :
    ((validate schema limit? (.rule .noUndefinedVariables) document).isValid = true ↔
        document.Defines Body.Gives) ∧
      (document.Defines Body.GivesAnywhere ↔
        (validate schema limit? (.rule .noUndefinedVariables) document).isValid = true ∧
          document.Defines Body.GivesAtSpread) := by
  have accepts := isValid_iff_defines schema limit? document
  refine ⟨accepts, ?_⟩
  rw [accepts]
  exact document.defines_givesAnywhere_iff

def sampleFragment : Fragment :=
  ⟨"F", "Query", [], [.field ⟨none, "a", [], [], []⟩]⟩

def sampleSpread : FragmentSpread :=
  ⟨"F", [⟨"include", [⟨"if", .var "v"⟩]⟩]⟩

def sampleOperation : Operation :=
  ⟨.query, none, [], [], [.spread sampleSpread]⟩

/-- The rule accepts an operation although it does not define a variable that it uses. -/
theorem accepts_undefined_at_spread :
    (∀ schema limit?, (validate schema limit? (.rule .noUndefinedVariables)
        ⟨[.operation sampleOperation, .fragment sampleFragment]⟩).isValid = true) ∧
      ¬Document.Defines Body.GivesAnywhere
        ⟨[.operation sampleOperation, .fragment sampleFragment]⟩ := by
  constructor
  · intro schema limit?
    rw [isValid_iff_defines]
    intro operation isOperation body covers
    cases List.mem_singleton.mp isOperation
    rcases covers with rfl | ⟨fragment, reaches, rfl⟩
    · exact NoUndefinedVariables.problemsOf_variablesIn_eq_nil_iff.mp
        (rfl : NoUndefinedVariables.problemsOf sampleOperation
          (NoUndefinedVariables.variablesIn (.operation sampleOperation)) = [])
    · cases List.mem_singleton.mp reaches.mem_fragments
      exact NoUndefinedVariables.problemsOf_variablesIn_eq_nil_iff.mp
        (rfl : NoUndefinedVariables.problemsOf sampleOperation
          (NoUndefinedVariables.variablesIn (.fragment sampleFragment)) = [])
  · intro defines
    have selects : sampleOperation.body.Selects (.spread sampleSpread) :=
      ⟨_, List.mem_singleton_self _, .self _⟩
    have gives : (Selection.spread sampleSpread).Gives ⟨"if", .var "v"⟩ :=
      .inr ⟨⟨"include", [⟨"if", .var "v"⟩]⟩, List.mem_singleton_self _, List.mem_singleton_self _⟩
    obtain ⟨definition, member, _⟩ := defines sampleOperation (List.mem_singleton_self _)
      sampleOperation.body (.inl rfl) _ (.inr ⟨_, selects, gives⟩) "v" .var
    cases member

end Validation

end QueryCheck
