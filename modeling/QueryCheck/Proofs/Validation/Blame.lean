import QueryCheck.Proofs.Syntax.Variables
import QueryCheck.Proofs.Traversal.Following
import QueryCheck.Proofs.Validation.Problems

/-!
# What reports point at

Every report has a path that leads to a node of the document. That node is of the kind that
the report gives, and it has the problem that the report is about: it carries the name that is
quoted, or uses the variable, or lacks the argument.

Most rules report at the node that they are called for. The rule on known arguments goes on
from there to the arguments. The rule on undefined variables keeps the paths to arguments in
fragments until the end of the document, so all the paths in its state have to lead to
arguments with those variables.
-/

namespace QueryCheck

/-! ## Nodes that have a problem -/

namespace Problem

/-- A node has a problem: it carries the name that the message quotes. For an undefined variable
this is an argument that uses it, and for a missing argument the node to which it is not given. -/
def Blames : Problem → Node → Prop
  | anonymousOperation, .operation operation => operation.name? = none
  | repeatedOperation name, .operation operation => operation.name? = some name
  | repeatedFragment name, .fragment fragment => fragment.name = name
  | unknownFragment name, .spread spread => spread.name = name
  | repeatedArgument name, .argument argument => argument.name = name
  | repeatedVariable name, .variableDefinition definition => definition.name = name
  | undefinedVariable name _, .argument argument => argument.value.Mentions name
  | unknownField name _, .field field => field.name = name
  | unknownFieldArgument name _ _, .argument argument => argument.name = name
  | unknownDirectiveArgument name _, .argument argument => argument.name = name
  | unknownDirective name, .directive directive => directive.name = name
  | misplacedDirective name _, .directive directive => directive.name = name
  | missingFieldArgument name missing _, .field field =>
      field.name = name ∧ ∀ argument ∈ field.arguments, argument.name ≠ missing
  | missingDirectiveArgument name missing _, .directive directive =>
      directive.name = name ∧ ∀ argument ∈ directive.arguments, argument.name ≠ missing
  | _, _ => False

/-- A problem is one of nodes of its kind. -/
theorem kind_of_blames {problem : Problem} {node : Node} (blames : problem.Blames node) :
    node.kind = problem.kind := by
  unfold Blames at blames
  split at blames
  case h_15 => cases blames
  all_goals rfl

end Problem

/-- The path of a finding leads to a node that has the problem. -/
def Finding.Points (document : Document) (finding : Finding) : Prop :=
  ∃ node, (Root.document document).follow? finding.path = some (.ofNode node) ∧
    finding.problem.Blames node

def VariableUse.Points (document : Document) (use : VariableUse) : Prop :=
  ∃ argument, (Root.document document).follow? use.path = some (.ofNode (.argument argument)) ∧
    argument.value.Mentions use.name

/-! ## Rules that report at the node they are called for -/

/-- A rule reports at the node it is called for, which has the problem. -/
def Pinpoints {σ : Type} (visitor : Visitor σ Finding) : Prop :=
  ∀ event state, ∀ finding ∈ (visitor event state).out,
    finding.path = event.path ∧ finding.problem.Blames event.node

theorem Pinpoints.points {σ : Type} {visitor : Visitor σ Finding} (pinpoints : Pinpoints visitor)
    {document : Document} {event : Event} {state : σ} {finding : Finding}
    (located : (Root.document document).follow? event.path = some (.ofNode event.node))
    (member : finding ∈ (visitor event state).out) : finding.Points document := by
  obtain ⟨same, blames⟩ := pinpoints event state finding member
  rw [← same] at located
  exact ⟨event.node, located, blames⟩

theorem UsedNames.eq_of_mem_useAndSkip {used : List String} {name : String} {problem : Problem}
    {path : Path} {finding : Finding}
    (member : finding ∈ (useAndSkip used name problem path).out) : finding = ⟨problem, path⟩ := by
  simp only [useAndSkip, use] at member
  split at member
  · exact List.mem_singleton.mp member
  · cases member

theorem LoneAnonymousOperation.pinpoints : Pinpoints visitor := by
  intro event count finding member
  unfold visitor at member
  split at member
  case h_2 operation path count =>
    split at member
    case isTrue anonymous =>
      cases List.mem_singleton.mp member
      simp only [Bool.and_eq_true, Option.isNone_iff_eq_none] at anonymous
      exact ⟨rfl, anonymous.1⟩
    case isFalse => cases member
  all_goals cases member

theorem UniqueOperationNames.pinpoints : Pinpoints visitor := by
  intro event used finding member
  unfold visitor at member
  split at member
  case h_2 operation path used =>
    split at member
    case h_1 name named =>
      cases UsedNames.eq_of_mem_useAndSkip member
      exact ⟨rfl, named⟩
    case h_2 => cases member
  all_goals cases member

theorem UniqueFragmentNames.pinpoints : Pinpoints visitor := by
  intro event used finding member
  unfold visitor at member
  split at member
  case h_2 =>
    cases UsedNames.eq_of_mem_useAndSkip member
    exact ⟨rfl, rfl⟩
  all_goals cases member

theorem KnownFragmentNames.pinpoints : Pinpoints visitor := by
  intro event known finding member
  unfold visitor at member
  split at member
  case h_2 spread path known =>
    cases Finding.eq_of_mem_unless member
    exact ⟨rfl, rfl⟩
  all_goals cases member

theorem UniqueArgumentNames.pinpoints : Pinpoints visitor := by
  intro event used finding member
  unfold visitor at member
  split at member
  case h_3 =>
    cases UsedNames.eq_of_mem_useAndSkip member
    exact ⟨rfl, rfl⟩
  all_goals cases member

theorem UniqueVariableNames.pinpoints : Pinpoints visitor := by
  intro event used finding member
  unfold visitor at member
  split at member
  case h_2 =>
    cases UsedNames.eq_of_mem_useAndSkip member
    exact ⟨rfl, rfl⟩
  all_goals cases member

theorem FieldsOnCorrectType.pinpoints (types : TypeInfo) : Pinpoints (visitor types) := by
  intro event state finding member
  unfold visitor at member
  split at member
  case h_1 field path _ =>
    simp only [onField] at member
    split at member
    · cases Finding.eq_of_mem_unless member
      exact ⟨rfl, rfl⟩
    · cases member
  case h_2 => cases member

theorem KnownDirectives.pinpoints (types : TypeInfo) : Pinpoints (visitor types) := by
  intro event locations finding member
  unfold visitor at member
  split at member
  case h_2 directive path locations =>
    simp only [onDirective] at member
    split at member
    · cases List.mem_singleton.mp member
      exact ⟨rfl, rfl⟩
    · split at member
      · cases member
      · cases Finding.eq_of_mem_unless member
        exact ⟨rfl, rfl⟩
  all_goals cases member

namespace ProvidedNonNullArguments

/-- An argument is missing only where none of its name is given. -/
theorem absent_of_mem_missing {definitions : List InputValueDefinition} {arguments : List Argument}
    {definition : InputValueDefinition} (member : definition ∈ missing definitions arguments) :
    ∀ argument ∈ arguments, argument.name ≠ definition.name := by
  have conditions := (List.mem_filter.mp member).2
  simp only [Argument.get?, Bool.and_eq_true, Option.isNone_map, Option.isNone_iff_eq_none,
    List.find?_eq_none, decide_eq_true_eq] at conditions
  exact conditions.2

theorem pinpoints (types : TypeInfo) : Pinpoints (visitor types) := by
  intro event state finding member
  unfold visitor at member
  split at member
  case h_1 field path _ =>
    simp only [onField] at member
    split at member
    · obtain ⟨argument, lacking, rfl⟩ := List.mem_map.mp member
      exact ⟨rfl, rfl, absent_of_mem_missing lacking⟩
    · cases member
  case h_2 directive path _ =>
    simp only [onDirective] at member
    split at member
    · obtain ⟨argument, lacking, rfl⟩ := List.mem_map.mp member
      exact ⟨rfl, rfl, absent_of_mem_missing lacking⟩
    · cases member
  case h_3 => cases member

end ProvidedNonNullArguments

/-! ## Rules that report elsewhere -/

namespace KnownArgumentNames

theorem exists_of_mem_unknown {isKnown : String → Bool} {problem : String → Problem} {path : Path}
    {place : Nat} {arguments : List Argument} {finding : Finding}
    (member : finding ∈ unknown isKnown problem path place arguments) :
    ∃ index argument, arguments[index]? = some argument ∧
      finding = ⟨problem argument.name, path.push (.index (place + index))⟩ := by
  induction arguments generalizing place with
  | nil => cases member
  | cons argument arguments ih =>
      rw [unknown] at member
      rcases List.mem_append.mp member with first | rest
      · exact ⟨0, argument, rfl, Finding.eq_of_mem_unless first⟩
      · obtain ⟨index, later, found, same⟩ := ih rest
        refine ⟨index + 1, later, found, ?_⟩
        rw [same, Nat.add_assoc, Nat.add_comm 1 index]

/-- What is found among the arguments of a node points at one of them. -/
theorem points_of_mem_unknown {document : Document} {isKnown : String → Bool}
    {problem : String → Problem} {path : Path} {node : Node} {arguments : List Argument}
    {finding : Finding} (located : (Root.document document).follow? path = some (.ofNode node))
    (owns : (Root.ofNode node).child? .arguments = some (.arguments arguments))
    (blames : ∀ argument : Argument, (problem argument.name).Blames (.argument argument))
    (member : finding ∈ unknown isKnown problem (path.push .arguments) 0 arguments) :
    finding.Points document := by
  obtain ⟨index, argument, found, rfl⟩ := exists_of_mem_unknown member
  refine ⟨.argument argument, ?_, blames argument⟩
  rw [Nat.zero_add]
  exact Root.follow?_step (Root.follow?_step located owns) (congrArg (Option.map Root.argument) found)

theorem points {types : TypeInfo} {document : Document} {event : Event} {state : Unit}
    {finding : Finding}
    (located : (Root.document document).follow? event.path = some (.ofNode event.node))
    (member : finding ∈ (visitor types event state).out) : finding.Points document := by
  unfold visitor at member
  split at member
  case h_1 field path _ =>
    simp only [onField] at member
    split at member
    · refine points_of_mem_unknown located rfl ?_ member
      exact fun _ => rfl
    · cases member
  case h_2 directive path _ =>
    simp only [onDirective] at member
    split at member
    · refine points_of_mem_unknown located rfl ?_ member
      exact fun _ => rfl
    · cases member
  case h_3 => cases member

end KnownArgumentNames

namespace NoUndefinedVariables

variable {document : Document}

theorem points_of_mem_undefined {operation : Operation} {uses : List VariableUse}
    {finding : Finding} (sound : ∀ use ∈ uses, use.Points document)
    (member : finding ∈ undefined operation uses) : finding.Points document := by
  obtain ⟨use, kept, rfl⟩ := List.mem_map.mp member
  obtain ⟨argument, located, uses⟩ := sound use (List.mem_filter.mp kept).1
  exact ⟨.argument argument, located, uses⟩

theorem points_of_mem_usesOf {argument : Argument} {path : Path}
    (located : (Root.document document).follow? path = some (.ofNode (.argument argument))) :
    ∀ use ∈ usesOf argument path, use.Points document := by
  intro use member
  obtain ⟨name, uses, rfl⟩ := List.mem_map.mp member
  exact ⟨argument, located, Value.mem_variableNames_iff.mp uses⟩

structure State.Sound (document : Document) (state : State) : Prop where
  uses : ∀ use ∈ state.uses, use.Points document
  fragments : ∀ fragment ∈ state.fragments, ∀ use ∈ fragment.uses, use.Points document

theorem State.sound_start : State.start.Sound document := ⟨nofun, nofun⟩

/-- The fragments that are reached are among those in the state. -/
theorem mem_of_mem_reach {fragments : List FragmentUses} {visited names : List String}
    {fragment : FragmentUses} (member : fragment ∈ reach fragments visited names) :
    fragment ∈ fragments := by
  cases reached_of_mem_reach fragment member with
  | named _ found => exact List.mem_of_find?_eq_some found
  | onward _ _ found => exact List.mem_of_find?_eq_some found

theorem sound_state {event : Event} {state : State}
    (located : (Root.document document).follow? event.path = some (.ofNode event.node))
    (sound : state.Sound document) : (visitor event state).state.Sound document := by
  unfold visitor
  split
  case h_1 => exact State.sound_start
  case h_4 argument path state =>
    split
    · exact sound
    · refine ⟨List.forall_mem_append.mpr ⟨sound.uses, ?_⟩, sound.fragments⟩
      exact points_of_mem_usesOf located
  case h_7 fragment path state =>
    refine ⟨nofun, fun other member => ?_⟩
    rcases Named.mem_of_mem_insertNew member with before | rfl
    · exact sound.fragments other before
    · exact sound.uses
  all_goals exact ⟨sound.uses, sound.fragments⟩

theorem points {event : Event} {state : State} {finding : Finding}
    (located : (Root.document document).follow? event.path = some (.ofNode event.node))
    (sound : state.Sound document) (member : finding ∈ (visitor event state).out) :
    finding.Points document := by
  unfold visitor at member
  split at member
  case h_4 argument path state =>
    split at member
    · exact points_of_mem_undefined (points_of_mem_usesOf located) member
    · cases member
  case h_8 whole path state =>
    obtain ⟨operation, _, inOperation⟩ := List.mem_flatMap.mp member
    obtain ⟨fragment, reached, inFragment⟩ := List.mem_flatMap.mp inOperation
    exact points_of_mem_undefined (sound.fragments fragment (mem_of_mem_reach reached)) inFragment
  all_goals cases member

end NoUndefinedVariables

/-! ## All rules -/

namespace RuleState

/-- All the paths in the state of a rule lead where the rule saw them. -/
def Sound (document : Document) : RuleState → Prop
  | noUndefinedVariables state => state.Sound document
  | _ => True

variable {document : Document} {types : TypeInfo} {event : Event} {state : RuleState}

theorem sound_start (rule : Rule) : (start rule).Sound document := by
  cases rule with
  | noUndefinedVariables => exact NoUndefinedVariables.State.sound_start
  | _ => trivial

theorem sound_state
    (located : (Root.document document).follow? event.path = some (.ofNode event.node))
    (sound : state.Sound document) : (visitor types event state).state.Sound document := by
  cases state with
  | noUndefinedVariables state => exact NoUndefinedVariables.sound_state located sound
  | _ => trivial

/-- At each event of a traversal a rule reports nodes that have the problem. -/
theorem points {finding : Finding}
    (located : (Root.document document).follow? event.path = some (.ofNode event.node))
    (sound : state.Sound document) (member : finding ∈ (visitor types event state).out) :
    finding.Points document := by
  cases state with
  | loneAnonymousOperation => exact LoneAnonymousOperation.pinpoints.points located member
  | uniqueOperationNames => exact UniqueOperationNames.pinpoints.points located member
  | uniqueFragmentNames => exact UniqueFragmentNames.pinpoints.points located member
  | knownFragmentNames => exact KnownFragmentNames.pinpoints.points located member
  | uniqueArgumentNames => exact UniqueArgumentNames.pinpoints.points located member
  | uniqueVariableNames => exact UniqueVariableNames.pinpoints.points located member
  | noUndefinedVariables => exact NoUndefinedVariables.points located sound member
  | fieldsOnCorrectType =>
      exact (FieldsOnCorrectType.pinpoints types).points located member
  | knownArgumentNames => exact KnownArgumentNames.points located member
  | knownDirectives => exact (KnownDirectives.pinpoints types).points located member
  | providedNonNullArguments =>
      exact (ProvidedNonNullArguments.pinpoints types).points located member

end RuleState

namespace Validation

variable (schema : Schema) (document : Document)

theorem points_of_mem_found_rule (rule : Rule) :
    ∀ item ∈ found schema (.rule rule) document, item.2.Points document := by
  have located (event : Event) (member : event ∈ (Outline.ofDocument document).events) :
      (Root.document document).follow? event.path = some (.ofNode event.node) :=
    Root.follow?_of_mem_events (.document document) member
  have kept : ∀ event ∈ (Outline.ofDocument document).events, ∀ state : RuleState,
      state.Sound document →
        ((ruleAt schema document).stamped event state).state.Sound document :=
    fun event member state sound => RuleState.sound_state (located event member) sound
  rw [found_rule]
  refine Run.forall_mem_rows kept ?_ (RuleState.sound_start rule)
  intro event member state sound item out
  obtain ⟨finding, isFinding, rfl⟩ := List.mem_map.mp out
  exact RuleState.points (located event member) sound isFinding

theorem points_of_mem_found {rules : RuleSet} {item : Event × Finding}
    (member : item ∈ found schema rules document) : item.2.Points document := by
  rw [found_eq_flatMap] at member
  obtain ⟨event, _, atEvent⟩ := List.mem_flatMap.mp member
  obtain ⟨rule, _, ofRule⟩ := List.mem_flatMap.mp atEvent
  exact points_of_mem_found_rule schema document rule item (List.mem_filter.mp ofRule).1

/-- With any limit, only what is found without one is reported. -/
theorem exists_found_of_mem_reports {limit? : Option Nat} {rules : RuleSet} {report : Diagnostic}
    (member : report ∈ (validate schema limit? rules document).reports) :
    ∃ item ∈ found schema rules document, item.2.diagnostic = report := by
  have unlimited : report ∈ (validate schema none rules document).reports := by
    cases limit? with
    | none => exact member
    | some limit =>
        have limited : validate schema (some limit) rules document = _ :=
          run_some schema limit rules.start document
        rw [limited] at member
        exact List.mem_of_mem_take member
  rw [reports_eq_found] at unlimited
  exact List.mem_map.mp unlimited

/-- A report points at a node of a document: its path leads there, the node is of the kind that
is reported, and it has the problem that the code and the message are about. -/
structure PointsAt (document : Document) (report : Diagnostic) (node : Node) : Prop where
  path : (Root.document document).follow? report.path = some (.ofNode node)
  kind : node.kind = report.kind
  problem : ∃ problem : Problem, problem.rule.code = report.code ∧
    problem.message = report.message ∧ problem.Blames node

/-- Whatever is reported about a document, with any rules and any limit, points at a node of the
document that has the problem. -/
theorem reports_point_at_nodes (limit? : Option Nat) (rules : RuleSet) :
    ∀ report ∈ (validate schema limit? rules document).reports,
      ∃ node, PointsAt document report node := by
  intro report member
  obtain ⟨⟨event, finding⟩, isFound, rfl⟩ := exists_found_of_mem_reports schema document member
  obtain ⟨node, located, blames⟩ := points_of_mem_found schema document isFound
  exact ⟨node, located, Problem.kind_of_blames blames, finding.problem, rfl, rfl, blames⟩

/-- An operation that spreads a fragment with an undefined variable in the second field. -/
def sampleSpreading : Document :=
  ⟨[.operation ⟨.query, some "Q", [], [], [.spread ⟨"G", []⟩]⟩,
    .fragment ⟨"G", "Query", [], [.field ⟨none, "a", [], [], []⟩,
      .field ⟨none, "b", [⟨"x", .list [.var "v"]⟩], [], []⟩]⟩]⟩

def sampleReport : Diagnostic :=
  ⟨"5.7.4", "Variable \"$v\" is not defined by operation \"Q\".", .argument,
    .ofSegments [.index 1, .selectionSet, .index 1, .arguments, .index 0]⟩

theorem reports_point_at_nodes_sampleSpreading :
    sampleReport ∈ (validate .empty (some 1) .all sampleSpreading).reports ∧
      ∃ node, PointsAt sampleSpreading sampleReport node := by
  have reported : sampleReport ∈ (validate .empty (some 1) .all sampleSpreading).reports := by
    decide +kernel
  exact ⟨reported, reports_point_at_nodes .empty sampleSpreading (some 1) .all _ reported⟩

end Validation

end QueryCheck
