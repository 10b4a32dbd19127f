import QueryCheck.Proofs.Validation.Problems
import QueryCheck.Proofs.Validation.TypedCheck

/-!
# The order of definitions

Whether a document is valid does not depend on the order of its definitions. If no two
fragments have the same name, the same problems are reported in any order. Otherwise
spreads may come to mean other fragments, but then the document is invalid in any
order.

Most rules look at each definition for itself, and what they find there does not
depend on its place. The rules on repeated names find each name once less than it is
used. The rule on undefined variables looks fragments up by their names.
-/

namespace QueryCheck

/-! ## Findings without paths -/

/-- What is said about nodes wherever they stand is said about a definition wherever it stands. -/
theorem Outline.map_flatMap_ofDefinition {ο β : Type} {hidden : Node → Bool} {view : ο → β}
    {say : Node × Path → List ο}
    (placeless : ∀ entry, (say entry).map view = (say (entry.1, .root)).map view)
    (path : Path) (definition : Definition) :
    (((ofDefinition path definition).shown hidden).flatMap say).map view =
      (((ofDefinition .root definition).shown hidden).flatMap say).map view := by
  have bare (outline : Outline) : ((outline.shown hidden).flatMap say).map view =
      (nodes hidden outline).flatMap fun node => (say (node, .root)).map view := by
    rw [List.map_flatMap, nodes, List.flatMap_map]
    exact List.flatMap_congr fun entry _ => placeless entry
  rw [bare, bare, nodes_ofDefinition path .root]

namespace TypedCheck

theorem map_undeclared (declared : List InputValueDefinition) (problem : String → Problem)
    (first second : Path) (arguments : List Argument) :
    (undeclared declared problem first arguments).map Finding.problem =
      (undeclared declared problem second arguments).map Finding.problem := by
  rw [undeclared, undeclared, List.map_map, List.map_map]
  rfl

theorem map_absent (declared : List InputValueDefinition)
    (problem : InputValueDefinition → Problem) (first second : Path) (arguments : List Argument) :
    (absent declared problem first arguments).map Finding.problem =
      (absent declared problem second arguments).map Finding.problem := by
  rw [absent, absent, List.map_map, List.map_map]
  rfl

theorem map_enterField (scope? : Option TypeDefinition) (first second : Path) (name : String)
    (arguments : List Argument) :
    (enterField scope? first name arguments).map Finding.problem =
      (enterField scope? second name arguments).map Finding.problem := by
  rw [enterField, enterField]
  cases scope?.filter TypeDefinition.isComposite with
  | none => rfl
  | some type =>
      dsimp only
      cases type.fields.find? (·.name = name) with
      | none =>
          dsimp only
          split
          · rfl
          · rfl
      | some definition => exact map_undeclared _ _ first second arguments

theorem map_leaveField (scope? : Option TypeDefinition) (first second : Path) (name : String)
    (arguments : List Argument) :
    (leaveField scope? first name arguments).map Finding.problem =
      (leaveField scope? second name arguments).map Finding.problem := by
  rw [leaveField, leaveField]
  cases field? scope? name with
  | none => rfl
  | some definition => exact map_absent _ _ first second arguments

variable (schema : Schema)

theorem map_ofDirective (location : DirectiveLocation) (first second : Path)
    (directive : Directive) :
    (ofDirective schema location first directive).map Finding.problem =
      (ofDirective schema location second directive).map Finding.problem := by
  rw [ofDirective, ofDirective]
  cases schema.directive? directive.name with
  | none => rfl
  | some definition =>
      simp only [List.map_append, map_undeclared _ _ first second, map_absent _ _ first second]
      split <;> rfl

theorem map_ofDirectives (location : DirectiveLocation) (first second : Path)
    (directives : List Directive) :
    (ofDirectives schema location first directives).map Finding.problem =
      (ofDirectives schema location second directives).map Finding.problem := by
  simp only [ofDirectives, List.map_flatMap, map_ofDirective schema location _ .root]

mutual

theorem map_ofSelection (scope? : Option TypeDefinition) (first second : Path) :
    (selection : Selection) → (ofSelection schema scope? first selection).map Finding.problem =
      (ofSelection schema scope? second selection).map Finding.problem
  | .field field => map_ofField scope? first second field
  | .spread spread => map_ofDirectives schema _ first second spread.directives
  | .inline fragment => map_ofInline scope? first second fragment

theorem map_ofField (scope? : Option TypeDefinition) (first second : Path) :
    (field : Field) → (ofField schema scope? first field).map Finding.problem =
      (ofField schema scope? second field).map Finding.problem
  | ⟨_, name, arguments, directives, selections⟩ => by
      rw [ofField, ofField]
      simp only [List.map_append, map_enterField scope? first second,
        map_ofDirectives schema _ first second, map_leaveField scope? first second,
        map_ofSelections _ (first.push .selectionSet) (second.push .selectionSet) 0 selections]

theorem map_ofInline (scope? : Option TypeDefinition) (first second : Path) :
    (fragment : InlineFragment) → (ofInline schema scope? first fragment).map Finding.problem =
      (ofInline schema scope? second fragment).map Finding.problem
  | ⟨typeCondition?, directives, selections⟩ => by
      simp only [ofInline, List.map_append, map_ofDirectives schema _ first second,
        map_ofSelections _ (first.push .selectionSet) (second.push .selectionSet) 0 selections]

theorem map_ofSelections (scope? : Option TypeDefinition) (first second : Path) (place : Nat) :
    (selections : List Selection) →
      (ofSelections schema scope? first place selections).map Finding.problem =
        (ofSelections schema scope? second place selections).map Finding.problem
  | [] => rfl
  | selection :: selections => by
      rw [ofSelections, ofSelections, List.map_append, List.map_append,
        map_ofSelection scope? (first.push (.index place)) (second.push (.index place)) selection,
        map_ofSelections scope? first second (place + 1) selections]

end

theorem map_ofDefinition (first second : Path) (definition : Definition) :
    (ofDefinition schema first definition).map Finding.problem =
      (ofDefinition schema second definition).map Finding.problem := by
  cases definition with
  | operation operation =>
      simp only [ofDefinition, ofOperation, ofVariableDefinition, List.map_append,
        List.map_flatMap, map_ofDirectives schema _ _ .root,
        map_ofSelections schema _ (first.push .selectionSet) (second.push .selectionSet)]
  | fragment fragment =>
      simp only [ofDefinition, ofFragment, List.map_append, map_ofDirectives schema _ first second,
        map_ofSelections schema _ (first.push .selectionSet) (second.push .selectionSet)]

end TypedCheck

/-! ## Permutations -/

/-- Lists are permutations of each other if their parts with each key are. -/
theorem perm_of_filter {α κ : Type} [DecidableEq α] [DecidableEq κ] (key : α → κ)
    {first second : List α}
    (parts : ∀ value, (first.filter (key · = value)).Perm (second.filter (key · = value))) :
    first.Perm second := by
  rw [List.perm_iff_count]
  intro item
  have kept (items : List α) : (items.filter (key · = key item)).count item = items.count item :=
    List.count_filter (decide_eq_true rfl)
  calc
    first.count item = (first.filter (key · = key item)).count item := (kept first).symm
    _ = (second.filter (key · = key item)).count item := (parts (key item)).count_eq item
    _ = second.count item := kept second

theorem UsedNames.perm_repeated {names others : List String} (perm : names.Perm others) :
    (repeated names).Perm (repeated others) := by
  rw [List.perm_iff_count]
  intro name
  rw [count_repeated, count_repeated, perm.count_eq]

namespace Document

variable {permuted document : Document}

theorem perm_operations (perm : permuted.definitions.Perm document.definitions) :
    permuted.operations.Perm document.operations :=
  perm.filterMap _

theorem perm_fragments (perm : permuted.definitions.Perm document.definitions) :
    permuted.fragments.Perm document.fragments :=
  perm.filterMap _

/-- Problems that are found in each definition wherever it stands are found in any order. -/
theorem perm_inDefinitions {found : Path → Definition → List Finding}
    (placeless : ∀ path definition, (found path definition).map Finding.problem =
      (found .root definition).map Finding.problem)
    (perm : permuted.definitions.Perm document.definitions) :
    ((permuted.inDefinitions found).map Finding.problem).Perm
      ((document.inDefinitions found).map Finding.problem) := by
  rw [map_inDefinitions placeless, map_inDefinitions placeless]
  exact perm.flatMap_right _

/-- Fragments with different names are found under their names in any order. -/
theorem find?_fragments_perm (perm : permuted.definitions.Perm document.definitions)
    (nodup : (document.fragments.map Fragment.name).Nodup) (name : String) :
    permuted.fragments.find? (·.name = name) = document.fragments.find? (·.name = name) := by
  have sameMembers := perm_fragments perm
  have unique {first second : Fragment} (isFirst : first ∈ document.fragments)
      (isSecond : second ∈ document.fragments) (same : first.name = second.name) :
      first = second := List.inj_on_of_nodup_map nodup isFirst isSecond same
  cases found : document.fragments.find? (·.name = name) with
  | none =>
      rw [List.find?_eq_none] at found ⊢
      intro fragment member
      exact found fragment (sameMembers.mem_iff.mp member)
  | some fragment =>
      have named : fragment.name = name := by simpa using List.find?_some found
      have member := List.mem_of_find?_eq_some found
      cases again : permuted.fragments.find? (·.name = name) with
      | none =>
          rw [List.find?_eq_none] at again
          exact absurd (decide_eq_true named) (again fragment (sameMembers.mem_iff.mpr member))
      | some other =>
          have otherNamed : other.name = name := by simpa using List.find?_some again
          have otherMember := sameMembers.mem_iff.mp (List.mem_of_find?_eq_some again)
          rw [unique otherMember member (otherNamed.trans named.symm)]

end Document

/-! ## Rules that look at each definition for itself -/

theorem LoneAnonymousOperation.map_inDefinition (count : Nat) (path : Path)
    (definition : Definition) :
    (inDefinition count path definition).map Finding.problem =
      (inDefinition count .root definition).map Finding.problem := by
  cases definition with
  | operation operation =>
      rw [inDefinition, inDefinition]
      split
      · rfl
      · rfl
  | fragment fragment => rfl

theorem UniqueVariableNames.map_inDefinition (path : Path) (definition : Definition) :
    (inDefinition path definition).map Finding.problem =
      (inDefinition .root definition).map Finding.problem := by
  cases definition with
  | operation operation =>
      rw [inDefinition, inDefinition, UsedNames.map_problem_repeats, UsedNames.map_problem_repeats]
  | fragment fragment => rfl

theorem UniqueArgumentNames.map_inDefinition (path : Path) (definition : Definition) :
    (inDefinition path definition).map Finding.problem =
      (inDefinition .root definition).map Finding.problem := by
  have placeless (entry : Node × Path) : (ofNode entry).map Finding.problem =
      (ofNode (entry.1, .root)).map Finding.problem := by
    rw [ofNode, ofNode]
    cases entry.1.arguments? with
    | none => rfl
    | some arguments => rw [UsedNames.map_problem_repeats, UsedNames.map_problem_repeats]
  exact Outline.map_flatMap_ofDefinition placeless path definition

theorem KnownFragmentNames.map_inDefinition (known : List String) (path : Path)
    (definition : Definition) :
    (inDefinition known path definition).map Finding.problem =
      (inDefinition known .root definition).map Finding.problem := by
  have placeless (entry : Node × Path) : (ofNode known entry).map Finding.problem =
      (ofNode known (entry.1, .root)).map Finding.problem := by
    obtain ⟨node, place⟩ := entry
    cases node with
    | spread spread =>
        rw [ofNode, ofNode]
        split
        · rfl
        · rfl
    | _ => rfl
  exact Outline.map_flatMap_ofDefinition placeless path definition

/-- Only the set of known fragments matters. -/
theorem KnownFragmentNames.inDefinition_perm {known others : List String}
    (perm : known.Perm others) : inDefinition known = inDefinition others := by
  funext path definition
  have same (entry : Node × Path) : ofNode known entry = ofNode others entry := by
    obtain ⟨node, place⟩ := entry
    cases node with
    | spread spread => rw [ofNode, ofNode, perm.contains_eq]
    | _ => rfl
  rw [inDefinition, inDefinition, funext same]

namespace NoUndefinedVariables

variable {permuted document : Document}

/-- An operation reaches the same fragments in any order, if their names differ. -/
theorem problemsReached_perm (perm : permuted.definitions.Perm document.definitions)
    (nodup : (document.fragments.map Fragment.name).Nodup) :
    problemsReached permuted = problemsReached document := by
  funext operation
  have lookups (name : String) : (Named.find? (table permuted) name).map bare =
      (Named.find? (table document) name).map bare := by
    rw [find?_table, find?_table, Document.find?_fragments_perm perm nodup]
  exact flatMap_problemsOf_congr operation
    (reach_congr lookups [] (spreadsIn (.operation operation)))

end NoUndefinedVariables

/-! ## All rules -/

namespace Validation

variable (schema : Schema) {permuted document : Document}

/-- The rules on schemas find the problems that the recursion finds. -/
theorem problems_schemaBased (document : Document) :
    problems schema .schemaBased document =
      (document.inDefinitions (TypedCheck.ofDefinition schema)).map Finding.problem := by
  have checked : TypedCheck.Checked schema (.ofEvent schema document) []
      [Outline.ofDocument document] _ := .ofDocument document
  have found := checked.found
  rw [Outline.locatedAll_singleton] at found
  rw [problems_eq_rows, RuleSet.schemaBased.fresh_start.rows_along _
    (Composite.opening_ofDocument document) _ _ (TypedCheck.rows_leaf schema document),
    ← List.flatMap_def]
  exact congrArg _ found

theorem perm_problems_schemaBased {rule : Rule} (member : rule ∈ RuleSet.schemaBased.rules)
    (perm : permuted.definitions.Perm document.definitions) :
    (problems schema (.rule rule) permuted).Perm (problems schema (.rule rule) document) := by
  have nodup : RuleSet.schemaBased.rules.Nodup := by decide
  rw [← problems_filter_rule schema permuted nodup member,
    ← problems_filter_rule schema document nodup member, problems_schemaBased,
    problems_schemaBased]
  refine List.Perm.filter _ (Document.perm_inDefinitions ?_ perm)
  exact fun path => TypedCheck.map_ofDefinition schema path .root

/-- If no two fragments have the same name, each rule finds the same problems in any order. -/
theorem perm_problems_rule (rule : Rule) (perm : permuted.definitions.Perm document.definitions)
    (nodup : (document.fragments.map Fragment.name).Nodup) :
    (problems schema (.rule rule) permuted).Perm (problems schema (.rule rule) document) := by
  cases rule with
  | loneAnonymousOperation =>
      rw [problems_loneAnonymousOperation, problems_loneAnonymousOperation,
        (Document.perm_operations perm).length_eq]
      exact Document.perm_inDefinitions (LoneAnonymousOperation.map_inDefinition _) perm
  | uniqueOperationNames =>
      rw [problems_uniqueOperationNames, problems_uniqueOperationNames]
      exact (UsedNames.perm_repeated (perm.filterMap _)).map _
  | uniqueFragmentNames =>
      rw [problems_uniqueFragmentNames, problems_uniqueFragmentNames]
      exact (UsedNames.perm_repeated ((Document.perm_fragments perm).map _)).map _
  | knownFragmentNames =>
      have known := (Document.perm_fragments perm).map Fragment.name
      rw [problems_knownFragmentNames, problems_knownFragmentNames,
        KnownFragmentNames.inDefinition_perm known]
      exact Document.perm_inDefinitions (KnownFragmentNames.map_inDefinition _) perm
  | uniqueArgumentNames =>
      rw [problems_uniqueArgumentNames, problems_uniqueArgumentNames]
      exact Document.perm_inDefinitions UniqueArgumentNames.map_inDefinition perm
  | uniqueVariableNames =>
      rw [problems_uniqueVariableNames, problems_uniqueVariableNames]
      exact Document.perm_inDefinitions UniqueVariableNames.map_inDefinition perm
  | noUndefinedVariables =>
      have operations := Document.perm_operations perm
      rw [problems_noUndefinedVariables, problems_noUndefinedVariables,
        NoUndefinedVariables.problemsReached_perm perm nodup]
      exact (operations.flatMap_right _).append (operations.flatMap_right _)
  | fieldsOnCorrectType => exact perm_problems_schemaBased schema (by decide) perm
  | knownArgumentNames => exact perm_problems_schemaBased schema (by decide) perm
  | knownDirectives => exact perm_problems_schemaBased schema (by decide) perm
  | providedNonNullArguments => exact perm_problems_schemaBased schema (by decide) perm

theorem perm_problems_all (perm : permuted.definitions.Perm document.definitions)
    (nodup : (document.fragments.map Fragment.name).Nodup) :
    (problems schema .all permuted).Perm (problems schema .all document) := by
  have once : RuleSet.all.rules.Nodup := .of_map _ Rule.nodup_code
  refine perm_of_filter Problem.rule fun rule => ?_
  rw [problems_filter_rule schema permuted once (Rule.mem_all rule),
    problems_filter_rule schema document once (Rule.mem_all rule)]
  exact perm_problems_rule schema rule perm nodup

/-- A document with two fragments of one name is invalid. -/
theorem nodup_of_problems_eq_nil (none : problems schema .all document = []) :
    (document.fragments.map Fragment.name).Nodup := by
  have once : RuleSet.all.rules.Nodup := .of_map _ Rule.nodup_code
  have alone := problems_filter_rule schema document once (Rule.mem_all .uniqueFragmentNames)
  rw [none, List.filter_nil, problems_uniqueFragmentNames, eq_comm, List.map_eq_nil_iff] at alone
  exact UsedNames.repeated_eq_nil_iff.mp alone

theorem problems_eq_nil_of_perm (perm : permuted.definitions.Perm document.definitions)
    (none : problems schema .all document = []) : problems schema .all permuted = [] := by
  have same := perm_problems_all schema perm (nodup_of_problems_eq_nil schema none)
  rw [none] at same
  exact List.perm_nil.mp same

/-- The code, the kind and the message of a report. -/
def digest (report : Diagnostic) : String × NodeKind × String :=
  (report.code, report.kind, report.message)

theorem map_digest_reports (document : Document) :
    (validate schema none .all document).reports.map digest =
      (problems schema .all document).map fun problem =>
        (problem.rule.code, problem.kind, problem.message) := by
  rw [reports_eq_found, problems, List.map_map, List.map_map]
  rfl

/-- Documents with the same definitions in another order are both valid or both invalid. If no two
fragments have the same name, the same is reported of both, apart from the paths and the order. -/
theorem validate_perm (schema : Schema) {permuted document : Document}
    (perm : permuted.definitions.Perm document.definitions) :
    (∀ limit?, (validate schema limit? .all permuted).isValid =
        (validate schema limit? .all document).isValid) ∧
      ((document.fragments.map Fragment.name).Nodup →
        ((validate schema none .all permuted).reports.map digest).Perm
          ((validate schema none .all document).reports.map digest)) := by
  constructor
  · intro limit?
    rw [Bool.eq_iff_iff, isValid_validate_iff, isValid_validate_iff]
    exact ⟨problems_eq_nil_of_perm schema perm.symm, problems_eq_nil_of_perm schema perm⟩
  · intro nodup
    rw [map_digest_reports, map_digest_reports]
    exact (perm_problems_all schema perm nodup).map _

def sampleDefinitions : List Definition :=
  [.operation ⟨.query, some "Q", [], [], [.spread ⟨"G", []⟩]⟩,
    .fragment ⟨"G", "Query", [], [.field ⟨none, "a", [⟨"x", .var "v"⟩], [], []⟩]⟩]

theorem validate_perm_sampleDefinitions :
    sampleDefinitions.reverse.Perm sampleDefinitions ∧
      ((Document.mk sampleDefinitions).fragments.map Fragment.name).Nodup ∧
      (∀ limit?, (validate .empty limit? .all ⟨sampleDefinitions.reverse⟩).isValid =
        (validate .empty limit? .all ⟨sampleDefinitions⟩).isValid) ∧
      ((validate .empty none .all ⟨sampleDefinitions.reverse⟩).reports.map digest).Perm
        ((validate .empty none .all ⟨sampleDefinitions⟩).reports.map digest) := by
  have perm : sampleDefinitions.reverse.Perm sampleDefinitions := sampleDefinitions.reverse_perm
  have nodup : ((Document.mk sampleDefinitions).fragments.map Fragment.name).Nodup := by decide
  have result := @validate_perm .empty ⟨sampleDefinitions.reverse⟩ ⟨sampleDefinitions⟩ perm
  exact ⟨perm, nodup, result.1, result.2 nodup⟩

end Validation

end QueryCheck
