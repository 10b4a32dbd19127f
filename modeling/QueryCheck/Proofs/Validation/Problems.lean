import QueryCheck.Proofs.Validation.ErrorLimit
import QueryCheck.Proofs.Validation.NamingRules
import QueryCheck.Proofs.Validation.RuleIndependence
import QueryCheck.Proofs.Validation.VariableUses

/-!
# Problems of documents

Whether a document is valid, and what is reported apart from paths, follows from the
problems that rules find in it. The problems of a set of rules are those of its rules,
and the problems of a rule that needs no definitions are those it finds in a traversal
of its own.
-/

namespace QueryCheck.Validation

/-- The problems that rules find in a document. -/
def problems (schema : Schema) (rules : RuleSet) (document : Document) : List Problem :=
  (found schema rules document).map fun item => item.2.problem

variable (schema : Schema) (document : Document)

/-- A document is valid, with a limit or without one, if no problems are found. -/
theorem isValid_validate_iff (limit? : Option Nat) (rules : RuleSet) :
    (validate schema limit? rules document).isValid = true ↔
      problems schema rules document = [] := by
  have unlimited : (validate schema none rules document).reports = [] ↔
      problems schema rules document = [] := by
    rw [reports_eq_found, problems, List.map_eq_nil_iff, List.map_eq_nil_iff]
  rw [Outcome.isValid, List.isEmpty_iff, ← unlimited]
  cases limit? with
  | none => exact Iff.rfl
  | some limit =>
      have limited : validate schema (some limit) rules document = _ :=
        run_some schema limit rules.start document
      have positive : max limit 1 ≠ 0 := by omega
      rw [limited, List.take_eq_nil_iff]
      exact or_iff_right positive

theorem problems_filter_rule {rules : RuleSet} (nodup : rules.rules.Nodup) {rule : Rule}
    (member : rule ∈ rules.rules) :
    (problems schema rules document).filter (·.rule = rule) =
      problems schema (.rule rule) document := by
  rw [problems, problems, ← found_filter_rule schema document nodup member, List.filter_map]
  rfl

theorem problems_eq_rows (rules : RuleSet) :
    problems schema rules document =
      (Run.rows (Composite.step (ruleAt schema document)) (Outline.ofDocument document).events
        ⟨.running, rules.start⟩).flatten.map Finding.problem := by
  rw [← out_visit_eq_rows, ← map_snd_found, List.map_map]
  rfl

/-- What a single rule finds. -/
theorem map_snd_found_rule (rule : Rule) :
    (found schema (.rule rule) document).map Prod.snd =
      ((Root.document document).visit (ruleAt schema document) (.start rule)).out := by
  have single : Run.rows (Composite.step (ruleAt schema document)) _ _ = _ :=
    Composite.rows_single _ (Outline.ofDocument document).events ⟨.running, RuleState.start rule⟩
  rw [map_snd_found, out_visit_eq_rows, Run.out_visit]
  exact congrArg List.flatten single

section Leads

variable {σ : Type} {visitor : Visitor σ Finding} (wrap : σ → RuleState) {rule : Rule}
  {state after : σ} {findings : List Finding}

/-- A rule with a visitor of its own finds what the visitor puts out. -/
theorem map_snd_found_of_leads
    (wrapped : ∀ types event state,
      RuleState.visitor types event (wrap state) = (visitor event state).map wrap)
    (start : RuleState.start rule = wrap state)
    (leads : Outline.Leads visitor [Outline.ofDocument document] state after findings) :
    (found schema (.rule rule) document).map Prod.snd = findings := by
  have mirrors : Run.Mirrors wrap visitor (ruleAt schema document) :=
    ⟨fun event state => congrArg Reply.flow (wrapped _ event state),
      fun event state => congrArg Reply.state (wrapped _ event state)⟩
  have same := mirrors.out_visit_same
    (fun event state => congrArg Reply.out (wrapped _ event state))
    (.document document) state
  rw [map_snd_found_rule, start, same, Root.visit_document, leads.out_visit]

theorem problems_of_leads
    (wrapped : ∀ types event state,
      RuleState.visitor types event (wrap state) = (visitor event state).map wrap)
    (start : RuleState.start rule = wrap state)
    (leads : Outline.Leads visitor [Outline.ofDocument document] state after findings) :
    problems schema (.rule rule) document = findings.map Finding.problem := by
  rw [← map_snd_found_of_leads schema document wrap wrapped start leads, List.map_map]
  rfl

theorem reports_of_leads
    (wrapped : ∀ types event state,
      RuleState.visitor types event (wrap state) = (visitor event state).map wrap)
    (start : RuleState.start rule = wrap state)
    (leads : Outline.Leads visitor [Outline.ofDocument document] state after findings) :
    (validate schema none (.rule rule) document).reports = findings.map Finding.diagnostic := by
  rw [reports_eq_found, ← map_snd_found_of_leads schema document wrap wrapped start leads,
    List.map_map]
  rfl

end Leads

/-! ## Rules that need no schema -/

theorem problems_loneAnonymousOperation :
    problems schema (.rule .loneAnonymousOperation) document =
      (document.inDefinitions (LoneAnonymousOperation.inDefinition
        document.operations.length)).map Finding.problem :=
  problems_of_leads schema document .loneAnonymousOperation (fun _ _ _ => rfl) rfl
    (LoneAnonymousOperation.leads document 0)

theorem problems_uniqueOperationNames :
    problems schema (.rule .uniqueOperationNames) document =
      (UsedNames.repeated (document.definitions.filterMap Definition.operationName?)).map
        .repeatedOperation := by
  obtain ⟨after, leads⟩ := UniqueOperationNames.leads document []
  rw [← UsedNames.map_problem_repeats]
  exact problems_of_leads schema document .uniqueOperationNames (fun _ _ _ => rfl) rfl leads

theorem problems_uniqueFragmentNames :
    problems schema (.rule .uniqueFragmentNames) document =
      (UsedNames.repeated (document.fragments.map Fragment.name)).map .repeatedFragment := by
  have names : document.fragments.map Fragment.name =
      document.definitions.filterMap Definition.fragmentName? := by
    rw [Document.fragments, List.map_filterMap]
    refine List.filterMap_congr fun definition _ => ?_
    cases definition with
    | operation operation => rfl
    | fragment fragment => rfl
  obtain ⟨after, leads⟩ := UniqueFragmentNames.leads document []
  rw [names, ← UsedNames.map_problem_repeats]
  exact problems_of_leads schema document .uniqueFragmentNames (fun _ _ _ => rfl) rfl leads

theorem problems_knownFragmentNames :
    problems schema (.rule .knownFragmentNames) document =
      (document.inDefinitions (KnownFragmentNames.inDefinition
        (document.fragments.map Fragment.name))).map Finding.problem :=
  problems_of_leads schema document .knownFragmentNames (fun _ _ _ => rfl) rfl
    (KnownFragmentNames.leads document [])

theorem problems_uniqueArgumentNames :
    problems schema (.rule .uniqueArgumentNames) document =
      (document.inDefinitions UniqueArgumentNames.inDefinition).map Finding.problem := by
  obtain ⟨after, leads⟩ := UniqueArgumentNames.leads document []
  exact problems_of_leads schema document .uniqueArgumentNames (fun _ _ _ => rfl) rfl leads

theorem problems_uniqueVariableNames :
    problems schema (.rule .uniqueVariableNames) document =
      (document.inDefinitions UniqueVariableNames.inDefinition).map Finding.problem := by
  obtain ⟨after, leads⟩ := UniqueVariableNames.leads document []
  exact problems_of_leads schema document .uniqueVariableNames (fun _ _ _ => rfl) rfl leads

/-- The problems in each operation come first, then those in the fragments that it reaches. -/
theorem problems_noUndefinedVariables :
    problems schema (.rule .noUndefinedVariables) document =
      document.operations.flatMap NoUndefinedVariables.problemsIn ++
        document.operations.flatMap (NoUndefinedVariables.problemsReached document) := by
  obtain ⟨after, findings, leads, inOrder⟩ :=
    NoUndefinedVariables.exists_leads document NoUndefinedVariables.State.start
  rw [← inOrder]
  exact problems_of_leads schema document .noUndefinedVariables (fun _ _ _ => rfl) rfl leads

end QueryCheck.Validation
