import QueryCheck.Proofs.Validation.Unlimited

/-!
# Rules do not influence one another

In a validation without a limit each rule finds what it finds alone, at the same
events, and the findings at one event come in the order of the rules.
-/

namespace QueryCheck

/-! ## The rules of findings -/

/-- A visitor finds problems of one rule only. -/
def Finds {σ : Type} (rule : Rule) (visitor : Visitor σ Finding) : Prop :=
  ∀ event state, ∀ finding ∈ (visitor event state).out, finding.problem.rule = rule

/-- Several rules find one problem unless a condition holds. -/
theorem Finding.eq_of_mem_unless {condition : Prop} [Decidable condition] {finding only : Finding}
    (member : finding ∈ if condition then [] else [only]) : finding = only := by
  split at member
  · cases member
  · exact List.mem_singleton.mp member

theorem UsedNames.rule_of_mem_useAndSkip {used : List String} {name : String} {problem : Problem}
    {path : Path} {finding : Finding}
    (member : finding ∈ (useAndSkip used name problem path).out) :
    finding.problem.rule = problem.rule := by
  simp only [useAndSkip, use] at member
  split at member
  · cases List.mem_singleton.mp member
    rfl
  · cases member

theorem LoneAnonymousOperation.finds : Finds .loneAnonymousOperation visitor := by
  intro event count finding member
  unfold visitor at member
  split at member
  case h_2 operation path count =>
    split at member
    · cases List.mem_singleton.mp member
      rfl
    · cases member
  all_goals cases member

theorem UniqueOperationNames.finds : Finds .uniqueOperationNames visitor := by
  intro event used finding member
  unfold visitor at member
  split at member
  case h_2 operation path used =>
    split at member
    · exact UsedNames.rule_of_mem_useAndSkip member
    · cases member
  all_goals cases member

theorem UniqueFragmentNames.finds : Finds .uniqueFragmentNames visitor := by
  intro event used finding member
  unfold visitor at member
  split at member
  case h_2 => exact UsedNames.rule_of_mem_useAndSkip member
  all_goals cases member

theorem KnownFragmentNames.finds : Finds .knownFragmentNames visitor := by
  intro event known finding member
  unfold visitor at member
  split at member
  case h_2 spread path known =>
    cases Finding.eq_of_mem_unless member
    rfl
  all_goals cases member

theorem UniqueArgumentNames.finds : Finds .uniqueArgumentNames visitor := by
  intro event used finding member
  unfold visitor at member
  split at member
  case h_3 => exact UsedNames.rule_of_mem_useAndSkip member
  all_goals cases member

theorem UniqueVariableNames.finds : Finds .uniqueVariableNames visitor := by
  intro event used finding member
  unfold visitor at member
  split at member
  case h_2 => exact UsedNames.rule_of_mem_useAndSkip member
  all_goals cases member

namespace NoUndefinedVariables

theorem rule_of_mem_undefined {operation : Operation} {uses : List VariableUse} {finding : Finding}
    (member : finding ∈ undefined operation uses) :
    finding.problem.rule = .noUndefinedVariables := by
  obtain ⟨use, _, rfl⟩ := List.mem_map.mp member
  rfl

theorem finds : Finds .noUndefinedVariables visitor := by
  intro event state finding member
  unfold visitor at member
  split at member
  case h_4 argument path state =>
    split at member
    · exact rule_of_mem_undefined member
    · cases member
  case h_8 document path state =>
    obtain ⟨operation, _, inOperation⟩ := List.mem_flatMap.mp member
    obtain ⟨fragment, _, inFragment⟩ := List.mem_flatMap.mp inOperation
    exact rule_of_mem_undefined inFragment
  all_goals cases member

end NoUndefinedVariables

theorem FieldsOnCorrectType.finds (types : TypeInfo) :
    Finds .fieldsOnCorrectType (visitor types) := by
  intro event state finding member
  unfold visitor at member
  split at member
  case h_1 field path _ =>
    simp only [onField] at member
    split at member
    · cases Finding.eq_of_mem_unless member
      rfl
    · cases member
  case h_2 => cases member

namespace KnownArgumentNames

theorem rule_of_mem_unknown {isKnown : String → Bool} {problem : String → Problem} {path : Path}
    {place : Nat} {arguments : List Argument} {finding : Finding}
    (owned : ∀ name, (problem name).rule = .knownArgumentNames)
    (member : finding ∈ unknown isKnown problem path place arguments) :
    finding.problem.rule = .knownArgumentNames := by
  induction arguments generalizing place with
  | nil => cases member
  | cons argument arguments ih =>
      rw [unknown] at member
      rcases List.mem_append.mp member with first | rest
      · cases Finding.eq_of_mem_unless first
        exact owned argument.name
      · exact ih rest

theorem finds (types : TypeInfo) : Finds .knownArgumentNames (visitor types) := by
  intro event state finding member
  unfold visitor at member
  split at member
  case h_1 field path _ =>
    simp only [onField] at member
    split at member
    · exact rule_of_mem_unknown (fun _ => rfl) member
    · cases member
  case h_2 directive path _ =>
    simp only [onDirective] at member
    split at member
    · exact rule_of_mem_unknown (fun _ => rfl) member
    · cases member
  case h_3 => cases member

end KnownArgumentNames

theorem KnownDirectives.finds (types : TypeInfo) : Finds .knownDirectives (visitor types) := by
  intro event locations finding member
  unfold visitor at member
  split at member
  case h_2 directive path locations =>
    simp only [onDirective] at member
    split at member
    · cases List.mem_singleton.mp member
      rfl
    · split at member
      · cases member
      · cases Finding.eq_of_mem_unless member
        rfl
  all_goals cases member

theorem ProvidedNonNullArguments.finds (types : TypeInfo) :
    Finds .providedNonNullArguments (visitor types) := by
  intro event state finding member
  unfold visitor at member
  split at member
  case h_1 field path _ =>
    simp only [onField] at member
    split at member
    · obtain ⟨argument, _, rfl⟩ := List.mem_map.mp member
      rfl
    · cases member
  case h_2 directive path _ =>
    simp only [onDirective] at member
    split at member
    · obtain ⟨argument, _, rfl⟩ := List.mem_map.mp member
      rfl
    · cases member
  case h_3 => cases member

namespace RuleState

def rule : RuleState → Rule
  | loneAnonymousOperation _ => .loneAnonymousOperation
  | uniqueOperationNames _ => .uniqueOperationNames
  | uniqueFragmentNames _ => .uniqueFragmentNames
  | knownFragmentNames _ => .knownFragmentNames
  | uniqueArgumentNames _ => .uniqueArgumentNames
  | uniqueVariableNames _ => .uniqueVariableNames
  | noUndefinedVariables _ => .noUndefinedVariables
  | fieldsOnCorrectType => .fieldsOnCorrectType
  | knownArgumentNames => .knownArgumentNames
  | knownDirectives _ => .knownDirectives
  | providedNonNullArguments => .providedNonNullArguments

theorem rule_start (rule : Rule) : (start rule).rule = rule := by
  cases rule <;> rfl

theorem rule_state_visitor (types : TypeInfo) (event : Event) (state : RuleState) :
    (visitor types event state).state.rule = state.rule := by
  cases state <;> rfl

/-- A rule finds its own problems. -/
theorem rule_of_mem_visitor {types : TypeInfo} {event : Event} {state : RuleState}
    {finding : Finding} (member : finding ∈ (visitor types event state).out) :
    finding.problem.rule = state.rule := by
  cases state with
  | loneAnonymousOperation operations => exact LoneAnonymousOperation.finds _ _ _ member
  | uniqueOperationNames used => exact UniqueOperationNames.finds _ _ _ member
  | uniqueFragmentNames used => exact UniqueFragmentNames.finds _ _ _ member
  | knownFragmentNames known => exact KnownFragmentNames.finds _ _ _ member
  | uniqueArgumentNames used => exact UniqueArgumentNames.finds _ _ _ member
  | uniqueVariableNames used => exact UniqueVariableNames.finds _ _ _ member
  | noUndefinedVariables uses => exact NoUndefinedVariables.finds _ _ _ member
  | fieldsOnCorrectType => exact FieldsOnCorrectType.finds types _ _ _ member
  | knownArgumentNames => exact KnownArgumentNames.finds types _ _ _ member
  | knownDirectives locations => exact KnownDirectives.finds types _ _ _ member
  | providedNonNullArguments => exact ProvidedNonNullArguments.finds types _ _ _ member

end RuleState

/-! ## Findings with their events -/

def Reply.stamp {σ ο : Type} (event : Event) (reply : Reply σ ο) : Reply σ (Event × ο) :=
  ⟨reply.flow, reply.state, reply.out.map (event, ·)⟩

def Visitor.stamped {σ ο : Type} (visitor : Visitor σ ο) : Visitor σ (Event × ο) :=
  fun event state => (visitor event state).stamp event

theorem Visitor.stamped_fst {σ ο : Type} (visitor : Visitor σ ο) :
    Run.Stamped Prod.fst visitor.stamped := by
  intro event state item member
  obtain ⟨_, _, rfl⟩ := List.mem_map.mp member
  rfl

theorem Tracked.stamped_step {σ ο : Type} (absorb : Context → ο → Context)
    (visitor : TypeInfo → Visitor σ ο) :
    (step absorb visitor).stamped =
      step (fun context item => absorb context item.2) fun types => (visitor types).stamped := by
  funext event state
  simp only [Visitor.stamped, Reply.stamp, step, List.foldl_map]

namespace Composite

variable {α ο : Type}

theorem stamped_step (leaf : Visitor α ο) : (step leaf).stamped = step leaf.stamped := by
  have stamp {σ : Type} (event : Event) (reply : Reply σ ο) :
      reply.stamp event = reply.expand fun item => [(event, item)] := by
    rw [Reply.stamp, Reply.expand, List.map_eq_flatMap]
  funext event tree
  rw [step_expand fun state => stamp event (leaf event state)]
  exact stamp event (step leaf event tree)

end Composite

namespace Validation

/-- What rules find in a document, each finding with its event. -/
def found (schema : Schema) (rules : RuleSet) (document : Document) : List (Event × Finding) :=
  ((Root.document document).visit visitor.stamped (.start schema none rules.start)).out

variable (schema : Schema) (rules : RuleSet) (document : Document)

theorem map_snd_found :
    (found schema rules document).map Prod.snd =
      ((Root.document document).visit visitor (.start schema none rules.start)).out := by
  have mirrors : Run.Mirrors id visitor.stamped visitor := ⟨fun _ _ => rfl, fun _ _ => rfl⟩
  rw [List.map_eq_flatMap]
  refine (mirrors.out_visit ?_ (.document document) _).symm
  intro event state
  simp [Visitor.stamped, Reply.stamp, List.flatMap_map]

/-- A validation reports what is found. -/
theorem reports_eq_found :
    (validate schema none rules document).reports =
      (found schema rules document).map fun item => item.2.diagnostic := by
  rw [validate, reports_run, ← map_snd_found, List.map_map]
  rfl

theorem found_eq_rows :
    found schema rules document =
      (Run.rows (Composite.step (ruleAt schema document).stamped)
        (Outline.ofDocument document).events ⟨.running, rules.start⟩).flatten := by
  have endless : Tracked.Endless fun context (item : Event × Finding) => absorb context item.2 :=
    fun _ unlimited item => unlimited.report item.2.diagnostic
  rw [found, visitor, Tracked.stamped_step, endless.out_visit, ← Composite.stamped_step, ruleAt,
    ← Composite.given_step]
  rfl

/-- A rule finds alone what it finds in a run of its own. -/
theorem found_rule (rule : Rule) :
    found schema (.rule rule) document =
      (Run.rows (ruleAt schema document).stamped (Outline.ofDocument document).events
        ⟨.running, .start rule⟩).flatten := by
  rw [found_eq_rows]
  exact congrArg List.flatten (Composite.rows_single _ _ ⟨.running, RuleState.start rule⟩)

/-- Rules find, at one event after the other, what each of them finds alone. -/
theorem found_eq_flatMap :
    found schema rules document =
      (Outline.ofDocument document).events.flatMap fun event =>
        rules.rules.flatMap fun rule =>
          (found schema (.rule rule) document).filter (·.1 = event) := by
  have alone : ∀ state ∈ rules.start.leaves,
      Run.rows (ruleAt schema document).stamped (Outline.ofDocument document).events
          ⟨.running, state⟩ =
        (Outline.ofDocument document).events.map fun event =>
          (Run.rows (ruleAt schema document).stamped (Outline.ofDocument document).events
            ⟨.running, state⟩).flatten.filter (·.1 = event) := fun state _ =>
    Run.rows_eq_map_filter (Visitor.stamped_fst _)
      (Outline.nodup_events (Outline.placed_ofDocument document)) ⟨.running, state⟩
  rw [found_eq_rows,
    rules.fresh_start.rows_along _ (Composite.opening_ofDocument document) _ _ alone,
    ← List.flatMap_def, RuleSet.leaves_start]
  simp only [List.flatMap_map, found_rule]

/-- A rule finds its own problems only. -/
theorem rule_of_mem_found {rule : Rule} {item : Event × Finding}
    (member : item ∈ found schema (.rule rule) document) : item.2.problem.rule = rule := by
  have kept : Run.Invariant (fun state => state.rule = rule) (ruleAt schema document).stamped :=
    fun event state own => (RuleState.rule_state_visitor _ event state).trans own
  rw [found_rule] at member
  obtain ⟨event, _, state, own, out⟩ :=
    Run.exists_of_mem_rows kept (RuleState.rule_start rule) member
  obtain ⟨finding, isFinding, rfl⟩ := List.mem_map.mp out
  exact (RuleState.rule_of_mem_visitor isFinding).trans own

theorem found_filter_rule {rules : RuleSet} (nodup : rules.rules.Nodup) {rule : Rule}
    (member : rule ∈ rules.rules) :
    (found schema rules document).filter (·.2.problem.rule = rule) =
      found schema (.rule rule) document := by
  have owned : ∀ other event,
      ∀ item ∈ (found schema (.rule other) document).filter (·.1 = event),
        item.2.problem.rule = id other := fun other event item isItem =>
    rule_of_mem_found schema document (List.mem_filter.mp isItem).1
  have names : (rules.rules.map id).Nodup := by rwa [List.map_id]
  have single := found_eq_flatMap schema (.rule rule) document
  simp only [RuleSet.rules, List.flatMap_singleton] at single
  calc
    (found schema rules document).filter (·.2.problem.rule = rule) =
        (Outline.ofDocument document).events.flatMap fun event =>
          (found schema (.rule rule) document).filter (·.1 = event) := by
      rw [found_eq_flatMap]
      exact Composite.filter_flatMap_owner names owned _ member
    _ = found schema (.rule rule) document := single.symm

end Validation

/-! ## All rules -/

namespace Rule

theorem mem_all (rule : Rule) : rule ∈ RuleSet.all.rules := by
  cases rule <;> decide

theorem nodup_code : (RuleSet.all.rules.map code).Nodup := by
  decide

theorem code_inj {first second : Rule} : first.code = second.code ↔ first = second :=
  ⟨List.inj_on_of_nodup_map nodup_code (mem_all first) (mem_all second), congrArg code⟩

end Rule

namespace Validation

/-- In a validation of a document without a limit, each rule of a set does what it does alone. -/
structure Independent (schema : Schema) (rules : RuleSet) (document : Document) : Prop where
  /-- The reports with the code of a rule are those of the rule alone. -/
  alone : ∀ rule ∈ rules.rules,
    (validate schema none rules document).reports.filter (·.code = rule.code) =
      (validate schema none (.rule rule) document).reports
  /-- What is reported is what is found. -/
  reported : (validate schema none rules document).reports =
    (found schema rules document).map fun item => item.2.diagnostic
  /-- No event of a traversal comes twice. -/
  once : (Outline.ofDocument document).events.Nodup
  /-- What is found is in the order of the events, and of the rules at one event. -/
  order : found schema rules document =
    (Outline.ofDocument document).events.flatMap fun event =>
      rules.rules.flatMap fun rule =>
        (found schema (.rule rule) document).filter (·.1 = event)

theorem alone_of_nodup (schema : Schema) {rules : RuleSet} (document : Document)
    (nodup : rules.rules.Nodup) {rule : Rule} (member : rule ∈ rules.rules) :
    (validate schema none rules document).reports.filter (·.code = rule.code) =
      (validate schema none (.rule rule) document).reports := by
  rw [reports_eq_found, reports_eq_found, List.filter_map, ← found_filter_rule schema document nodup
    member]
  refine congrArg _ (List.filter_congr ?_)
  intro item _
  exact decide_eq_decide.mpr Rule.code_inj

/-- All rules are independent, and their codes tell them apart. -/
theorem independent_all (schema : Schema) (document : Document) :
    (∀ rule, rule ∈ RuleSet.all.rules) ∧ (RuleSet.all.rules.map Rule.code).Nodup ∧
      Independent schema .all document :=
  ⟨Rule.mem_all, Rule.nodup_code,
    { alone := fun _ member => alone_of_nodup schema document (.of_map _ Rule.nodup_code) member
      reported := reports_eq_found schema .all document
      once := Outline.nodup_events (Outline.placed_ofDocument document)
      order := found_eq_flatMap schema .all document }⟩

end Validation

end QueryCheck
