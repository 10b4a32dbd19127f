import QueryCheck.Proofs.Validation.Unlimited

/-!
# Validations with a limit

The report that reaches the limit of a validation aborts it in the middle of a
call, after which the rules that are still to be called at the same event are
called, and the traversal is stopped. The main result compares this with the same
validation without a limit. The reports are its first ones, and the calls are its
calls up to the event at which the limit is reached.

Calls are made visible by rules that put them out. At one event after the other,
the run with a limit is the run without one, of which everything is taken until
there are enough findings and nothing after that.
-/

namespace QueryCheck

/-! ## Contexts with a limit -/

namespace Context

/-- A context with a limit that was given findings one after the other. -/
def taking (limit : Nat) (findings : List Finding) : Context :=
  ⟨some limit, (findings.map Finding.diagnostic).take (max limit 1),
    decide (max limit 1 ≤ findings.length)⟩

theorem taking_nil (limit : Nat) : taking limit [] = start (some limit) := by
  have empty : ¬max limit 1 ≤ 0 := by omega
  simp [taking, start, empty]

theorem aborted_taking {limit : Nat} {findings : List Finding} :
    (taking limit findings).aborted = true ↔ max limit 1 ≤ findings.length :=
  decide_eq_true_iff

/-- One more finding is taken as long as the limit is not reached. -/
theorem absorb_taking (limit : Nat) (findings : List Finding) (finding : Finding) :
    Validation.absorb (taking limit findings) finding = taking limit (findings ++ [finding]) := by
  rw [Validation.absorb, report]
  by_cases full : max limit 1 ≤ findings.length
  · have longer : max limit 1 ≤ (findings ++ [finding]).length := by
      rw [List.length_append]
      omega
    have enough : max limit 1 ≤ (findings.map Finding.diagnostic).length := by
      rwa [List.length_map]
    rw [if_pos (aborted_taking.mpr full), taking, taking, decide_eq_true full,
      decide_eq_true longer, List.map_append, List.take_append_of_le_length enough]
  · have whole : (findings.map Finding.diagnostic).take (max limit 1) =
        findings.map Finding.diagnostic := by
      refine List.take_of_length_le ?_
      rw [List.length_map]
      omega
    have longer : (findings.map Finding.diagnostic ++ [finding.diagnostic]).take (max limit 1) =
        findings.map Finding.diagnostic ++ [finding.diagnostic] := by
      refine List.take_of_length_le ?_
      rw [List.length_append, List.length_map, List.length_singleton]
      omega
    have reached : limit ≤ findings.length + 1 ↔ max limit 1 ≤ findings.length + 1 := by omega
    rw [if_neg (mt aborted_taking.mp full)]
    simp only [taking, whole, longer, List.map_append, List.map_cons, List.map_nil,
      Option.any_some, List.length_append, List.length_map, List.length_singleton]
    rw [decide_eq_decide.mpr reached]

theorem foldl_taking (limit : Nat) (before findings : List Finding) :
    findings.foldl Validation.absorb (taking limit before) = taking limit (before ++ findings) := by
  induction findings generalizing before with
  | nil => rw [List.foldl_nil, List.append_nil]
  | cons finding findings ih =>
      rw [List.foldl_cons, absorb_taking, ih, List.append_assoc]
      rfl

end Context

/-! ## Runs with a limit -/

namespace Tracked

def findings (calls : List (Sighting Finding)) : List Finding :=
  calls.flatMap Sighting.out

theorem findings_append (first second : List (Sighting Finding)) :
    findings (first ++ second) = findings first ++ findings second :=
  List.flatMap_append

theorem foldl_absorbAll (calls : List (Sighting Finding)) (context : Context) :
    calls.foldl (absorbAll Validation.absorb) context =
      (findings calls).foldl Validation.absorb context :=
  List.foldl_flatMap.symm

/-- The calls at one event after the other, up to the event at which there are enough findings.
So many were there before. -/
def cut (room : Nat) : Nat → List (List (Sighting Finding)) → List (List (Sighting Finding))
  | _, [] => []
  | before, row :: rows =>
      (if before < room then row else []) :: cut room (before + (findings row).length) rows

theorem cut_of_le {room before : Nat} (full : room ≤ before)
    (rows : List (List (Sighting Finding))) : cut room before rows = rows.map fun _ => [] := by
  induction rows generalizing before with
  | nil => rfl
  | cons row rows ih =>
      rw [cut, if_neg (Nat.not_lt.mpr full), ih (Nat.le_add_right_of_le full)]
      rfl

/-- Up to the limit all findings are there. -/
theorem cut_cases (room before : Nat) (rows : List (List (Sighting Finding))) :
    cut room before rows = rows ∨
      (findings (cut room before rows).flatten <+: findings rows.flatten ∧
        room ≤ before + (findings (cut room before rows).flatten).length) := by
  induction rows generalizing before with
  | nil => exact Or.inl rfl
  | cons row rows ih =>
      by_cases full : room ≤ before
      · refine Or.inr ?_
        have none : (cut room before (row :: rows)).flatten = [] := by
          rw [cut_of_le full, List.flatten_eq_nil_iff]
          intro other member
          obtain ⟨_, _, rfl⟩ := List.mem_map.mp member
          rfl
        rw [none]
        exact ⟨List.nil_prefix, Nat.le_add_right_of_le full⟩
      · rw [cut, if_pos (Nat.lt_of_not_le full)]
        rcases ih (before + (findings row).length) with same | ⟨starts, enough⟩
        · rw [same]
          exact Or.inl rfl
        · refine Or.inr ?_
          rw [List.flatten_cons, List.flatten_cons, findings_append, findings_append]
          refine ⟨(List.prefix_append_right_inj _).mpr starts, ?_⟩
          rw [List.length_append]
          omega

variable {σ : Type} {visitor : TypeInfo → Visitor σ (Sighting Finding)}

/-- An event at which the limit is reached stops a traversal. -/
theorem stepAt_taking (typesAt : Event → TypeInfo) (limit : Nat) (event : Event) (state : σ)
    (before : List Finding) :
    stepAt (absorbAll Validation.absorb) visitor typesAt event (.taking limit before, state) =
      let answer := visitor (typesAt event) event state
      ⟨if max limit 1 ≤ (before ++ findings answer.out).length then .stop else answer.flow,
        (.taking limit (before ++ findings answer.out), answer.state), answer.out⟩ := by
  simp only [stepAt, foldl_absorbAll, Context.foldl_taking, Context.aborted_taking]

/-- With a limit, a visitor is called up to the event at which the limit is reached. -/
theorem rows_taking (typesAt : Event → TypeInfo) (limit : Nat) (events : List Event)
    (progress : Progress) (state : σ) {before : List Finding}
    (room : before.length < max limit 1) :
    Run.rows (stepAt (absorbAll Validation.absorb) visitor typesAt) events
        ⟨progress, (.taking limit before, state)⟩ =
      cut (max limit 1) before.length
        (Run.rows (.given typesAt visitor) events ⟨progress, state⟩) := by
  induction events generalizing progress state before with
  | nil => rfl
  | cons event events ih =>
      rw [Run.rows, Run.rows, cut, if_pos room]
      cases progress with
      | running =>
          simp only [Run.feed, stepAt_taking, Visitor.given]
          refine congrArg _ ?_
          rw [← List.length_append]
          split
          case isTrue full =>
            -- The limit is reached, so nothing comes after this event.
            rw [cut_of_le full, Progress.answered, (Run.passes_stopped events _).rows]
            simp only [List.map_const', Run.length_rows]
          case isFalse more => exact ih _ _ (Nat.lt_of_not_le more)
      | skipping opened => exact congrArg _ (ih _ _ room)
      | stopped => exact congrArg _ (ih _ _ room)

def callsBefore (event : Event) (calls : List (Sighting Finding)) : List (Sighting Finding) :=
  calls.takeWhile (·.event ≠ event)

/-- A call is left if there is room for it after what was found at the events before it. -/
theorem flatten_cut {visitor : Visitor σ (Sighting Finding)}
    (stamped : Run.Stamped Sighting.event visitor) {events : List Event} (nodup : events.Nodup)
    (run : Run σ) (room before : Nat) :
    (cut room before (Run.rows visitor events run)).flatten =
      (Run.rows visitor events run).flatten.filter fun call =>
        before + (findings (callsBefore call.event
          (Run.rows visitor events run).flatten)).length < room := by
  induction events generalizing run before with
  | nil => rfl
  | cons event events ih =>
      obtain ⟨isNew, nodup⟩ := List.nodup_cons.mp nodup
      have own : ∀ call ∈ (run.feed visitor event).2, call.event = event := fun call member =>
        Run.stamp_of_mem_feed stamped member
      have first : ∀ call ∈ (run.feed visitor event).2, callsBefore call.event
          ((run.feed visitor event).2 ++
            (Run.rows visitor events (run.feed visitor event).1).flatten) = [] := by
        intro call member
        obtain ⟨head, tail, row⟩ := List.exists_cons_of_ne_nil (List.ne_nil_of_mem member)
        have same : head.event = call.event :=
          (own head (row ▸ List.mem_cons_self)).trans (own call member).symm
        rw [row]
        exact List.takeWhile_cons_of_neg (by simp [same])
      rw [Run.rows, cut, List.flatten_cons, List.flatten_cons, List.filter_append, ih nodup]
      congr 1
      · by_cases fits : before < room
        · rw [if_pos fits]
          refine (List.filter_eq_self.mpr ?_).symm
          intro call member
          rw [first call member]
          exact decide_eq_true fits
        · rw [if_neg fits]
          refine (List.filter_eq_nil_iff.mpr ?_).symm
          intro call member
          rw [first call member, decide_eq_true_eq]
          exact fits
      · refine List.filter_congr ?_
        intro call member
        have later : call.event ≠ event := by
          rintro rfl
          exact isNew (Run.stamp_mem stamped member)
        have passed : callsBefore call.event ((run.feed visitor event).2 ++
            (Run.rows visitor events (run.feed visitor event).1).flatten) =
          (run.feed visitor event).2 ++ callsBefore call.event
            (Run.rows visitor events (run.feed visitor event).1).flatten := by
          refine List.takeWhile_append_of_pos ?_
          intro other isOther
          rw [own other isOther]
          exact decide_eq_true later.symm
        rw [passed, findings_append, List.length_append, Nat.add_assoc]

end Tracked

/-! ## Validations with a limit -/

namespace Validation

/-- Rules side by side that put out their calls. -/
def watched (types : TypeInfo) : Visitor (Composite RuleState) (Tracked.Sighting Finding) :=
  Composite.step (Tracked.watched RuleState.visitor types)

/-- The calls of all rules in a validation, with what each of them finds. -/
def calls (schema : Schema) (limit? : Option Nat) (rules : Composite RuleState)
    (document : Document) : List (Tracked.Sighting Finding) :=
  ((Root.document document).visit (Tracked.step (Tracked.absorbAll absorb) watched)
    (.start schema limit? rules)).out

theorem step_eq_expand (types : TypeInfo) (event : Event) (rules : Composite RuleState) :
    Composite.step (RuleState.visitor types) event rules =
      (watched types event rules).expand Tracked.Sighting.out := by
  refine Composite.step_expand ?_ rules
  intro state
  simp [Tracked.watched, Reply.expand]

/-- Watching the rules does not change a validation. -/
theorem mirrors_watched :
    Run.Mirrors id (Tracked.step (Tracked.absorbAll absorb) watched) visitor := by
  constructor
  · intro event state
    simp only [visitor, Tracked.step, step_eq_expand, Reply.expand, id, Tracked.foldl_absorbAll,
      Tracked.findings]
  · intro event state
    simp only [visitor, Tracked.step, step_eq_expand, Reply.expand, id, Tracked.foldl_absorbAll,
      Tracked.findings]

/-- The outcome of a validation is that of what the rules find in their calls. -/
theorem run_eq_calls (schema : Schema) (limit? : Option Nat) (rules : Composite RuleState)
    (document : Document) :
    (run schema limit? rules document).1 =
      .ofContext ((Tracked.findings (calls schema limit? rules document)).foldl absorb
        (.start limit?)) := by
  have same : ((Root.document document).visit visitor (.start schema limit? rules)).state =
      ((Root.document document).visit (Tracked.step (Tracked.absorbAll absorb) watched)
        (.start schema limit? rules)).state := by
    rw [Run.state_visit, Run.state_visit]
    exact congrArg Run.state (mirrors_watched.along _ ⟨.running, .start schema limit? rules⟩)
  rw [run, same, Tracked.context_visit, Tracked.foldl_absorbAll]
  rfl

/-- What a call puts out carries the event of the call. -/
theorem stamped_watched (typesAt : Event → TypeInfo) :
    Run.Stamped Tracked.Sighting.event (.given typesAt watched) := by
  intro event rules call member
  obtain ⟨state, _, out⟩ := Composite.exists_of_mem_step member
  rw [List.mem_singleton.mp out]

section

variable (schema : Schema) (limit : Nat) (rules : Composite RuleState) (document : Document)

theorem calls_none :
    calls schema none rules document =
      (Run.rows (.given (.ofEvent schema document) watched) (Outline.ofDocument document).events
        ⟨.running, rules⟩).flatten := by
  have endless : Tracked.Endless (Tracked.absorbAll absorb) := fun _ unlimited call =>
    endless_absorb.foldl unlimited call.out
  exact endless.out_visit schema rules document

theorem calls_some :
    calls schema (some limit) rules document =
      (Tracked.cut (max limit 1) 0 (Run.rows (.given (.ofEvent schema document) watched)
        (Outline.ofDocument document).events ⟨.running, rules⟩)).flatten := by
  have empty : ([] : List Finding).length < max limit 1 := by
    rw [List.length_nil]
    omega
  rw [calls, (Tracked.visit_document _ _ schema (some limit) rules document).out, Run.out_visit,
    ← Context.taking_nil, Tracked.rows_taking _ _ _ _ _ empty]
  rfl

/-- A rule is called as long as the limit was not reached at an event before. -/
theorem calls_some_eq_filter :
    calls schema (some limit) rules document =
      (calls schema none rules document).filter fun call =>
        (Tracked.findings (Tracked.callsBefore call.event
          (calls schema none rules document))).length < max limit 1 := by
  have once := Outline.nodup_events (Outline.placed_ofDocument document)
  rw [calls_some, calls_none, Tracked.flatten_cut (stamped_watched _) once]
  simp only [Nat.zero_add]

/-- The findings of a limited validation up to its limit. -/
theorem findings_calls_some :
    (Tracked.findings (calls schema (some limit) rules document)).take (max limit 1) =
        (Tracked.findings (calls schema none rules document)).take (max limit 1) ∧
      (max limit 1 ≤ (Tracked.findings (calls schema (some limit) rules document)).length ↔
        max limit 1 ≤ (Tracked.findings (calls schema none rules document)).length) := by
  rw [calls_some, calls_none]
  rcases Tracked.cut_cases (max limit 1) 0 (Run.rows (.given (.ofEvent schema document) watched)
    (Outline.ofDocument document).events ⟨.running, rules⟩) with same | ⟨starts, enough⟩
  · rw [same]
    exact ⟨rfl, Iff.rfl⟩
  · rw [Nat.zero_add] at enough
    obtain ⟨rest, whole⟩ := starts
    rw [← whole, List.take_append_of_le_length enough, List.length_append]
    exact ⟨rfl, fun _ => Nat.le_add_right_of_le enough, fun _ => enough⟩

theorem reports_eq_findings :
    (run schema none rules document).1.reports =
      (Tracked.findings (calls schema none rules document)).map Finding.diagnostic := by
  rw [run_eq_calls]
  exact Context.unlimited_start.reports_foldl _

theorem aborted_run_none : (run schema none rules document).1.aborted = false := by
  rw [run_eq_calls]
  exact (endless_absorb.foldl Context.unlimited_start _).going

/-- The outcome of a validation with a limit. -/
theorem run_some :
    (run schema (some limit) rules document).1 =
      ⟨(run schema none rules document).1.reports.take (max limit 1),
        decide (max limit 1 ≤ (run schema none rules document).1.reports.length)⟩ := by
  obtain ⟨taken, reached⟩ := findings_calls_some schema limit rules document
  rw [run_eq_calls, reports_eq_findings, ← Context.taking_nil, Context.foldl_taking,
    List.length_map, ← List.map_take, ← taken, ← decide_eq_decide.mpr reached, List.map_take]
  rfl

end

/-- A limit cuts a validation short and changes nothing before that. -/
structure CutShort (schema : Schema) (limit : Nat) (rules : RuleSet) (document : Document) :
    Prop where
  /-- The first reports are those without a limit. Even a limit of zero lets one through. -/
  reports : (validate schema (some limit) rules document).reports =
    (validate schema none rules document).reports.take (max limit 1)
  /-- A validation is aborted if there is as much to report as the limit says. -/
  aborted : (validate schema (some limit) rules document).aborted = true ↔
    max limit 1 ≤ (validate schema none rules document).reports.length
  /-- Whether a document is valid does not depend on a limit. -/
  verdict : (validate schema (some limit) rules document).isValid =
    (validate schema none rules document).isValid
  /-- With any limit and without one, what is reported is what the rules find in their calls. -/
  outcome : ∀ limit?, validate schema limit? rules document =
    .ofContext ((Tracked.findings (calls schema limit? rules.start document)).foldl absorb
      (.start limit?))
  /-- A rule is called if and only if it is called without a limit and the findings at the events
  before this one do not reach the limit. -/
  calls : calls schema (some limit) rules.start document =
    (calls schema none rules.start document).filter fun call =>
      (Tracked.findings (Tracked.callsBefore call.event
        (calls schema none rules.start document))).length < max limit 1

theorem cutShort_limit (schema : Schema) (limit : Nat) (rules : RuleSet) (document : Document) :
    CutShort schema limit rules document := by
  have limited : validate schema (some limit) rules document =
      ⟨(validate schema none rules document).reports.take (max limit 1),
        decide (max limit 1 ≤ (validate schema none rules document).reports.length)⟩ :=
    run_some schema limit rules.start document
  refine ⟨?_, ?_, ?_, ?_, calls_some_eq_filter schema limit rules.start document⟩
  · rw [limited]
  · rw [limited]
    exact decide_eq_true_iff
  · have positive : max limit 1 ≠ 0 := by omega
    rw [limited, Outcome.isValid, Outcome.isValid, Bool.eq_iff_iff, List.isEmpty_iff,
      List.isEmpty_iff, List.take_eq_nil_iff]
    exact or_iff_right positive
  · intro limit?
    exact run_eq_calls schema limit? rules.start document

end Validation

end QueryCheck
