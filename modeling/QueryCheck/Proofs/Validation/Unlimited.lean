import QueryCheck.Proofs.Traversal.Lockstep
import QueryCheck.Proofs.Validation.TypeTracking
import QueryCheck.Validation.Outcome

/-!
# Validations without a limit

A validation whose reports have no limit is never aborted. It comes to the same as
a run of its rules over the events of the document, where the definitions behind a
node are found by its place, and reports all that the rules find.
-/

namespace QueryCheck

namespace Context

/-- A context that takes any number of reports. -/
structure Unlimited (context : Context) : Prop where
  limit : context.limit? = none
  going : context.aborted = false

theorem unlimited_start : (start none).Unlimited := ⟨rfl, rfl⟩

variable {context : Context}

theorem Unlimited.report (unlimited : context.Unlimited) (diagnostic : Diagnostic) :
    (context.report diagnostic).Unlimited := by
  simp only [Context.report, unlimited.going]
  exact ⟨unlimited.limit, by simp [unlimited.limit]⟩

theorem Unlimited.reports_report (unlimited : context.Unlimited) (diagnostic : Diagnostic) :
    (context.report diagnostic).reports = context.reports ++ [diagnostic] := by
  simp [Context.report, unlimited.going]

/-- Without a limit all findings are reported. -/
theorem Unlimited.reports_foldl (unlimited : context.Unlimited) (findings : List Finding) :
    (findings.foldl Validation.absorb context).reports =
      context.reports ++ findings.map Finding.diagnostic := by
  induction findings generalizing context with
  | nil => simp
  | cons finding findings ih =>
      rw [List.foldl_cons, Validation.absorb, ih (unlimited.report finding.diagnostic),
        unlimited.reports_report, List.append_assoc]
      rfl

end Context

/-! ## Traversals that are never aborted -/

namespace Visitor

variable {σ ο : Type}

/-- A visitor with definitions that depend on the event alone. -/
def given (typesAt : Event → TypeInfo) (visitor : TypeInfo → Visitor σ ο) : Visitor σ ο :=
  fun event => visitor (typesAt event) event

end Visitor

namespace Tracked

variable {σ ο : Type} {absorb : Context → ο → Context} {visitor : TypeInfo → Visitor σ ο}

def Endless (absorb : Context → ο → Context) : Prop :=
  ∀ context, context.Unlimited → ∀ item, (absorb context item).Unlimited

theorem Endless.foldl (endless : Endless absorb) {context : Context}
    (unlimited : context.Unlimited) (items : List ο) : (items.foldl absorb context).Unlimited := by
  induction items generalizing context with
  | nil => exact unlimited
  | cons item items ih => exact ih (endless context unlimited item)

/-- The context is made of all that was put out. -/
theorem context_along (events : List Event) (run : Run (Tracked σ)) :
    (Run.along (step absorb visitor) events run).state.context =
      (Run.rows (step absorb visitor) events run).flatten.foldl absorb run.state.context := by
  induction events generalizing run with
  | nil => rfl
  | cons event events ih =>
      have fed : (run.feed (step absorb visitor) event).1.state.context =
          (run.feed (step absorb visitor) event).2.foldl absorb run.state.context := by
        obtain ⟨progress, state⟩ := run
        cases progress with
        | running => rfl
        | skipping opened => rfl
        | stopped => rfl
      rw [Run.along, Run.rows, List.flatten_cons, List.foldl_append, ih, fed]

theorem context_visit (root : Root) (state : Tracked σ) :
    (root.visit (step absorb visitor) state).state.context =
      (root.visit (step absorb visitor) state).out.foldl absorb state.context := by
  rw [Run.state_visit, Run.out_visit]
  exact context_along _ _

/-- A visitor that can not be aborted runs as if it was alone. -/
theorem Endless.rows_stepAt (endless : Endless absorb) (typesAt : Event → TypeInfo)
    (events : List Event) {context : Context} (unlimited : context.Unlimited) (progress : Progress)
    (state : σ) :
    Run.rows (stepAt absorb visitor typesAt) events ⟨progress, (context, state)⟩ =
      Run.rows (.given typesAt visitor) events ⟨progress, state⟩ := by
  induction events generalizing context progress state with
  | nil => rfl
  | cons event events ih =>
      cases progress with
      | running =>
          have after := endless.foldl unlimited (visitor (typesAt event) event state).out
          rw [Run.rows, Run.rows]
          simp only [Run.feed, stepAt, after.going]
          exact congrArg _ (ih after _ _)
      | skipping opened => exact congrArg _ (ih unlimited _ _)
      | stopped => exact congrArg _ (ih unlimited _ _)

theorem Endless.out_visit (endless : Endless absorb) (schema : Schema) (inner : σ)
    (document : Document) :
    ((Root.document document).visit (step absorb visitor) (.start schema none inner)).out =
      (Run.rows (.given (.ofEvent schema document) visitor) (Outline.ofDocument document).events
        ⟨.running, inner⟩).flatten := by
  rw [(visit_document absorb visitor schema none inner document).out, Run.out_visit,
    Root.events_document, endless.rows_stepAt _ _ Context.unlimited_start]

end Tracked

/-! ## Rules side by side -/

namespace Composite

variable {α ο : Type}

theorem given_step (typesAt : Event → TypeInfo) (leaf : TypeInfo → Visitor α ο) :
    Visitor.given typesAt (fun types => step (leaf types)) = step (.given typesAt leaf) := by
  funext event tree
  change step (leaf (typesAt event)) event tree = _
  induction tree with
  | single state => rfl
  | pair marks first second firstIh secondIh => simp only [step, firstIh, secondIh]

end Composite

namespace RuleSet

theorem fresh_start (rules : RuleSet) : rules.start.Fresh := by
  induction rules with
  | rule single => exact .single _
  | both first second firstIh secondIh => exact .compose firstIh secondIh

theorem leaves_start (rules : RuleSet) : rules.start.leaves = rules.rules.map RuleState.start := by
  induction rules with
  | rule single => rfl
  | both first second firstIh secondIh =>
      rw [rules, List.map_append, ← firstIh, ← secondIh]
      rfl

end RuleSet

namespace Validation

def ruleAt (schema : Schema) (document : Document) : Visitor RuleState Finding :=
  .given (.ofEvent schema document) RuleState.visitor

theorem endless_absorb : Tracked.Endless absorb := fun _ unlimited finding =>
  unlimited.report finding.diagnostic

theorem reports_run (schema : Schema) (rules : Composite RuleState) (document : Document) :
    (run schema none rules document).1.reports =
      ((Root.document document).visit visitor (.start schema none rules)).out.map
        Finding.diagnostic := by
  change ((Root.document document).visit visitor
    (.start schema none rules)).state.context.reports = _
  rw [visitor, Tracked.context_visit]
  exact Context.unlimited_start.reports_foldl _

/-- Without a limit, rules find what they find at the events of the document. -/
theorem out_visit_eq_rows (schema : Schema) (rules : Composite RuleState) (document : Document) :
    ((Root.document document).visit visitor (.start schema none rules)).out =
      (Run.rows (Composite.step (ruleAt schema document)) (Outline.ofDocument document).events
        ⟨.running, rules⟩).flatten := by
  rw [visitor, endless_absorb.out_visit, Composite.given_step]
  rfl

theorem reports_run_eq_rows (schema : Schema) (rules : Composite RuleState) (document : Document) :
    (run schema none rules document).1.reports =
      (Run.rows (Composite.step (ruleAt schema document)) (Outline.ofDocument document).events
        ⟨.running, rules⟩).flatten.map Finding.diagnostic := by
  rw [reports_run, out_visit_eq_rows]

theorem reports_validate (schema : Schema) (rules : RuleSet) (document : Document) :
    (validate schema none rules document).reports =
      (Run.rows (Composite.step (ruleAt schema document)) (Outline.ofDocument document).events
        ⟨.running, rules.start⟩).flatten.map Finding.diagnostic :=
  reports_run_eq_rows schema rules.start document

end Validation

end QueryCheck
