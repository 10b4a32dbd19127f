import QueryCheck.Proofs.Traversal.Inside
import QueryCheck.Proofs.Validation.ErrorLimit
import QueryCheck.Proofs.Validation.RuleIndependence

/-!
# Rules that were used before

After a validation, and even more so after one that was aborted, rules are left in
states other than those they started with, and so are the marks of the tree they
form. The main result is that none of this can be noticed: the next validation has
the outcome that new rules give.

The marks are forgotten on entering a document, and with them the states of most
rules. The names of arguments and variables are kept until the next field, directive
or operation is entered, and no rule reads them before that.
-/

namespace QueryCheck

/-! ## Visitors that forget -/

namespace Visitor

variable {σ ο : Type}

def Going (visitor : Visitor σ ο) : Prop :=
  ∀ event state, (visitor event state).flow ≠ .stop

end Visitor

namespace Outline

variable {σ ο : Type} {visitor : Visitor σ ο}

mutual

theorem flow_visit_ne_stop (going : visitor.Going) (state : σ) :
    (outline : Outline) → (outline.visit visitor state).flow ≠ .stop
  | .branch node path children => by
      by_cases next : (visitor ⟨.enter, node, path⟩ state).flow = .next
      · rw [visit_of_next next (flow_visitAll_ne_stop going _ children)]
        exact going _ _
      · rw [visit_of_skip next]
        exact going _ _

theorem flow_visitAll_ne_stop (going : visitor.Going) (state : σ) :
    (outlines : List Outline) → (visitAll visitor outlines state).flow ≠ .stop
  | [] => nofun
  | outline :: outlines => by
      rw [visitAll_of_next (flow_visit_ne_stop going state outline)]
      exact flow_visitAll_ne_stop going _ outlines

end

end Outline

namespace Run

variable {σ ο : Type} {visitor : Visitor σ ο}

/-- A visitor that never stops is called again after several outlines. -/
theorem exists_along_eventsAll (going : visitor.Going) (outlines : List Outline) (state : σ) :
    ∃ after, along visitor (Outline.eventsAll outlines) ⟨.running, state⟩ = ⟨.running, after⟩ := by
  have along : along visitor (Outline.eventsAll outlines) ⟨.running, state⟩ = _ :=
    (matches_visitAll state outlines).along
  have flow := Outline.flow_visitAll_ne_stop going state outlines
  cases answered : (Outline.visitAll visitor outlines state).flow with
  | stop => exact absurd answered flow
  | next =>
      rw [along, answered]
      exact ⟨_, rfl⟩
  | skip =>
      rw [along, answered]
      exact ⟨_, rfl⟩

/-- What is put out at the events of an outline does not depend on the state before. -/
def Forgets (visitor : Visitor σ ο) (outline : Outline) : Prop :=
  ∀ first second, rows visitor outline.events ⟨.running, first⟩ =
    rows visitor outline.events ⟨.running, second⟩

theorem rows_eventsAll_of_forgets (going : visitor.Going) {outlines : List Outline}
    (forgets : ∀ outline ∈ outlines, Forgets visitor outline) (first second : σ) :
    rows visitor (Outline.eventsAll outlines) ⟨.running, first⟩ =
      rows visitor (Outline.eventsAll outlines) ⟨.running, second⟩ := by
  induction outlines generalizing first second with
  | nil => rfl
  | cons outline outlines ih =>
      obtain ⟨head, rest⟩ := List.forall_mem_cons.mp forgets
      obtain ⟨left, leftAlong⟩ := exists_along_eventsAll going [outline] first
      obtain ⟨right, rightAlong⟩ := exists_along_eventsAll going [outline] second
      rw [Outline.eventsAll_singleton] at leftAlong rightAlong
      rw [Outline.eventsAll, rows_append, rows_append, leftAlong, rightAlong, head first second,
        ih rest left right]

namespace Forgets

variable {node : Node} {path : Path} {children : List Outline}

/-- A node on whose enter the state is lost. -/
theorem of_reset (reset : ∀ first second,
      visitor ⟨.enter, node, path⟩ first = visitor ⟨.enter, node, path⟩ second) :
    Forgets visitor (.branch node path children) := by
  intro first second
  simp only [Outline.events, rows, feed, reset first second]

/-- A node that is passed over. -/
theorem of_skip (entered : ∀ state, visitor ⟨.enter, node, path⟩ state = ⟨.skip, state, []⟩) :
    Forgets visitor (.branch node path children) := by
  have inside (state : σ) : Passes visitor (Outline.eventsAll children) ⟨.skipping 0, state⟩ :=
    passes_skippingAll 0 state children
  intro first second
  simp only [Outline.events, rows, feed, entered, Progress.answered, rows_append,
    (inside first).along, (inside first).rows, (inside second).along, (inside second).rows]

/-- A node at which nothing happens. -/
theorem of_pass (going : visitor.Going)
    (entered : ∀ state, visitor ⟨.enter, node, path⟩ state = .pass state)
    (left : ∀ state, visitor ⟨.leave, node, path⟩ state = .pass state)
    (inner : ∀ child ∈ children, Forgets visitor child) :
    Forgets visitor (.branch node path children) := by
  intro first second
  obtain ⟨leftEnd, leftAlong⟩ := exists_along_eventsAll going children first
  obtain ⟨rightEnd, rightAlong⟩ := exists_along_eventsAll going children second
  simp only [Outline.events, rows, feed_of_pass (entered _), rows_append, leftAlong, rightAlong,
    feed_of_pass (left _), rows_eventsAll_of_forgets going inner first second]

end Forgets

end Run

/-! ## The names of arguments and variables -/

theorem UniqueArgumentNames.going : Visitor.Going visitor := by
  intro event used
  unfold visitor
  split <;> exact nofun

theorem UniqueVariableNames.going : Visitor.Going visitor := by
  intro event used
  unfold visitor
  split <;> exact nofun

/-- The names of arguments are forgotten at the node that has them. -/
theorem UniqueArgumentNames.forgets_inner {outline : Outline} (inner : outline.Inner) :
    Run.Forgets visitor outline := by
  induction inner with
  | @owner node path arguments others owns _ _ =>
      cases node with
      | field field => exact .of_reset fun _ _ => rfl
      | directive directive => exact .of_reset fun _ _ => rfl
      | _ => cases owns
  | @plain node path children plain _ ih =>
      cases node with
      | variableDefinition definition => exact .of_skip fun _ => rfl
      | selectionSet selections => exact .of_pass going (fun _ => rfl) (fun _ => rfl) ih
      | spread spread => exact .of_pass going (fun _ => rfl) (fun _ => rfl) ih
      | inline fragment => exact .of_pass going (fun _ => rfl) (fun _ => rfl) ih
      | _ => cases plain

theorem UniqueArgumentNames.forgets (document : Document) :
    Run.Forgets visitor (Outline.ofDocument document) := by
  refine .of_pass going (fun _ => rfl) (fun _ => rfl)
    (Outline.forall_mem_ofMembers ?_ _ 0 document.definitions)
  intro path definition
  have inner := Outline.inner_of_mem_ofDefinition path definition
  cases definition with
  | operation operation =>
      exact .of_pass going (fun _ => rfl) (fun _ => rfl) fun child member =>
        forgets_inner (inner child member)
  | fragment fragment =>
      exact .of_pass going (fun _ => rfl) (fun _ => rfl) fun child member =>
        forgets_inner (inner child member)

/-- The names of variables are forgotten at the operation that has them. -/
theorem UniqueVariableNames.forgets (document : Document) :
    Run.Forgets visitor (Outline.ofDocument document) := by
  refine .of_pass going (fun _ => rfl) (fun _ => rfl)
    (Outline.forall_mem_ofMembers ?_ _ 0 document.definitions)
  intro path definition
  cases definition with
  | operation operation => exact .of_reset fun _ _ => rfl
  | fragment fragment => exact .of_skip fun _ => rfl

/-- At the events of a document a rule finds the same in whatever state it starts. -/
theorem Validation.rows_ruleAt (schema : Schema) (document : Document) (state : RuleState) :
    Run.rows (ruleAt schema document) (Outline.ofDocument document).events ⟨.running, state⟩ =
      Run.rows (ruleAt schema document) (Outline.ofDocument document).events
        ⟨.running, .start state.rule⟩ := by
  cases state with
  | uniqueArgumentNames used =>
      have mirrors : Run.Mirrors RuleState.uniqueArgumentNames UniqueArgumentNames.visitor
        (ruleAt schema document) := ⟨fun _ _ => rfl, fun _ _ => rfl⟩
      have alone (used : List String) := mirrors.rows_same (fun _ _ => rfl)
        (Outline.ofDocument document).events ⟨.running, used⟩
      have forgets := UniqueArgumentNames.forgets document used []
      exact (alone used).trans (forgets.trans (alone []).symm)
  | uniqueVariableNames used =>
      have mirrors : Run.Mirrors RuleState.uniqueVariableNames UniqueVariableNames.visitor
        (ruleAt schema document) := ⟨fun _ _ => rfl, fun _ _ => rfl⟩
      have alone (used : List String) := mirrors.rows_same (fun _ _ => rfl)
        (Outline.ofDocument document).events ⟨.running, used⟩
      have forgets := UniqueVariableNames.forgets document used []
      exact (alone used).trans (forgets.trans (alone []).symm)
  | _ => rfl

/-! ## Trees of rules -/

namespace Composite

variable {α ο β : Type}

theorem map_leaves_enter {view : α → β} {child : Composite α} {answer : Reply (Composite α) ο}
    (kept : answer.state.leaves.map view = child.leaves.map view) (mark : Mark) (depth : Nat) :
    (mark.enter depth child answer).2.state.leaves.map view = child.leaves.map view := by
  cases mark with
  | active => exact kept
  | skipping start =>
      rw [Mark.enter]
      split
      · exact kept
      · rfl
  | stopped => rfl

theorem map_leaves_leave {view : α → β} {child : Composite α} {answer : Reply (Composite α) ο}
    (kept : answer.state.leaves.map view = child.leaves.map view) (mark : Mark) (depth : Nat) :
    (mark.leave depth child answer).2.state.leaves.map view = child.leaves.map view := by
  cases mark with
  | active => exact kept
  | skipping start => rfl
  | stopped => rfl

/-- What every visitor of a tree keeps is kept by the tree. -/
theorem map_leaves_step {leaf : Visitor α ο} {view : α → β} {event : Event}
    (kept : ∀ state, view (leaf event state).state = view state) (tree : Composite α) :
    (step leaf event tree).state.leaves.map view = tree.leaves.map view := by
  induction tree with
  | single state => exact congrArg (fun viewed => [viewed]) (kept state)
  | pair marks first second firstIh secondIh =>
      rw [step, leaves, List.map_append]
      split
      · rw [← map_leaves_enter firstIh _ _, ← map_leaves_enter secondIh _ _, ← List.map_append]
        rfl
      · rw [← map_leaves_leave firstIh _ _, ← map_leaves_leave secondIh _ _, ← List.map_append]
        rfl

/-- Trees whose visitors put out the same alone put out the same, whatever they remember. -/
theorem rows_eq_of_leaves (leaf : Visitor α ο) (document : Document) {tree other : Composite α}
    (same : tree.leaves.map (fun state =>
        Run.rows leaf (Outline.ofDocument document).events ⟨.running, state⟩) =
      other.leaves.map fun state =>
        Run.rows leaf (Outline.ofDocument document).events ⟨.running, state⟩) :
    Run.rows (step leaf) (Outline.ofDocument document).events ⟨.running, tree⟩ =
      Run.rows (step leaf) (Outline.ofDocument document).events ⟨.running, other⟩ := by
  have alone (state : α) : Run.rows leaf (Outline.ofDocument document).events ⟨.running, state⟩ =
      (List.range (Outline.ofDocument document).events.length).map fun place =>
        (Run.rows leaf (Outline.ofDocument document).events ⟨.running, state⟩).getD place [] := by
    refine List.ext_getElem (by simp [Run.length_rows]) ?_
    intro place inRows _
    simp [inRows]
  have together (tree : Composite α) :
      Run.rows (step leaf) (Outline.ofDocument document).events ⟨.running, tree⟩ =
        (List.range (Outline.ofDocument document).events.length).map fun place =>
          (tree.leaves.map fun state => Run.rows leaf (Outline.ofDocument document).events
            ⟨.running, state⟩).flatMap (·.getD place []) := by
    have opens : (⟨.enter, .document document, .root⟩ : Event).OpensDocument := ⟨rfl, rfl⟩
    have anew := (run_renewed leaf opens (Outline.ofDocument document).events.tail tree).2
    have rows := tree.fresh_renewed.rows_along leaf (opening_ofDocument document) _ _
      fun state _ => alone state
    rw [leaves_renewed] at rows
    simp only [List.flatMap_map]
    exact anew.symm.trans rows
  rw [together, together, same]

end Composite

/-! ## Validations one after the other -/

namespace Validation

structure Job where
  schema : Schema
  limit? : Option Nat
  document : Document
deriving DecidableEq, Repr

/-- Rules after validations that were made with them one after the other. -/
def rulesAfter (rules : Composite RuleState) (jobs : List Job) : Composite RuleState :=
  jobs.foldl (fun current job => (run job.schema job.limit? current job.document).2) rules

/-- A validation does not exchange the rules. -/
theorem map_rule_run (schema : Schema) (limit? : Option Nat) (rules : Composite RuleState)
    (document : Document) :
    (run schema limit? rules document).2.leaves.map RuleState.rule =
      rules.leaves.map RuleState.rule := by
  have kept : Run.Invariant (fun state : Tracked (Composite RuleState) =>
      state.inner.leaves.map RuleState.rule = rules.leaves.map RuleState.rule) visitor := by
    intro event state same
    exact (Composite.map_leaves_step (RuleState.rule_state_visitor _ event) state.inner).trans same
  change ((Root.document document).visit visitor
    (.start schema limit? rules)).state.inner.leaves.map RuleState.rule = _
  rw [Run.state_visit]
  exact kept.along rfl _

theorem map_rule_rulesAfter (rules : Composite RuleState) (jobs : List Job) :
    (rulesAfter rules jobs).leaves.map RuleState.rule = rules.leaves.map RuleState.rule := by
  induction jobs generalizing rules with
  | nil => rfl
  | cons job jobs ih => exact (ih _).trans (map_rule_run job.schema job.limit? rules job.document)

/-- What is reported depends on the rules and not on their states. -/
theorem reports_run_of_rules (schema : Schema) (document : Document)
    {first second : Composite RuleState}
    (same : first.leaves.map RuleState.rule = second.leaves.map RuleState.rule) :
    (run schema none first document).1.reports = (run schema none second document).1.reports := by
  have anew (rules : Composite RuleState) :
      rules.leaves.map (fun state => Run.rows (ruleAt schema document)
          (Outline.ofDocument document).events ⟨.running, state⟩) =
        (rules.leaves.map RuleState.rule).map fun rule => Run.rows (ruleAt schema document)
          (Outline.ofDocument document).events ⟨.running, .start rule⟩ := by
    rw [List.map_map]
    exact List.map_congr_left fun state _ => rows_ruleAt schema document state
  rw [reports_run_eq_rows, reports_run_eq_rows,
    Composite.rows_eq_of_leaves _ document ((anew first).trans (same ▸ (anew second).symm))]

/-- With a limit or without, the outcome of a validation follows from what is reported without
one. -/
theorem run_eq_of_reports (schema : Schema) (limit? : Option Nat) (document : Document)
    {first second : Composite RuleState}
    (same : (run schema none first document).1.reports =
      (run schema none second document).1.reports) :
    (run schema limit? first document).1 = (run schema limit? second document).1 := by
  cases limit? with
  | none =>
      have going := (aborted_run_none schema first document).trans
        (aborted_run_none schema second document).symm
      exact congrArg₂ Outcome.mk same going
  | some limit => rw [run_some, run_some, same]

/-- Rules that were used before, any number of times and whether aborted or not, give the outcome
that new rules give. -/
theorem run_rulesAfter (rules : RuleSet) (jobs : List Job) (schema : Schema) (limit? : Option Nat)
    (document : Document) :
    (run schema limit? (rulesAfter rules.start jobs) document).1 =
      validate schema limit? rules document := by
  have same := map_rule_rulesAfter rules.start jobs
  exact run_eq_of_reports schema limit? document (reports_run_of_rules schema document same)

end Validation

end QueryCheck
