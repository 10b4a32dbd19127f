import QueryCheck.Proofs.Traversal.Stream
import QueryCheck.Traversal.Composite

/-!
# Pairs run in lockstep

A pair of visitors is run over events together with each of its children alone.
The marks of the pair say where the children are on their own runs: an active child
is where the pair is, and a child that skipped a node at some depth has as many
nodes open inside of it as the pair went deeper since. This holds of a new pair and
is kept by every event, so that the pair calls a child exactly when the child alone
would be called.
-/

namespace QueryCheck

namespace Mark

variable {σ ο : Type}

/-- The progress that a child makes alone, read off its mark in a pair at some depth. -/
def progress (whole : Progress) (depth : Nat) : Mark → Progress
  | active => whole
  | skipping start =>
      match whole with
      | .running => .skipping (depth - (start + 1))
      | .skipping opened => .skipping (depth - start + opened)
      | .stopped => .stopped
  | stopped => .stopped

/-- The marks of a pair at some depth: a node that is skipped was entered before. -/
def Within (depth : Nat) : Mark → Prop
  | skipping start => start < depth
  | _ => True

theorem release_skipping (depth : Nat) : (skipping depth).release depth = active :=
  if_pos rfl

theorem release_of_ne {mark : Mark} {depth : Nat} (differs : mark ≠ skipping depth) :
    mark.release depth = mark :=
  if_neg differs

theorem release_eq_stopped {mark : Mark} {depth : Nat} :
    mark.release depth = stopped ↔ mark = stopped := by
  by_cases same : mark = skipping depth
  · rw [same, release_skipping]
    simp
  · rw [release_of_ne same]

/-- A child after an enter at some depth, compared with its run alone. If the pair goes below the
node, the mark is read at the next depth, otherwise it is released. -/
structure Entered (depth : Nat) (alone : Run σ × List ο) (child : Mark × Reply σ ο) : Prop where
  state : child.2.state = alone.1.state
  out : child.2.out = alone.2
  stopped : child.2.flow = .stop ↔ child.1 = .stopped
  within : child.1.Within (depth + 1)
  below : child.1.progress .running (depth + 1) = alone.1.progress
  releasedWithin : child.2.flow ≠ .next → (child.1.release depth).Within depth
  released :
    child.2.flow ≠ .next → (child.1.release depth).progress (.skipping 0) depth = alone.1.progress

structure Left (depth : Nat) (alone : Run σ × List ο) (child : Mark × Reply σ ο) : Prop where
  state : child.2.state = alone.1.state
  out : child.2.out = alone.2
  within : child.1.Within depth
  progress : child.1.progress .running depth = alone.1.progress

variable {depth : Nat} {mark : Mark}

/-- A child that is called on an enter is marked by its answer. -/
theorem entered_called (answer : Reply σ ο) :
    Entered depth (⟨.answered .enter answer.flow, answer.state⟩, answer.out)
      (ofFlow depth answer.flow, answer) := by
  refine ⟨rfl, rfl, ?_, ?_, ?_, ?_, ?_⟩
  all_goals cases answer.flow with
  | next => simp [ofFlow, Within, progress, Progress.answered]
  | skip => simp [ofFlow, Within, progress, Progress.answered, release_skipping]
  | stop => simp [ofFlow, Within, progress, Progress.answered, release]

theorem entered (visitor : Visitor σ ο) (within : mark.Within depth) (state : σ) (node : Node)
    (path : Path) :
    Entered depth (Run.feed visitor ⟨mark.progress .running depth, state⟩ ⟨.enter, node, path⟩)
      (mark.enter depth state (visitor ⟨.enter, node, path⟩ state)) := by
  cases mark with
  | active => exact entered_called _
  | skipping start =>
      have before : start < depth := within
      have differs : start ≠ depth := Nat.ne_of_lt before
      have other : skipping start ≠ skipping depth := by simpa using differs
      simp only [enter, if_neg differs]
      refine ⟨rfl, rfl, by simp, Nat.lt_succ_of_lt before, ?_, ?_, ?_⟩
      · change Progress.skipping _ = Progress.skipping _
        congr 1
        omega
      · intro _
        rw [release_of_ne other]
        exact before
      · intro _
        rw [release_of_ne other]
        change Progress.skipping _ = Progress.skipping _
        congr 1
        omega
  | stopped => exact ⟨rfl, rfl, by simp [enter], trivial, rfl, fun _ => trivial, fun _ => rfl⟩

theorem left (visitor : Visitor σ ο) (within : mark.Within depth) (state : σ) (node : Node)
    (path : Path) :
    Left (depth - 1) (Run.feed visitor ⟨mark.progress .running depth, state⟩ ⟨.leave, node, path⟩)
      (mark.leave (depth - 1) state (visitor ⟨.leave, node, path⟩ state)) := by
  cases mark with
  | active =>
      simp only [leave, progress, Run.feed]
      cases flow : (visitor ⟨.leave, node, path⟩ state).flow with
      | next => exact ⟨rfl, rfl, trivial, rfl⟩
      | skip => exact ⟨rfl, rfl, trivial, rfl⟩
      | stop => exact ⟨rfl, rfl, trivial, rfl⟩
  | skipping start =>
      have before : start < depth := within
      simp only [leave, progress, Run.feed, Reply.pass]
      by_cases same : start = depth - 1
      · have none : depth - (start + 1) = 0 := by omega
        rw [if_pos same, none]
        exact ⟨rfl, rfl, trivial, rfl⟩
      · obtain ⟨opened, more⟩ : ∃ opened, depth - (start + 1) = opened + 1 :=
          Nat.exists_eq_succ_of_ne_zero (by omega)
        rw [if_neg same, more]
        refine ⟨rfl, rfl, ?_, ?_⟩
        · change start < depth - 1
          omega
        · change Progress.skipping _ = Progress.skipping _
          congr 1
          omega
  | stopped => exact ⟨rfl, rfl, trivial, rfl⟩

theorem progress_ne_running {whole : Progress} (passing : whole ≠ .running) :
    mark.progress whole depth ≠ .running := by
  cases mark with
  | active => exact passing
  | stopped => exact Progress.noConfusion
  | skipping start =>
      cases whole with
      | running => exact absurd rfl passing
      | skipping opened => exact Progress.noConfusion
      | stopped => exact Progress.noConfusion

/-- While the pair passes over events, its children do as well. -/
theorem progress_passed (phase : Phase) {whole : Progress} (passing : whole ≠ .running)
    (within : mark.Within depth) :
    mark.progress (whole.passed phase) depth = (mark.progress whole depth).passed phase := by
  cases mark with
  | active => rfl
  | stopped => rfl
  | skipping start =>
      have before : start < depth := within
      cases whole with
      | running => exact absurd rfl passing
      | stopped => rfl
      | skipping opened =>
          cases phase with
          | enter => rfl
          | leave =>
              obtain ⟨more, positive⟩ : ∃ more, depth - start = more + 1 :=
                Nat.exists_eq_succ_of_ne_zero (by omega)
              cases opened with
              | zero =>
                  simp only [progress, positive, Progress.passed]
                  congr 1
                  omega
              | succ opened =>
                  simp only [progress, positive, Progress.passed]
                  congr 1

end Mark

namespace Composite

variable {α ο : Type}

/-- The run of a pair, and the runs of its children alone over the same events. -/
inductive Lockstep : (whole first second : Run (Composite α)) → Prop where
  | intro (progress : Progress) (marks : Marks) (first second : Composite α)
      (firstWithin : marks.first.Within marks.depth)
      (secondWithin : marks.second.Within marks.depth)
      (stopped : progress = .stopped ↔ marks.first = .stopped ∧ marks.second = .stopped) :
      Lockstep ⟨progress, .pair marks first second⟩
        ⟨marks.first.progress progress marks.depth, first⟩
        ⟨marks.second.progress progress marks.depth, second⟩

theorem Lockstep.of_marks {progress : Progress} {marks : Marks} {first second : Run (Composite α)}
    (firstWithin : marks.first.Within marks.depth) (secondWithin : marks.second.Within marks.depth)
    (stopped : progress = .stopped ↔ marks.first = .stopped ∧ marks.second = .stopped)
    (firstAlone : marks.first.progress progress marks.depth = first.progress)
    (secondAlone : marks.second.progress progress marks.depth = second.progress) :
    Lockstep ⟨progress, .pair marks first.state second.state⟩ first second := by
  obtain ⟨firstProgress, firstState⟩ := first
  obtain ⟨secondProgress, secondState⟩ := second
  cases firstAlone
  cases secondAlone
  exact .intro progress marks firstState secondState firstWithin secondWithin stopped

theorem Lockstep.compose (first second : Composite α) :
    Lockstep ⟨.running, first.compose second⟩ ⟨.running, first⟩ ⟨.running, second⟩ :=
  .intro .running .fresh first second trivial trivial (by simp [Marks.fresh])

/-- A pair stops when both of its children have stopped. -/
theorem Lockstep.stopped_iff {whole first second : Run (Composite α)}
    (lockstep : Lockstep whole first second) :
    whole.progress = .stopped ↔ first.progress = .stopped ∧ second.progress = .stopped := by
  cases lockstep with
  | intro progress marks first second firstWithin secondWithin stopped =>
      have stays {mark : Mark} (going : progress ≠ .stopped) :
          mark.progress progress marks.depth = .stopped ↔ mark = .stopped := by
        cases mark <;> cases progress <;> simp [Mark.progress] at going ⊢
      by_cases going : progress = .stopped
      · obtain ⟨firstStopped, secondStopped⟩ := stopped.mp going
        simp [going, firstStopped, secondStopped, Mark.progress]
      · rw [stays going, stays going]
        exact stopped

theorem Lockstep.leaves {whole first second : Run (Composite α)}
    (lockstep : Lockstep whole first second) :
    whole.state.leaves = first.state.leaves ++ second.state.leaves := by
  cases lockstep
  rfl

/-- An event that does not make a pair forget its marks. -/
def Keeps (event : Event) (state : Composite α) : Prop :=
  event.OpensDocument → ∀ marks first second, state = .pair marks first second → marks = .fresh

theorem lockstep_joinEnter {depth : Nat} {first second : Run (Composite α) × List ο}
    {firstChild secondChild : Mark × Reply (Composite α) ο}
    (left : Mark.Entered depth first firstChild) (right : Mark.Entered depth second secondChild) :
    Lockstep ⟨.answered .enter (joinEnter depth firstChild secondChild).flow,
        (joinEnter depth firstChild secondChild).state⟩ first.1 second.1 ∧
      (joinEnter depth firstChild secondChild).out = first.2 ++ second.2 := by
  refine ⟨?_, by simp only [joinEnter, left.out, right.out]⟩
  by_cases stop : firstChild.2.flow = .stop ∧ secondChild.2.flow = .stop
  · -- Both children stopped, so their marks do not depend on the depth.
    have marks := And.imp left.stopped.mp right.stopped.mp stop
    simp only [joinEnter, if_pos stop, left.state, right.state]
    refine .of_marks ?_ ?_ (by simp [Progress.answered, marks]) ?_ ?_
    · simp [marks, Mark.Within]
    · simp [marks, Mark.Within]
    · rw [← left.below, marks.1]
      rfl
    · rw [← right.below, marks.2]
      rfl
  · have going : ¬(firstChild.1 = .stopped ∧ secondChild.1 = .stopped) := by
      rw [← left.stopped, ← right.stopped]
      exact stop
    by_cases goes : firstChild.2.flow = .next ∨ secondChild.2.flow = .next
    · simp only [joinEnter, if_neg stop, if_pos goes, left.state, right.state]
      exact .of_marks left.within right.within (by simp [Progress.answered, going]) left.below
        right.below
    · obtain ⟨firstStays, secondStays⟩ := not_or.mp goes
      simp only [joinEnter, if_neg stop, if_neg goes, left.state, right.state]
      refine .of_marks (left.releasedWithin firstStays) (right.releasedWithin secondStays) ?_
        (left.released firstStays) (right.released secondStays)
      simp [Progress.answered, Mark.release_eq_stopped, going]

theorem lockstep_joinLeave {depth : Nat} {first second : Run (Composite α) × List ο}
    {firstChild secondChild : Mark × Reply (Composite α) ο}
    (left : Mark.Left depth first firstChild) (right : Mark.Left depth second secondChild) :
    Lockstep ⟨.answered .leave (joinLeave depth firstChild secondChild).flow,
        (joinLeave depth firstChild secondChild).state⟩ first.1 second.1 ∧
      (joinLeave depth firstChild secondChild).out = first.2 ++ second.2 := by
  refine ⟨?_, by simp only [joinLeave, left.out, right.out]⟩
  by_cases stop : firstChild.1 = .stopped ∧ secondChild.1 = .stopped
  · simp only [joinLeave, if_pos stop, left.state, right.state]
    refine .of_marks left.within right.within (by simp [Progress.answered, stop]) ?_ ?_
    · rw [← left.progress, stop.1]
      rfl
    · rw [← right.progress, stop.2]
      rfl
  · simp only [joinLeave, if_neg stop, left.state, right.state]
    exact .of_marks left.within right.within (by simp [Progress.answered, stop]) left.progress
      right.progress

/-- One event keeps a pair in lockstep with its children. -/
theorem Lockstep.feed {whole first second : Run (Composite α)}
    (lockstep : Lockstep whole first second) (leaf : Visitor α ο) {event : Event}
    (keeps : Keeps event whole.state) :
    Lockstep (whole.feed (step leaf) event).1 (first.feed (step leaf) event).1
        (second.feed (step leaf) event).1 ∧
      (whole.feed (step leaf) event).2 =
        (first.feed (step leaf) event).2 ++ (second.feed (step leaf) event).2 := by
  cases lockstep with
  | intro progress marks first second firstWithin secondWithin stopped =>
      obtain ⟨phase, node, path⟩ := event
      by_cases running : progress = .running
      · cases running
        cases phase with
        | enter =>
            have kept : (if node.isDocument then Marks.fresh else marks) = marks := by
              split
              case isTrue opens => exact (keeps ⟨rfl, opens⟩ marks first second rfl).symm
              case isFalse => rfl
            have joined := lockstep_joinEnter
              (Mark.entered (step leaf) firstWithin first node path)
              (Mark.entered (step leaf) secondWithin second node path)
            simpa only [Run.feed, step, kept] using joined
        | leave =>
            exact lockstep_joinLeave (Mark.left (step leaf) firstWithin first node path)
              (Mark.left (step leaf) secondWithin second node path)
      · rw [Run.feed_passing running, Run.feed_passing (Mark.progress_ne_running running),
          Run.feed_passing (Mark.progress_ne_running running)]
        refine ⟨?_, rfl⟩
        dsimp only
        rw [← Mark.progress_passed phase running firstWithin,
          ← Mark.progress_passed phase running secondWithin]
        exact .intro _ marks first second firstWithin secondWithin
          (Progress.passed_eq_stopped.trans stopped)

/-- A pair stays in lockstep with its children over events that enter no document. -/
theorem Lockstep.along {whole first second : Run (Composite α)}
    (lockstep : Lockstep whole first second) (leaf : Visitor α ο) {events : List Event}
    (nested : ∀ event ∈ events, ¬event.OpensDocument) :
    Lockstep (Run.along (step leaf) events whole) (Run.along (step leaf) events first)
        (Run.along (step leaf) events second) ∧
      Run.rows (step leaf) events whole =
        List.zipWith (· ++ ·) (Run.rows (step leaf) events first)
          (Run.rows (step leaf) events second) := by
  induction events generalizing whole first second with
  | nil => exact ⟨lockstep, rfl⟩
  | cons event events ih =>
      obtain ⟨inner, rest⟩ := List.forall_mem_cons.mp nested
      have keeps : Keeps event whole.state := fun opens => absurd opens inner
      obtain ⟨next, out⟩ := lockstep.feed leaf keeps
      obtain ⟨last, rows⟩ := ih next rest
      refine ⟨last, ?_⟩
      rw [Run.rows, Run.rows, Run.rows, out, rows]
      rfl

/-! ## Trees of visitors -/

/-- A tree of visitors that was put together and not used yet. -/
inductive Fresh : Composite α → Prop where
  | single (state : α) : Fresh (.single state)
  | compose {first second : Composite α} : Fresh first → Fresh second → Fresh (first.compose second)

/-- The events of a traversal enter a document at the start or not at all. -/
def Opening (events : List Event) : Prop :=
  ∀ event ∈ events.tail, ¬event.OpensDocument

theorem opening_events (root : Root) : Opening root.events := fun _ member =>
  root.not_opensDocument_of_mem_tail member

theorem opening_ofDocument (document : Document) : Opening (Outline.ofDocument document).events :=
  opening_events (.document document)

/-- A new pair is in lockstep with its children over all of a traversal. -/
theorem lockstep_compose (leaf : Visitor α ο) (first second : Composite α) {events : List Event}
    (opening : Opening events) :
    Lockstep (Run.along (step leaf) events ⟨.running, first.compose second⟩)
        (Run.along (step leaf) events ⟨.running, first⟩)
        (Run.along (step leaf) events ⟨.running, second⟩) ∧
      Run.rows (step leaf) events ⟨.running, first.compose second⟩ =
        List.zipWith (· ++ ·) (Run.rows (step leaf) events ⟨.running, first⟩)
          (Run.rows (step leaf) events ⟨.running, second⟩) := by
  cases events with
  | nil => exact ⟨.compose first second, rfl⟩
  | cons event events =>
      -- The marks are new, so nothing is lost if the first event makes the pair forget them.
      have keeps : Keeps event (first.compose second) := by
        intro _ marks one other same
        cases same
        rfl
      have inner : ∀ later ∈ events, ¬later.OpensDocument := opening
      obtain ⟨next, out⟩ := (Lockstep.compose first second).feed leaf keeps
      obtain ⟨last, rows⟩ := next.along leaf inner
      refine ⟨last, ?_⟩
      rw [Run.rows, Run.rows, Run.rows, out, rows]
      rfl

/-- A tree of one visitor is that visitor. -/
theorem mirrors_single (leaf : Visitor α ο) : Run.Mirrors single leaf (step leaf) :=
  ⟨fun _ _ => rfl, fun _ _ => rfl⟩

theorem rows_single (leaf : Visitor α ο) (events : List Event) (run : Run α) :
    Run.rows (step leaf) events (run.map single) = Run.rows leaf events run :=
  (mirrors_single leaf).rows_same (fun _ _ => rfl) events run

namespace Fresh

variable {tree : Composite α} {events : List Event}

/-- Every visitor of a tree ends in the state in which it ends alone. -/
theorem leaves_along (fresh : Fresh tree) (leaf : Visitor α ο) (opening : Opening events) :
    (Run.along (step leaf) events ⟨.running, tree⟩).state.leaves =
      tree.leaves.map fun state => (Run.along leaf events ⟨.running, state⟩).state := by
  induction fresh with
  | single state =>
      exact congrArg (fun run => run.state.leaves)
        ((mirrors_single leaf).along events ⟨.running, state⟩)
  | compose first second firstIh secondIh =>
      rw [(lockstep_compose leaf _ _ opening).1.leaves, firstIh, secondIh, ← List.map_append]
      rfl

/-- A tree stops when all of its visitors stop alone. -/
theorem stopped_along (fresh : Fresh tree) (leaf : Visitor α ο) (opening : Opening events) :
    (Run.along (step leaf) events ⟨.running, tree⟩).progress = .stopped ↔
      ∀ state ∈ tree.leaves, (Run.along leaf events ⟨.running, state⟩).progress = .stopped := by
  induction fresh with
  | single state =>
      have same := (mirrors_single leaf).along events ⟨.running, state⟩
      simp only [Run.map] at same
      simp [same, leaves]
  | compose first second firstIh secondIh =>
      rw [(lockstep_compose leaf _ _ opening).1.stopped_iff, firstIh, secondIh]
      exact List.forall_mem_append.symm

/-- At each event a tree puts out what its visitors put out alone, from left to right. -/
theorem rows_along {β : Type} (fresh : Fresh tree) (leaf : Visitor α ο) (opening : Opening events)
    (columns : List β) (cell : α → β → List ο)
    (alone : ∀ state ∈ tree.leaves,
      Run.rows leaf events ⟨.running, state⟩ = columns.map (cell state)) :
    Run.rows (step leaf) events ⟨.running, tree⟩ =
      columns.map fun column => tree.leaves.flatMap fun state => cell state column := by
  induction fresh with
  | single state =>
      have same := rows_single leaf events ⟨.running, state⟩
      simp only [Run.map, alone state List.mem_cons_self] at same
      simp [same, leaves]
  | compose first second firstIh secondIh =>
      obtain ⟨firstAlone, secondAlone⟩ := List.forall_mem_append.mp alone
      rw [(lockstep_compose leaf _ _ opening).2, firstIh firstAlone, secondIh secondAlone,
        List.zipWith_map, List.zipWith_self]
      simp [Composite.compose, leaves]

end Fresh

/-- What one of several visitors put out is found among all outputs if each output names its
visitor. -/
theorem filter_flatMap_owner {β ι : Type} [DecidableEq ι] {states : List α} {name : α → ι}
    {owner : ο → ι} (names : (states.map name).Nodup) {cell : α → β → List ο}
    (owned : ∀ state column, ∀ item ∈ cell state column, owner item = name state)
    (columns : List β) {state : α} (member : state ∈ states) :
    (columns.flatMap fun column => states.flatMap fun other => cell other column).filter
        (owner · = name state) = columns.flatMap (cell state) := by
  rw [List.filter_flatMap]
  refine List.flatMap_congr ?_
  intro column _
  induction states with
  | nil => cases member
  | cons head states ih =>
      obtain ⟨isNew, names⟩ := List.nodup_cons.mp names
      have own {other : α} (same : name other = name state) :
          (cell other column).filter (owner · = name state) = cell other column := by
        refine List.filter_eq_self.mpr ?_
        intro item isItem
        exact decide_eq_true ((owned other column item isItem).trans same)
      have foreign {other : α} (differs : name other ≠ name state) :
          (cell other column).filter (owner · = name state) = [] := by
        refine List.filter_eq_nil_iff.mpr ?_
        intro item isItem same
        rw [decide_eq_true_eq, owned other column item isItem] at same
        exact differs same
      rw [List.flatMap_cons, List.filter_append]
      rcases List.mem_cons.mp member with rfl | inRest
      · have rest : (states.flatMap fun other => cell other column).filter
            (owner · = name state) = [] := by
          rw [List.filter_flatMap, List.flatMap_eq_nil_iff]
          intro other isOther
          refine foreign fun same => isNew ?_
          exact same ▸ List.mem_map_of_mem isOther
        rw [own rfl, rest, List.append_nil]
      · have differs : name head ≠ name state := fun same =>
          isNew (same ▸ List.mem_map_of_mem inRest)
        rw [foreign differs, ih names inRest, List.nil_append]

/-! ## Trees that were used before -/

/-- The same visitors, put together anew. -/
def renewed : Composite α → Composite α
  | single state => .single state
  | pair _ first second => first.renewed.compose second.renewed

theorem fresh_renewed (tree : Composite α) : Fresh tree.renewed := by
  induction tree with
  | single state => exact .single state
  | pair marks first second firstIh secondIh => exact .compose firstIh secondIh

theorem leaves_renewed (tree : Composite α) : tree.renewed.leaves = tree.leaves := by
  induction tree with
  | single state => rfl
  | pair marks first second firstIh secondIh =>
      simp only [renewed, compose, leaves, firstIh, secondIh]

/-- On entering a document it does not matter what a tree remembers. -/
theorem step_renewed (leaf : Visitor α ο) {event : Event} (opens : event.OpensDocument)
    (tree : Composite α) : step leaf event tree.renewed = step leaf event tree := by
  induction tree with
  | single state => rfl
  | pair marks first second firstIh secondIh =>
      simp only [renewed, compose, step, opens.1, opens.2, if_true, firstIh, secondIh]
      rfl

/-- So a traversal that starts with entering a document goes as if the tree were new. -/
theorem run_renewed (leaf : Visitor α ο) {event : Event} (opens : event.OpensDocument)
    (events : List Event) (tree : Composite α) :
    Run.along (step leaf) (event :: events) ⟨.running, tree.renewed⟩ =
        Run.along (step leaf) (event :: events) ⟨.running, tree⟩ ∧
      Run.rows (step leaf) (event :: events) ⟨.running, tree.renewed⟩ =
        Run.rows (step leaf) (event :: events) ⟨.running, tree⟩ := by
  have fed : Run.feed (step leaf) ⟨.running, tree.renewed⟩ event =
      Run.feed (step leaf) ⟨.running, tree⟩ event := by
    simp only [Run.feed, step_renewed leaf opens]
  simp only [Run.along, Run.rows, fed, and_self]

end Composite

/-! ## Other outputs -/

/-- The same answer with each output made into others. -/
def Reply.expand {σ ο π : Type} (change : ο → List π) (reply : Reply σ ο) : Reply σ π :=
  ⟨reply.flow, reply.state, reply.out.flatMap change⟩

namespace Composite

variable {α ο π : Type} (change : ο → List π)

theorem enter_expand (mark : Mark) (depth : Nat) (state : Composite α)
    (answer : Reply (Composite α) ο) :
    mark.enter depth state (answer.expand change) =
      ((mark.enter depth state answer).1, (mark.enter depth state answer).2.expand change) := by
  cases mark with
  | active => rfl
  | skipping start =>
      simp only [Mark.enter]
      split <;> rfl
  | stopped => rfl

theorem leave_expand (mark : Mark) (depth : Nat) (state : Composite α)
    (answer : Reply (Composite α) ο) :
    mark.leave depth state (answer.expand change) =
      ((mark.leave depth state answer).1, (mark.leave depth state answer).2.expand change) := by
  cases mark <;> rfl

theorem joinEnter_expand (depth : Nat) (first second : Mark × Reply (Composite α) ο) :
    joinEnter depth (first.1, first.2.expand change) (second.1, second.2.expand change) =
      (joinEnter depth first second).expand change := by
  simp only [joinEnter, Reply.expand, List.flatMap_append]
  rfl

theorem joinLeave_expand (depth : Nat) (first second : Mark × Reply (Composite α) ο) :
    joinLeave depth (first.1, first.2.expand change) (second.1, second.2.expand change) =
      (joinLeave depth first second).expand change := by
  simp only [joinLeave, Reply.expand, List.flatMap_append]

/-- A tree puts out what its visitors do, also after their outputs were made into others. -/
theorem step_expand {change} {leaf : Visitor α ο} {other : Visitor α π} {event : Event}
    (same : ∀ state, other event state = (leaf event state).expand change) (tree : Composite α) :
    step other event tree = (step leaf event tree).expand change := by
  induction tree with
  | single state =>
      rw [step, step, same]
      rfl
  | pair marks first second firstIh secondIh =>
      rw [step, step]
      split
      · simp only [firstIh, secondIh, enter_expand, joinEnter_expand]
      · simp only [firstIh, secondIh, leave_expand, joinLeave_expand]

theorem mem_of_mem_enter {mark : Mark} {depth : Nat} {state : Composite α}
    {answer : Reply (Composite α) ο} {item : ο}
    (member : item ∈ (mark.enter depth state answer).2.out) : item ∈ answer.out := by
  cases mark with
  | active => exact member
  | skipping start =>
      rw [Mark.enter] at member
      split at member
      · exact member
      · cases member
  | stopped => cases member

theorem mem_of_mem_leave {mark : Mark} {depth : Nat} {state : Composite α}
    {answer : Reply (Composite α) ο} {item : ο}
    (member : item ∈ (mark.leave depth state answer).2.out) : item ∈ answer.out := by
  cases mark with
  | active => exact member
  | skipping start => cases member
  | stopped => cases member

/-- What a tree puts out is put out by one of its visitors. -/
theorem exists_of_mem_step {leaf : Visitor α ο} {event : Event} {tree : Composite α} {item : ο}
    (member : item ∈ (step leaf event tree).out) :
    ∃ state ∈ tree.leaves, item ∈ (leaf event state).out := by
  induction tree with
  | single state => exact ⟨state, List.mem_singleton_self state, member⟩
  | pair marks first second firstIh secondIh =>
      have inChild : item ∈ (step leaf event first).out ∨ item ∈ (step leaf event second).out := by
        rw [step] at member
        split at member
        · exact (List.mem_append.mp member).imp mem_of_mem_enter mem_of_mem_enter
        · exact (List.mem_append.mp member).imp mem_of_mem_leave mem_of_mem_leave
      rcases inChild with inFirst | inSecond
      · obtain ⟨state, isLeaf, out⟩ := firstIh inFirst
        exact ⟨state, List.mem_append_left _ isLeaf, out⟩
      · obtain ⟨state, isLeaf, out⟩ := secondIh inSecond
        exact ⟨state, List.mem_append_right _ isLeaf, out⟩

end Composite
end QueryCheck
