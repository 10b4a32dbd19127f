import QueryCheck.Proofs.Traversal.Lockstep

/-!
# Visitors that take part

The marks of a tree say which of its visitors take part in a traversal. Marks that were left by an
earlier traversal hold visitors back all along the next one, unless it starts with entering a
document. The others go through it as they do alone, and those that do not stop take part in the
traversal after it.
-/

namespace QueryCheck

/-! ## Roots -/

namespace Root

theorem events_eq_nil_or_enter (root : Root) :
    root.events = [] ∨ ∃ node path events, root.events = ⟨.enter, node, path⟩ :: events := by
  rw [events]
  cases root.course with
  | one outline =>
      obtain ⟨node, path, children⟩ := outline
      exact .inr ⟨node, path, _, rfl⟩
  | several outlines =>
      cases outlines with
      | nil => exact .inl rfl
      | cons outline outlines =>
          obtain ⟨node, path, children⟩ := outline
          exact .inr ⟨node, path, _, rfl⟩

/-- A traversal that does not start with a document enters none. -/
theorem not_opensDocument (root : Root) (plain : root.isDocument = false) {event : Event}
    (member : event ∈ root.events) : ¬event.OpensDocument := by
  rintro ⟨-, isDocument⟩
  have nested : event.node.isDocument = false := by
    rcases root.course_cases with ⟨whole, rfl⟩ | ⟨outline, same, part⟩ | ⟨outlines, _, same, fan⟩
    · cases plain
    · rw [events, same] at member
      exact Outline.nested_of_mem_events part.placed part.nested member
    · rw [events, same] at member
      exact fan.nested_of_mem_eventsAll member
  rw [nested] at isDocument
  cases isDocument

end Root

namespace Run

variable {σ ο : Type} {visitor : Visitor σ ο}

theorem along_root (visitor : Visitor σ ο) (root : Root) (state : σ) :
    along visitor root.events ⟨.running, state⟩ =
      ⟨.ended (root.visit visitor state).flow, (root.visit visitor state).state⟩ :=
  (matches_root state root).along

theorem Invariant.visit {holds : σ → Prop} (kept : Invariant holds visitor) {state : σ}
    (start : holds state) (root : Root) : holds (root.visit visitor state).state := by
  have begun : holds (Run.mk .running state).state := start
  have along := kept.along begun root.events
  rwa [along_root] at along

/-- All of a traversal is passed over inside of a node that was skipped before. -/
theorem passes_root (root : Root) {run : Run σ}
    (passing : run.progress ≠ .running) : Passes visitor root.events run := by
  obtain ⟨progress, state⟩ := run
  cases progress with
  | running => exact absurd rfl passing
  | stopped => exact passes_stopped root.events state
  | skipping opened =>
      rw [Root.events]
      cases root.course with
      | one outline => exact passes_skipping opened state outline
      | several outlines => exact passes_skippingAll opened state outlines

end Run

/-! ## Marks -/

namespace Mark

variable {σ ο α : Type}

/-- Those of some visitors that take part if a mark is set on them. -/
def admitted (mark : Mark) (states : List α) : List α :=
  if mark = .active then states else []

theorem admitted_active (states : List α) : active.admitted states = states :=
  if_pos rfl

theorem admitted_of_ne {mark : Mark} (asleep : mark ≠ active) (states : List α) :
    mark.admitted states = [] :=
  if_neg asleep

theorem admitted_sublist (mark : Mark) (states : List α) :
    (mark.admitted states).Sublist states := by
  unfold admitted
  split
  · exact List.Sublist.refl states
  · exact List.nil_sublist states

theorem progress_running_iff {mark : Mark} {depth : Nat} :
    mark.progress .running depth = .running ↔ mark = active := by
  cases mark <;> simp [progress]

section Kept

variable {holds : σ → Prop} (mark : Mark) (depth : Nat) {state : σ} {answer : Reply σ ο}
  (before : holds state) (after : holds answer.state)
include before after

/-- A child is in the state before an event or in that of its answer. -/
theorem holds_enter : holds (mark.enter depth state answer).2.state := by
  unfold enter
  split
  · exact after
  · split
    · exact after
    · exact before
  · exact before

theorem holds_leave : holds (mark.leave depth state answer).2.state := by
  cases mark with
  | active => exact after
  | skipping start => exact before
  | stopped => exact before

end Kept

end Mark

namespace Composite

variable {α ο : Type}

/-- The visitors that take part in a traversal. -/
def awake : Composite α → List α
  | single state => [state]
  | pair marks first second =>
      marks.first.admitted first.awake ++ marks.second.admitted second.awake

/-- A node that is skipped was entered before, by each pair of a tree. -/
inductive Sound : Composite α → Prop where
  | single (state : α) : Sound (.single state)
  | pair {marks : Marks} {first second : Composite α} (left : marks.first.Within marks.depth)
      (right : marks.second.Within marks.depth) :
      Sound first → Sound second → Sound (.pair marks first second)

theorem leaves_ne_nil (tree : Composite α) : tree.leaves ≠ [] := by
  induction tree with
  | single state => exact List.cons_ne_nil _ _
  | pair marks first second firstIh _ => exact List.append_ne_nil_of_left_ne_nil firstIh _

theorem awake_sublist (tree : Composite α) : tree.awake.Sublist tree.leaves := by
  induction tree with
  | single state => exact List.Sublist.refl _
  | pair marks first second firstIh secondIh =>
      exact ((Mark.admitted_sublist _ _).trans firstIh).append
        ((Mark.admitted_sublist _ _).trans secondIh)

theorem awake_renewed (tree : Composite α) : tree.renewed.awake = tree.leaves := by
  induction tree with
  | single state => rfl
  | pair marks first second firstIh secondIh =>
      simp only [renewed, compose, awake, leaves, Marks.fresh, Mark.admitted_active, firstIh,
        secondIh]

theorem Fresh.sound {tree : Composite α} (fresh : Fresh tree) : Sound tree := by
  induction fresh with
  | single state => exact .single state
  | compose _ _ firstIh secondIh => exact .pair trivial trivial firstIh secondIh

theorem Fresh.parts {marks : Marks} {first second : Composite α}
    (fresh : Fresh (.pair marks first second)) : marks = .fresh ∧ Fresh first ∧ Fresh second := by
  generalize same : Composite.pair marks first second = tree at fresh
  cases fresh with
  | single => cases same
  | compose left right =>
      cases same
      exact ⟨rfl, left, right⟩

theorem sound_joinEnter {depth : Nat} {first second : Run (Composite α) × List ο}
    {firstChild secondChild : Mark × Reply (Composite α) ο}
    (left : Mark.Entered depth first firstChild) (right : Mark.Entered depth second secondChild)
    (firstSound : firstChild.2.state.Sound) (secondSound : secondChild.2.state.Sound) :
    (joinEnter depth firstChild secondChild).state.Sound := by
  unfold joinEnter
  by_cases stop : firstChild.2.flow = .stop ∧ secondChild.2.flow = .stop
  · rw [if_pos stop]
    refine .pair ?_ ?_ firstSound secondSound
    · rw [left.stopped.mp stop.1]
      trivial
    · rw [right.stopped.mp stop.2]
      trivial
  · rw [if_neg stop]
    by_cases goes : firstChild.2.flow = .next ∨ secondChild.2.flow = .next
    · rw [if_pos goes]
      exact .pair left.within right.within firstSound secondSound
    · obtain ⟨firstStays, secondStays⟩ := not_or.mp goes
      rw [if_neg goes]
      exact .pair (left.releasedWithin firstStays) (right.releasedWithin secondStays) firstSound
        secondSound

/-- Whatever events a tree is called with, its marks stay sound. -/
theorem invariant_sound (leaf : Visitor α ο) : Run.Invariant Sound (step leaf) := by
  rintro ⟨phase, node, path⟩ tree sound
  induction sound with
  | single state => exact .single _
  | @pair marks first second left right firstSound secondSound firstIh secondIh =>
      cases phase with
      | enter =>
          have begun : ∀ marks', marks' = (if node.isDocument then Marks.fresh else marks) →
              marks'.first.Within marks'.depth ∧ marks'.second.Within marks'.depth := by
            rintro _ rfl
            split
            · exact ⟨trivial, trivial⟩
            · exact ⟨left, right⟩
          obtain ⟨firstWithin, secondWithin⟩ := begun _ rfl
          exact sound_joinEnter (Mark.entered (step leaf) firstWithin first node path)
            (Mark.entered (step leaf) secondWithin second node path)
            (Mark.holds_enter _ _ firstSound firstIh) (Mark.holds_enter _ _ secondSound secondIh)
      | leave =>
          exact .pair (Mark.left (step leaf) left first node path).within
            (Mark.left (step leaf) right second node path).within
            (Mark.holds_leave _ _ firstSound firstIh) (Mark.holds_leave _ _ secondSound secondIh)

/-! ## Traversals with a used tree -/

section Traversal

/-- A traversal does not make a tree forget its marks, or there are none. -/
def Kept (root : Root) (tree : Composite α) : Prop :=
  root.isDocument = true → tree.Fresh

namespace Kept

variable {root : Root} {marks : Marks} {first second : Composite α}

theorem left (kept : Kept root (.pair marks first second)) : Kept root first :=
  fun isDocument => (kept isDocument).parts.2.1

theorem right (kept : Kept root (.pair marks first second)) : Kept root second :=
  fun isDocument => (kept isDocument).parts.2.2

theorem plain {depth : Nat} (kept : Kept root (.pair ⟨depth, .stopped, .stopped⟩ first second)) :
    root.isDocument = false := by
  cases isDocument : root.isDocument with
  | false => rfl
  | true => cases (kept isDocument).parts.1

end Kept

variable (leaf : Visitor α ο) (root : Root)

/-- A pair is in lockstep with its children over a traversal that does not make it forget its
marks, unless both children have stopped before. -/
theorem lockstep_pair {marks : Marks} {first second : Composite α}
    (left : marks.first.Within marks.depth) (right : marks.second.Within marks.depth)
    (kept : Kept root (.pair marks first second))
    (going : ¬(marks.first = .stopped ∧ marks.second = .stopped)) :
    Lockstep (Run.along (step leaf) root.events ⟨.running, .pair marks first second⟩)
        (Run.along (step leaf) root.events ⟨marks.first.progress .running marks.depth, first⟩)
        (Run.along (step leaf) root.events ⟨marks.second.progress .running marks.depth, second⟩) ∧
      Run.rows (step leaf) root.events ⟨.running, .pair marks first second⟩ =
        List.zipWith (· ++ ·)
          (Run.rows (step leaf) root.events ⟨marks.first.progress .running marks.depth, first⟩)
          (Run.rows (step leaf) root.events
            ⟨marks.second.progress .running marks.depth, second⟩) := by
  have start : Lockstep ⟨.running, .pair marks first second⟩
      ⟨marks.first.progress .running marks.depth, first⟩
      ⟨marks.second.progress .running marks.depth, second⟩ :=
    .intro .running marks first second left right (by simp [going])
  cases isDocument : root.isDocument with
  | false => exact start.along leaf fun event member => root.not_opensDocument isDocument member
  | true =>
      obtain rfl : marks = .fresh := (kept isDocument).parts.1
      exact lockstep_compose leaf first second (opening_events root)

/-- A child that is held back passes over all of a traversal. -/
theorem passes_asleep {mark : Mark} (asleep : mark ≠ .active) (depth : Nat) (child : Composite α) :
    Run.Passes (step leaf) root.events ⟨mark.progress .running depth, child⟩ :=
  Run.passes_root root fun running => asleep (Mark.progress_running_iff.mp running)

/-- A pair whose children have both stopped stops at once. -/
theorem stops_at_once {depth : Nat} {first second : Composite α}
    (kept : Kept root (.pair ⟨depth, .stopped, .stopped⟩ first second))
    (some : root.events ≠ []) :
    Run.along (step leaf) root.events ⟨.running, .pair ⟨depth, .stopped, .stopped⟩ first second⟩ =
        ⟨.stopped, .pair ⟨depth, .stopped, .stopped⟩ first second⟩ ∧
      Run.rows (step leaf) root.events
          ⟨.running, .pair ⟨depth, .stopped, .stopped⟩ first second⟩ =
        root.events.map fun _ => [] := by
  rcases root.events_eq_nil_or_enter with none | ⟨node, path, events, starts⟩
  · exact absurd none some
  · have nested : node.isDocument ≠ true := fun isDocument =>
      root.not_opensDocument kept.plain (starts ▸ List.mem_cons_self) ⟨rfl, isDocument⟩
    have fed : Run.feed (step leaf)
        ⟨.running, .pair ⟨depth, .stopped, .stopped⟩ first second⟩ ⟨.enter, node, path⟩ =
        (⟨.stopped, .pair ⟨depth, .stopped, .stopped⟩ first second⟩, []) := by
      simp [Run.feed, step, nested, joinEnter, Mark.enter, Progress.answered]
    have rest : Run.Passes (step leaf) events
        ⟨.stopped, .pair ⟨depth, .stopped, .stopped⟩ first second⟩ :=
      Run.passes_stopped events _
    rw [starts, Run.along, Run.rows, fed]
    exact ⟨rest.along, congrArg ([] :: ·) rest.rows⟩

variable {root} {tree : Composite α}

/-- At each event a tree puts out what the visitors that take part put out alone. -/
theorem rows_awake (sound : Sound tree) (kept : Kept root tree) (cell : α → Event → List ο)
    (alone : ∀ state ∈ tree.awake,
      Run.rows leaf root.events ⟨.running, state⟩ = root.events.map (cell state)) :
    Run.rows (step leaf) root.events ⟨.running, tree⟩ =
      root.events.map fun event => tree.awake.flatMap fun state => cell state event := by
  have child (mark : Mark) (depth : Nat) {child : Composite α}
      (ih : mark = .active → Run.rows (step leaf) root.events ⟨.running, child⟩ =
        root.events.map fun event => child.awake.flatMap fun state => cell state event) :
      Run.rows (step leaf) root.events ⟨mark.progress .running depth, child⟩ =
        root.events.map fun event =>
          (mark.admitted child.awake).flatMap fun state => cell state event := by
    by_cases active : mark = .active
    · rw [active, Mark.admitted_active]
      exact ih active
    · rw [(passes_asleep leaf root active depth child).rows, Mark.admitted_of_ne active]
      rfl
  induction sound with
  | single state =>
      have same := rows_single leaf root.events ⟨.running, state⟩
      simp only [Run.map, alone state List.mem_cons_self] at same
      simp [same, awake]
  | @pair marks first second left right _ _ firstIh secondIh =>
      by_cases stopped : marks.first = .stopped ∧ marks.second = .stopped
      · obtain ⟨depth, _, _⟩ := marks
        obtain ⟨rfl, rfl⟩ := stopped
        by_cases none : root.events = []
        · rw [none]
          rfl
        · exact (stops_at_once leaf root kept none).2
      · obtain ⟨firstAlone, secondAlone⟩ := List.forall_mem_append.mp alone
        rw [(lockstep_pair leaf root left right kept stopped).2,
          child marks.first marks.depth fun active =>
            firstIh kept.left
              (by rwa [active, Mark.admitted_active] at firstAlone),
          child marks.second marks.depth fun active =>
            secondIh kept.right
              (by rwa [active, Mark.admitted_active] at secondAlone),
          List.zipWith_map, List.zipWith_self]
        simp only [awake, List.flatMap_append]

end Traversal

/-! ## What a traversal leaves behind -/

/-- At the end of a traversal the marks of a pair say which of its children are called. -/
theorem Lockstep.exists_marks {flow : Flow} {tree : Composite α} {first second : Run (Composite α)}
    (lockstep : Lockstep ⟨.ended flow, tree⟩ first second) :
    ∃ marks : Marks, tree = .pair marks first.state second.state ∧
      (marks.first = .active ↔ first.progress = .running) ∧
      (marks.second = .active ↔ second.progress = .running) ∧
      (flow = .stop → marks.first = .stopped ∧ marks.second = .stopped) := by
  cases lockstep with
  | intro _ marks first second _ _ stopped =>
      refine ⟨marks, rfl, ?_, ?_, fun stop => stopped.mp (Progress.ended_eq_stopped.mpr stop)⟩
      all_goals
        cases flow with
        | next | skip => exact Mark.progress_running_iff.symm
        | stop =>
            obtain ⟨firstStopped, secondStopped⟩ := stopped.mp rfl
            simp [firstStopped, secondStopped, Mark.progress]

/-- Those of some visitors that do not stop in a traversal, as they are after it. -/
def lasting (leaf : Visitor α ο) (root : Root) (states : List α) : List α :=
  (states.filter fun state => (root.visit leaf state).flow ≠ .stop).map fun state =>
    (root.visit leaf state).state

section Lasting

variable {leaf : Visitor α ο} {root : Root}

theorem lasting_append (first second : List α) :
    lasting leaf root (first ++ second) = lasting leaf root first ++ lasting leaf root second := by
  rw [lasting, List.filter_append, List.map_append]
  rfl

/-- What takes part after a traversal is what took part in it and did not stop. If the tree itself
has stopped, nothing is left of it. -/
structure Lasts (leaf : Visitor α ο) (root : Root) (tree : Composite α) : Prop where
  goes : (root.visit (step leaf) tree).flow ≠ .stop →
    (root.visit (step leaf) tree).state.awake = lasting leaf root tree.awake
  stops : (root.visit (step leaf) tree).flow = .stop → lasting leaf root tree.awake = []

theorem visit_single (leaf : Visitor α ο) (root : Root) (state : α) :
    ((root.visit (step leaf) (.single state)).flow = .stop ↔
        (root.visit leaf state).flow = .stop) ∧
      (root.visit (step leaf) (.single state)).state = .single (root.visit leaf state).state := by
  have mirrored := (mirrors_single leaf).along root.events ⟨.running, state⟩
  rw [Run.along_root, Run.map, Run.along_root, Run.map] at mirrored
  obtain ⟨flow, same⟩ := Run.mk.inj mirrored
  refine ⟨?_, same⟩
  rw [← Progress.ended_eq_stopped, flow, Progress.ended_eq_stopped]

theorem lasts_single (state : α) : Lasts leaf root (.single state) := by
  obtain ⟨stop, same⟩ := visit_single leaf root state
  constructor
  · intro goes
    rw [same]
    simp [awake, lasting, stop.not.mp goes]
  · intro stops
    simp [awake, lasting, stop.mp stops]

/-- A child of a pair, held back or not, after a traversal of the pair. -/
theorem admitted_lasting {mark after : Mark} {depth : Nat} {child : Composite α}
    (lasts : mark = .active → Lasts leaf root child)
    (called : after = .active ↔
      (Run.along (step leaf) root.events ⟨mark.progress .running depth, child⟩).progress =
        .running) :
    after.admitted
        (Run.along (step leaf) root.events ⟨mark.progress .running depth, child⟩).state.awake =
      lasting leaf root (mark.admitted child.awake) := by
  by_cases active : mark = .active
  · subst active
    rw [Mark.progress, Run.along_root] at called ⊢
    rw [Mark.admitted_active]
    by_cases stop : (root.visit (step leaf) child).flow = .stop
    · have asleep : after ≠ .active := by
        rw [Ne, called, stop]
        exact Progress.noConfusion
      rw [Mark.admitted_of_ne asleep, (lasts rfl).stops stop]
    · have taking : after = .active := by
        rw [called]
        cases flow : (root.visit (step leaf) child).flow with
        | stop => exact absurd flow stop
        | next | skip => rfl
      rw [taking, Mark.admitted_active, (lasts rfl).goes stop]
  · have passed := (passes_asleep leaf root active depth child).along
    have asleep : after ≠ .active := by
      rw [Ne, called, passed, Mark.progress_running_iff]
      exact active
    rw [Mark.admitted_of_ne asleep, Mark.admitted_of_ne active]
    rfl

section Pair

variable {marks : Marks} {first second : Composite α}

theorem awake_visit_of_lasts (left : marks.first.Within marks.depth)
    (right : marks.second.Within marks.depth) (kept : Kept root (.pair marks first second))
    (firstLasts : marks.first = .active → Lasts leaf root first)
    (secondLasts : marks.second = .active → Lasts leaf root second) :
    (root.visit (step leaf) (.pair marks first second)).state.awake =
        lasting leaf root (Composite.pair marks first second).awake ∧
      ((root.visit (step leaf) (.pair marks first second)).flow = .stop →
        (root.visit (step leaf) (.pair marks first second)).state.awake = []) := by
  by_cases stopped : marks.first = .stopped ∧ marks.second = .stopped
  · -- Nobody takes part, before and after.
    obtain ⟨depth, _, _⟩ := marks
    obtain ⟨rfl, rfl⟩ := stopped
    have same : (root.visit (step leaf) (.pair ⟨depth, .stopped, .stopped⟩ first second)).state =
        .pair ⟨depth, .stopped, .stopped⟩ first second := by
      have along := Run.along_root (step leaf) root (.pair ⟨depth, .stopped, .stopped⟩ first second)
      by_cases none : root.events = []
      · rw [none] at along
        exact (congrArg Run.state along).symm
      · rw [(stops_at_once leaf root kept none).1] at along
        exact (congrArg Run.state along).symm
    rw [same]
    exact ⟨rfl, fun _ => rfl⟩
  · have lockstep := (lockstep_pair leaf root left right kept stopped).1
    rw [Run.along_root] at lockstep
    obtain ⟨after, same, firstCalled, secondCalled, stops⟩ := lockstep.exists_marks
    rw [same]
    refine ⟨?_, fun stop => ?_⟩
    · rw [awake, awake, admitted_lasting firstLasts firstCalled,
        admitted_lasting secondLasts secondCalled, lasting_append]
    · obtain ⟨firstStopped, secondStopped⟩ := stops stop
      rw [awake, firstStopped, secondStopped]
      rfl

end Pair

theorem lasts {tree : Composite α} (sound : Sound tree) (kept : Kept root tree) :
    Lasts leaf root tree := by
  induction sound with
  | single state => exact lasts_single state
  | pair left right _ _ firstIh secondIh =>
      obtain ⟨awake, stopped⟩ := awake_visit_of_lasts left right kept
        (fun _ => firstIh kept.left) (fun _ => secondIh kept.right)
      exact ⟨fun _ => awake, fun stop => awake.symm.trans (stopped stop)⟩

/-- After a traversal with a pair those take part that took part in it and did not stop. -/
theorem awake_visit_pair {marks : Marks} {first second : Composite α}
    (sound : Sound (.pair marks first second)) (kept : Kept root (.pair marks first second)) :
    (root.visit (step leaf) (.pair marks first second)).state.awake =
      lasting leaf root (Composite.pair marks first second).awake := by
  cases sound with
  | pair left right firstSound secondSound =>
      exact (awake_visit_of_lasts left right kept
        (fun _ => lasts firstSound kept.left) (fun _ => lasts secondSound kept.right)).1

end Lasting

end Composite

end QueryCheck
