import QueryCheck.Proofs.Traversal.Awake
import QueryCheck.Proofs.Traversal.Transparency

/-!
# Trees that are used again

A tree of visitors keeps its marks from one traversal to the next. Entering a document makes it
forget them, entering anything else does not. So a traversal of a document goes as with a new tree
of the same visitors, whatever happened before, and any other traversal does so exactly if no
visitor is held back by an old mark.

A visitor is held back if it stopped in an earlier traversal. If a visitor that encloses the tree
ended one, those are held back as well that were inside of a node that they skipped.
-/

namespace QueryCheck

/-! ## How a traversal ends -/

theorem Flow.eq_of_iff {first second : Flow} (stop : first = .stop ↔ second = .stop)
    (skip : first = .skip ↔ second = .skip) : first = second := by
  cases first <;> cases second <;> simp_all

namespace Outline

variable {σ ο : Type} {visitor : Visitor σ ο}

theorem flow_visitAll_ne_skip (outlines : List Outline) (state : σ) :
    (visitAll visitor outlines state).flow ≠ .skip := by
  rcases flow_visitAll visitor outlines state with stop | next
  · rw [stop]
    exact Flow.noConfusion
  · rw [next]
    exact Flow.noConfusion

/-- A visitor that skips no node on leaving it skips the first node of a traversal or none. -/
theorem flow_visit_eq_skip {holds : σ → Prop} (kept : Run.Invariant holds visitor)
    (leaving : ∀ node path state, holds state →
      (visitor ⟨.leave, node, path⟩ state).flow ≠ .skip)
    {state : σ} (start : holds state) (node : Node) (path : Path) (children : List Outline) :
    ((Outline.branch node path children).visit visitor state).flow = .skip ↔
      (visitor ⟨.enter, node, path⟩ state).flow = .skip := by
  by_cases next : (visitor ⟨.enter, node, path⟩ state).flow = .next
  · have inside : holds (visitAll visitor children
        (visitor ⟨.enter, node, path⟩ state).state).state := by
      have entered : holds (Run.mk .running (visitor ⟨.enter, node, path⟩ state).state).state :=
        kept _ state start
      have along := kept.along entered (eventsAll children)
      rwa [(Run.matches_visitAll _ children).along] at along
    by_cases stop : (visitAll visitor children
        (visitor ⟨.enter, node, path⟩ state).state).flow = .stop
    · rw [visit_of_stop next stop, next]
      simp [Reply.after, stop]
    · rw [visit_of_next next stop, next]
      simp [Reply.after, leaving node path _ inside]
  · rw [visit_of_skip next]

/-- A traversal of a node depends on the state only through the answer to its first event. -/
theorem visit_congr {node : Node} {path : Path} {children : List Outline} {first second : σ}
    (same : visitor ⟨.enter, node, path⟩ first = visitor ⟨.enter, node, path⟩ second) :
    (Outline.branch node path children).visit visitor first =
      (Outline.branch node path children).visit visitor second := by
  rw [visit, visit, same]

end Outline

theorem Root.visit_of_events_nil {σ ο : Type} {visitor : Visitor σ ο} {root : Root}
    (none : root.events = []) (state : σ) : root.visit visitor state = .pass state := by
  rw [Root.events] at none
  rw [Root.visit_eq_course]
  cases course : root.course with
  | one outline =>
      obtain ⟨node, path, children⟩ := outline
      rw [course] at none
      cases none
  | several outlines =>
      cases outlines with
      | nil => rfl
      | cons outline outlines =>
          obtain ⟨node, path, children⟩ := outline
          rw [course] at none
          cases none

namespace Composite

variable {α ο : Type} {leaf : Visitor α ο} {root : Root} {tree : Composite α}

def IsPair : Composite α → Prop
  | single _ => False
  | pair _ _ _ => True

theorem invariant_isPair (leaf : Visitor α ο) : Run.Invariant IsPair (step leaf) := by
  rintro ⟨phase, node, path⟩ tree isPair
  cases tree with
  | single => cases isPair
  | pair => cases phase <;> trivial

theorem flow_leave_ne_skip (node : Node) (path : Path) (tree : Composite α)
    (isPair : tree.IsPair) : (step leaf ⟨.leave, node, path⟩ tree).flow ≠ .skip := by
  cases tree with
  | single => cases isPair
  | pair marks first second =>
      change (if _ then Flow.stop else Flow.next) ≠ _
      split <;> exact Flow.noConfusion

/-! ## Trees of which all visitors take part -/

theorem admitted_eq {mark : Mark} {tree : Composite α}
    (size : (mark.admitted tree.awake).length = tree.leaves.length) :
    mark = .active ∧ tree.awake = tree.leaves := by
  by_cases active : mark = .active
  · rw [active, Mark.admitted_active] at size
    exact ⟨active, tree.awake_sublist.eq_of_length size⟩
  · rw [Mark.admitted_of_ne active] at size
    exact absurd (List.eq_nil_of_length_eq_zero size.symm) tree.leaves_ne_nil

theorem awake_eq_leaves_pair {marks : Marks} {first second : Composite α}
    (whole : (Composite.pair marks first second).awake =
      (Composite.pair marks first second).leaves) :
    (marks.first = .active ∧ first.awake = first.leaves) ∧
      marks.second = .active ∧ second.awake = second.leaves := by
  have bounded (mark : Mark) (tree : Composite α) :
      (mark.admitted tree.awake).length ≤ tree.leaves.length :=
    ((mark.admitted_sublist tree.awake).trans tree.awake_sublist).length_le
  have sizes := congrArg List.length whole
  rw [awake, leaves, List.length_append, List.length_append] at sizes
  have left := bounded marks.first first
  have right := bounded marks.second second
  exact ⟨admitted_eq (by omega), admitted_eq (by omega)⟩

/-- The flow of a pair after an enter of which its children answered with the given flows. -/
def joined (first second : Flow) : Flow :=
  if first = .stop ∧ second = .stop then .stop
  else if first = .next ∨ second = .next then .next else .skip

theorem flow_joinEnter (depth : Nat) (first second : Mark × Reply (Composite α) ο) :
    (joinEnter depth first second).flow = joined first.2.flow second.2.flow := by
  rw [joinEnter, joined]
  by_cases stop : first.2.flow = .stop ∧ second.2.flow = .stop
  · rw [if_pos stop, if_pos stop]
  · rw [if_neg stop, if_neg stop]
    by_cases goes : first.2.flow = .next ∨ second.2.flow = .next
    · rw [if_pos goes, if_pos goes]
    · rw [if_neg goes, if_neg goes]

theorem flow_enter_active (depth : Nat) (first second : Composite α) (node : Node) (path : Path) :
    (step leaf ⟨.enter, node, path⟩ (.pair ⟨depth, .active, .active⟩ first second)).flow =
      joined (step leaf ⟨.enter, node, path⟩ first).flow
        (step leaf ⟨.enter, node, path⟩ second).flow := by
  rw [step]
  dsimp only
  cases node.isDocument <;> exact flow_joinEnter _ _ _

/-- A tree of which all visitors take part answers an enter like a new one. -/
theorem flow_enter_renewed (node : Node) (path : Path) (whole : tree.awake = tree.leaves) :
    (step leaf ⟨.enter, node, path⟩ tree).flow =
      (step leaf ⟨.enter, node, path⟩ tree.renewed).flow := by
  induction tree with
  | single => rfl
  | pair marks first second firstIh secondIh =>
      obtain ⟨⟨firstActive, firstWhole⟩, secondActive, secondWhole⟩ := awake_eq_leaves_pair whole
      obtain ⟨depth, _, _⟩ := marks
      obtain rfl := firstActive
      obtain rfl := secondActive
      rw [renewed, compose, Marks.fresh, flow_enter_active, flow_enter_active, firstIh firstWhole,
        secondIh secondWhole]

/-- A tree of which all visitors take part stops if each of them stops alone. -/
theorem flow_visit_eq_stop (sound : Sound tree) (kept : Kept root tree)
    (whole : tree.awake = tree.leaves) :
    (root.visit (step leaf) tree).flow = .stop ↔
      ∀ state ∈ tree.leaves, (root.visit leaf state).flow = .stop := by
  induction sound with
  | single state =>
      rw [(visit_single leaf root state).1]
      simp [leaves]
  | @pair marks first second left right _ _ firstIh secondIh =>
      obtain ⟨⟨firstActive, firstWhole⟩, secondActive, secondWhole⟩ := awake_eq_leaves_pair whole
      have going : ¬(marks.first = .stopped ∧ marks.second = .stopped) := by
        simp [firstActive]
      have stopped := (lockstep_pair leaf root left right kept going).1.stopped_iff
      simp only [firstActive, secondActive, Mark.progress, Run.along_root,
        Progress.ended_eq_stopped] at stopped
      rw [stopped, firstIh kept.left firstWhole, secondIh kept.right secondWhole]
      exact List.forall_mem_append.symm

theorem sound_renewed (tree : Composite α) : Sound tree.renewed :=
  tree.fresh_renewed.sound

theorem kept_renewed (root : Root) (tree : Composite α) : Kept root tree.renewed :=
  fun _ => tree.fresh_renewed

theorem kept_of_plain (plain : root.isDocument = false) (tree : Composite α) : Kept root tree :=
  fun isDocument => absurd (plain.symm.trans isDocument) Bool.false_ne_true

/-- A tree of which all visitors take part ends a traversal with the flow of a new one. -/
theorem flow_visit_renewed (plain : root.isDocument = false) (sound : Sound tree)
    (whole : tree.awake = tree.leaves) :
    (root.visit (step leaf) tree).flow = (root.visit (step leaf) tree.renewed).flow := by
  have stop : (root.visit (step leaf) tree).flow = .stop ↔
      (root.visit (step leaf) tree.renewed).flow = .stop := by
    rw [flow_visit_eq_stop sound (kept_of_plain plain tree) whole,
      flow_visit_eq_stop tree.sound_renewed (kept_renewed root tree)
        (tree.awake_renewed.trans tree.leaves_renewed.symm), leaves_renewed]
  have skip : (root.visit (step leaf) tree).flow = .skip ↔
      (root.visit (step leaf) tree.renewed).flow = .skip := by
    rw [Root.visit_eq_course, Root.visit_eq_course]
    cases root.course with
    | several outlines =>
        exact iff_of_false (Outline.flow_visitAll_ne_skip outlines _)
          (Outline.flow_visitAll_ne_skip outlines _)
    | one outline =>
        obtain ⟨node, path, children⟩ := outline
        cases tree with
        | single state => rfl
        | pair marks first second =>
            have answers (tree : Composite α) (isPair : tree.IsPair) :
                ((Outline.branch node path children).visit (step leaf) tree).flow = .skip ↔
                  (step leaf ⟨.enter, node, path⟩ tree).flow = .skip :=
              Outline.flow_visit_eq_skip (invariant_isPair leaf) flow_leave_ne_skip isPair node path
                children
            rw [Course.visit, Course.visit, answers (.pair marks first second) trivial,
              answers (Composite.pair marks first second).renewed trivial,
              flow_enter_renewed node path whole]
  exact Flow.eq_of_iff stop skip

/-- On a document it does not matter what a tree remembers. -/
theorem visit_renewed (isDocument : root.isDocument = true) (tree : Composite α) :
    root.visit (step leaf) tree.renewed = root.visit (step leaf) tree := by
  cases root with
  | document whole =>
      rw [Root.visit_document, Root.visit_document]
      exact Outline.visit_congr (step_renewed leaf ⟨rfl, rfl⟩ tree)
  | _ => cases isDocument

end Composite

/-! ## Trees left behind -/

/-- A visitor that encloses another one hands an event on to it or keeps it back, and answers as it
likes. -/
def Visitor.Encloses {τ σ ο π : Type} (outer : Visitor (τ × σ) π) (inner : Visitor σ ο) : Prop :=
  ∀ event own state, (outer event (own, state)).state.2 = state ∨
    (outer event (own, state)).state.2 = (inner event state).state

namespace Composite

variable {α ο : Type}

/-- The trees that are left by any number of traversals, which start anywhere. A visitor of the
tree may end them, or one that encloses the tree. -/
inductive LeftBehind (leaf : Visitor α ο) : Composite α → Prop where
  | fresh {tree : Composite α} (fresh : tree.Fresh) : LeftBehind leaf tree
  | visited {tree : Composite α} (before : LeftBehind leaf tree) (root : Root) :
      LeftBehind leaf (root.visit (step leaf) tree).state
  | enclosed {tree : Composite α} {τ π : Type} {outer : Visitor (τ × Composite α) π}
      (before : LeftBehind leaf tree) (encloses : outer.Encloses (step leaf)) (own : τ)
      (root : Root) : LeftBehind leaf (root.visit outer (own, tree)).state.2

theorem LeftBehind.sound {leaf : Visitor α ο} {tree : Composite α} (left : LeftBehind leaf tree) :
    Sound tree := by
  induction left with
  | fresh fresh => exact fresh.sound
  | visited _ root ih => exact (invariant_sound leaf).visit ih root
  | @enclosed tree τ π outer _ encloses own root ih =>
      have kept : Run.Invariant (fun state : τ × Composite α => state.2.Sound) outer := by
        rintro event ⟨own, inner⟩ sound
        rcases encloses event own inner with same | same
        · rwa [same]
        · rw [same]
          exact invariant_sound leaf event inner sound
      exact kept.visit ih root

end Composite

/-! ## Calls -/

section

variable {ι ο : Type} {σ : ι → Type} {machines : (name : ι) → Visitor (σ name) ο} {root : Root}
  {tree : Composite (Σ name, σ name)}

theorem rows_logged_awake (sound : tree.Sound) (kept : Composite.Kept root tree) :
    Run.rows (Composite.step (Visitor.logged machines)) root.events ⟨.running, tree⟩ =
      root.events.map fun event => tree.awake.flatMap fun leaf => cell machines root leaf event :=
  Composite.rows_awake (Visitor.logged machines) sound kept (cell machines root) fun leaf _ =>
    rows_logged_eq_cells machines root leaf

theorem callsTogether_awake (sound : tree.Sound) (kept : Composite.Kept root tree) :
    callsTogether machines root tree =
      root.events.flatMap fun event =>
        tree.awake.flatMap fun leaf => cell machines root leaf event := by
  rw [callsTogether, ← (Run.matches_root tree root).rows, rows_logged_awake sound kept,
    List.flatMap_def]

theorem stamped_logged (machines : (name : ι) → Visitor (σ name) ο) :
    Run.Stamped Call.event (Composite.step (Visitor.logged machines)) := by
  intro event tree call member
  obtain ⟨leaf, _, isCall⟩ := Composite.exists_of_mem_step member
  rw [List.mem_singleton.mp isCall]

/-- Calls carry their events, so those at each event are found among all of them. -/
theorem rows_logged_eq_filter (machines : (name : ι) → Visitor (σ name) ο) (root : Root)
    (tree : Composite (Σ name, σ name)) :
    Run.rows (Composite.step (Visitor.logged machines)) root.events ⟨.running, tree⟩ =
      root.events.map fun event => (callsTogether machines root tree).filter (·.event = event) := by
  have rows := Run.rows_eq_map_filter (stamped_logged machines) root.nodup_events ⟨.running, tree⟩
  rwa [(Run.matches_root tree root).rows] at rows

/-- Alone, every leaf is called with the first event. -/
theorem cell_first {first : Event} {events : List Event} (starts : root.events = first :: events)
    (leaf : Σ name, σ name) : cell machines root leaf first = [⟨leaf.1, first⟩] := by
  have called : first ∈ callsAlone machines root leaf := by
    rw [callsAlone_eq, starts]
    exact List.mem_append_left _ (List.mem_singleton_self first)
  rw [cell, if_pos called]

/-- If a tree makes the calls of a new one, all of its leaves take part. -/
theorem awake_eq_leaves_of_calls (plain : root.isDocument = false) (sound : tree.Sound)
    (some : root.events ≠ [])
    (calls : callsTogether machines root tree = callsTogether machines root tree.renewed) :
    tree.awake = tree.leaves := by
  have rows : Run.rows (Composite.step (Visitor.logged machines)) root.events ⟨.running, tree⟩ =
      Run.rows (Composite.step (Visitor.logged machines)) root.events
        ⟨.running, tree.renewed⟩ := by
    rw [rows_logged_eq_filter, rows_logged_eq_filter, calls]
  obtain ⟨first, events, starts⟩ := List.exists_cons_of_ne_nil some
  rw [rows_logged_awake sound (Composite.kept_of_plain plain tree),
    rows_logged_awake tree.sound_renewed (Composite.kept_renewed root tree), starts, List.map_cons,
    List.map_cons, List.cons.injEq] at rows
  have sizes := congrArg List.length rows.1
  rw [Composite.awake_renewed] at sizes
  simp only [cell_first starts] at sizes
  refine tree.awake_sublist.eq_of_length ?_
  simpa using sizes

/-- A traversal goes as with a new tree of the same visitors. -/
structure Afresh (machines : (name : ι) → Visitor (σ name) ο) (root : Root)
    (tree : Composite (Σ name, σ name)) : Prop where
  calls : callsTogether machines root tree = callsTogether machines root tree.renewed
  flow : (root.visit (Composite.step (Visitor.named machines)) tree).flow =
    (root.visit (Composite.step (Visitor.named machines)) tree.renewed).flow

theorem afresh_of_document (isDocument : root.isDocument = true) : Afresh machines root tree := by
  constructor
  · rw [callsTogether, callsTogether, Composite.visit_renewed isDocument]
  · rw [Composite.visit_renewed isDocument]

theorem afresh_of_empty (none : root.events = []) : Afresh machines root tree := by
  constructor
  · rw [callsTogether, callsTogether, Root.visit_of_events_nil none, Root.visit_of_events_nil none]
    rfl
  · rw [Root.visit_of_events_nil none, Root.visit_of_events_nil none]
    rfl

theorem afresh_of_awake (sound : tree.Sound) (whole : tree.awake = tree.leaves) :
    Afresh machines root tree := by
  cases plain : root.isDocument with
  | true => exact afresh_of_document plain
  | false =>
      refine ⟨?_, Composite.flow_visit_renewed plain sound whole⟩
      rw [callsTogether_awake sound (Composite.kept_of_plain plain tree),
        callsTogether_awake tree.sound_renewed (Composite.kept_renewed root tree), whole,
        Composite.awake_renewed]

theorem afresh_iff (sound : tree.Sound) :
    Afresh machines root tree ↔
      root.isDocument = true ∨ root.events = [] ∨ tree.awake = tree.leaves := by
  constructor
  · intro afresh
    cases plain : root.isDocument with
    | true => exact .inl rfl
    | false =>
        by_cases none : root.events = []
        · exact .inr (.inl none)
        · exact .inr (.inr (awake_eq_leaves_of_calls plain sound none afresh.calls))
  · rintro (isDocument | none | whole)
    · exact afresh_of_document isDocument
    · exact afresh_of_empty none
    · exact afresh_of_awake sound whole

/-- How a tree goes through further traversals. -/
structure Restarts (machines : (name : ι) → Visitor (σ name) ο)
    (tree : Composite (Σ name, σ name)) : Prop where
  /-- A traversal goes as with a new tree if it starts with a document, if there is nothing to go
  through, or if all leaves take part, and not otherwise. -/
  afresh : ∀ root, Afresh machines root tree ↔
    root.isDocument = true ∨ root.events = [] ∨ tree.awake = tree.leaves
  /-- Unless a traversal starts with a document, those leaves are called that take part, each with
  the events with which it is called alone. -/
  calls : ∀ root, root.isDocument = false →
    callsTogether machines root tree =
      root.events.flatMap fun event =>
        (tree.awake.filter fun leaf => event ∈ callsAlone machines root leaf).map fun leaf =>
          ⟨leaf.1, event⟩
  /-- After a traversal with a pair those leaves take part that took part in it and did not stop.
  In that of a document all of them take part. -/
  after : ∀ root, tree.IsPair →
    (root.visit (Composite.step (Visitor.named machines)) tree).state.awake =
      Composite.lasting (Visitor.named machines) root
        (if root.isDocument = true then tree.leaves else tree.awake)

/-- A tree that was used before starts afresh on a document. On anything else it does exactly if no
leaf is held back by a mark that was left on the way to it. -/
theorem restarts (machines : (name : ι) → Visitor (σ name) ο) {tree : Composite (Σ name, σ name)}
    (left : Composite.LeftBehind (Visitor.named machines) tree) : Restarts machines tree := by
  refine ⟨fun root => afresh_iff left.sound, ?_, ?_⟩
  · intro root plain
    rw [callsTogether_awake left.sound (Composite.kept_of_plain plain tree)]
    refine List.flatMap_congr ?_
    intro event _
    exact flatMap_cell_event machines root event tree.awake
  · intro root isPair
    cases tree with
    | single => cases isPair
    | pair marks first second =>
        split
        case isTrue isDocument =>
          rw [← Composite.visit_renewed isDocument, ← Composite.awake_renewed]
          exact Composite.awake_visit_pair (Composite.sound_renewed (.pair marks first second))
            (Composite.kept_renewed root (.pair marks first second))
        case isFalse isDocument =>
          exact Composite.awake_visit_pair left.sound fun starts => absurd starts isDocument

end

/-- A visitor around others that stops after some events. -/
def sampleGuard : Visitor (Nat × Composite (Σ _ : Nat, Nat)) Unit
  | event, (left, tree) =>
      let answer := Composite.step (Visitor.named sampleMachines) event tree
      ⟨if left = 0 then .stop else answer.flow, (left - 1, answer.state), []⟩

def sampleField : Field :=
  ⟨none, "a", [], [], [.field ⟨none, "b", [], [], []⟩]⟩

/-- Three visitors after a traversal that the one around them ended inside of the field. One of
them had skipped the field, and one had stopped. -/
def sampleLeftBehind : Composite (Σ _ : Nat, Nat) :=
  ((Root.field sampleField).visit sampleGuard
    (2, .compose (.single ⟨0, 0⟩) (.compose (.single ⟨1, 0⟩) (.single ⟨2, 0⟩)))).state.2

theorem leftBehind_sampleLeftBehind :
    Composite.LeftBehind (Visitor.named sampleMachines) sampleLeftBehind := by
  refine .enclosed (.fresh ?_) (fun _ _ _ => .inr rfl) 2 (.field sampleField)
  exact .compose (.single _) (.compose (.single _) (.single _))

theorem restarts_sampleLeftBehind :
    Composite.LeftBehind (Visitor.named sampleMachines) sampleLeftBehind ∧
      sampleLeftBehind.awake = [⟨2, 3⟩] ∧ Restarts sampleMachines sampleLeftBehind :=
  ⟨leftBehind_sampleLeftBehind, by decide, restarts sampleMachines leftBehind_sampleLeftBehind⟩

def stoppingMachines : Nat → Visitor Nat Unit
  | _, _, count => ⟨if count = 0 then .stop else .next, count + 1, []⟩

def sampleStopped : Composite (Σ _ : Nat, Nat) :=
  ((Root.field sampleField).visit (Composite.step (Visitor.named stoppingMachines))
    (.compose (.single ⟨0, 0⟩) (.single ⟨1, 0⟩))).state

/-- They would go through the field if they were put together anew, but are not called again. -/
theorem not_afresh_after_stop :
    Composite.LeftBehind (Visitor.named stoppingMachines) sampleStopped ∧
      callsTogether stoppingMachines (.field sampleField) sampleStopped = [] ∧
      ¬Afresh stoppingMachines (.field sampleField) sampleStopped := by
  refine ⟨.visited (.fresh (.compose (.single _) (.single _))) (.field sampleField), ?_, ?_⟩
  · decide
  · intro afresh
    exact absurd afresh.flow (by decide)

end QueryCheck
