import QueryCheck.Proofs.Traversal.Lockstep

/-!
# Visitors put together do not notice one another

A tree of visitors is run over any part of a document. The main result compares
it with the visitors on their own: each of them gets the same calls and ends in the
same state, the calls at one event come from left to right whatever the shape of the
tree, and the tree stops exactly if all of them do.

Calls are made visible by visitors that put them out. The leaves of a tree have
names, and each name stands for a machine of its own.
-/

namespace QueryCheck

structure Call (ι : Type) where
  leaf : ι
  event : Event
deriving DecidableEq, Repr

namespace Visitor

variable {ι ο : Type} {σ : ι → Type}

def traced {τ : Type} (visitor : Visitor τ ο) : Visitor τ Event := fun event state =>
  let answer := visitor event state
  ⟨answer.flow, answer.state, [event]⟩

/-- The visitor that the name of a leaf stands for. -/
def named (machines : (name : ι) → Visitor (σ name) ο) : Visitor (Σ name, σ name) ο :=
  fun event leaf => (machines leaf.1 event leaf.2).map (Sigma.mk leaf.1)

def logged (machines : (name : ι) → Visitor (σ name) ο) : Visitor (Σ name, σ name) (Call ι) :=
  fun event leaf =>
    let answer := machines leaf.1 event leaf.2
    ⟨answer.flow, ⟨leaf.1, answer.state⟩, [⟨leaf.1, event⟩]⟩

end Visitor

section

variable {ι ο : Type} {σ : ι → Type}

/-- The events with which a leaf is called if it runs alone. -/
def callsAlone (machines : (name : ι) → Visitor (σ name) ο) (root : Root) (leaf : Σ name, σ name) :
    List Event :=
  (root.visit (machines leaf.1).traced leaf.2).out

/-- The calls of all leaves of a tree in the order in which they come. -/
def callsTogether (machines : (name : ι) → Visitor (σ name) ο) (root : Root)
    (tree : Composite (Σ name, σ name)) : List (Call ι) :=
  (root.visit (Composite.step (Visitor.logged machines)) tree).out

/-- A tree can start a traversal if it is new or the traversal is that of a document. -/
def Ready (root : Root) (tree : Composite (Σ name, σ name)) : Prop :=
  tree.Fresh ∨ root.isDocument = true

/-- The visitors of a tree go through a part of a document as each of them does alone. -/
structure Transparent [DecidableEq ι] (machines : (name : ι) → Visitor (σ name) ο) (root : Root)
    (tree : Composite (Σ name, σ name)) : Prop where
  /-- Each leaf is called with the events with which it is called alone. -/
  calls : ∀ leaf ∈ tree.leaves,
    ((callsTogether machines root tree).filter (·.leaf = leaf.1)).map Call.event =
      callsAlone machines root leaf
  /-- Each leaf ends in the state in which it ends alone. -/
  states : (root.visit (Composite.step (Visitor.named machines)) tree).state.leaves =
    tree.leaves.map fun leaf => ⟨leaf.1, (root.visit (machines leaf.1) leaf.2).state⟩
  /-- The leaves that are called at an event are called from left to right. -/
  order : callsTogether machines root tree =
    root.events.flatMap fun event =>
      (tree.leaves.filter fun leaf => event ∈ callsAlone machines root leaf).map fun leaf =>
        ⟨leaf.1, event⟩
  /-- Another tree with the same leaves gives the same calls. -/
  regrouped : ∀ other, Ready root other → other.leaves = tree.leaves →
    callsTogether machines root other = callsTogether machines root tree
  /-- The tree stops if all leaves stop alone. -/
  stops : (root.visit (Composite.step (Visitor.named machines)) tree).flow = .stop ↔
    ∀ leaf ∈ tree.leaves, (root.visit (machines leaf.1) leaf.2).flow = .stop

variable {machines : (name : ι) → Visitor (σ name) ο}

/-- A traversal with a tree that is ready goes as one with a new tree of the same leaves. -/
theorem Ready.exists_fresh {π : Type} {root : Root} {tree : Composite (Σ name, σ name)}
    (ready : Ready root tree) (leaf : Visitor (Σ name, σ name) π) :
    ∃ fresh : Composite (Σ name, σ name), fresh.Fresh ∧ fresh.leaves = tree.leaves ∧
      Run.along (Composite.step leaf) root.events ⟨.running, fresh⟩ =
        Run.along (Composite.step leaf) root.events ⟨.running, tree⟩ ∧
      Run.rows (Composite.step leaf) root.events ⟨.running, fresh⟩ =
        Run.rows (Composite.step leaf) root.events ⟨.running, tree⟩ := by
  rcases ready with fresh | isDocument
  · exact ⟨tree, fresh, rfl, rfl, rfl⟩
  · cases root with
    | document whole =>
        exact ⟨tree.renewed, tree.fresh_renewed, tree.leaves_renewed,
          Composite.run_renewed leaf ⟨rfl, rfl⟩ _ tree⟩
    | _ => cases isDocument

/-! ## One leaf -/

theorem mirrors_named (machines : (name : ι) → Visitor (σ name) ο) (name : ι) :
    Run.Mirrors (Sigma.mk name) (machines name) (Visitor.named machines) :=
  ⟨fun _ _ => rfl, fun _ _ => rfl⟩

theorem mirrors_logged (machines : (name : ι) → Visitor (σ name) ο) (name : ι) :
    Run.Mirrors (Sigma.mk name) (machines name).traced (Visitor.logged machines) :=
  ⟨fun _ _ => rfl, fun _ _ => rfl⟩

/-- A visitor is called with some of the events, in their order. -/
theorem traced_sublist {τ : Type} (visitor : Visitor τ ο) (events : List Event) (run : Run τ) :
    (Run.rows visitor.traced events run).flatten.Sublist events := by
  induction events generalizing run with
  | nil => exact List.Sublist.refl []
  | cons event events ih =>
      obtain ⟨progress, state⟩ := run
      cases progress with
      | running => exact (ih _).cons_cons event
      | skipping opened => exact (ih _).cons event
      | stopped => exact (ih _).cons event

theorem callsAlone_eq (machines : (name : ι) → Visitor (σ name) ο) (root : Root)
    (leaf : Σ name, σ name) :
    callsAlone machines root leaf =
      (Run.rows (machines leaf.1).traced root.events ⟨.running, leaf.2⟩).flatten :=
  (Run.matches_root leaf.2 root).rows.symm

theorem nodup_callsAlone (machines : (name : ι) → Visitor (σ name) ο) (root : Root)
    (leaf : Σ name, σ name) : (callsAlone machines root leaf).Nodup := by
  rw [callsAlone_eq]
  exact (traced_sublist _ _ _).nodup root.nodup_events

/-- What a leaf puts out at an event if it is called with some events. -/
def cell (machines : (name : ι) → Visitor (σ name) ο) (root : Root) (leaf : Σ name, σ name)
    (event : Event) : List (Call ι) :=
  if event ∈ callsAlone machines root leaf then [⟨leaf.1, event⟩] else []

theorem rows_logged (machines : (name : ι) → Visitor (σ name) ο) (root : Root)
    (leaf : Σ name, σ name) :
    Run.rows (Visitor.logged machines) root.events ⟨.running, leaf⟩ =
      (Run.rows (machines leaf.1).traced root.events ⟨.running, leaf.2⟩).map
        (List.map (Call.mk leaf.1)) :=
  (mirrors_logged machines leaf.1).rows_map rfl (fun _ _ => rfl) _ ⟨.running, leaf.2⟩

theorem rows_logged_eq_cells (machines : (name : ι) → Visitor (σ name) ο) (root : Root)
    (leaf : Σ name, σ name) :
    Run.rows (Visitor.logged machines) root.events ⟨.running, leaf⟩ =
      root.events.map (cell machines root leaf) := by
  have stamped : Run.Stamped id (machines leaf.1).traced := fun _ _ _ member =>
    List.mem_singleton.mp member
  rw [rows_logged, Run.rows_eq_map_filter stamped root.nodup_events, ← callsAlone_eq, List.map_map]
  refine List.map_congr_left ?_
  intro event _
  change ((callsAlone machines root leaf).filter (· = event)).map (Call.mk leaf.1) = _
  rw [List.filter_eq, (nodup_callsAlone machines root leaf).count, cell]
  split <;> rfl

theorem flatMap_cell (machines : (name : ι) → Visitor (σ name) ο) (root : Root)
    (leaf : Σ name, σ name) :
    root.events.flatMap (cell machines root leaf) =
      (callsAlone machines root leaf).map (Call.mk leaf.1) := by
  rw [List.flatMap_def, ← rows_logged_eq_cells, rows_logged, callsAlone_eq, List.map_flatten]

theorem flatMap_cell_event (machines : (name : ι) → Visitor (σ name) ο) (root : Root)
    (event : Event) (leaves : List (Σ name, σ name)) :
    leaves.flatMap (cell machines root · event) =
      (leaves.filter fun leaf => event ∈ callsAlone machines root leaf).map fun leaf =>
        ⟨leaf.1, event⟩ := by
  induction leaves with
  | nil => rfl
  | cons leaf leaves ih =>
      rw [List.flatMap_cons, ih, cell]
      by_cases called : event ∈ callsAlone machines root leaf
      · simp [called]
      · simp [called]

/-- Alone, a leaf ends as the machine that its name stands for. -/
theorem along_named (machines : (name : ι) → Visitor (σ name) ο) (root : Root)
    (leaf : Σ name, σ name) :
    Run.along (Visitor.named machines) root.events ⟨.running, leaf⟩ =
      ⟨.ended (root.visit (machines leaf.1) leaf.2).flow,
        ⟨leaf.1, (root.visit (machines leaf.1) leaf.2).state⟩⟩ := by
  have along := (mirrors_named machines leaf.1).along root.events ⟨.running, leaf.2⟩
  rw [(Run.matches_root leaf.2 root).along] at along
  exact along

/-! ## A tree -/

section

variable {root : Root} {tree : Composite (Σ name, σ name)}

theorem callsTogether_eq (machines : (name : ι) → Visitor (σ name) ο) (ready : Ready root tree) :
    callsTogether machines root tree =
      root.events.flatMap fun event =>
        tree.leaves.flatMap fun leaf => cell machines root leaf event := by
  obtain ⟨fresh, isFresh, leaves, _, rows⟩ := ready.exists_fresh (Visitor.logged machines)
  have together := isFresh.rows_along (Visitor.logged machines) (Composite.opening_events root)
    root.events (cell machines root) fun leaf _ => rows_logged_eq_cells machines root leaf
  rw [callsTogether, ← (Run.matches_root tree root).rows, ← rows, together, leaves]
  rfl

theorem calls_filter [DecidableEq ι] (machines : (name : ι) → Visitor (σ name) ο)
    (ready : Ready root tree) (names : (tree.leaves.map Sigma.fst).Nodup) {leaf : Σ name, σ name}
    (member : leaf ∈ tree.leaves) :
    ((callsTogether machines root tree).filter (·.leaf = leaf.1)).map Call.event =
      callsAlone machines root leaf := by
  have owned : ∀ other event, ∀ call ∈ cell machines root other event, call.leaf = other.1 := by
    intro other event call inCell
    rw [cell] at inCell
    split at inCell
    · rw [List.mem_singleton.mp inCell]
    · cases inCell
  rw [callsTogether_eq machines ready,
    Composite.filter_flatMap_owner names owned root.events member, flatMap_cell, List.map_map]
  exact List.map_id _

/-- The end of a traversal with a tree. -/
theorem visit_named (machines : (name : ι) → Visitor (σ name) ο) (ready : Ready root tree) :
    (root.visit (Composite.step (Visitor.named machines)) tree).state.leaves =
        tree.leaves.map (fun leaf => ⟨leaf.1, (root.visit (machines leaf.1) leaf.2).state⟩) ∧
      ((root.visit (Composite.step (Visitor.named machines)) tree).flow = .stop ↔
        ∀ leaf ∈ tree.leaves, (root.visit (machines leaf.1) leaf.2).flow = .stop) := by
  obtain ⟨fresh, isFresh, leaves, along, _⟩ := ready.exists_fresh (Visitor.named machines)
  have ended := isFresh.leaves_along (Visitor.named machines) (Composite.opening_events root)
  have stopped := isFresh.stopped_along (Visitor.named machines) (Composite.opening_events root)
  rw [along, (Run.matches_root tree root).along, leaves] at ended stopped
  simp only [along_named, Progress.ended_eq_stopped] at ended stopped
  exact ⟨ended, stopped⟩

/-- Visitors that are put together in a tree run as each of them does alone, over any part of a
document. A tree that was used before may still be used on a whole document. -/
theorem transparent [DecidableEq ι] (machines : (name : ι) → Visitor (σ name) ο) (root : Root)
    (tree : Composite (Σ name, σ name)) (ready : Ready root tree)
    (names : (tree.leaves.map Sigma.fst).Nodup) : Transparent machines root tree := by
  refine ⟨?_, (visit_named machines ready).1, ?_, ?_, (visit_named machines ready).2⟩
  · intro leaf member
    exact calls_filter machines ready names member
  · rw [callsTogether_eq machines ready]
    refine List.flatMap_congr ?_
    intro event _
    exact flatMap_cell_event machines root event tree.leaves
  · intro other otherReady leaves
    rw [callsTogether_eq machines otherReady, callsTogether_eq machines ready, leaves]

end

/-- A visitor that passes over fields, one that stops at the first selection set, and one that
does neither. -/
def sampleMachines : Nat → Visitor Nat Unit
  | 0, event, count => ⟨if event.node.kind = .field then .skip else .next, count + 1, []⟩
  | 1, event, count => ⟨if event.node.kind = .selectionSet then .stop else .next, count + 1, []⟩
  | _, _, count => ⟨.next, count + 1, []⟩

/-- The three of them after a traversal that was stopped in the middle. -/
def sampleTree : Composite (Σ _ : Nat, Nat) :=
  .pair ⟨4, .skipping 2, .stopped⟩ (.single ⟨0, 7⟩)
    (.pair ⟨3, .stopped, .skipping 1⟩ (.single ⟨1, 7⟩) (.single ⟨2, 7⟩))

def sampleDocument : Document :=
  ⟨[.operation ⟨.query, none, [], [],
    [.field ⟨none, "a", [], [], [.field ⟨none, "b", [], [], []⟩]⟩,
     .field ⟨none, "c", [], [], []⟩]⟩]⟩

theorem transparent_sampleTree :
    Ready (.document sampleDocument) sampleTree ∧ (sampleTree.leaves.map Sigma.fst).Nodup ∧
      Transparent sampleMachines (.document sampleDocument) sampleTree :=
  ⟨Or.inr rfl, by decide, transparent sampleMachines _ sampleTree (Or.inr rfl) (by decide)⟩

end

end QueryCheck
