import QueryCheck.Traversal.Event

/-!
# Visitors side by side

Visitors run side by side in one traversal as the leaves of a binary tree. At
each event the leaves are called from left to right. A child that answered `skip`
is not called below the node it skipped, and one that answered `stop` is not
called again. A pair skips a node only if both children do, and stops only when
both have.

A pair remembers how deep it is in the traversal and where each child skipped.
Entering a document makes it forget both. After a traversal of any other node
that was stopped from outside, they stay as they are.
-/

namespace QueryCheck

/-- Whether a child of a pair takes part. -/
inductive Mark where
  | active
  | skipping (depth : Nat)
  | stopped
deriving DecidableEq, Repr

/-- What a pair remembers during a traversal. -/
structure Marks where
  depth : Nat
  first : Mark
  second : Mark
deriving DecidableEq, Repr

/-- Visitors side by side, each with its state. -/
inductive Composite (α : Type) where
  | single (state : α)
  | pair (marks : Marks) (first second : Composite α)
deriving DecidableEq, Repr

namespace Mark

variable {σ ο : Type}

/-- The mark of a child that was called on entering a node at a depth. -/
def ofFlow (depth : Nat) : Flow → Mark
  | .next => active
  | .skip => skipping depth
  | .stop => stopped

/-- Takes the answer of a child to an enter if the child takes part. -/
def enter (mark : Mark) (depth : Nat) (state : σ) (answer : Reply σ ο) : Mark × Reply σ ο :=
  match mark with
  | active => (ofFlow depth answer.flow, answer)
  | skipping start =>
      if start = depth then (ofFlow depth answer.flow, answer)
      else (skipping start, ⟨.skip, state, []⟩)
  | stopped => (stopped, ⟨.stop, state, []⟩)

/-- Takes the answer of a child to a leave if the child takes part. A child that skipped the node
takes part again. -/
def leave (mark : Mark) (depth : Nat) (state : σ) (answer : Reply σ ο) : Mark × Reply σ ο :=
  match mark with
  | active => (if answer.flow = .stop then stopped else active, answer)
  | skipping start => (if start = depth then active else skipping start, .pass state)
  | stopped => (stopped, .pass state)

/-- The mark of a child after the node at a depth was skipped by the pair. -/
def release (mark : Mark) (depth : Nat) : Mark :=
  if mark = skipping depth then active else mark

end Mark

namespace Marks

def fresh : Marks := ⟨1, .active, .active⟩

end Marks

namespace Composite

variable {α ο : Type}

def compose (first second : Composite α) : Composite α :=
  .pair .fresh first second

def map {β : Type} (f : α → β) : Composite α → Composite β
  | single state => .single (f state)
  | pair marks first second => .pair marks (first.map f) (second.map f)

def leaves : Composite α → List α
  | single state => [state]
  | pair _ first second => first.leaves ++ second.leaves

/-- Puts the answers of two children to an enter together. -/
def joinEnter (depth : Nat) (first second : Mark × Reply (Composite α) ο) :
    Reply (Composite α) ο :=
  let (flow, marks) : Flow × Marks :=
    if first.2.flow = .stop ∧ second.2.flow = .stop then (.stop, ⟨depth, first.1, second.1⟩)
    else if first.2.flow = .next ∨ second.2.flow = .next then
      (.next, ⟨depth + 1, first.1, second.1⟩)
    else (.skip, ⟨depth, first.1.release depth, second.1.release depth⟩)
  ⟨flow, .pair marks first.2.state second.2.state, first.2.out ++ second.2.out⟩

/-- Puts the answers of two children to a leave together. -/
def joinLeave (depth : Nat) (first second : Mark × Reply (Composite α) ο) :
    Reply (Composite α) ο :=
  ⟨if first.1 = .stopped ∧ second.1 = .stopped then .stop else .next,
    .pair ⟨depth, first.1, second.1⟩ first.2.state second.2.state,
    first.2.out ++ second.2.out⟩

/-- Runs a visitor on every leaf that takes part. -/
def step (leaf : Visitor α ο) : Visitor (Composite α) ο
  | event, single state => (leaf event state).map single
  | event, pair marks first second =>
      match event.phase with
      | .enter =>
          let marks := if event.node.isDocument then Marks.fresh else marks
          joinEnter marks.depth
            (marks.first.enter marks.depth first (step leaf event first))
            (marks.second.enter marks.depth second (step leaf event second))
      | .leave =>
          let depth := marks.depth - 1
          joinLeave depth
            (marks.first.leave depth first (step leaf event first))
            (marks.second.leave depth second (step leaf event second))

end Composite

end QueryCheck
