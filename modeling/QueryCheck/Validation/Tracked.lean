import QueryCheck.TypeInfo
import QueryCheck.Validation.Context

/-!
# Visiting with a schema

A visitor that reads the definitions behind the nodes is run together with the
stack of those definitions. The frame of a node is there from before its enter
until after its leave. What the visitor puts out may add reports to a context,
and when these abort the validation, the traversal stops.
-/

namespace QueryCheck

/-- The state of a visitor, the definitions behind the current node, and the reports so far. -/
structure Tracked (σ : Type) where
  types : TypeInfo
  context : Context
  inner : σ
deriving Repr

namespace Tracked

variable {σ ο : Type}

def start (schema : Schema) (limit? : Option Nat) (inner : σ) : Tracked σ :=
  ⟨.start schema, .start limit?, inner⟩

/-- The frames after an answer. The frame of a node stays if the traversal goes below it. -/
def settle (types : TypeInfo) (node : Node) : Phase → Flow → TypeInfo
  | .enter, .next => types
  | _, _ => types.leaveNode node

/-- Runs a visitor with the definitions behind each node. -/
def step (absorb : Context → ο → Context) (visitor : TypeInfo → Visitor σ ο) :
    Visitor (Tracked σ) ο := fun event state =>
  let types :=
    match event.phase with
    | .enter => state.types.enterNode event.node
    | .leave => state.types
  let answer := visitor types event state.inner
  let context := answer.out.foldl absorb state.context
  ⟨if context.aborted then .stop else answer.flow,
    ⟨settle types event.node event.phase answer.flow, context, answer.state⟩,
    answer.out⟩

end Tracked

end QueryCheck
