import QueryCheck.Path
import QueryCheck.Syntax.Document
import QueryCheck.Syntax.Kind

/-!
# Events of a traversal

A traversal enters and leaves the nodes of a document. A visitor is a machine
that answers each such event with a flow, which says how the traversal goes on,
a new state, and what it puts out.
-/

namespace QueryCheck

inductive Node where
  | document (document : Document)
  | operation (operation : Operation)
  | fragment (fragment : Fragment)
  | variableDefinition (definition : VariableDefinition)
  | selectionSet (selections : List Selection)
  | spread (spread : FragmentSpread)
  | inline (fragment : InlineFragment)
  | field (field : Field)
  | directive (directive : Directive)
  | argument (argument : Argument)
deriving DecidableEq, Repr

inductive Phase where
  | enter
  | leave
deriving DecidableEq, Repr

/-- A node that is entered or left, and the path to it from where the traversal started. -/
structure Event where
  phase : Phase
  node : Node
  path : Path
deriving DecidableEq, Repr

/-- How a traversal goes on: with the next event, past the node that was entered, or not at
all. -/
inductive Flow where
  | next
  | skip
  | stop
deriving DecidableEq, Repr

structure Reply (σ ο : Type) where
  flow : Flow
  state : σ
  out : List ο
deriving DecidableEq, Repr

/-- A visitor with states `σ` that puts out `ο`. -/
abbrev Visitor (σ ο : Type) : Type :=
  Event → σ → Reply σ ο

namespace Flow

def name : Flow → String
  | next => "Next"
  | skip => "Skip"
  | stop => "Break"

end Flow

namespace Node

def kind : Node → NodeKind
  | document _ => .document
  | operation _ => .operationDefinition
  | fragment _ => .fragmentDefinition
  | variableDefinition _ => .variableDefinition
  | selectionSet _ => .selectionSet
  | spread _ => .fragmentSpread
  | inline _ => .inlineFragment
  | field _ => .field
  | directive _ => .directive
  | argument _ => .argument

def isDocument : Node → Bool
  | document _ => true
  | _ => false

end Node

namespace Reply

variable {σ τ ο : Type}

/-- The answer of a visitor that goes on and puts out nothing. -/
def pass (state : σ) : Reply σ ο :=
  ⟨.next, state, []⟩

def map (f : σ → τ) (reply : Reply σ ο) : Reply τ ο :=
  ⟨reply.flow, f reply.state, reply.out⟩

/-- The same answer after something was put out before it. -/
def after (out : List ο) (reply : Reply σ ο) : Reply σ ο :=
  ⟨reply.flow, reply.state, out ++ reply.out⟩

end Reply

end QueryCheck
