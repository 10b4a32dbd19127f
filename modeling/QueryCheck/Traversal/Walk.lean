import QueryCheck.Traversal.Event

/-!
# Traversals

A traversal enters a node, goes through its children, and leaves it. If a visitor
answers an enter with `skip`, the children and the leave are passed over. If it
answers any event with `stop`, the traversal ends.

A traversal has one path. On the way to a child a segment is put at its end, and
on the way back the last segment is taken off again. Where a traversal is stopped,
the path stays as it is.
-/

namespace QueryCheck

/-- Where a traversal stands: the path to the current node, and the state of the visitor. -/
structure Position (σ : Type) where
  path : Path
  state : σ
deriving DecidableEq, Repr

/-- A traversal of some part of a document. -/
abbrev Walk (σ ο : Type) : Type :=
  Position σ → Reply (Position σ) ο

namespace Walk

variable {σ ο : Type}

def done : Walk σ ο := Reply.pass

/-- Calls a visitor, which is told the current path. -/
def call (visitor : Visitor σ ο) (phase : Phase) (node : Node) : Walk σ ο := fun position =>
  (visitor ⟨phase, node, position.path⟩ position.state).map (⟨position.path, ·⟩)

/-- One walk and then another, unless the first is stopped. -/
def andThen (first second : Walk σ ο) : Walk σ ο := fun position =>
  let before := first position
  match before.flow with
  | .stop => before
  | _ => (second before.state).after before.out

/-- A walk through a child, to which a segment leads. A child that was skipped is over. -/
def child (segment : PathSegment) (inner : Walk σ ο) : Walk σ ο := fun position =>
  let below := inner ⟨position.path.push segment, position.state⟩
  match below.flow with
  | .stop => below
  | _ => ⟨.next, ⟨below.state.path.parent, below.state.state⟩, below.out⟩

/-- A walk through the members of a list, the first of which has the given place. -/
def members {α : Type} (walk : α → Walk σ ο) (place : Nat) : List α → Walk σ ο
  | [] => done
  | member :: rest => (child (.index place) (walk member)).andThen (members walk (place + 1) rest)

/-- Enters a node, walks through its children and leaves it. -/
def node (visitor : Visitor σ ο) (node : Node) (children : Walk σ ο) : Walk σ ο := fun position =>
  let entered := call visitor .enter node position
  match entered.flow with
  | .next =>
      let inner := children entered.state
      match inner.flow with
      | .stop => inner.after entered.out
      | _ => (call visitor .leave node inner.state).after (entered.out ++ inner.out)
  | _ => entered

variable (visitor : Visitor σ ο)

def ofArgument (argument : Argument) : Walk σ ο :=
  node visitor (.argument argument) done

def ofArguments (arguments : List Argument) : Walk σ ο :=
  members (ofArgument visitor) 0 arguments

def ofDirective (directive : Directive) : Walk σ ο :=
  node visitor (.directive directive) (child .arguments (ofArguments visitor directive.arguments))

def ofDirectives (directives : List Directive) : Walk σ ο :=
  members (ofDirective visitor) 0 directives

def ofSpread (spread : FragmentSpread) : Walk σ ο :=
  node visitor (.spread spread) (child .directives (ofDirectives visitor spread.directives))

mutual

def ofSelection : Selection → Walk σ ο
  | .field field => ofField field
  | .spread spread => ofSpread visitor spread
  | .inline fragment => ofInline fragment

def ofField : Field → Walk σ ο
  | ⟨alias?, name, arguments, directives, selections⟩ =>
      node visitor (.field ⟨alias?, name, arguments, directives, selections⟩)
        (child .arguments (ofArguments visitor arguments)
          |>.andThen (child .directives (ofDirectives visitor directives))
          |>.andThen (child .selectionSet
            (node visitor (.selectionSet selections) (ofSelections 0 selections))))

def ofInline : InlineFragment → Walk σ ο
  | ⟨typeCondition?, directives, selections⟩ =>
      node visitor (.inline ⟨typeCondition?, directives, selections⟩)
        (child .directives (ofDirectives visitor directives)
          |>.andThen (child .selectionSet
            (node visitor (.selectionSet selections) (ofSelections 0 selections))))

def ofSelections (place : Nat) : List Selection → Walk σ ο
  | [] => done
  | selection :: selections =>
      (child (.index place) (ofSelection selection)).andThen (ofSelections (place + 1) selections)

end

def ofSelectionSet (selections : List Selection) : Walk σ ο :=
  node visitor (.selectionSet selections) (ofSelections visitor 0 selections)

def ofVariableDefinition (definition : VariableDefinition) : Walk σ ο :=
  node visitor (.variableDefinition definition)
    (child .directives (ofDirectives visitor definition.directives))

def ofVariableDefinitions (definitions : List VariableDefinition) : Walk σ ο :=
  members (ofVariableDefinition visitor) 0 definitions

def ofFragment (fragment : Fragment) : Walk σ ο :=
  node visitor (.fragment fragment)
    (child .directives (ofDirectives visitor fragment.directives)
      |>.andThen (child .selectionSet (ofSelectionSet visitor fragment.selections)))

def ofOperation (operation : Operation) : Walk σ ο :=
  node visitor (.operation operation)
    (child .variableDefinitions (ofVariableDefinitions visitor operation.variableDefinitions)
      |>.andThen (child .directives (ofDirectives visitor operation.directives))
      |>.andThen (child .selectionSet (ofSelectionSet visitor operation.selections)))

def ofDefinition : Definition → Walk σ ο
  | .operation operation => ofOperation visitor operation
  | .fragment fragment => ofFragment visitor fragment

def ofDocument (document : Document) : Walk σ ο :=
  node visitor (.document document) (members (ofDefinition visitor) 0 document.definitions)

end Walk

end QueryCheck
