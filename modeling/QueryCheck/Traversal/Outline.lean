import QueryCheck.Traversal.Event

/-!
# The nodes of a document in the order of a traversal

An outline is the tree of the nodes that a traversal enters and leaves, each with
the path to it. Children come in source order: the variable definitions of an
operation, then its directives, then its selection set; the arguments of a field,
then its directives, then its selection set. Values, types and names are not
entered, and neither are lists of arguments, directives and variable definitions
as such. A field without selections still has a selection set, which is empty.

A visitor can be run over an outline. It is told the path that stands there.
-/

namespace QueryCheck

/-- A node, the path to it, and the outlines of its children. -/
inductive Outline where
  | branch (node : Node) (path : Path) (children : List Outline)
deriving Repr

namespace Outline

/-- The outlines of the members of a list, the first of which has the given place. -/
def ofMembers {α : Type} (outline : Path → α → Outline) (path : Path) (place : Nat) :
    List α → List Outline
  | [] => []
  | member :: members =>
      outline (path.push (.index place)) member :: ofMembers outline path (place + 1) members

def ofArgument (path : Path) (argument : Argument) : Outline :=
  .branch (.argument argument) path []

def ofArguments (path : Path) (arguments : List Argument) : List Outline :=
  ofMembers ofArgument path 0 arguments

def ofDirective (path : Path) (directive : Directive) : Outline :=
  .branch (.directive directive) path (ofArguments (path.push .arguments) directive.arguments)

def ofDirectives (path : Path) (directives : List Directive) : List Outline :=
  ofMembers ofDirective path 0 directives

def ofSpread (path : Path) (spread : FragmentSpread) : Outline :=
  .branch (.spread spread) path (ofDirectives (path.push .directives) spread.directives)

mutual

def ofSelection (path : Path) : Selection → Outline
  | .field field => ofField path field
  | .spread spread => ofSpread path spread
  | .inline fragment => ofInline path fragment

def ofField (path : Path) : Field → Outline
  | ⟨alias?, name, arguments, directives, selections⟩ =>
      .branch (.field ⟨alias?, name, arguments, directives, selections⟩) path
        (ofArguments (path.push .arguments) arguments ++
          ofDirectives (path.push .directives) directives ++
          [.branch (.selectionSet selections) (path.push .selectionSet)
            (ofSelections (path.push .selectionSet) 0 selections)])

def ofInline (path : Path) : InlineFragment → Outline
  | ⟨typeCondition?, directives, selections⟩ =>
      .branch (.inline ⟨typeCondition?, directives, selections⟩) path
        (ofDirectives (path.push .directives) directives ++
          [.branch (.selectionSet selections) (path.push .selectionSet)
            (ofSelections (path.push .selectionSet) 0 selections)])

/-- The outlines of selections, the first of which has the given place. -/
def ofSelections (path : Path) (place : Nat) : List Selection → List Outline
  | [] => []
  | selection :: selections =>
      ofSelection (path.push (.index place)) selection :: ofSelections path (place + 1) selections

end

def ofSelectionSet (path : Path) (selections : List Selection) : Outline :=
  .branch (.selectionSet selections) path (ofSelections path 0 selections)

def ofVariableDefinition (path : Path) (definition : VariableDefinition) : Outline :=
  .branch (.variableDefinition definition) path
    (ofDirectives (path.push .directives) definition.directives)

def ofVariableDefinitions (path : Path) (definitions : List VariableDefinition) : List Outline :=
  ofMembers ofVariableDefinition path 0 definitions

def ofFragment (path : Path) (fragment : Fragment) : Outline :=
  .branch (.fragment fragment) path
    (ofDirectives (path.push .directives) fragment.directives ++
      [ofSelectionSet (path.push .selectionSet) fragment.selections])

def ofOperation (path : Path) (operation : Operation) : Outline :=
  .branch (.operation operation) path
    (ofVariableDefinitions (path.push .variableDefinitions) operation.variableDefinitions ++
      ofDirectives (path.push .directives) operation.directives ++
      [ofSelectionSet (path.push .selectionSet) operation.selections])

def ofDefinition (path : Path) : Definition → Outline
  | .operation operation => ofOperation path operation
  | .fragment fragment => ofFragment path fragment

def ofDocument (document : Document) : Outline :=
  .branch (.document document) .root (ofMembers ofDefinition .root 0 document.definitions)

section Visit

variable {σ ο : Type}

mutual

def visit (visitor : Visitor σ ο) : Outline → σ → Reply σ ο
  | .branch node path children, state =>
      let entered := visitor ⟨.enter, node, path⟩ state
      match entered.flow with
      | .next =>
          let inner := visitAll visitor children entered.state
          match inner.flow with
          | .stop => inner.after entered.out
          | _ => (visitor ⟨.leave, node, path⟩ inner.state).after (entered.out ++ inner.out)
      | _ => entered

/-- Runs a visitor over outlines one after the other. The flow is `stop` or `next`. -/
def visitAll (visitor : Visitor σ ο) : List Outline → σ → Reply σ ο
  | [], state => .pass state
  | outline :: outlines, state =>
      let first := visit visitor outline state
      match first.flow with
      | .stop => first
      | _ => (visitAll visitor outlines first.state).after first.out

end

end Visit

end Outline

end QueryCheck
