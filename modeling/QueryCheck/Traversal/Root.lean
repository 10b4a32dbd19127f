import QueryCheck.Traversal.Outline
import QueryCheck.Traversal.Walk

/-!
# Where a traversal starts

A traversal can start at any part of a document, and paths begin there. A list of
arguments, directives or variable definitions is not entered as such: its members
are visited one after the other.
-/

namespace QueryCheck

/-- A part of a document at which a traversal can start. -/
inductive Root where
  | document (document : Document)
  | definition (definition : Definition)
  | operation (operation : Operation)
  | fragment (fragment : Fragment)
  | variableDefinitions (definitions : List VariableDefinition)
  | variableDefinition (definition : VariableDefinition)
  | selectionSet (selections : List Selection)
  | selection (selection : Selection)
  | spread (spread : FragmentSpread)
  | inline (fragment : InlineFragment)
  | field (field : Field)
  | directives (directives : List Directive)
  | directive (directive : Directive)
  | arguments (arguments : List Argument)
  | argument (argument : Argument)
deriving DecidableEq, Repr

/-- What a traversal goes through: one outline, or several in turn. -/
inductive Course where
  | one (outline : Outline)
  | several (outlines : List Outline)
deriving Repr

namespace Course

variable {σ ο : Type}

def visit (visitor : Visitor σ ο) : Course → σ → Reply σ ο
  | one outline, state => outline.visit visitor state
  | several outlines, state => Outline.visitAll visitor outlines state

end Course

namespace Root

variable {σ ο : Type}

def course : Root → Course
  | document whole => .one (.ofDocument whole)
  | definition part => .one (.ofDefinition .root part)
  | operation part => .one (.ofOperation .root part)
  | fragment part => .one (.ofFragment .root part)
  | variableDefinitions parts => .several (Outline.ofVariableDefinitions .root parts)
  | variableDefinition part => .one (.ofVariableDefinition .root part)
  | selectionSet parts => .one (.ofSelectionSet .root parts)
  | selection part => .one (.ofSelection .root part)
  | spread part => .one (.ofSpread .root part)
  | inline part => .one (.ofInline .root part)
  | field part => .one (.ofField .root part)
  | directives parts => .several (Outline.ofDirectives .root parts)
  | directive part => .one (.ofDirective .root part)
  | arguments parts => .several (Outline.ofArguments .root parts)
  | argument part => .one (.ofArgument .root part)

def walk (visitor : Visitor σ ο) : Root → Walk σ ο
  | document whole => .ofDocument visitor whole
  | definition part => .ofDefinition visitor part
  | operation part => .ofOperation visitor part
  | fragment part => .ofFragment visitor part
  | variableDefinitions parts => .ofVariableDefinitions visitor parts
  | variableDefinition part => .ofVariableDefinition visitor part
  | selectionSet parts => .ofSelectionSet visitor parts
  | selection part => .ofSelection visitor part
  | spread part => .ofSpread visitor part
  | inline part => .ofInline visitor part
  | field part => .ofField visitor part
  | directives parts => .ofDirectives visitor parts
  | directive part => .ofDirective visitor part
  | arguments parts => .ofArguments visitor parts
  | argument part => .ofArgument visitor part

/-- Runs a visitor over a part of a document. -/
def visit (visitor : Visitor σ ο) (root : Root) (state : σ) : Reply σ ο :=
  (root.walk visitor ⟨.root, state⟩).map Position.state

def isDocument : Root → Bool
  | document _ => true
  | _ => false

end Root

end QueryCheck
