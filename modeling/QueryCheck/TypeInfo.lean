import QueryCheck.Schema.Basic
import QueryCheck.Traversal.Event

/-!
# The definitions behind a node

While a traversal goes through a document, a stack of frames says which
definitions of a schema the current node refers to. Operations, fragments, inline
fragments, fields, directives and arguments have a frame each. What can not be
found in the schema is missing in the frame, and so is all that depends on it.
-/

namespace QueryCheck

/-- The definitions behind a node. -/
structure Frame where
  parentType? : Option TypeDefinition
  outputType? : Option TypeDefinition
  field? : Option FieldDefinition
  directive? : Option DirectiveDefinition
  inDirective : Bool
  argument? : Option InputValueDefinition
deriving DecidableEq, Repr

/-- A schema and the frames of the nodes that were entered, the innermost first. -/
structure TypeInfo where
  schema : Schema
  frames : List Frame
deriving DecidableEq, Repr

namespace Frame

/-- The frame outside of all definitions. -/
def root : Frame := ⟨none, none, none, none, false, none⟩

def ofOutput (outputType? : Option TypeDefinition) : Frame :=
  { root with outputType? }

def ofOperation (schema : Schema) (kind : OperationKind) : Frame :=
  ofOutput ((schema.root? kind).map .object)

def ofFragment (schema : Schema) (typeCondition : String) : Frame :=
  ofOutput (schema.composite? typeCondition)

/-- The frame of an inline fragment. Without a type condition the type stays the same. -/
def inline (schema : Schema) (outer : Frame) (typeCondition? : Option String) : Frame :=
  { outer with
    outputType? :=
      match typeCondition? with
      | some name => schema.composite? name
      | none => outer.outputType?
    directive? := none
    inDirective := false
    argument? := none }

def field (schema : Schema) (outer : Frame) (name : String) : Frame :=
  let parentType? := outer.outputType?.filter TypeDefinition.isComposite
  let field? := parentType?.bind fun type => type.field? name
  ⟨parentType?, field?.bind fun field => schema.resolve? field.type, field?, none, false, none⟩

def directive (schema : Schema) (outer : Frame) (name : String) : Frame :=
  { outer with
    directive? := schema.directive? name
    inDirective := true
    argument? := none }

/-- The frame of an argument, which belongs to the directive if there is one around it and to the
field otherwise. -/
def argument (outer : Frame) (name : String) : Frame :=
  { outer with
    argument? :=
      if outer.inDirective then outer.directive?.bind fun directive => directive.argument? name
      else outer.field?.bind fun field => field.argument? name }

end Frame

namespace TypeInfo

def start (schema : Schema) : TypeInfo := ⟨schema, []⟩

def top (info : TypeInfo) : Frame := info.frames.headD .root

/-- The declared type of the argument at the current node. -/
def inputType? (info : TypeInfo) : Option TypeRef := info.top.argument?.map (·.type)

def depth (info : TypeInfo) : Nat := info.frames.length

def push (info : TypeInfo) (frame : Frame) : TypeInfo :=
  { info with frames := frame :: info.frames }

/-- Drops the innermost frame, if there is one. -/
def leave (info : TypeInfo) : TypeInfo :=
  { info with frames := info.frames.tail }

def enterOperation (info : TypeInfo) (kind : OperationKind) : TypeInfo :=
  info.push (.ofOperation info.schema kind)

def enterFragment (info : TypeInfo) (typeCondition : String) : TypeInfo :=
  info.push (.ofFragment info.schema typeCondition)

def enterInline (info : TypeInfo) (typeCondition? : Option String) : TypeInfo :=
  info.push (.inline info.schema info.top typeCondition?)

def enterField (info : TypeInfo) (name : String) : TypeInfo :=
  info.push (.field info.schema info.top name)

def enterDirective (info : TypeInfo) (name : String) : TypeInfo :=
  info.push (.directive info.schema info.top name)

def enterArgument (info : TypeInfo) (name : String) : TypeInfo :=
  info.push (.argument info.top name)

/-- Enters a node. Nothing changes for nodes without a frame. -/
def enterNode (info : TypeInfo) : Node → TypeInfo
  | .operation operation => info.enterOperation operation.kind
  | .fragment fragment => info.enterFragment fragment.typeCondition
  | .inline fragment => info.enterInline fragment.typeCondition?
  | .field field => info.enterField field.name
  | .directive directive => info.enterDirective directive.name
  | .argument argument => info.enterArgument argument.name
  | .document _ | .variableDefinition _ | .selectionSet _ | .spread _ => info

def leaveNode (info : TypeInfo) : Node → TypeInfo
  | .operation _ | .fragment _ | .inline _ | .field _ | .directive _ | .argument _ => info.leave
  | .document _ | .variableDefinition _ | .selectionSet _ | .spread _ => info

end TypeInfo

end QueryCheck
