import QueryCheck.TypeInfo
import QueryCheck.Validation.Rule.Names

/-!
# Rules on arguments
-/

namespace QueryCheck

namespace UniqueArgumentNames

/-- The arguments of a field or a directive must have different names. The state holds the names
used so far. Variable definitions are not looked into. -/
def visitor : Visitor (List String) Finding
  | ⟨.enter, .field _, _⟩, _ => .pass []
  | ⟨.enter, .directive _, _⟩, _ => .pass []
  | ⟨.enter, .argument argument, path⟩, used =>
      UsedNames.useAndSkip used argument.name (.repeatedArgument argument.name) path
  | ⟨.enter, .variableDefinition _, _⟩, used => ⟨.skip, used, []⟩
  | _, used => .pass used

end UniqueArgumentNames

namespace KnownArgumentNames

/-- A finding for each argument, from the given place on, that is not known. -/
def unknown (isKnown : String → Bool) (problem : String → Problem) (path : Path) (place : Nat) :
    List Argument → List Finding
  | [] => []
  | argument :: arguments =>
      (if isKnown argument.name then []
        else [⟨problem argument.name, path.push (.index place)⟩]) ++
        unknown isKnown problem path (place + 1) arguments

def onField (frame : Frame) (field : Field) (path : Path) : List Finding :=
  match frame.field?, frame.parentType? with
  | some definition, some type =>
      unknown (fun name => (definition.argument? name).isSome)
        (.unknownFieldArgument · field.name type.name) (path.push .arguments) 0 field.arguments
  | _, _ => []

def onDirective (frame : Frame) (directive : Directive) (path : Path) : List Finding :=
  match frame.directive? with
  | some definition =>
      unknown (fun name => (definition.argument? name).isSome)
        (.unknownDirectiveArgument · directive.name) (path.push .arguments) 0 directive.arguments
  | none => []

/-- Fields and directives must have only arguments that their definitions have. -/
def visitor (types : TypeInfo) : Visitor Unit Finding
  | ⟨.enter, .field field, path⟩, _ => ⟨.next, (), onField types.top field path⟩
  | ⟨.enter, .directive directive, path⟩, _ => ⟨.next, (), onDirective types.top directive path⟩
  | _, _ => .pass ()

end KnownArgumentNames

namespace ProvidedNonNullArguments

/-- The definitions that refuse null and to which no argument is given. -/
def missing (definitions : List InputValueDefinition) (arguments : List Argument) :
    List InputValueDefinition :=
  definitions.filter fun definition =>
    definition.type.isNonNull && (Argument.get? arguments definition.name).isNone

def onField (frame : Frame) (field : Field) (path : Path) : List Finding :=
  match frame.field? with
  | some definition =>
      (missing definition.arguments field.arguments).map fun argument =>
        ⟨.missingFieldArgument field.name argument.name argument.type, path⟩
  | none => []

def onDirective (frame : Frame) (directive : Directive) (path : Path) : List Finding :=
  match frame.directive? with
  | some definition =>
      (missing definition.arguments directive.arguments).map fun argument =>
        ⟨.missingDirectiveArgument directive.name argument.name argument.type, path⟩
  | none => []

/-- Arguments that refuse null must be given, even if they have a default. This is looked at when
a field or a directive is left. -/
def visitor (types : TypeInfo) : Visitor Unit Finding
  | ⟨.leave, .field field, path⟩, _ => ⟨.next, (), onField types.top field path⟩
  | ⟨.leave, .directive directive, path⟩, _ => ⟨.next, (), onDirective types.top directive path⟩
  | _, _ => .pass ()

end ProvidedNonNullArguments

end QueryCheck
