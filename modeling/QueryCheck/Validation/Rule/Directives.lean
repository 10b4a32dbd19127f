import QueryCheck.TypeInfo
import QueryCheck.Validation.Problem

/-!
# Rules on directives
-/

namespace QueryCheck.KnownDirectives

def location? : Node → Option DirectiveLocation
  | .operation operation => some (.ofOperation operation.kind)
  | .fragment _ => some .fragmentDefinition
  | .variableDefinition _ => some .variableDefinition
  | .spread _ => some .fragmentSpread
  | .inline _ => some .inlineFragment
  | .field _ => some .field
  | .document _ | .selectionSet _ | .directive _ | .argument _ => none

def onDirective (frame : Frame) (location? : Option DirectiveLocation) (directive : Directive)
    (path : Path) : List Finding :=
  match frame.directive? with
  | none => [⟨.unknownDirective directive.name, path⟩]
  | some definition =>
      match location? with
      | none => []
      | some location =>
          if definition.allows location then []
          else [⟨.misplacedDirective directive.name location, path⟩]

/-- Directives must be known and stand where their definitions allow. The state holds the
locations of the nodes around the current one, the innermost first. -/
def visitor (types : TypeInfo) : Visitor (List DirectiveLocation) Finding
  | ⟨.enter, .document _, _⟩, _ => .pass []
  | ⟨.enter, .directive directive, path⟩, locations =>
      ⟨.skip, locations, onDirective types.top locations.head? directive path⟩
  | ⟨.enter, node, _⟩, locations => .pass ((location? node).toList ++ locations)
  | ⟨.leave, node, _⟩, locations =>
      .pass (if (location? node).isSome then locations.tail else locations)

end QueryCheck.KnownDirectives
