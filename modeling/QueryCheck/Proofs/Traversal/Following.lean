import QueryCheck.Proofs.Traversal.Events

/-!
# Following paths

A path is followed from the part of a document at which a traversal starts, one segment after
the other. What it leads to is found in the document itself, without a traversal. The main
result is that the path of every event leads to the node of that event, whatever part of a
document the traversal starts at.
-/

namespace QueryCheck

namespace Root

def ofDefinition : Definition → Root
  | .operation part => .operation part
  | .fragment part => .fragment part

def ofSelection : Selection → Root
  | .field part => .field part
  | .spread part => .spread part
  | .inline part => .inline part

def ofNode : Node → Root
  | .document whole => .document whole
  | .operation part => .operation part
  | .fragment part => .fragment part
  | .variableDefinition part => .variableDefinition part
  | .selectionSet parts => .selectionSet parts
  | .spread part => .spread part
  | .inline part => .inline part
  | .field part => .field part
  | .directive part => .directive part
  | .argument part => .argument part

/-- A part as what it is, where that can be said in two ways. -/
def plain : Root → Root
  | .definition part => ofDefinition part
  | .selection part => ofSelection part
  | part => part

/-- The part to which a segment leads. -/
def child? : Root → PathSegment → Option Root
  | .document whole, .index place => whole.definitions[place]?.map ofDefinition
  | .operation part, .variableDefinitions => some (.variableDefinitions part.variableDefinitions)
  | .operation part, .directives => some (.directives part.directives)
  | .operation part, .selectionSet => some (.selectionSet part.selections)
  | .fragment part, .directives => some (.directives part.directives)
  | .fragment part, .selectionSet => some (.selectionSet part.selections)
  | .variableDefinitions parts, .index place => parts[place]?.map .variableDefinition
  | .variableDefinition part, .directives => some (.directives part.directives)
  | .selectionSet parts, .index place => parts[place]?.map ofSelection
  | .spread part, .directives => some (.directives part.directives)
  | .inline part, .directives => some (.directives part.directives)
  | .inline part, .selectionSet => some (.selectionSet part.selections)
  | .field part, .arguments => some (.arguments part.arguments)
  | .field part, .directives => some (.directives part.directives)
  | .field part, .selectionSet => some (.selectionSet part.selections)
  | .directives parts, .index place => parts[place]?.map .directive
  | .directive part, .arguments => some (.arguments part.arguments)
  | .arguments parts, .index place => parts[place]?.map .argument
  | _, _ => none

/-- The part to which a path leads. -/
def follow? (root : Root) (path : Path) : Option Root :=
  path.segments.foldlM child? root.plain

theorem follow?_root (root : Root) : root.follow? .root = some root.plain := rfl

theorem follow?_push (root : Root) (path : Path) (segment : PathSegment) :
    root.follow? (path.push segment) = (root.follow? path).bind (·.child? segment) := by
  rw [follow?, Path.segments_push, List.foldlM_append]
  simp [follow?, Option.bind_eq_bind]

/-- One more segment leads one step further. -/
theorem follow?_step {root part next : Root} {path : Path} {segment : PathSegment}
    (reached : root.follow? path = some part) (step : part.child? segment = some next) :
    root.follow? (path.push segment) = some next := by
  rw [follow?_push, reached]
  exact step

/-! ## The paths of a traversal -/

/-- The paths of an outline lead to its nodes. -/
def Locates (root : Root) (outline : Outline) : Prop :=
  ∀ event ∈ outline.events, root.follow? event.path = some (.ofNode event.node)

end Root

namespace Outline

section Located

variable {root : Root} {path : Path}

theorem locates_branch {node : Node} {children : List Outline}
    (reached : root.follow? path = some (.ofNode node))
    (inner : ∀ child ∈ children, root.Locates child) :
    root.Locates (.branch node path children) := by
  intro event member
  rcases mem_events.mp member with rfl | inChild | rfl
  · exact reached
  · obtain ⟨child, isChild, inEvents⟩ := mem_eventsAll.mp inChild
    exact inner child isChild event inEvents
  · exact reached

/-- If a path leads to a list, the members of the list are found at their places. -/
theorem locates_ofMembers {α : Type} {outline : Path → α → Outline} {toRoot : α → Root}
    (each : ∀ path member, root.follow? path = some (toRoot member) →
      root.Locates (outline path member))
    {whole : Root} (reached : root.follow? path = some whole) (place : Nat) (members : List α)
    (listed : ∀ index, whole.child? (.index (place + index)) = members[index]?.map toRoot) :
    ∀ child ∈ ofMembers outline path place members, root.Locates child := by
  induction members generalizing place with
  | nil => exact nofun
  | cons member members ih =>
      refine List.forall_mem_cons.mpr ⟨each _ member ?_, ih (place + 1) ?_⟩
      · exact Root.follow?_step reached (listed 0)
      · intro index
        rw [Nat.add_assoc, Nat.add_comm 1 index]
        exact listed (index + 1)

theorem locates_ofArgument {argument : Argument}
    (reached : root.follow? path = some (.argument argument)) :
    root.Locates (ofArgument path argument) :=
  locates_branch reached nofun

theorem locates_ofArguments {arguments : List Argument}
    (reached : root.follow? path = some (.arguments arguments)) :
    ∀ child ∈ ofArguments path arguments, root.Locates child := by
  refine locates_ofMembers (fun _ _ => locates_ofArgument) reached 0 arguments fun index => ?_
  rw [Nat.zero_add]
  rfl

theorem locates_ofDirective {directive : Directive}
    (reached : root.follow? path = some (.directive directive)) :
    root.Locates (ofDirective path directive) :=
  locates_branch reached (locates_ofArguments (Root.follow?_step reached rfl))

theorem locates_ofDirectives {directives : List Directive}
    (reached : root.follow? path = some (.directives directives)) :
    ∀ child ∈ ofDirectives path directives, root.Locates child := by
  refine locates_ofMembers (fun _ _ => locates_ofDirective) reached 0 directives fun index => ?_
  rw [Nat.zero_add]
  rfl

theorem locates_ofSpread {spread : FragmentSpread}
    (reached : root.follow? path = some (.spread spread)) :
    root.Locates (ofSpread path spread) :=
  locates_branch reached (locates_ofDirectives (Root.follow?_step reached rfl))

end Located

section Selections

variable {root : Root}

mutual

theorem locates_ofSelection {path : Path} : (selection : Selection) →
    root.follow? path = some (.ofSelection selection) →
      root.Locates (ofSelection path selection)
  | .field field, reached => locates_ofField field reached
  | .spread _, reached => locates_ofSpread reached
  | .inline fragment, reached => locates_ofInline fragment reached

theorem locates_ofField {path : Path} : (field : Field) →
    root.follow? path = some (.field field) → root.Locates (ofField path field)
  | ⟨alias?, name, arguments, directives, selections⟩, reached => by
      have selected : root.follow? (path.push .selectionSet) = some (.selectionSet selections) :=
        Root.follow?_step reached rfl
      refine locates_branch reached (List.forall_mem_append.mpr ⟨List.forall_mem_append.mpr ⟨?_, ?_⟩,
        List.forall_mem_singleton.mpr (locates_branch selected ?_)⟩)
      · exact locates_ofArguments (Root.follow?_step reached rfl)
      · exact locates_ofDirectives (Root.follow?_step reached rfl)
      · exact locates_ofSelections 0 selections selected rfl

theorem locates_ofInline {path : Path} : (fragment : InlineFragment) →
    root.follow? path = some (.inline fragment) → root.Locates (ofInline path fragment)
  | ⟨typeCondition?, directives, selections⟩, reached => by
      have selected : root.follow? (path.push .selectionSet) = some (.selectionSet selections) :=
        Root.follow?_step reached rfl
      refine locates_branch reached (List.forall_mem_append.mpr ⟨?_,
        List.forall_mem_singleton.mpr (locates_branch selected ?_)⟩)
      · exact locates_ofDirectives (Root.follow?_step reached rfl)
      · exact locates_ofSelections 0 selections selected rfl

/-- The selections from a place of a selection set on. -/
theorem locates_ofSelections {path : Path} {whole : List Selection} (place : Nat) :
    (selections : List Selection) → root.follow? path = some (.selectionSet whole) →
      whole.drop place = selections →
        ∀ child ∈ ofSelections path place selections, root.Locates child
  | [], _, _ => nofun
  | selection :: selections, reached, rest => by
      have member : whole[place]? = some selection := by
        rw [← List.head?_drop, rest]
        rfl
      have later : whole.drop (place + 1) = selections := by
        rw [← List.drop_drop, rest]
        rfl
      refine List.forall_mem_cons.mpr ⟨locates_ofSelection selection ?_,
        locates_ofSelections (place + 1) selections reached later⟩
      exact Root.follow?_step reached (congrArg (Option.map Root.ofSelection) member)

end

end Selections

section Located

variable {root : Root} {path : Path}

theorem locates_ofSelectionSet {selections : List Selection}
    (reached : root.follow? path = some (.selectionSet selections)) :
    root.Locates (ofSelectionSet path selections) :=
  locates_branch reached (locates_ofSelections 0 selections reached rfl)

theorem locates_ofVariableDefinition {definition : VariableDefinition}
    (reached : root.follow? path = some (.variableDefinition definition)) :
    root.Locates (ofVariableDefinition path definition) :=
  locates_branch reached (locates_ofDirectives (Root.follow?_step reached rfl))

theorem locates_ofVariableDefinitions {definitions : List VariableDefinition}
    (reached : root.follow? path = some (.variableDefinitions definitions)) :
    ∀ child ∈ ofVariableDefinitions path definitions, root.Locates child := by
  refine locates_ofMembers (fun _ _ => locates_ofVariableDefinition) reached 0 definitions
    fun index => ?_
  rw [Nat.zero_add]
  rfl

theorem locates_ofFragment {fragment : Fragment}
    (reached : root.follow? path = some (.fragment fragment)) :
    root.Locates (ofFragment path fragment) := by
  refine locates_branch reached (List.forall_mem_append.mpr ⟨?_, List.forall_mem_singleton.mpr ?_⟩)
  · exact locates_ofDirectives (Root.follow?_step reached rfl)
  · exact locates_ofSelectionSet (Root.follow?_step reached rfl)

theorem locates_ofOperation {operation : Operation}
    (reached : root.follow? path = some (.operation operation)) :
    root.Locates (ofOperation path operation) := by
  refine locates_branch reached (List.forall_mem_append.mpr ⟨List.forall_mem_append.mpr ⟨?_, ?_⟩,
    List.forall_mem_singleton.mpr ?_⟩)
  · exact locates_ofVariableDefinitions (Root.follow?_step reached rfl)
  · exact locates_ofDirectives (Root.follow?_step reached rfl)
  · exact locates_ofSelectionSet (Root.follow?_step reached rfl)

theorem locates_ofDefinition {definition : Definition}
    (reached : root.follow? path = some (.ofDefinition definition)) :
    root.Locates (ofDefinition path definition) := by
  cases definition with
  | operation operation => exact locates_ofOperation reached
  | fragment fragment => exact locates_ofFragment reached

end Located

theorem locates_ofDocument (document : Document) :
    (Root.document document).Locates (ofDocument document) := by
  have reached := Root.follow?_root (.document document)
  refine locates_branch reached (locates_ofMembers (fun _ _ => locates_ofDefinition) reached 0
    document.definitions fun index => ?_)
  rw [Nat.zero_add]
  rfl

end Outline

namespace Root

/-- The path of every event of a traversal leads to the node of the event. -/
theorem follow?_of_mem_events (root : Root) {event : Event} (member : event ∈ root.events) :
    root.follow? event.path = some (.ofNode event.node) := by
  have one {outline : Outline} (same : root.course = .one outline) (located : root.Locates outline) :
      root.follow? event.path = some (.ofNode event.node) := by
    rw [events, same] at member
    exact located event member
  have several {outlines : List Outline} (same : root.course = .several outlines)
      (located : ∀ outline ∈ outlines, root.Locates outline) :
      root.follow? event.path = some (.ofNode event.node) := by
    rw [events, same] at member
    obtain ⟨outline, isOutline, inEvents⟩ := Outline.mem_eventsAll.mp member
    exact located outline isOutline event inEvents
  have reached := follow?_root root
  cases root with
  | document whole => exact one rfl (Outline.locates_ofDocument whole)
  | definition part => exact one rfl (Outline.locates_ofDefinition reached)
  | operation part => exact one rfl (Outline.locates_ofOperation reached)
  | fragment part => exact one rfl (Outline.locates_ofFragment reached)
  | variableDefinitions parts => exact several rfl (Outline.locates_ofVariableDefinitions reached)
  | variableDefinition part => exact one rfl (Outline.locates_ofVariableDefinition reached)
  | selectionSet parts => exact one rfl (Outline.locates_ofSelectionSet reached)
  | selection part => exact one rfl (Outline.locates_ofSelection part reached)
  | spread part => exact one rfl (Outline.locates_ofSpread reached)
  | inline part => exact one rfl (Outline.locates_ofInline part reached)
  | field part => exact one rfl (Outline.locates_ofField part reached)
  | directives parts => exact several rfl (Outline.locates_ofDirectives reached)
  | directive part => exact one rfl (Outline.locates_ofDirective reached)
  | arguments parts => exact several rfl (Outline.locates_ofArguments reached)
  | argument part => exact one rfl (Outline.locates_ofArgument reached)

end Root

end QueryCheck
