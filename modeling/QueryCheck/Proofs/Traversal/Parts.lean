import QueryCheck.Proofs.Traversal.Following
import QueryCheck.Proofs.Traversal.Inside

/-!
# Documents as parts within parts

Every part of a document has a list of parts right below it, in source order, each with the
segment that leads to it. The events of a traversal are read off from these lists alone: a
node is entered, then comes what is below it, then it is left. The main result is that these
are the events of the course that a traversal takes.
-/

namespace QueryCheck

theorem Outline.eventsAll_flatMap {α : Type} (outlines : α → List Outline) (items : List α) :
    eventsAll (items.flatMap outlines) = items.flatMap fun item => eventsAll (outlines item) := by
  induction items with
  | nil => rfl
  | cons item items ih => rw [List.flatMap_cons, eventsAll_append, ih, List.flatMap_cons]

def Course.outlines : Course → List Outline
  | one outline => [outline]
  | several outlines => outlines

namespace Root

/-- The node that a part is. The lists of arguments, directives and definitions of variables are
no nodes. -/
def node? : Root → Option Node
  | .document whole => some (.document whole)
  | .definition (.operation part) | .operation part => some (.operation part)
  | .definition (.fragment part) | .fragment part => some (.fragment part)
  | .variableDefinition part => some (.variableDefinition part)
  | .selectionSet parts => some (.selectionSet parts)
  | .selection (.spread part) | .spread part => some (.spread part)
  | .selection (.inline part) | .inline part => some (.inline part)
  | .selection (.field part) | .field part => some (.field part)
  | .directive part => some (.directive part)
  | .argument part => some (.argument part)
  | .variableDefinitions _ | .directives _ | .arguments _ => none

def listed {α : Type} (toRoot : α → Root) (members : List α) : List (PathSegment × Root) :=
  members.zipIdx.map fun entry => (.index entry.2, toRoot entry.1)

/-- The parts right below a part, in source order, with the segments that lead to them. -/
def parts : Root → List (PathSegment × Root)
  | .document whole => listed ofDefinition whole.definitions
  | .definition (.operation part) | .operation part =>
      [(.variableDefinitions, .variableDefinitions part.variableDefinitions),
        (.directives, .directives part.directives), (.selectionSet, .selectionSet part.selections)]
  | .definition (.fragment part) | .fragment part =>
      [(.directives, .directives part.directives), (.selectionSet, .selectionSet part.selections)]
  | .variableDefinitions parts => listed .variableDefinition parts
  | .variableDefinition part => [(.directives, .directives part.directives)]
  | .selectionSet parts => listed ofSelection parts
  | .selection (.field part) | .field part =>
      [(.arguments, .arguments part.arguments), (.directives, .directives part.directives),
        (.selectionSet, .selectionSet part.selections)]
  | .selection (.spread part) | .spread part => [(.directives, .directives part.directives)]
  | .selection (.inline part) | .inline part =>
      [(.directives, .directives part.directives), (.selectionSet, .selectionSet part.selections)]
  | .directives parts => listed .directive parts
  | .directive part => [(.arguments, .arguments part.arguments)]
  | .arguments parts => listed .argument parts
  | .argument _ => []

theorem exists_of_mem_listed {α : Type} {toRoot : α → Root} {members : List α}
    {entry : PathSegment × Root} (member : entry ∈ listed toRoot members) :
    ∃ item ∈ members, ∃ place, entry = (.index place, toRoot item) := by
  obtain ⟨⟨item, place⟩, isItem, rfl⟩ := List.mem_map.mp member
  exact ⟨item, List.fst_mem_of_mem_zipIdx isItem, place, rfl⟩

theorem sizeOf_ofDefinition (part : Definition) : sizeOf (ofDefinition part) = sizeOf part := by
  cases part <;> simp [ofDefinition]

theorem sizeOf_ofSelection (part : Selection) : sizeOf (ofSelection part) = sizeOf part := by
  cases part <;> simp [ofSelection]

theorem sizeOf_lt_of_mem_listed {α : Type} [SizeOf α] {toRoot : α → Root} {members : List α}
    (bound : ∀ item, sizeOf (toRoot item) ≤ 1 + sizeOf item) :
    ∀ entry ∈ listed toRoot members, sizeOf entry.2 < 1 + sizeOf members := by
  intro entry member
  obtain ⟨item, isItem, place, rfl⟩ := exists_of_mem_listed member
  have smaller := List.sizeOf_lt_of_mem isItem
  have bounded := bound item
  dsimp only
  omega

/-- What is below is smaller. -/
theorem sizeOf_lt_of_mem_parts (root : Root) :
    ∀ entry ∈ root.parts, sizeOf entry.2 < sizeOf root := by
  cases root with
  | document whole =>
      intro entry member
      have smaller := sizeOf_lt_of_mem_listed (fun item => by simp [sizeOf_ofDefinition]) entry
        member
      rw [document.sizeOf_spec, Document.mk.sizeOf_spec]
      omega
  | definition part => rcases part with ⟨⟨⟩⟩ | ⟨⟨⟩⟩ <;> simp +arith [parts]
  | operation part => cases part; simp +arith [parts]
  | fragment part => cases part; simp +arith [parts]
  | variableDefinitions parts => exact sizeOf_lt_of_mem_listed fun item => by simp
  | variableDefinition part => cases part; simp +arith [parts]
  | selectionSet parts => exact sizeOf_lt_of_mem_listed fun item => by simp [sizeOf_ofSelection]
  | selection part => rcases part with ⟨⟨⟩⟩ | ⟨⟨⟩⟩ | ⟨⟨⟩⟩ <;> simp +arith [parts]
  | spread part => cases part; simp +arith [parts]
  | inline part => cases part; simp +arith [parts]
  | field part => cases part; simp +arith [parts]
  | directives parts => exact sizeOf_lt_of_mem_listed fun item => by simp
  | directive part => cases part; simp +arith [parts]
  | arguments parts => exact sizeOf_lt_of_mem_listed fun item => by simp
  | argument part => exact List.forall_mem_nil _

/-- A statement about all parts can be proved from the parts below them. -/
theorem byParts {motive : Root → Prop}
    (each : ∀ root, (∀ entry ∈ root.parts, motive entry.2) → motive root) (root : Root) :
    motive root :=
  each root fun entry _ => byParts each entry.2
termination_by sizeOf root
decreasing_by exact sizeOf_lt_of_mem_parts root entry ‹_›

/-! ## Events -/

/-- The events of a part around those inside of it. -/
def around (path : Path) (node? : Option Node) (inner : List Event) : List Event :=
  match node? with
  | some node => ⟨.enter, node, path⟩ :: (inner ++ [⟨.leave, node, path⟩])
  | none => inner

/-- The events of a traversal that goes through all of the part at a path. -/
def stream (path : Path) (root : Root) : List Event :=
  around path root.node? (root.parts.attach.flatMap fun entry =>
    stream (path.push entry.1.1) entry.1.2)
termination_by sizeOf root
decreasing_by exact sizeOf_lt_of_mem_parts root entry.1 entry.2

def grown (path : Path) (node? : Option Node) (inner : List Outline) : List Outline :=
  match node? with
  | some node => [.branch node path inner]
  | none => inner

def outlines (path : Path) (root : Root) : List Outline :=
  grown path root.node? (root.parts.attach.flatMap fun entry =>
    outlines (path.push entry.1.1) entry.1.2)
termination_by sizeOf root
decreasing_by exact sizeOf_lt_of_mem_parts root entry.1 entry.2

theorem flatMap_attach_parts {β : Type} (said : PathSegment × Root → List β) (root : Root) :
    (root.parts.attach.flatMap fun entry => said entry.1) = root.parts.flatMap said := by
  rw [List.flatMap_subtype (g := said) fun _ _ => rfl, List.unattach_attach]

theorem stream_eq (path : Path) (root : Root) :
    root.stream path = around path root.node?
      (root.parts.flatMap fun entry => entry.2.stream (path.push entry.1)) := by
  rw [stream, flatMap_attach_parts fun entry => entry.2.stream (path.push entry.1)]

theorem outlines_eq (path : Path) (root : Root) :
    root.outlines path = grown path root.node?
      (root.parts.flatMap fun entry => entry.2.outlines (path.push entry.1)) := by
  rw [outlines, flatMap_attach_parts fun entry => entry.2.outlines (path.push entry.1)]

/-- The events of a part are those of its outlines. -/
theorem eventsAll_outlines (path : Path) (root : Root) :
    Outline.eventsAll (root.outlines path) = root.stream path := by
  induction root using byParts generalizing path with
  | each root below =>
      have inner : Outline.eventsAll
          (root.parts.flatMap fun entry => entry.2.outlines (path.push entry.1)) =
            root.parts.flatMap fun entry => entry.2.stream (path.push entry.1) := by
        rw [Outline.eventsAll_flatMap]
        exact List.flatMap_congr fun entry member => below entry member _
      rw [outlines_eq, stream_eq, ← inner]
      cases root.node? with
      | some node => exact Outline.eventsAll_singleton _
      | none => rfl

/-! ## The courses of traversals -/

theorem flatMap_listed {α β : Type} (said : PathSegment × Root → List β) (toRoot : α → Root)
    (members : List α) :
    (listed toRoot members).flatMap said =
      members.zipIdx.flatMap fun entry => said (.index entry.2, toRoot entry.1) :=
  List.flatMap_map _ _ _

theorem outlines_members {α : Type} {toRoot : α → Root} {outline : Path → α → Outline}
    (each : ∀ path member, (toRoot member).outlines path = [outline path member]) (path : Path)
    (place : Nat) (members : List α) :
    ((members.zipIdx place).flatMap fun entry =>
        (toRoot entry.1).outlines (path.push (.index entry.2))) =
      Outline.ofMembers outline path place members := by
  induction members generalizing place with
  | nil => rfl
  | cons member members ih =>
      rw [List.zipIdx_cons, List.flatMap_cons, each, ih]
      rfl

/-- The outlines of a list that is not entered as such. -/
theorem outlines_of_listed {α : Type} {toRoot : α → Root} {outline : Path → α → Outline}
    (each : ∀ path member, (toRoot member).outlines path = [outline path member]) {whole : Root}
    {members : List α} (isList : whole.node? = none) (below : whole.parts = listed toRoot members)
    (path : Path) : whole.outlines path = Outline.ofMembers outline path 0 members := by
  rw [outlines_eq, isList, below, flatMap_listed]
  exact outlines_members each path 0 members

theorem outlines_argument (path : Path) (part : Argument) :
    (Root.argument part).outlines path = [Outline.ofArgument path part] := by
  rw [outlines_eq]
  rfl

theorem outlines_arguments (path : Path) (parts : List Argument) :
    (Root.arguments parts).outlines path = Outline.ofArguments path parts :=
  outlines_of_listed outlines_argument rfl rfl path

theorem outlines_directive (path : Path) (part : Directive) :
    (Root.directive part).outlines path = [Outline.ofDirective path part] := by
  rw [outlines_eq]
  simp only [parts, List.flatMap_cons, List.flatMap_nil, List.append_nil, outlines_arguments]
  rfl

theorem outlines_directives (path : Path) (parts : List Directive) :
    (Root.directives parts).outlines path = Outline.ofDirectives path parts :=
  outlines_of_listed outlines_directive rfl rfl path

theorem outlines_spread (path : Path) (part : FragmentSpread) :
    (Root.spread part).outlines path = [Outline.ofSpread path part] := by
  rw [outlines_eq]
  simp only [parts, List.flatMap_cons, List.flatMap_nil, List.append_nil, outlines_directives]
  rfl

mutual

theorem outlines_ofSelection (path : Path) : (part : Selection) →
    (ofSelection part).outlines path = [Outline.ofSelection path part]
  | .field part => outlines_field path part
  | .spread part => outlines_spread path part
  | .inline part => outlines_inline path part

theorem outlines_field (path : Path) : (part : Field) →
    (Root.field part).outlines path = [Outline.ofField path part]
  | ⟨alias?, name, given, applied, selected⟩ => by
      rw [outlines_eq]
      simp only [parts, List.flatMap_cons, List.flatMap_nil, List.append_nil, outlines_arguments,
        outlines_directives, outlines_eq _ (.selectionSet selected), flatMap_listed,
        outlines_selections (path.push .selectionSet) 0 selected, ← List.append_assoc]
      rfl

theorem outlines_inline (path : Path) : (part : InlineFragment) →
    (Root.inline part).outlines path = [Outline.ofInline path part]
  | ⟨typeCondition?, applied, selected⟩ => by
      rw [outlines_eq]
      simp only [parts, List.flatMap_cons, List.flatMap_nil, List.append_nil, outlines_directives,
        outlines_eq _ (.selectionSet selected), flatMap_listed,
        outlines_selections (path.push .selectionSet) 0 selected]
      rfl

theorem outlines_selections (path : Path) (place : Nat) : (parts : List Selection) →
    ((parts.zipIdx place).flatMap fun entry =>
        (ofSelection entry.1).outlines (path.push (.index entry.2))) =
      Outline.ofSelections path place parts
  | [] => rfl
  | part :: parts => by
      rw [List.zipIdx_cons, List.flatMap_cons, outlines_ofSelection _ part,
        outlines_selections path (place + 1) parts]
      rfl

end

theorem outlines_selectionSet (path : Path) (parts : List Selection) :
    (Root.selectionSet parts).outlines path = [Outline.ofSelectionSet path parts] := by
  rw [outlines_eq, Root.parts, flatMap_listed, outlines_selections]
  rfl

theorem outlines_variableDefinition (path : Path) (part : VariableDefinition) :
    (Root.variableDefinition part).outlines path = [Outline.ofVariableDefinition path part] := by
  rw [outlines_eq]
  simp only [parts, List.flatMap_cons, List.flatMap_nil, List.append_nil, outlines_directives]
  rfl

theorem outlines_variableDefinitions (path : Path) (parts : List VariableDefinition) :
    (Root.variableDefinitions parts).outlines path = Outline.ofVariableDefinitions path parts :=
  outlines_of_listed outlines_variableDefinition rfl rfl path

theorem outlines_fragment (path : Path) (part : Fragment) :
    (Root.fragment part).outlines path = [Outline.ofFragment path part] := by
  rw [outlines_eq]
  simp only [parts, List.flatMap_cons, List.flatMap_nil, List.append_nil, outlines_directives,
    outlines_selectionSet]
  rfl

theorem outlines_operation (path : Path) (part : Operation) :
    (Root.operation part).outlines path = [Outline.ofOperation path part] := by
  rw [outlines_eq]
  simp only [parts, List.flatMap_cons, List.flatMap_nil, List.append_nil, outlines_directives,
    outlines_selectionSet, outlines_variableDefinitions, ← List.append_assoc]
  rfl

theorem outlines_ofDefinition (path : Path) (part : Definition) :
    (ofDefinition part).outlines path = [Outline.ofDefinition path part] := by
  cases part with
  | operation part => exact outlines_operation path part
  | fragment part => exact outlines_fragment path part

theorem outlines_document (whole : Document) :
    (Root.document whole).outlines .root = [Outline.ofDocument whole] := by
  rw [outlines_eq, Root.parts, flatMap_listed, outlines_members outlines_ofDefinition]
  rfl

/-- Whether a part is called a definition or a selection, or what it is, makes no difference. -/
theorem outlines_plain (path : Path) (root : Root) :
    root.plain.outlines path = root.outlines path := by
  rw [outlines_eq, outlines_eq path root]
  rcases root with _ | ⟨_ | _⟩ | _ | _ | _ | _ | _ | ⟨_ | _ | _⟩ <;> rfl

/-- The course of a traversal goes through the outlines of the part at which it starts. -/
theorem outlines_course (root : Root) : root.course.outlines = root.outlines .root := by
  rw [← outlines_plain]
  cases root with
  | document whole => exact (outlines_document whole).symm
  | definition part => exact (outlines_ofDefinition .root part).symm
  | operation part => exact (outlines_operation .root part).symm
  | fragment part => exact (outlines_fragment .root part).symm
  | variableDefinitions parts => exact (outlines_variableDefinitions .root parts).symm
  | variableDefinition part => exact (outlines_variableDefinition .root part).symm
  | selectionSet parts => exact (outlines_selectionSet .root parts).symm
  | selection part => exact (outlines_ofSelection .root part).symm
  | spread part => exact (outlines_spread .root part).symm
  | inline part => exact (outlines_inline .root part).symm
  | field part => exact (outlines_field .root part).symm
  | directives parts => exact (outlines_directives .root parts).symm
  | directive part => exact (outlines_directive .root part).symm
  | arguments parts => exact (outlines_arguments .root parts).symm
  | argument part => exact (outlines_argument .root part).symm

/-- The events of a traversal are read off from the parts. -/
theorem events_eq_stream (root : Root) : root.events = root.stream .root := by
  rw [← eventsAll_outlines, ← outlines_course, events]
  cases root.course with
  | one outline => exact (Outline.eventsAll_singleton outline).symm
  | several outlines => rfl

end Root

end QueryCheck
