import QueryCheck.Proofs.Traversal.Parts

/-!
# The nodes that a traversal enters

The nodes of a part of a document come in the order in which a traversal that goes through all
of it enters them. What holds of a part and goes over to the parts below it holds of all its
nodes. A visitor that passes over some nodes misses nothing if there is nothing to be said
about what is below them, and one that says something about definitions only needs to look at
nothing else.
-/

namespace QueryCheck

namespace Event

def entered? (event : Event) : Option (Node × Path) :=
  match event.phase with
  | .enter => some (event.node, event.path)
  | .leave => none

end Event

namespace Root

/-- The nodes of the part at a path in the order in which a traversal enters them, each with its
path. -/
def entered (path : Path) (root : Root) : List (Node × Path) :=
  (root.stream path).filterMap Event.entered?

/-- The parts that stand before the one at a path in the same list. -/
def before (root : Root) (path : Path) : List Root :=
  match path.steps with
  | .index place :: steps =>
      (List.range place).filterMap fun earlier => root.follow? ⟨.index earlier :: steps⟩
  | _ => []

end Root

def Document.atNodes {ο : Type} (found : Node × Path → List ο) (document : Document) : List ο :=
  ((Root.document document).entered .root).flatMap found

namespace Root

/-! ## Nodes of parts -/

theorem ofNode_of_node? {root : Root} {node : Node} (isNode : root.node? = some node) :
    ofNode node = root.plain := by
  rcases root with _ | ⟨_ | _⟩ | _ | _ | _ | _ | _ | ⟨_ | _ | _⟩ <;> cases isNode <;> rfl

theorem entered_eq (path : Path) (root : Root) :
    root.entered path = (root.node?.map fun node => (node, path)).toList ++
      root.parts.flatMap fun entry => entry.2.entered (path.push entry.1) := by
  have inner : (root.parts.flatMap fun entry => entry.2.stream (path.push entry.1)).filterMap
      Event.entered? = root.parts.flatMap fun entry => entry.2.entered (path.push entry.1) :=
    List.filterMap_flatMap
  rw [entered, stream_eq, ← inner]
  cases root.node? with
  | some node => simp [around, Event.entered?, List.filterMap_append]
  | none => rfl

theorem flatMap_entered {β : Type} (say : Node × Path → List β) (path : Path) (root : Root) :
    (root.entered path).flatMap say = (root.node?.elim [] fun node => say (node, path)) ++
      root.parts.flatMap fun entry => (entry.2.entered (path.push entry.1)).flatMap say := by
  rw [entered_eq, List.flatMap_append, List.flatMap_assoc]
  cases root.node? with
  | none => rfl
  | some node =>
      rw [Option.map_some, Option.toList_some, List.flatMap_singleton]
      rfl

/-- What goes over from parts to those below them holds of all nodes. -/
theorem forall_mem_entered {holds : Path → Root → Prop}
    (kept : ∀ path root, holds path root →
      ∀ entry ∈ root.parts, holds (path.push entry.1) entry.2)
    {path : Path} {root : Root} (start : holds path root) :
    ∀ entry ∈ root.entered path, ∃ part, holds entry.2 part ∧ part.node? = some entry.1 := by
  induction root using byParts generalizing path with
  | each root below =>
      intro entry member
      rw [entered_eq] at member
      rcases List.mem_append.mp member with top | inner
      · obtain ⟨node, isNode, rfl⟩ := Option.map_eq_some_iff.mp (Option.mem_toList.mp top)
        exact ⟨root, start, isNode⟩
      · obtain ⟨part, isPart, inPart⟩ := List.mem_flatMap.mp inner
        exact below part isPart (kept path root start part isPart) entry inPart

/-! ## Kinds of parts -/

/-- Whether a part can stand in a selection set or in a list of directives. -/
def isBody : Root → Bool
  | .selectionSet _ | .selection _ | .spread _ | .inline _ | .field _ => true
  | .directives _ | .directive _ | .arguments _ | .argument _ => true
  | _ => false

def isApplied : Root → Bool
  | .directives _ | .directive _ | .arguments _ | .argument _ => true
  | _ => false

theorem forall_mem_listed {α : Type} {toRoot : α → Root} {members : List α} (holds : Root → Prop)
    (each : ∀ item, holds (toRoot item)) : ∀ entry ∈ listed toRoot members, holds entry.2 := by
  intro entry member
  obtain ⟨item, _, place, rfl⟩ := exists_of_mem_listed member
  exact each item

theorem isApplied_of_mem_parts (root : Root) (applied : root.isApplied = true) :
    ∀ entry ∈ root.parts, entry.2.isApplied = true := by
  cases root with
  | directives parts => exact forall_mem_listed (·.isApplied = true) fun _ => rfl
  | directive part => exact List.forall_mem_singleton.mpr rfl
  | arguments parts => exact forall_mem_listed (·.isApplied = true) fun _ => rfl
  | argument part => exact List.forall_mem_nil _
  | _ => cases applied

theorem isBody_of_mem_parts (root : Root) (body : root.isBody = true) :
    ∀ entry ∈ root.parts, entry.2.isBody = true := by
  cases root with
  | selectionSet parts =>
      exact forall_mem_listed (·.isBody = true) fun part => by cases part <;> rfl
  | selection part => cases part <;> simp [parts, isBody]
  | spread part => exact List.forall_mem_singleton.mpr rfl
  | inline part => simp [parts, isBody]
  | field part => simp [parts, isBody]
  | directives parts => exact forall_mem_listed (·.isBody = true) fun _ => rfl
  | directive part => exact List.forall_mem_singleton.mpr rfl
  | arguments parts => exact forall_mem_listed (·.isBody = true) fun _ => rfl
  | argument part => exact List.forall_mem_nil _
  | _ => cases body

/-- Nothing is said in a part if nothing is said about nodes of its kind. -/
theorem flatMap_entered_eq_nil {β : Type} {say : Node × Path → List β} {kind : Root → Bool}
    (kept : ∀ root, kind root = true → ∀ entry ∈ root.parts, kind entry.2 = true)
    (quiet : ∀ root node path, kind root = true → root.node? = some node → say (node, path) = [])
    {root : Root} (start : kind root = true) (path : Path) :
    (root.entered path).flatMap say = [] := by
  refine List.flatMap_eq_nil_iff.mpr fun entry member => ?_
  obtain ⟨part, isKind, isNode⟩ :=
    @forall_mem_entered (fun _ part => kind part = true) (fun _ => kept) path root start entry
      member
  exact quiet part entry.1 entry.2 isKind isNode

/-! ## Nodes that are passed over -/

section Shown

variable {β : Type} {hidden : Node → Bool} {say : Node × Path → List β} {holds : Root → Prop}

/-- Passing over nodes below which there is nothing to say makes no difference. -/
theorem flatMap_shownAll (kept : ∀ root, holds root → ∀ entry ∈ root.parts, holds entry.2)
    (quiet : ∀ (path : Path) root node, holds root → root.node? = some node → hidden node = true →
      ∀ entry ∈ root.parts, ∀ inner ∈ entry.2.entered (path.push entry.1), say inner = [])
    {root : Root} (start : holds root) (path : Path) :
    (Outline.shownAll hidden (root.outlines path)).flatMap say =
      (root.entered path).flatMap say := by
  induction root using byParts generalizing path with
  | each root below =>
      have inner : (Outline.shownAll hidden
          (root.parts.flatMap fun entry => entry.2.outlines (path.push entry.1))).flatMap say =
            root.parts.flatMap fun entry => (entry.2.entered (path.push entry.1)).flatMap say := by
        rw [Outline.shownAll_eq_flatMap, List.flatMap_assoc, List.flatMap_assoc]
        refine List.flatMap_congr fun entry member => ?_
        rw [← below entry member (kept root start entry member), Outline.shownAll_eq_flatMap,
          List.flatMap_assoc]
      rw [outlines_eq, entered_eq, List.flatMap_append, List.flatMap_assoc, ← inner]
      cases isNode : root.node? with
      | none => rfl
      | some node =>
          rw [grown, Outline.shownAll, Outline.shown, Outline.shownAll, List.append_nil,
            List.flatMap_cons, Option.map_some, Option.toList_some, List.flatMap_singleton]
          refine congrArg (say (node, path) ++ ·) ?_
          split
          case isFalse => rfl
          case isTrue isHidden =>
            rw [inner]
            refine (List.flatMap_eq_nil_iff.mpr fun entry member => ?_).symm
            exact List.flatMap_eq_nil_iff.mpr
              (quiet path root node start isNode isHidden entry member)

end Shown

theorem entered_eq_shownAll (path : Path) (root : Root) :
    root.entered path = Outline.shownAll (fun _ => false) (root.outlines path) := by
  have same := @flatMap_shownAll (Node × Path) (fun _ => false) (fun entry => [entry])
    (fun _ => True) (fun _ _ _ _ => trivial)
    (fun _ _ _ _ _ isHidden => absurd isHidden Bool.false_ne_true) root trivial path
  rw [List.flatMap_singleton', List.flatMap_singleton'] at same
  exact same.symm

/-! ## Members of lists -/

theorem filterMap_range {α : Type} (members : List α) (place : Nat) :
    ((List.range place).filterMap fun earlier => members[earlier]?) = members.take place := by
  induction place with
  | zero => rfl
  | succ place ih =>
      rw [List.range_succ, List.filterMap_append, ih, List.take_add_one]
      cases member : members[place]? with
      | none => simp [member]
      | some found => simp [member]

/-- Before a member of a list stand the members that are taken before it. -/
theorem before_push {α : Type} {toRoot : α → Root} {members : List α} {root whole : Root}
    {path : Path} (located : root.follow? path = some whole)
    (children : ∀ place, whole.child? (.index place) = members[place]?.map toRoot) (place : Nat) :
    root.before (path.push (.index place)) = (members.take place).map toRoot := by
  have each (earlier : Nat) : root.follow? (path.push (.index earlier)) =
      members[earlier]?.map toRoot := by
    rw [follow?_push, located]
    exact children earlier
  calc root.before (path.push (.index place))
      = (List.range place).filterMap fun earlier => members[earlier]?.map toRoot :=
        List.filterMap_congr fun earlier _ => each earlier
    _ = ((List.range place).filterMap fun earlier => members[earlier]?).map toRoot :=
        List.map_filterMap.symm
    _ = (members.take place).map toRoot := by rw [filterMap_range]

end Root

/-! ## Definitions -/

def Definition.node : Definition → Node
  | .operation part => .operation part
  | .fragment part => .fragment part

theorem Definition.ofNode_node (definition : Definition) :
    Root.ofNode definition.node = .ofDefinition definition := by
  cases definition <;> rfl

/-- The first node of a definition is the definition, and the others are inside of it. -/
theorem Definition.entered_eq_cons (path : Path) (definition : Definition) :
    ∃ inner, (Root.ofDefinition definition).entered path = (definition.node, path) :: inner ∧
      ∀ entry ∈ inner, entry.1.isInside = true := by
  refine ⟨Outline.shownAll (fun _ => false) (Outline.ofDefinition path definition).children, ?_,
    Outline.isInside_of_mem_ofDefinition path definition⟩
  rw [Root.entered_eq_shownAll, Root.outlines_ofDefinition, Outline.shownAll, Outline.shownAll,
    List.append_nil]
  cases definition <;> rfl

namespace Document

variable {ο : Type} {document : Document}

theorem follow?_of_mem_definitions {entry : Definition × Nat}
    (member : entry ∈ document.definitions.zipIdx) :
    (Root.document document).follow? (Path.root.push (.index entry.2)) =
      some (.ofDefinition entry.1) := by
  have isMember : document.definitions[entry.2]? = some entry.1 :=
    List.mem_zipIdx_iff_getElem?.mp member
  rw [Root.follow?_push, Root.follow?_root]
  exact congrArg (Option.map Root.ofDefinition) isMember

/-- What is found in definitions can be told from where the document has them. -/
theorem inDefinitions_congr {found other : Path → Definition → List ο}
    (same : ∀ place definition,
      (Root.document document).follow? (Path.root.push (.index place)) =
          some (.ofDefinition definition) →
        found (Path.root.push (.index place)) definition =
          other (Path.root.push (.index place)) definition) :
    document.inDefinitions found = document.inDefinitions other :=
  List.flatMap_congr fun entry member => same entry.2 entry.1 (follow?_of_mem_definitions member)

theorem filter_inDefinitions (keep : ο → Bool) (found : Path → Definition → List ο) :
    (document.inDefinitions found).filter keep =
      document.inDefinitions fun path definition => (found path definition).filter keep :=
  List.filter_flatMap

/-- Where nothing is found at the document as such, it is enough to look into its definitions. -/
theorem atNodes_eq {found : Node × Path → List ο} (whole : found (.document document, .root) = []) :
    document.atNodes found = document.inDefinitions fun path definition =>
      ((Root.ofDefinition definition).entered path).flatMap found := by
  rw [atNodes, Root.flatMap_entered, Root.parts, Root.flatMap_listed, Root.node?, Option.elim_some,
    whole]
  rfl

/-- Where nothing is found inside of definitions, it is enough to look at their tops. -/
theorem atNodes_of_isInside {found : Node × Path → List ο}
    (whole : found (.document document, .root) = [])
    (quiet : ∀ entry, entry.1.isInside = true → found entry = []) :
    document.atNodes found =
      document.inDefinitions fun path definition => found (definition.node, path) := by
  rw [atNodes_eq whole]
  refine inDefinitions_congr fun place definition _ => ?_
  obtain ⟨inner, isEntered, inside⟩ :=
    definition.entered_eq_cons (Path.root.push (.index place))
  have nothing : inner.flatMap found = [] :=
    List.flatMap_eq_nil_iff.mpr fun entry member => quiet entry (inside entry member)
  rw [isEntered, List.flatMap_cons, nothing, List.append_nil]

end Document

end QueryCheck
