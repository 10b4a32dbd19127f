import QueryCheck.Proofs.Validation.DocumentNames

/-!
# Repeated arguments

Arguments stand in lists of their own, at the head of the field or directive that owns them, so
the repeated ones can be read off from the owners. The rule on the names of arguments reports the
repeated ones in the order of the nodes of a document, except for those in the directives of
definitions of variables, into which it does not look. So it reports all repeated arguments
exactly if there are none in these directives.
-/

namespace QueryCheck

namespace Root

def argumentName? : Root → Option String
  | .argument part => some part.name
  | _ => none

def isArguments : Root → Bool
  | .arguments _ | .argument _ => true
  | _ => false

/-! ## Parts and owners -/

theorem child?_of_mem_listed {α : Type} {toRoot : α → Root} {members : List α} {whole : Root}
    (children : ∀ place, whole.child? (.index place) = members[place]?.map toRoot)
    (plain : ∀ member, (toRoot member).plain = toRoot member) :
    ∀ entry ∈ listed toRoot members, whole.child? entry.1 = some entry.2.plain := by
  intro entry member
  obtain ⟨⟨item, place⟩, isItem, rfl⟩ := List.mem_map.mp member
  rw [children, List.mem_zipIdx_iff_getElem?.mp isItem, plain]
  rfl

/-- Every part below is where its segment leads. -/
theorem child?_of_mem_parts (root : Root) :
    ∀ entry ∈ root.parts, root.plain.child? entry.1 = some entry.2.plain := by
  cases root with
  | document whole => exact child?_of_mem_listed (fun _ => rfl) fun part => by cases part <;> rfl
  | definition part => cases part <;> simp [parts, plain, ofDefinition, child?]
  | operation part => simp [parts, plain, child?]
  | fragment part => simp [parts, plain, child?]
  | variableDefinitions parts => exact child?_of_mem_listed (fun _ => rfl) fun _ => rfl
  | variableDefinition part => simp [parts, plain, child?]
  | selectionSet parts =>
      exact child?_of_mem_listed (fun _ => rfl) fun part => by cases part <;> rfl
  | selection part => cases part <;> simp [parts, plain, ofSelection, child?]
  | spread part => simp [parts, plain, child?]
  | inline part => simp [parts, plain, child?]
  | field part => simp [parts, plain, child?]
  | directives parts => exact child?_of_mem_listed (fun _ => rfl) fun _ => rfl
  | directive part => simp [parts, plain, child?]
  | arguments parts => exact child?_of_mem_listed (fun _ => rfl) fun _ => rfl
  | argument part => exact List.forall_mem_nil _

/-- An owner has its arguments first and nowhere else. -/
theorem parts_of_owner {root : Root} {node : Node} {given : List Argument}
    (isNode : root.node? = some node) (owns : node.arguments? = some given) :
    ∃ others, root.parts = (.arguments, .arguments given) :: others ∧
      ∀ entry ∈ others, entry.2.isArguments = false := by
  cases root with
  | field part =>
      cases isNode
      cases owns
      exact ⟨_, rfl, by simp [isArguments]⟩
  | directive part =>
      cases isNode
      cases owns
      exact ⟨[], rfl, List.forall_mem_nil _⟩
  | selection part =>
      cases part with
      | field part =>
          cases isNode
          cases owns
          exact ⟨_, rfl, by simp [isArguments]⟩
      | spread part => cases isNode; cases owns
      | inline part => cases isNode; cases owns
  | definition part => cases part <;> cases isNode <;> cases owns
  | _ => cases isNode <;> cases owns

/-- Other parts have no arguments right below them. -/
theorem isArguments_of_mem_parts {root : Root} (plain : root.isArguments = false)
    (noOwner : root.node?.bind Node.arguments? = none) :
    ∀ entry ∈ root.parts, entry.2.isArguments = false := by
  cases root with
  | document whole =>
      exact forall_mem_listed (·.isArguments = false) fun part => by cases part <;> rfl
  | definition part => cases part <;> simp [parts, isArguments]
  | operation part => simp [parts, isArguments]
  | fragment part => simp [parts, isArguments]
  | variableDefinitions parts => exact forall_mem_listed (·.isArguments = false) fun _ => rfl
  | variableDefinition part => exact List.forall_mem_singleton.mpr rfl
  | selectionSet parts =>
      exact forall_mem_listed (·.isArguments = false) fun part => by cases part <;> rfl
  | selection part =>
      cases part with
      | field part => cases noOwner
      | spread part => exact List.forall_mem_singleton.mpr rfl
      | inline part => simp [parts, isArguments]
  | spread part => exact List.forall_mem_singleton.mpr rfl
  | inline part => simp [parts, isArguments]
  | field part => cases noOwner
  | directives parts => exact forall_mem_listed (·.isArguments = false) fun _ => rfl
  | directive part => cases noOwner
  | arguments parts => cases plain
  | argument part => cases plain

theorem argumentName?_of_isArguments {root : Root} (other : root.isArguments = false) :
    argumentName? root.plain = none := by
  cases root with
  | definition part => cases part <;> rfl
  | selection part => cases part <;> rfl
  | argument part => cases other
  | _ => rfl

end Root

/-! ## Repeated arguments of owners -/

namespace UniqueArgumentNames

theorem again_of_isArguments {root part : Root} {node : Node} (other : part.isArguments = false)
    (isNode : part.node? = some node) (path : Path) :
    root.again Root.argumentName? .repeatedArgument (node, path) = [] := by
  refine Root.again_of_none ?_
  rw [Root.ofNode_of_node? isNode]
  exact Root.argumentName?_of_isArguments other

theorem flatMap_again_arguments {root : Root} {path : Path} {given : List Argument}
    (located : root.follow? path = some (.arguments given)) :
    ((Root.arguments given).entered path).flatMap
        (root.again Root.argumentName? .repeatedArgument) =
      UsedNames.repeats (fun argument => some argument.name) .repeatedArgument path given := by
  refine Root.flatMap_again_listed .argument .argument rfl rfl (fun _ => rfl) ?_ located
    fun _ => rfl
  intro member place
  rw [Root.flatMap_entered]
  exact List.append_nil _

theorem flatMap_ofNode_arguments (path : Path) (given : List Argument) :
    ((Root.arguments given).entered path).flatMap ofNode = [] := by
  rw [Root.entered_eq_shownAll, Root.outlines_arguments, flatMap_ofArguments]

/-- The repeated arguments in a part can be read off from their owners. -/
theorem flatMap_again_eq {root part : Root} {path : Path}
    (located : root.follow? path = some part.plain) (other : part.isArguments = false) :
    (part.entered path).flatMap (root.again Root.argumentName? .repeatedArgument) =
      (part.entered path).flatMap ofNode := by
  induction part using Root.byParts generalizing path with
  | each part below =>
      have inner : ∀ entry ∈ part.parts, entry.2.isArguments = false →
          (entry.2.entered (path.push entry.1)).flatMap
              (root.again Root.argumentName? .repeatedArgument) =
            (entry.2.entered (path.push entry.1)).flatMap ofNode := by
        intro entry member plain
        exact below entry member
          (Root.follow?_step located (part.child?_of_mem_parts entry member)) plain
      rw [Root.flatMap_entered, Root.flatMap_entered ofNode]
      cases isOwner : part.node?.bind Node.arguments? with
      | some given =>
          -- The arguments are entered right after their owner, so the order is the same.
          obtain ⟨node, isNode, owns⟩ := Option.bind_eq_some_iff.mp isOwner
          obtain ⟨others, isParts, plain⟩ := Root.parts_of_owner isNode owns
          rw [isParts] at inner
          have reached : root.follow? (path.push .arguments) = some (.arguments given) :=
            Root.follow?_step located
              (part.child?_of_mem_parts (.arguments, .arguments given) (by simp [isParts]))
          have rest : others.flatMap (fun entry => (entry.2.entered (path.push entry.1)).flatMap
              (root.again Root.argumentName? .repeatedArgument)) =
                others.flatMap fun entry => (entry.2.entered (path.push entry.1)).flatMap ofNode :=
            List.flatMap_congr fun entry member =>
              inner entry (List.mem_cons_of_mem _ member) (plain entry member)
          rw [isParts, isNode, List.flatMap_cons, List.flatMap_cons, rest,
            flatMap_again_arguments reached, flatMap_ofNode_arguments]
          rw [Option.elim_some, Option.elim_some, again_of_isArguments other isNode, ofNode, owns]
          rfl
      | none =>
          have plain := Root.isArguments_of_mem_parts other isOwner
          have head : (part.node?.elim [] fun node =>
              root.again Root.argumentName? .repeatedArgument (node, path)) =
                part.node?.elim [] fun node => ofNode (node, path) := by
            cases isNode : part.node? with
            | none => rfl
            | some node =>
                rw [isNode, Option.bind_some] at isOwner
                rw [Option.elim_some, Option.elim_some, again_of_isArguments other isNode, ofNode,
                  isOwner]
          rw [head]
          exact congrArg _ (List.flatMap_congr fun entry member =>
            inner entry member (plain entry member))

/-! ## Paths to what is found -/

theorem path_of_mem_again {root : Root} {entry : Node × Path} {finding : Finding}
    (member : finding ∈ root.again Root.argumentName? .repeatedArgument entry) :
    finding.path = entry.2 := by
  rw [Root.again] at member
  split at member
  · cases member
  · split at member
    · rw [List.mem_singleton.mp member]
    · cases member

theorem child?_variableDefinitions {part : Root} (body : part.isBody = true) :
    part.plain.child? .variableDefinitions = none := by
  cases part with
  | selection part => cases part <;> rfl
  | document | definition | operation | fragment | variableDefinitions | variableDefinition =>
      cases body
  | _ => rfl

/-- In a body, nothing is found in definitions of variables. -/
theorem outside_of_isBody {root part : Root} {path : Path} (body : part.isBody = true)
    (outside : PathSegment.variableDefinitions ∉ path.segments) :
    ∀ finding ∈ (part.entered path).flatMap (root.again Root.argumentName? .repeatedArgument),
      PathSegment.variableDefinitions ∉ finding.path.segments := by
  intro finding found
  obtain ⟨entry, member, isFound⟩ := List.mem_flatMap.mp found
  -- Being in a body and being outside go over to parts together: no part of a body leads there.
  have kept (place : Path) (inner : Root)
      (holds : inner.isBody = true ∧ PathSegment.variableDefinitions ∉ place.segments) :
      ∀ below ∈ inner.parts, below.2.isBody = true ∧
        PathSegment.variableDefinitions ∉ (place.push below.1).segments := by
    intro below isPart
    refine ⟨inner.isBody_of_mem_parts holds.1 below isPart, ?_⟩
    rw [Path.segments_push, List.mem_append, List.mem_singleton, not_or]
    refine ⟨holds.2, fun same => ?_⟩
    have leads := inner.child?_of_mem_parts below isPart
    rw [← same, child?_variableDefinitions holds.1] at leads
    cases leads
  obtain ⟨_, holds, _⟩ := Root.forall_mem_entered kept ⟨body, outside⟩ entry member
  rw [path_of_mem_again isFound]
  exact holds.2

/-- Below a list of definitions of variables, everything is found in them. -/
theorem inside_of_mem {root part : Root} {path : Path}
    (inside : PathSegment.variableDefinitions ∈ path.segments) :
    ∀ finding ∈ (part.entered path).flatMap (root.again Root.argumentName? .repeatedArgument),
      PathSegment.variableDefinitions ∈ finding.path.segments := by
  intro finding found
  obtain ⟨entry, member, isFound⟩ := List.mem_flatMap.mp found
  have kept (place : Path) (inner : Root)
      (holds : PathSegment.variableDefinitions ∈ place.segments) :
      ∀ below ∈ inner.parts,
        PathSegment.variableDefinitions ∈ (place.push below.1).segments := by
    intro below _
    rw [Path.segments_push]
    exact List.mem_append_left _ holds
  obtain ⟨_, holds, _⟩ := Root.forall_mem_entered kept inside entry member
  rw [path_of_mem_again isFound]
  exact holds

/-! ## Definitions -/

def inVariables (root : Root) (path : Path) : Definition → List Finding
  | .operation operation =>
      ((Root.variableDefinitions operation.variableDefinitions).entered
        (path.push .variableDefinitions)).flatMap
          (root.again Root.argumentName? .repeatedArgument)
  | .fragment _ => []

def inBody (root : Root) (path : Path) (applied : List Directive) (selected : List Selection) :
    List Finding :=
  ((Root.directives applied).entered (path.push .directives)).flatMap
      (root.again Root.argumentName? .repeatedArgument) ++
    ((Root.selectionSet selected).entered (path.push .selectionSet)).flatMap
      (root.again Root.argumentName? .repeatedArgument)

section Definitions

variable {root : Root} {path : Path}

theorem flatMap_shownAll_of_isBody {part : Root} (located : root.follow? path = some part.plain)
    (body : part.isBody = true) (other : part.isArguments = false) :
    (Outline.shownAll hidden (part.outlines path)).flatMap ofNode =
      (part.entered path).flatMap (root.again Root.argumentName? .repeatedArgument) := by
  have nothing (place : Path) (inner : Root) (node : Node) (isBody : inner.isBody = true)
      (isNode : inner.node? = some node) (isHidden : hidden node = true) :
      ∀ entry ∈ inner.parts, ∀ below ∈ entry.2.entered (place.push entry.1),
        ofNode below = [] := by
    cases inner with
    | selection part => cases part <;> cases isNode <;> cases isHidden
    | document | definition | operation | fragment | variableDefinitions | variableDefinition =>
        cases isBody
    | _ => cases isNode <;> cases isHidden
  rw [flatMap_again_eq located other]
  exact Root.flatMap_shownAll Root.isBody_of_mem_parts nothing body path

theorem flatMap_shownAll_variableDefinitions (path : Path) (parts : List VariableDefinition) :
    (Outline.shownAll hidden (Outline.ofVariableDefinitions path parts)).flatMap ofNode = [] :=
  Outline.flatMap_shownAll_ofMembers_eq_nil (fun _ _ => rfl) path 0 parts

theorem inDefinition_operation {operation : Operation}
    (located : root.follow? path = some (.operation operation)) :
    inDefinition path (.operation operation) =
      inBody root path operation.directives operation.selections := by
  have applied : root.follow? (path.push .directives) = some (.directives operation.directives) :=
    Root.follow?_step located rfl
  have selected : root.follow? (path.push .selectionSet) =
      some (.selectionSet operation.selections) := Root.follow?_step located rfl
  have inner : inDefinition path (.operation operation) =
      (Outline.shownAll hidden (Outline.ofVariableDefinitions (path.push .variableDefinitions)
          operation.variableDefinitions ++
        Outline.ofDirectives (path.push .directives) operation.directives ++
          [Outline.ofSelectionSet (path.push .selectionSet) operation.selections])).flatMap
        ofNode := rfl
  rw [inner, Outline.shownAll_append, Outline.shownAll_append, List.flatMap_append,
    List.flatMap_append, flatMap_shownAll_variableDefinitions, List.nil_append,
    ← Root.outlines_directives, ← Root.outlines_selectionSet,
    flatMap_shownAll_of_isBody applied rfl rfl, flatMap_shownAll_of_isBody selected rfl rfl, inBody]

theorem inDefinition_fragment {fragment : Fragment}
    (located : root.follow? path = some (.fragment fragment)) :
    inDefinition path (.fragment fragment) =
      inBody root path fragment.directives fragment.selections := by
  have applied : root.follow? (path.push .directives) = some (.directives fragment.directives) :=
    Root.follow?_step located rfl
  have selected : root.follow? (path.push .selectionSet) =
      some (.selectionSet fragment.selections) := Root.follow?_step located rfl
  have inner : inDefinition path (.fragment fragment) =
      (Outline.shownAll hidden (Outline.ofDirectives (path.push .directives) fragment.directives ++
        [Outline.ofSelectionSet (path.push .selectionSet) fragment.selections])).flatMap
        ofNode := rfl
  rw [inner, Outline.shownAll_append, List.flatMap_append, ← Root.outlines_directives,
    ← Root.outlines_selectionSet, flatMap_shownAll_of_isBody applied rfl rfl,
    flatMap_shownAll_of_isBody selected rfl rfl, inBody]

/-- The rule finds what is repeated in a definition apart from its definitions of variables. -/
theorem flatMap_entered_ofDefinition {definition : Definition}
    (located : root.follow? path = some (.ofDefinition definition)) :
    ((Root.ofDefinition definition).entered path).flatMap
        (root.again Root.argumentName? .repeatedArgument) =
      inVariables root path definition ++ inDefinition path definition := by
  cases definition with
  | operation operation =>
      rw [inDefinition_operation located, Root.ofDefinition, Root.flatMap_entered, Root.parts,
        List.flatMap_cons, List.flatMap_cons, List.flatMap_singleton]
      rfl
  | fragment fragment =>
      rw [inDefinition_fragment located, Root.ofDefinition, Root.flatMap_entered, Root.parts,
        List.flatMap_cons, List.flatMap_singleton]
      rfl

theorem inside_of_mem_inVariables {definition : Definition} :
    ∀ finding ∈ inVariables root path definition,
      PathSegment.variableDefinitions ∈ finding.path.segments := by
  cases definition with
  | operation operation =>
      refine inside_of_mem ?_
      rw [Path.segments_push]
      exact List.mem_append_right _ (List.mem_singleton_self _)
  | fragment fragment => exact List.forall_mem_nil _

theorem outside_of_mem_inBody (outside : PathSegment.variableDefinitions ∉ path.segments)
    (applied : List Directive) (selected : List Selection) :
    ∀ finding ∈ inBody root path applied selected,
      PathSegment.variableDefinitions ∉ finding.path.segments := by
  refine List.forall_mem_append.mpr ⟨outside_of_isBody rfl ?_, outside_of_isBody rfl ?_⟩
  · simpa [Path.segments_push] using outside
  · simpa [Path.segments_push] using outside

theorem outside_of_mem_inDefinition {definition : Definition}
    (located : root.follow? path = some (.ofDefinition definition))
    (outside : PathSegment.variableDefinitions ∉ path.segments) :
    ∀ finding ∈ inDefinition path definition,
      PathSegment.variableDefinitions ∉ finding.path.segments := by
  cases definition with
  | operation operation =>
      rw [inDefinition_operation located]
      exact outside_of_mem_inBody outside _ _
  | fragment fragment =>
      rw [inDefinition_fragment located]
      exact outside_of_mem_inBody outside _ _

/-! ## Where nothing is repeated -/

theorem forall_mem_zipIdx {α : Type} {holds : α → Prop} {members : List α} :
    (∀ entry ∈ members.zipIdx, holds entry.1) ↔ ∀ member ∈ members, holds member := by
  refine ⟨fun each member isMember => ?_, fun each entry isEntry => ?_⟩
  · obtain ⟨place, atPlace⟩ := List.mem_iff_getElem?.mp isMember
    exact each (member, place) (List.mem_zipIdx_iff_getElem?.mpr atPlace)
  · exact each entry.1 (List.fst_mem_of_mem_zipIdx isEntry)

/-- There is nothing in a list if there is nothing in its members. -/
theorem flatMap_ofNode_listed_eq_nil_iff {α : Type} {toRoot : α → Root} {members : List α}
    {holds : α → Prop} {whole : Root} (isList : whole.node? = none)
    (below : whole.parts = Root.listed toRoot members)
    (each : ∀ place member, ((toRoot member).entered place).flatMap ofNode = [] ↔ holds member)
    (path : Path) :
    (whole.entered path).flatMap ofNode = [] ↔ ∀ member ∈ members, holds member := by
  rw [Root.flatMap_entered, isList, below, Root.flatMap_listed, Option.elim_none, List.nil_append,
    List.flatMap_eq_nil_iff]
  simp only [each]
  exact forall_mem_zipIdx

theorem flatMap_ofNode_directive_eq_nil_iff (path : Path) (directive : Directive) :
    ((Root.directive directive).entered path).flatMap ofNode = [] ↔
      (directive.arguments.map Argument.name).Nodup := by
  have owned : ((Root.directive directive).entered path).flatMap ofNode =
      UsedNames.repeats (some ∘ Argument.name) .repeatedArgument (path.push .arguments)
        directive.arguments := by
    rw [Root.flatMap_entered, Root.parts, List.flatMap_singleton, flatMap_ofNode_arguments]
    exact List.append_nil _
  rw [owned, ← @List.map_eq_nil_iff _ _ Finding.problem, UsedNames.map_problem_repeats,
    List.map_eq_nil_iff, UsedNames.repeated_eq_nil_iff, List.filterMap_eq_map]

theorem inVariables_eq_nil_iff {operation : Operation}
    (located : root.follow? path = some (.operation operation)) :
    inVariables root path (.operation operation) = [] ↔
      ∀ definition ∈ operation.variableDefinitions, ∀ directive ∈ definition.directives,
        (directive.arguments.map Argument.name).Nodup := by
  have reached : root.follow? (path.push .variableDefinitions) =
      some (.variableDefinitions operation.variableDefinitions) := Root.follow?_step located rfl
  rw [inVariables, flatMap_again_eq reached rfl]
  refine flatMap_ofNode_listed_eq_nil_iff rfl rfl (fun place definition => ?_) _
  rw [Root.flatMap_entered, Root.parts, List.flatMap_singleton]
  exact flatMap_ofNode_listed_eq_nil_iff rfl rfl flatMap_ofNode_directive_eq_nil_iff _

end Definitions

/-! ## Documents -/

variable {document : Document}

theorem repeats_eq_inDefinitions :
    document.repeats Root.argumentName? .repeatedArgument = document.inDefinitions
      fun path definition =>
        inVariables (.document document) path definition ++ inDefinition path definition := by
  rw [Document.repeats, Document.atNodes_eq (Root.again_of_none rfl)]
  exact Document.inDefinitions_congr fun _ _ located => flatMap_entered_ofDefinition located

theorem outside_root_push (place : Nat) :
    PathSegment.variableDefinitions ∉ (Path.root.push (.index place)).segments := by
  intro member
  cases List.mem_singleton.mp member

/-- The rule finds the repeated arguments outside of definitions of variables. -/
theorem filter_repeats :
    (document.repeats Root.argumentName? .repeatedArgument).filter
        (fun finding => PathSegment.variableDefinitions ∉ finding.path.segments) =
      document.inDefinitions inDefinition := by
  rw [repeats_eq_inDefinitions, Document.filter_inDefinitions]
  refine Document.inDefinitions_congr fun place definition located => ?_
  rw [List.filter_append, List.filter_eq_nil_iff.mpr, List.filter_eq_self.mpr, List.nil_append]
  · intro finding isFound
    exact decide_eq_true
      (outside_of_mem_inDefinition located (outside_root_push place) finding isFound)
  · intro finding isFound
    rw [decide_eq_true_eq, not_not]
    exact inside_of_mem_inVariables finding isFound

/-- The rule finds all repeated arguments if there are none in definitions of variables. -/
theorem filter_repeats_eq_self_iff :
    (document.repeats Root.argumentName? .repeatedArgument).filter
          (fun finding => PathSegment.variableDefinitions ∉ finding.path.segments) =
        document.repeats Root.argumentName? .repeatedArgument ↔
      ∀ operation ∈ document.operations, ∀ definition ∈ operation.variableDefinitions,
        ∀ directive ∈ definition.directives, (directive.arguments.map Argument.name).Nodup := by
  rw [List.filter_eq_self, repeats_eq_inDefinitions]
  constructor
  · intro all operation isOperation
    obtain ⟨definition, isDefinition, isSame⟩ := List.mem_filterMap.mp isOperation
    cases definition with
    | fragment fragment => cases isSame
    | operation operation =>
        cases isSame
        obtain ⟨place, atPlace⟩ := List.mem_iff_getElem?.mp isDefinition
        have member : (Definition.operation operation, place) ∈ document.definitions.zipIdx :=
          List.mem_zipIdx_iff_getElem?.mpr atPlace
        have nothing : inVariables (.document document) (Path.root.push (.index place))
            (.operation operation) = [] := by
          refine List.eq_nil_iff_forall_not_mem.mpr fun finding isFound => ?_
          have outside := of_decide_eq_true
            (all finding (List.mem_flatMap.mpr ⟨_, member, List.mem_append_left _ isFound⟩))
          exact outside (inside_of_mem_inVariables finding isFound)
        exact (inVariables_eq_nil_iff (Document.follow?_of_mem_definitions member)).mp nothing
  · intro each finding isFound
    obtain ⟨⟨definition, place⟩, member, inPart⟩ := List.mem_flatMap.mp isFound
    dsimp only at inPart
    have located := Document.follow?_of_mem_definitions member
    have nothing : inVariables (.document document) (Path.root.push (.index place)) definition =
        [] := by
      cases definition with
      | operation operation =>
          have isOperation : operation ∈ document.operations :=
            List.mem_filterMap.mpr ⟨.operation operation, List.fst_mem_of_mem_zipIdx member, rfl⟩
          exact (inVariables_eq_nil_iff located).mpr (each operation isOperation)
      | fragment fragment => rfl
    rw [nothing, List.nil_append] at inPart
    exact decide_eq_true
      (outside_of_mem_inDefinition located (outside_root_push place) finding inPart)

end UniqueArgumentNames

namespace Validation

theorem reports_uniqueArgumentNames (schema : Schema) (document : Document) :
    (validate schema none (.rule .uniqueArgumentNames) document).reports =
      (document.inDefinitions UniqueArgumentNames.inDefinition).map Finding.diagnostic := by
  obtain ⟨after, leads⟩ := UniqueArgumentNames.leads document []
  exact reports_of_leads schema document .uniqueArgumentNames (fun _ _ _ => rfl) rfl leads

/-- The rule on the names of arguments reports the repeated arguments of fields and directives, in
the order of the nodes of a document, but not those in definitions of variables. So it reports all
of them exactly if the directives of definitions of variables repeat none. -/
theorem reports_repeated_arguments (schema : Schema) (document : Document) :
    (validate schema none (.rule .uniqueArgumentNames) document).reports =
        ((document.repeats Root.argumentName? .repeatedArgument).filter fun finding =>
          PathSegment.variableDefinitions ∉ finding.path.segments).map Finding.diagnostic ∧
      ((validate schema none (.rule .uniqueArgumentNames) document).reports =
          (document.repeats Root.argumentName? .repeatedArgument).map Finding.diagnostic ↔
        ∀ operation ∈ document.operations, ∀ definition ∈ operation.variableDefinitions,
          ∀ directive ∈ definition.directives,
            (directive.arguments.map Argument.name).Nodup) := by
  rw [reports_uniqueArgumentNames, ← UniqueArgumentNames.filter_repeats,
    ← UniqueArgumentNames.filter_repeats_eq_self_iff]
  refine ⟨rfl, fun same => ?_, fun same => congrArg _ same⟩
  have lengths := congrArg List.length same
  rw [List.length_map, List.length_map] at lengths
  exact List.filter_sublist.eq_of_length lengths

def sampleRepeating : Operation :=
  ⟨.query, none,
    [⟨"a", .named "Int", .null, [⟨"d", [⟨"x", .int "1"⟩, ⟨"x", .int "2"⟩]⟩]⟩], [],
    [.field ⟨none, "a", [], [], []⟩]⟩

def sampleRepetition : Finding :=
  ⟨.repeatedArgument "x", ⟨[.index 1, .arguments, .index 0, .directives, .index 0,
    .variableDefinitions, .index 0]⟩⟩

/-- An argument is repeated in the definition of a variable, and nothing is reported. -/
theorem misses_repeated_argument_of_variable :
    (⟨[.operation sampleRepeating]⟩ : Document).repeats Root.argumentName? .repeatedArgument =
        [sampleRepetition] ∧
      ∀ schema, (validate schema none (.rule .uniqueArgumentNames)
        ⟨[.operation sampleRepeating]⟩).reports = [] := by
  constructor
  · have located : (Root.document ⟨[.operation sampleRepeating]⟩).follow?
        ((Path.root.push (.index 0)).push .variableDefinitions) =
          some (Root.variableDefinitions sampleRepeating.variableDefinitions).plain := rfl
    have repeated : UniqueArgumentNames.inVariables (.document ⟨[.operation sampleRepeating]⟩)
        (Path.root.push (.index 0)) (.operation sampleRepeating) = [sampleRepetition] := by
      rw [UniqueArgumentNames.inVariables, UniqueArgumentNames.flatMap_again_eq located rfl,
        Root.entered_eq_shownAll, Root.outlines_variableDefinitions]
      rfl
    rw [UniqueArgumentNames.repeats_eq_inDefinitions, Document.inDefinitions,
      List.zipIdx_singleton, List.flatMap_singleton, repeated]
    rfl
  · intro schema
    rw [reports_uniqueArgumentNames]
    rfl

end Validation

end QueryCheck
