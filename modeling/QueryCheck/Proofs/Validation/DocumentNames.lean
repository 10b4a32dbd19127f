import QueryCheck.Proofs.Traversal.Entered
import QueryCheck.Proofs.Validation.Problems

/-!
# Names in documents

What the rules on names report is said over all nodes of a document, in the order in which a
traversal that goes through all of it enters them. A name is repeated at a node if a part that
stands before it in the same list has the name. The rules keep names on their way and pass over
much of a document; the main result is that they report neither more nor less than this.
-/

namespace QueryCheck

namespace Root

def operationName? : Root → Option String
  | .operation part => part.name?
  | _ => none

def fragmentName? : Root → Option String
  | .fragment part => some part.name
  | _ => none

def variableName? : Root → Option String
  | .variableDefinition part => some part.name
  | _ => none

/-- What is found at a part if one before it in the same list has its name. -/
def again (root : Root) (name? : Root → Option String) (problem : String → Problem)
    (entry : Node × Path) : List Finding :=
  match name? (.ofNode entry.1) with
  | none => []
  | some name =>
      if ∃ other ∈ root.before entry.2, name? other = some name then [⟨problem name, entry.2⟩]
      else []

end Root

namespace Document

/-- The parts of a document whose names parts before them in the same list have. -/
def repeats (name? : Root → Option String) (problem : String → Problem) (document : Document) :
    List Finding :=
  document.atNodes ((Root.document document).again name? problem)

def anonymous (document : Document) : List Finding :=
  document.atNodes fun
    | (.operation operation, path) =>
        if operation.name? = none ∧ 2 ≤ document.operations.length then
          [⟨.anonymousOperation, path⟩]
        else []
    | _ => []

def unknownSpreads (document : Document) : List Finding :=
  document.atNodes fun
    | (.spread spread, path) =>
        if ∃ fragment ∈ document.fragments, fragment.name = spread.name then []
        else [⟨.unknownFragment spread.name, path⟩]
    | _ => []

end Document

/-! ## Lists and definitions -/

namespace Root

section Members

variable {α : Type} {toRoot : α → Root} {members : List α} {root whole : Root} {path : Path}

/-- Which members of a list have repeated names can be told from the list alone. -/
theorem flatMap_again {toNode : α → Node}
    (isRoot : ∀ member, ofNode (toNode member) = toRoot member)
    (located : root.follow? path = some whole)
    (children : ∀ place, whole.child? (.index place) = members[place]?.map toRoot)
    (name? : Root → Option String) (problem : String → Problem) :
    (members.zipIdx.flatMap fun entry =>
        root.again name? problem (toNode entry.1, path.push (.index entry.2))) =
      UsedNames.repeats (fun member => name? (toRoot member)) problem path members := by
  refine List.flatMap_congr fun entry _ => ?_
  rw [again, UsedNames.again, isRoot, before_push located children]
  cases name? (toRoot entry.1) with
  | none => rfl
  | some name => simp only [List.mem_map, List.mem_filterMap, exists_exists_and_eq_and]

/-- The same of a list whose members are all that has names of this kind in it. -/
theorem flatMap_again_listed (toRoot : α → Root) (toNode : α → Node)
    {name? : Root → Option String} {problem : String → Problem} (isList : whole.node? = none)
    (below : whole.parts = listed toRoot members)
    (isRoot : ∀ member, ofNode (toNode member) = toRoot member)
    (each : ∀ member place, ((toRoot member).entered place).flatMap (root.again name? problem) =
      root.again name? problem (toNode member, place))
    (located : root.follow? path = some whole)
    (children : ∀ place, whole.child? (.index place) = members[place]?.map toRoot) :
    (whole.entered path).flatMap (root.again name? problem) =
      UsedNames.repeats (fun member => name? (toRoot member)) problem path members := by
  rw [flatMap_entered, isList, below, flatMap_listed, Option.elim_none, List.nil_append]
  simp only [each]
  exact flatMap_again isRoot located children name? problem

end Members

theorem again_of_none {root : Root} {name? : Root → Option String}
    {problem : String → Problem} {entry : Node × Path} (nameless : name? (.ofNode entry.1) = none) :
    root.again name? problem entry = [] := by
  rw [again, nameless]

end Root

/-- Names that only definitions have are repeated as the list of definitions tells. -/
theorem Document.repeats_of_isInside {name? : Root → Option String}
    {document : Document} (whole : name? (.document document) = none)
    (inside : ∀ node : Node, node.isInside = true → name? (.ofNode node) = none)
    (problem : String → Problem) :
    document.repeats name? problem = UsedNames.repeats
      (fun definition => name? (.ofDefinition definition)) problem .root document.definitions := by
  rw [repeats, atNodes_of_isInside (Root.again_of_none whole)
    fun entry isInside => Root.again_of_none (inside entry.1 isInside)]
  exact Root.flatMap_again Definition.ofNode_node (Root.follow?_root (.document document))
    (fun _ => rfl) name? problem

/-! ## Variables -/

namespace Root

/-- No name is repeated in a part where nothing has such a name. -/
theorem flatMap_again_eq_nil {name? : Root → Option String} {kind : Root → Bool}
    (kept : ∀ part, kind part = true → ∀ entry ∈ part.parts, kind entry.2 = true)
    (nameless : ∀ part, kind part = true → name? part.plain = none)
    (problem : String → Problem) (root : Root) {part : Root} (start : kind part = true)
    (path : Path) : (part.entered path).flatMap (root.again name? problem) = [] := by
  refine flatMap_entered_eq_nil kept ?_ start path
  intro inner node place isKind isNode
  refine again_of_none ?_
  rw [ofNode_of_node? isNode]
  exact nameless inner isKind

theorem variableName?_of_isBody (part : Root) (body : part.isBody = true) :
    variableName? part.plain = none := by
  cases part with
  | selection part => cases part <;> rfl
  | document | definition | operation | fragment | variableDefinitions | variableDefinition =>
      cases body
  | _ => rfl

end Root

namespace UniqueVariableNames

section Located

variable {document : Document} {path : Path}

theorem flatMap_entered_of_isBody (document : Document) {part : Root} (body : part.isBody = true)
    (place : Path) :
    (part.entered place).flatMap
      ((Root.document document).again Root.variableName? .repeatedVariable) = [] :=
  Root.flatMap_again_eq_nil Root.isBody_of_mem_parts Root.variableName?_of_isBody _ _ body place

theorem flatMap_entered_variableDefinitions {parts : List VariableDefinition}
    (located : (Root.document document).follow? path = some (.variableDefinitions parts)) :
    ((Root.variableDefinitions parts).entered path).flatMap
        ((Root.document document).again Root.variableName? .repeatedVariable) =
      UsedNames.repeats (fun definition => some definition.name) .repeatedVariable path parts := by
  refine Root.flatMap_again_listed .variableDefinition .variableDefinition rfl rfl (fun _ => rfl) ?_
    located fun _ => rfl
  intro member place
  rw [Root.flatMap_entered, Root.parts, List.flatMap_singleton,
    flatMap_entered_of_isBody document rfl, List.append_nil]
  rfl

/-- Only the definitions of variables of an operation have names of variables. -/
theorem flatMap_entered_ofDefinition {definition : Definition}
    (located : (Root.document document).follow? path = some (.ofDefinition definition)) :
    ((Root.ofDefinition definition).entered path).flatMap
        ((Root.document document).again Root.variableName? .repeatedVariable) =
      inDefinition path definition := by
  cases definition with
  | operation operation =>
      have reached : (Root.document document).follow? (path.push .variableDefinitions) =
          some (.variableDefinitions operation.variableDefinitions) :=
        Root.follow?_step located rfl
      rw [Root.ofDefinition, Root.flatMap_entered, Root.parts, List.flatMap_cons, List.flatMap_cons,
        List.flatMap_singleton, flatMap_entered_variableDefinitions reached,
        flatMap_entered_of_isBody document rfl, flatMap_entered_of_isBody document rfl,
        List.append_nil, List.append_nil]
      rfl
  | fragment fragment =>
      rw [Root.ofDefinition, Root.flatMap_entered, Root.parts, List.flatMap_cons,
        List.flatMap_singleton, flatMap_entered_of_isBody document rfl,
        flatMap_entered_of_isBody document rfl]
      rfl

end Located

end UniqueVariableNames

/-! ## Spreads -/

namespace KnownFragmentNames

/-- Below the nodes that are passed over there are only directives. -/
theorem isApplied_of_hidden {root : Root} {node : Node} (isNode : root.node? = some node)
    (isHidden : hidden node = true) : ∀ entry ∈ root.parts, entry.2.isApplied = true := by
  cases root with
  | variableDefinition part => exact List.forall_mem_singleton.mpr rfl
  | spread part => exact List.forall_mem_singleton.mpr rfl
  | directive part => exact List.forall_mem_singleton.mpr rfl
  | argument part => exact List.forall_mem_nil _
  | definition part => cases part <;> cases isNode <;> cases isHidden
  | selection part =>
      cases part with
      | spread part => exact List.forall_mem_singleton.mpr rfl
      | field part => cases isNode; cases isHidden
      | inline part => cases isNode; cases isHidden
  | _ => cases isNode <;> cases isHidden

/-- There are no spreads in what is passed over. -/
theorem flatMap_entered_ofDefinition (known : List String) (path : Path) (definition : Definition) :
    ((Root.ofDefinition definition).entered path).flatMap (ofNode known) =
      inDefinition known path definition := by
  have quiet (place : Path) (root : Root) (node : Node) (_ : True) (isNode : root.node? = some node)
      (isHidden : hidden node = true) : ∀ entry ∈ root.parts,
        ∀ inner ∈ entry.2.entered (place.push entry.1), ofNode known inner = [] := by
    intro entry member
    refine List.flatMap_eq_nil_iff.mp (Root.flatMap_entered_eq_nil Root.isApplied_of_mem_parts ?_
      (isApplied_of_hidden isNode isHidden entry member) _)
    intro part node place applied isNode
    cases part with
    | directive part => cases isNode; rfl
    | argument part => cases isNode; rfl
    | directives parts => cases isNode
    | arguments parts => cases isNode
    | _ => cases applied
  rw [← Root.flatMap_shownAll (fun _ _ _ _ => trivial) quiet trivial, Root.outlines_ofDefinition,
    Outline.shownAll, Outline.shownAll, List.append_nil]
  rfl

end KnownFragmentNames

/-! ## Reports -/

namespace Validation

variable (schema : Schema) (document : Document)

theorem reports_uniqueOperationNames :
    (validate schema none (.rule .uniqueOperationNames) document).reports =
      (document.repeats Root.operationName? .repeatedOperation).map Finding.diagnostic := by
  have names : (fun definition => Root.operationName? (.ofDefinition definition)) =
      Definition.operationName? := by
    funext definition
    cases definition <;> rfl
  have inside (node : Node) (isInside : node.isInside = true) :
      Root.operationName? (.ofNode node) = none := by
    cases node with
    | operation => cases isInside
    | _ => rfl
  obtain ⟨after, leads⟩ := UniqueOperationNames.leads document []
  rw [Document.repeats_of_isInside rfl inside, names]
  exact reports_of_leads schema document .uniqueOperationNames (fun _ _ _ => rfl) rfl leads

theorem reports_uniqueFragmentNames :
    (validate schema none (.rule .uniqueFragmentNames) document).reports =
      (document.repeats Root.fragmentName? .repeatedFragment).map Finding.diagnostic := by
  have names : (fun definition => Root.fragmentName? (.ofDefinition definition)) =
      Definition.fragmentName? := by
    funext definition
    cases definition <;> rfl
  have inside (node : Node) (isInside : node.isInside = true) :
      Root.fragmentName? (.ofNode node) = none := by
    cases node with
    | fragment => cases isInside
    | _ => rfl
  obtain ⟨after, leads⟩ := UniqueFragmentNames.leads document []
  rw [Document.repeats_of_isInside rfl inside, names]
  exact reports_of_leads schema document .uniqueFragmentNames (fun _ _ _ => rfl) rfl leads

theorem reports_uniqueVariableNames :
    (validate schema none (.rule .uniqueVariableNames) document).reports =
      (document.repeats Root.variableName? .repeatedVariable).map Finding.diagnostic := by
  obtain ⟨after, leads⟩ := UniqueVariableNames.leads document []
  have same : document.repeats Root.variableName? .repeatedVariable =
      document.inDefinitions UniqueVariableNames.inDefinition := by
    rw [Document.repeats, Document.atNodes_eq (Root.again_of_none rfl)]
    exact Document.inDefinitions_congr fun _ _ located =>
      UniqueVariableNames.flatMap_entered_ofDefinition located
  rw [same]
  exact reports_of_leads schema document .uniqueVariableNames (fun _ _ _ => rfl) rfl leads

theorem reports_loneAnonymousOperation :
    (validate schema none (.rule .loneAnonymousOperation) document).reports =
      document.anonymous.map Finding.diagnostic := by
  have same : document.anonymous =
      document.inDefinitions (LoneAnonymousOperation.inDefinition document.operations.length) := by
    rw [Document.anonymous, Document.atNodes_of_isInside rfl ?_]
    · refine Document.inDefinitions_congr fun place definition _ => ?_
      cases definition with
      | operation operation =>
          simp only [Definition.node, LoneAnonymousOperation.inDefinition, Bool.and_eq_true,
            Option.isNone_iff_eq_none, decide_eq_true_eq]
          rfl
      | fragment fragment => rfl
    · rintro ⟨node, path⟩ isInside
      cases node with
      | operation => cases isInside
      | _ => rfl
  rw [same]
  exact reports_of_leads schema document .loneAnonymousOperation (fun _ _ _ => rfl) rfl
    (LoneAnonymousOperation.leads document 0)

theorem reports_knownFragmentNames :
    (validate schema none (.rule .knownFragmentNames) document).reports =
      document.unknownSpreads.map Finding.diagnostic := by
  have same : document.unknownSpreads = document.inDefinitions
      (KnownFragmentNames.inDefinition (document.fragments.map Fragment.name)) := by
    have each : document.unknownSpreads =
        document.atNodes (KnownFragmentNames.ofNode (document.fragments.map Fragment.name)) := by
      refine congrArg document.atNodes (funext fun entry => ?_)
      obtain ⟨node, path⟩ := entry
      cases node with
      | spread spread =>
          simp only [KnownFragmentNames.ofNode, List.contains_iff_mem, List.mem_map]
      | _ => rfl
    rw [each, Document.atNodes_eq rfl]
    refine Document.inDefinitions_congr fun place definition _ => ?_
    exact KnownFragmentNames.flatMap_entered_ofDefinition _ _ definition
  rw [same]
  exact reports_of_leads schema document .knownFragmentNames (fun _ _ _ => rfl) rfl
    (KnownFragmentNames.leads document [])

/-- Each rule on names reports exactly what the nodes of a document show, in their order and with
their paths: operations, fragments and variables of an operation that one before them has the name
of, operations without a name beside others, and spreads of fragments that are not defined. -/
theorem reports_naming_rules :
    (validate schema none (.rule .uniqueOperationNames) document).reports =
        (document.repeats Root.operationName? .repeatedOperation).map Finding.diagnostic ∧
      (validate schema none (.rule .uniqueFragmentNames) document).reports =
        (document.repeats Root.fragmentName? .repeatedFragment).map Finding.diagnostic ∧
      (validate schema none (.rule .uniqueVariableNames) document).reports =
        (document.repeats Root.variableName? .repeatedVariable).map Finding.diagnostic ∧
      (validate schema none (.rule .loneAnonymousOperation) document).reports =
        document.anonymous.map Finding.diagnostic ∧
      (validate schema none (.rule .knownFragmentNames) document).reports =
        document.unknownSpreads.map Finding.diagnostic :=
  ⟨reports_uniqueOperationNames schema document, reports_uniqueFragmentNames schema document,
    reports_uniqueVariableNames schema document, reports_loneAnonymousOperation schema document,
    reports_knownFragmentNames schema document⟩

end Validation

end QueryCheck
