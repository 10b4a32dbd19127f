import QueryCheck.Proofs.Validation.DefinedVariables
import QueryCheck.Proofs.Validation.SpreadOrder

/-!
# Reports of undefined variables

The rule on undefined variables looks at the arguments of fields and of directives, but not at
those in directives of spreads or of definitions of variables. What it reports is said here from
the syntax: first the uses of undefined variables in each operation, in source order, and then,
for each operation, those in the fragments that its spreads lead to. The fragments come depth
first, each of them once, whatever the spreads look like.
-/

namespace QueryCheck

/-! ## Arguments and spreads in source order -/

namespace Body

section Collect

variable {β : Type} (atArgument : Path → Argument → List β)
  (atSpread : Path → FragmentSpread → List β)

/-- What is said about the arguments of a list at a path. -/
def collectArguments (path : Path) (arguments : List Argument) : List β :=
  arguments.zipIdx.flatMap fun entry => atArgument (path.push (.index entry.2)) entry.1

def collectDirectives (path : Path) (directives : List Directive) : List β :=
  directives.zipIdx.flatMap fun entry =>
    collectArguments atArgument ((path.push (.index entry.2)).push .arguments) entry.1.arguments

mutual

/-- What is said about the arguments and the spreads in a selection. Directives of spreads are left
out. -/
def collectSelection (path : Path) : Selection → List β
  | .field field => collectField path field
  | .spread spread => atSpread path spread
  | .inline fragment => collectInline path fragment

def collectField (path : Path) : Field → List β
  | ⟨_, _, given, applied, selected⟩ =>
      collectArguments atArgument (path.push .arguments) given ++
        collectDirectives atArgument (path.push .directives) applied ++
        collectSelections (path.push .selectionSet) 0 selected

def collectInline (path : Path) : InlineFragment → List β
  | ⟨_, applied, selected⟩ =>
      collectDirectives atArgument (path.push .directives) applied ++
        collectSelections (path.push .selectionSet) 0 selected

def collectSelections (path : Path) (place : Nat) : List Selection → List β
  | [] => []
  | selection :: selections =>
      collectSelection (path.push (.index place)) selection ++
        collectSelections path (place + 1) selections

end

/-- What is said about the arguments and the spreads of the body at a path. -/
def collect (path : Path) (body : Body) : List β :=
  collectDirectives atArgument (path.push .directives) body.directives ++
    collectSelections atArgument atSpread (path.push .selectionSet) 0 body.selections

end Collect

/-- The uses of variables in a body, one for each occurrence in an argument. -/
def uses (path : Path) (body : Body) : List VariableUse :=
  body.collect (fun place argument =>
    argument.value.occurrences.map fun occurrence => ⟨occurrence.2, place⟩) (fun _ _ => []) path

def spreads (body : Body) : List String :=
  body.collect (fun _ _ => []) (fun _ spread => [spread.name]) .root

end Body

/-! ## What operations do not define -/

/-- The uses of variables that an operation does not define. -/
def Operation.undefined (operation : Operation) (uses : List VariableUse) : List Finding :=
  (uses.filter fun use =>
    ∀ definition ∈ operation.variableDefinitions, definition.name ≠ use.name).map
      fun use => ⟨.undefinedVariable use.name operation.name?, use.path⟩

/-- The uses of undefined variables in an operation at a path. -/
def Definition.undefined (path : Path) : Definition → List Finding
  | .operation defined => defined.undefined (defined.body.uses path)
  | .fragment _ => []

namespace Document

/-- The first fragment with a name, and its place among the definitions. -/
def placed? (document : Document) (name : String) : Option (Fragment × Nat) :=
  document.definitions.zipIdx.findSome? fun
    | (.fragment fragment, place) => if fragment.name = name then some (fragment, place) else none
    | (.operation _, _) => none

/-- The names that the fragment with a name spreads. -/
def spreadsOf (document : Document) (name : String) : List String :=
  (document.placed? name).elim [] fun entry => entry.1.body.spreads

def usesOf (document : Document) (name : String) : List VariableUse :=
  (document.placed? name).elim [] fun entry => entry.1.body.uses (Path.root.push (.index entry.2))

/-- The names of fragments that spreads lead to from an operation, each once, in the order in which
they are met depth first. -/
structure Visits (document : Document) (operation : Operation) (order : List String) : Prop where
  depthFirst : DepthFirst document.spreadsOf [] operation.body.spreads order
  only : ∀ other, DepthFirst document.spreadsOf [] operation.body.spreads other → other = order
  once : order.Nodup
  all : ∀ name, name ∈ order ↔ ∃ start ∈ operation.body.spreads,
    Relation.ReflTransGen (fun name other => other ∈ document.spreadsOf name) start name

theorem visits_of_depthFirst {document : Document} {operation : Operation} {order : List String}
    (visits : DepthFirst document.spreadsOf [] operation.body.spreads order) :
    document.Visits operation order where
  depthFirst := visits
  only _ others := others.eq_of_visits visits
  once := visits.nodup_and_new.1
  all := visits.mem_iff_reached

end Document

namespace NoUndefinedVariables

/-! ## What the rule looks at -/

section Collect

variable {β : Type} (atArgument : Path → Argument → List β)
  (atSpread : Path → FragmentSpread → List β)

def sayAt : Node × Path → List β
  | (.argument argument, path) => atArgument path argument
  | (.spread spread, path) => atSpread path spread
  | _ => []

theorem flatMap_ofArguments (path : Path) (given : List Argument) :
    (Outline.shownAll hidden (Outline.ofArguments path given)).flatMap
        (sayAt atArgument atSpread) = Body.collectArguments atArgument path given :=
  Outline.flatMap_shownAll_ofMembers (fun _ _ => List.append_nil _) path 0 given

theorem flatMap_ofDirectives (path : Path) (applied : List Directive) :
    (Outline.shownAll hidden (Outline.ofDirectives path applied)).flatMap
        (sayAt atArgument atSpread) = Body.collectDirectives atArgument path applied := by
  have each (place : Path) (directive : Directive) :
      ((Outline.ofDirective place directive).shown hidden).flatMap (sayAt atArgument atSpread) =
        Body.collectArguments atArgument (place.push .arguments) directive.arguments :=
    flatMap_ofArguments atArgument atSpread (place.push .arguments) directive.arguments
  exact Outline.flatMap_shownAll_ofMembers each path 0 applied

theorem flatMap_selectionSet (path : Path) (selected : List Selection) (children : List Outline) :
    (Outline.shownAll hidden [.branch (.selectionSet selected) path children]).flatMap
        (sayAt atArgument atSpread) =
      (Outline.shownAll hidden children).flatMap (sayAt atArgument atSpread) := by
  rw [Outline.shownAll, Outline.shownAll, List.append_nil]
  rfl

mutual

theorem flatMap_ofSelection (path : Path) : (selection : Selection) →
    ((Outline.ofSelection path selection).shown hidden).flatMap (sayAt atArgument atSpread) =
      Body.collectSelection atArgument atSpread path selection
  | .field field => flatMap_ofField path field
  | .spread _ => List.append_nil _
  | .inline fragment => flatMap_ofInline path fragment

theorem flatMap_ofField (path : Path) : (field : Field) →
    ((Outline.ofField path field).shown hidden).flatMap (sayAt atArgument atSpread) =
      Body.collectField atArgument atSpread path field
  | ⟨alias?, name, given, applied, selected⟩ => by
      have inner : ((Outline.ofField path ⟨alias?, name, given, applied, selected⟩).shown
          hidden).flatMap (sayAt atArgument atSpread) =
            (Outline.shownAll hidden (Outline.ofArguments (path.push .arguments) given ++
              Outline.ofDirectives (path.push .directives) applied ++
              [.branch (.selectionSet selected) (path.push .selectionSet)
                (Outline.ofSelections (path.push .selectionSet) 0 selected)])).flatMap
              (sayAt atArgument atSpread) := rfl
      rw [inner, Outline.shownAll_append, Outline.shownAll_append, List.flatMap_append,
        List.flatMap_append, flatMap_ofArguments, flatMap_ofDirectives, flatMap_selectionSet,
        flatMap_ofSelections (path.push .selectionSet) 0 selected, Body.collectField]

theorem flatMap_ofInline (path : Path) : (fragment : InlineFragment) →
    ((Outline.ofInline path fragment).shown hidden).flatMap (sayAt atArgument atSpread) =
      Body.collectInline atArgument atSpread path fragment
  | ⟨typeCondition?, applied, selected⟩ => by
      have inner : ((Outline.ofInline path ⟨typeCondition?, applied, selected⟩).shown
          hidden).flatMap (sayAt atArgument atSpread) =
            (Outline.shownAll hidden (Outline.ofDirectives (path.push .directives) applied ++
              [.branch (.selectionSet selected) (path.push .selectionSet)
                (Outline.ofSelections (path.push .selectionSet) 0 selected)])).flatMap
              (sayAt atArgument atSpread) := rfl
      rw [inner, Outline.shownAll_append, List.flatMap_append, flatMap_ofDirectives,
        flatMap_selectionSet, flatMap_ofSelections (path.push .selectionSet) 0 selected,
        Body.collectInline]

theorem flatMap_ofSelections (path : Path) (place : Nat) : (selections : List Selection) →
    (Outline.shownAll hidden (Outline.ofSelections path place selections)).flatMap
        (sayAt atArgument atSpread) =
      Body.collectSelections atArgument atSpread path place selections
  | [] => rfl
  | selection :: selections => by
      rw [Outline.ofSelections, Outline.shownAll, List.flatMap_append,
        flatMap_ofSelection (path.push (.index place)) selection,
        flatMap_ofSelections path (place + 1) selections, Body.collectSelections]

end

theorem flatMap_ofVariableDefinitions (path : Path) (parts : List VariableDefinition) :
    (Outline.shownAll hidden (Outline.ofVariableDefinitions path parts)).flatMap
      (sayAt atArgument atSpread) = [] :=
  Outline.flatMap_shownAll_ofMembers_eq_nil (fun _ _ => rfl) path 0 parts

/-- The rule looks at the arguments and the spreads of bodies. -/
theorem flatMap_ofDefinition (path : Path) (definition : Definition) :
    (Outline.shownAll hidden (Outline.ofDefinition path definition).children).flatMap
        (sayAt atArgument atSpread) = definition.body.collect atArgument atSpread path := by
  cases definition with
  | operation operation =>
      rw [Outline.ofDefinition, Outline.ofOperation, Outline.children, Outline.ofSelectionSet,
        Outline.shownAll_append, Outline.shownAll_append, List.flatMap_append, List.flatMap_append,
        flatMap_ofVariableDefinitions, flatMap_ofDirectives, flatMap_selectionSet,
        flatMap_ofSelections, List.nil_append]
      rfl
  | fragment fragment =>
      rw [Outline.ofDefinition, Outline.ofFragment, Outline.children, Outline.ofSelectionSet,
        Outline.shownAll_append, List.flatMap_append, flatMap_ofDirectives, flatMap_selectionSet,
        flatMap_ofSelections]
      rfl

end Collect

theorem usesIn_eq (path : Path) (definition : Definition) :
    usesIn path definition = definition.body.uses path := by
  have same : usesAt = sayAt (fun place argument =>
      argument.value.occurrences.map fun occurrence => ⟨occurrence.2, place⟩) fun _ _ => [] := by
    funext ⟨node, place⟩
    cases node with
    | argument argument =>
        rw [usesAt, variablesAt, ← Value.map_snd_occurrences, List.map_map]
        rfl
    | _ => rfl
  rw [usesIn, same, flatMap_ofDefinition, Body.uses]

theorem spreadsIn_eq (definition : Definition) :
    spreadsIn definition = definition.body.spreads := by
  have same : (fun entry : Node × Path => (spreadAt? entry.1).toList) =
      sayAt (fun _ _ => []) fun _ spread => [spread.name] := by
    funext ⟨node, place⟩
    cases node <;> rfl
  rw [← filterMap_shownAll .root, List.filterMap_eq_flatMap_toList, same, flatMap_ofDefinition,
    Body.spreads]

theorem undefined_eq (operation : Operation) (uses : List VariableUse) :
    undefined operation uses = operation.undefined uses := by
  rw [undefined, Operation.undefined]
  refine congrArg _ (List.filter_congr fun use _ => ?_)
  rw [Bool.eq_iff_iff]
  simp [VariableDefinition.declares]

/-! ## The fragments of a document -/

/-- A name stands for the first fragment that has it. -/
theorem find?_fragments (document : Document) (name : String) :
    Named.find? ((fragmentsAt document.definitions).foldl Named.insertNew []) name =
      (document.placed? name).map fun entry =>
        fragmentUses (Path.root.push (.index entry.2)) entry.1 := by
  rw [Named.find?_foldl_insertNew]
  change Named.find? (fragmentsAt document.definitions) name = _
  rw [fragmentsAt, Document.placed?]
  generalize document.definitions.zipIdx = entries
  induction entries with
  | nil => rfl
  | cons entry entries ih =>
      rcases entry with ⟨operation | fragment, place⟩
      · exact ih
      · have called : HasName.name (fragmentUses (Path.root.push (.index place)) fragment) =
            fragment.name := rfl
        rw [List.filterMap_cons, List.findSome?_cons]
        dsimp only
        rw [Named.find?, List.find?_cons, called]
        by_cases same : fragment.name = name
        · rw [decide_eq_true same, if_pos same]
          rfl
        · rw [decide_eq_false same, if_neg same]
          exact ih

theorem onward_eq (document : Document) :
    onward ((fragmentsAt document.definitions).foldl Named.insertNew []) = document.spreadsOf := by
  funext name
  rw [onward, find?_fragments, Document.spreadsOf]
  cases document.placed? name with
  | none => rfl
  | some entry => exact spreadsIn_eq (.fragment entry.1)

theorem inDefinition_eq : inDefinition = Definition.undefined := by
  funext path definition
  cases definition with
  | operation operation =>
      rw [inDefinition, undefined_eq, usesIn_eq]
      rfl
  | fragment fragment => rfl

/-- What is found in the fragments that were searched, in the order of their names. -/
theorem inFragments_eq {document : Document} {operation : Operation} {order : List String}
    (isReach : reach ((fragmentsAt document.definitions).foldl Named.insertNew []) []
        (spreadsIn (.operation operation)) =
      order.filterMap (Named.find? ((fragmentsAt document.definitions).foldl Named.insertNew []))) :
    inFragments ((fragmentsAt document.definitions).foldl Named.insertNew [])
        (operationUses operation) =
      order.flatMap fun name => operation.undefined (document.usesOf name) := by
  rw [inFragments, operationUses, isReach, List.filterMap_eq_flatMap_toList, List.flatMap_assoc]
  refine List.flatMap_congr fun name _ => ?_
  rw [find?_fragments, Document.usesOf]
  cases document.placed? name with
  | none => rfl
  | some entry =>
      rw [Option.map_some, Option.toList_some, List.flatMap_singleton, undefined_eq]
      exact congrArg _ (usesIn_eq _ (.fragment entry.1))

end NoUndefinedVariables

namespace Validation

/-- The rule on undefined variables reports each use of a variable that an operation does not
define: first those in the operations themselves, then, for each operation, those in the fragments
that spreads lead to, which are visited depth first and once each. In an argument, each occurrence
of a variable is a use of it, and they come in source order. -/
theorem reports_undefined_variables (schema : Schema) (document : Document) :
    (∀ value : Value, value.Enumerates value.occurrences) ∧
      ∃ order : Operation → List String,
        (∀ operation, document.Visits operation (order operation)) ∧
          (validate schema none (.rule .noUndefinedVariables) document).reports =
            (document.inDefinitions Definition.undefined ++
              document.operations.flatMap fun operation =>
                (order operation).flatMap fun name =>
                  operation.undefined (document.usesOf name)).map Finding.diagnostic := by
  obtain ⟨order, holds⟩ := Classical.skolem.mp fun operation : Operation =>
    NoUndefinedVariables.exists_depthFirst
      ((NoUndefinedVariables.fragmentsAt document.definitions).foldl Named.insertNew []) []
      (NoUndefinedVariables.spreadsIn (.operation operation)) [] fun _ => Iff.rfl
  refine ⟨Value.enumerates_occurrences, order, fun operation => ?_, ?_⟩
  · have visits := (holds operation).1
    rw [NoUndefinedVariables.onward_eq, NoUndefinedVariables.spreadsIn_eq] at visits
    exact Document.visits_of_depthFirst visits
  · have leads := NoUndefinedVariables.leads document NoUndefinedVariables.State.start
    rw [reports_of_leads schema document .noUndefinedVariables (fun _ _ _ => rfl) rfl leads,
      NoUndefinedVariables.inDefinition_eq, List.flatMap_map]
    simp only [NoUndefinedVariables.inFragments_eq (holds _).2]

end Validation

end QueryCheck
