import Mathlib.Data.List.Induction
import QueryCheck.Proofs.Named
import QueryCheck.Proofs.Traversal.Inside
import QueryCheck.Validation.Rule.Variables

/-!
# What the rule on undefined variables finds

The rule collects uses of variables and names of fragments on its way through a
document and compares them at its end. Here the outcome is said from the definitions
themselves: first what is found in each operation, then what is found in the fragments
that it reaches. The search for these fragments is shown to find each fragment that
spreads lead to. As the rule passes over spreads, it does not see their directives.
-/

namespace QueryCheck

namespace NoUndefinedVariables

/-! ## One definition -/

def hidden : Node → Bool
  | .spread _ | .variableDefinition _ | .argument _ => true
  | _ => false

def variablesAt : Node → List String
  | .argument argument => argument.value.variableNames
  | _ => []

def spreadAt? : Node → Option String
  | .spread spread => some spread.name
  | _ => none

def usesAt (entry : Node × Path) : List VariableUse :=
  (variablesAt entry.1).map fun name => ⟨name, entry.2⟩

/-- The nodes that the rule looks at below the top of a definition. -/
def looked (definition : Definition) : List Node :=
  (Outline.ofDefinition .root definition).children.flatMap (Outline.nodes hidden)

def variablesIn (definition : Definition) : List String :=
  (looked definition).flatMap variablesAt

def spreadsIn (definition : Definition) : List String :=
  (looked definition).filterMap spreadAt?

/-- The uses of variables that the rule sees in a definition at a path. -/
def usesIn (path : Path) (definition : Definition) : List VariableUse :=
  (Outline.shownAll hidden (Outline.ofDefinition path definition).children).flatMap usesAt

def inDefinition (path : Path) : Definition → List Finding
  | .operation operation => undefined operation (usesIn path (.operation operation))
  | .fragment _ => []

/-- Where a definition stands does not matter for what the rule looks at. -/
theorem map_fst_shownAll (path : Path) (definition : Definition) :
    (Outline.shownAll hidden (Outline.ofDefinition path definition).children).map Prod.fst =
      looked definition := by
  have nodes : Outline.nodes hidden _ = Outline.nodes hidden _ :=
    Outline.nodes_ofDefinition path .root definition
  rw [Outline.shownAll_eq_flatMap, List.map_flatMap]
  cases definition with
  | operation operation =>
      rw [Outline.ofDefinition, Outline.ofDefinition, Outline.ofOperation, Outline.ofOperation,
        Outline.nodes_branch, Outline.nodes_branch] at nodes
      exact (List.cons.inj nodes).2
  | fragment fragment =>
      rw [Outline.ofDefinition, Outline.ofDefinition, Outline.ofFragment, Outline.ofFragment,
        Outline.nodes_branch, Outline.nodes_branch] at nodes
      exact (List.cons.inj nodes).2

theorem filterMap_shownAll (path : Path) (definition : Definition) :
    (Outline.shownAll hidden (Outline.ofDefinition path definition).children).filterMap
        (fun entry => spreadAt? entry.1) = spreadsIn definition := by
  rw [spreadsIn, ← map_fst_shownAll path, List.filterMap_map]
  rfl

theorem map_name_usesIn (path : Path) (definition : Definition) :
    (usesIn path definition).map VariableUse.name = variablesIn definition := by
  rw [usesIn, variablesIn, ← map_fst_shownAll path, List.map_flatMap, List.flatMap_map]
  simp only [usesAt, List.map_map, Function.comp_def, List.map_id']

theorem undefined_append (operation : Operation) (first second : List VariableUse) :
    undefined operation (first ++ second) =
      undefined operation first ++ undefined operation second := by
  rw [undefined, List.filter_append, List.map_append]
  rfl

theorem undefined_flatMap {α : Type} (operation : Operation) (uses : α → List VariableUse)
    (items : List α) :
    undefined operation (items.flatMap uses) =
      items.flatMap fun item => undefined operation (uses item) := by
  induction items with
  | nil => rfl
  | cons item items ih => rw [List.flatMap_cons, List.flatMap_cons, undefined_append, ih]

/-- In an operation the uses are compared at once. -/
theorem surveys_operation (operation : Operation) (operations : List OperationUses)
    (fragments : List FragmentUses) (entry : Node × Path) (inside : entry.1.isInside = true) :
    Outline.Surveys visitor hidden
      (fun seen =>
        ⟨some operation, [], seen.filterMap fun entry => spreadAt? entry.1, operations, fragments⟩)
      (fun entry => undefined operation (usesAt entry)) entry := by
  obtain ⟨node, path⟩ := entry
  cases node with
  | document document => cases inside
  | operation operation => cases inside
  | fragment fragment => cases inside
  | _ =>
      refine ⟨fun seen => ?_, fun _ _ => rfl⟩
      simp only [List.filterMap_append, List.filterMap_cons, List.filterMap_nil, spreadAt?,
        List.append_nil]
      rfl

/-- In a fragment the uses are collected. -/
theorem surveys_fragment (operations : List OperationUses) (fragments : List FragmentUses)
    (entry : Node × Path) (inside : entry.1.isInside = true) :
    Outline.Surveys visitor hidden
      (fun seen =>
        ⟨none, seen.flatMap usesAt, seen.filterMap fun entry => spreadAt? entry.1, operations,
          fragments⟩)
      (fun _ => []) entry := by
  obtain ⟨node, path⟩ := entry
  cases node with
  | document document => cases inside
  | operation operation => cases inside
  | fragment fragment => cases inside
  | _ =>
      refine ⟨fun seen => ?_, fun _ _ => rfl⟩
      simp only [List.filterMap_append, List.filterMap_cons, List.filterMap_nil, spreadAt?,
        List.flatMap_append, List.flatMap_cons, List.flatMap_nil, usesAt, variablesAt,
        List.map_nil, List.append_nil]
      rfl

/-! ## The whole document -/

def operationUses (operation : Operation) : OperationUses :=
  ⟨operation, spreadsIn (.operation operation)⟩

def fragmentUses (path : Path) (fragment : Fragment) : FragmentUses :=
  ⟨fragment.name, usesIn path (.fragment fragment), spreadsIn (.fragment fragment)⟩

/-- The fragments of a document at their paths. -/
def fragmentsAt (definitions : List Definition) : List FragmentUses :=
  definitions.zipIdx.filterMap fun
    | (.operation _, _) => none
    | (.fragment fragment, place) => some (fragmentUses (Path.root.push (.index place)) fragment)

def between (definitions : List Definition) : State :=
  ⟨none, [], [], (Document.operations ⟨definitions⟩).map operationUses,
    (fragmentsAt definitions).foldl Named.insertNew []⟩

theorem operations_append (before : List Definition) (definition : Definition) :
    Document.operations ⟨before ++ [definition]⟩ =
      Document.operations ⟨before⟩ ++ Document.operations ⟨[definition]⟩ :=
  List.filterMap_append

theorem fragmentsAt_append (before : List Definition) (definition : Definition) :
    fragmentsAt (before ++ [definition]) =
      fragmentsAt before ++
        match definition with
        | .operation _ => []
        | .fragment fragment =>
            [fragmentUses (Path.root.push (.index before.length)) fragment] := by
  rw [fragmentsAt, List.zipIdx_append, List.filterMap_append, Nat.zero_add]
  cases definition with
  | operation operation => rfl
  | fragment fragment => rfl

/-- The step from one definition to the next. -/
theorem leads_ofDefinition (before : List Definition) (definition : Definition) :
    Outline.Leads visitor
      [Outline.ofDefinition (Path.root.push (.index before.length)) definition] (between before)
      (between (before ++ [definition]))
      (inDefinition (Path.root.push (.index before.length)) definition) := by
  have inside : ∀ entry ∈ Outline.shownAll hidden _, _ := Outline.isInside_of_mem_ofDefinition
    (Path.root.push (.index before.length)) definition
  have spread := filterMap_shownAll (Path.root.push (.index before.length)) definition
  rw [between, between, operations_append, fragmentsAt_append]
  cases definition with
  | operation operation =>
      have inner := Outline.leads_surveyAll _ (fun entry member =>
        surveys_operation operation (between before).operations (between before).fragments entry
          (inside entry member)) []
      rw [← undefined_flatMap, List.nil_append, spread] at inner
      rw [List.append_nil, List.map_append]
      exact .through rfl inner rfl
  | fragment fragment =>
      have inner := Outline.leads_surveyAll _ (fun entry member =>
        surveys_fragment (between before).operations (between before).fragments entry
          (inside entry member)) []
      rw [List.nil_append, spread, List.flatMap_eq_nil_iff.mpr fun _ _ => rfl] at inner
      rw [List.foldl_append]
      refine .through rfl inner ?_
      simp only [Document.operations, List.filterMap_cons, List.filterMap_nil, List.append_nil]
      rfl

/-- What the rule on undefined variables finds. -/
theorem leads (document : Document) (state : State) :
    Outline.Leads visitor [Outline.ofDocument document] state (between document.definitions)
      (document.inDefinitions inDefinition ++
        (document.operations.map operationUses).flatMap
          (inFragments ((fragmentsAt document.definitions).foldl Named.insertNew []))) := by
  have inner := Outline.Leads.ofMembers between
    (fun place _ definition => inDefinition (Path.root.push (.index place)) definition)
    leads_ofDefinition document.definitions
  have left : visitor ⟨.leave, .document document, .root⟩ (between document.definitions) =
    ⟨.next, between document.definitions, _⟩ := rfl
  exact .branch rfl inner left

/-! ## The table of fragments -/

def bare (fragment : FragmentUses) : List String × List String :=
  (fragment.uses.map VariableUse.name, fragment.spreads)

theorem bare_fragmentUses (path : Path) (fragment : Fragment) :
    bare (fragmentUses path fragment) =
      (variablesIn (.fragment fragment), spreadsIn (.fragment fragment)) := by
  rw [bare, fragmentUses, map_name_usesIn]

/-- The fragments of a document with what they use. Their paths do not matter. -/
def table (document : Document) : List FragmentUses :=
  document.fragments.map (fragmentUses .root)

theorem find?_table (document : Document) (name : String) :
    Named.find? (table document) name =
      (document.fragments.find? (·.name = name)).map (fragmentUses .root) :=
  List.find?_map

theorem map_bare_find? (path : Path) (fragment : Fragment) (name : String) :
    (Named.find? [fragmentUses path fragment] name).map bare =
      if fragment.name = name then
        some (variablesIn (.fragment fragment), spreadsIn (.fragment fragment))
      else none := by
  have called : HasName.name (fragmentUses path fragment) = fragment.name := rfl
  rw [Named.find?, List.find?_singleton, ← bare_fragmentUses path, called]
  by_cases same : fragment.name = name
  · rw [if_pos (decide_eq_true same), if_pos same, Option.map_some]
  · rw [if_neg (by rwa [decide_eq_true_iff]), if_neg same, Option.map_none]

theorem find?_fragmentsAt (document : Document) (name : String) :
    (Named.find? ((fragmentsAt document.definitions).foldl Named.insertNew []) name).map bare =
      (Named.find? (table document) name).map bare := by
  obtain ⟨definitions⟩ := document
  rw [Named.find?_foldl_insertNew]
  change (Named.find? (fragmentsAt definitions) name).map bare = _
  induction definitions using List.reverseRecOn with
  | nil => rfl
  | append_singleton definitions last ih =>
      have fragments : table ⟨definitions ++ [last]⟩ = table ⟨definitions⟩ ++ table ⟨[last]⟩ := by
        rw [table, Document.fragments, List.filterMap_append, List.map_append]
        rfl
      rw [fragmentsAt_append, fragments, Named.find?, Named.find?, List.find?_append,
        List.find?_append, Option.map_or, Option.map_or]
      refine congrArg₂ Option.or ih ?_
      cases last with
      | operation operation => rfl
      | fragment fragment =>
          exact (map_bare_find? _ fragment name).trans (map_bare_find? .root fragment name).symm

/-! ## The fragments that are reached -/

/-- The search depends on what is found under the names only. -/
theorem reach_congr {first second : List FragmentUses}
    (same : ∀ name, (Named.find? first name).map bare = (Named.find? second name).map bare)
    (visited names : List String) :
    (reach first visited names).map bare = (reach second visited names).map bare := by
  fun_induction reach first visited names with
  | case1 visited => rw [reach]
  | case2 visited name rest seen ih => rw [reach, dif_pos seen, ih]
  | case3 visited name rest new missing ih =>
      have lacks : Named.find? second name = none := by
        have same := same name
        rw [missing] at same
        exact Option.map_eq_none_iff.mp same.symm
      rw [reach, dif_neg new]
      split
      case h_1 => exact ih
      case h_2 other found => rw [lacks] at found; cases found
  | case4 visited name rest new fragment found ih =>
      have same := same name
      rw [found] at same
      obtain ⟨other, isOther, alike⟩ := Option.map_eq_some_iff.mp same.symm
      have spreads : other.spreads = fragment.spreads := congrArg Prod.snd alike
      rw [reach, dif_neg new]
      split
      case h_1 missing => rw [isOther] at missing; cases missing
      case h_2 again isAgain =>
        rw [isOther] at isAgain
        cases isAgain
        rw [List.map_cons, List.map_cons, ih, alike, spreads]

/-- A fragment that spreads lead to from names. -/
inductive Reached (fragments : List FragmentUses) (names : List String) : FragmentUses → Prop where
  | named {name : String} {fragment : FragmentUses} (member : name ∈ names)
      (found : Named.find? fragments name = some fragment) : Reached fragments names fragment
  | onward {fragment next : FragmentUses} {name : String}
      (reached : Reached fragments names fragment) (member : name ∈ fragment.spreads)
      (found : Named.find? fragments name = some next) : Reached fragments names next

theorem Reached.trans {fragments : List FragmentUses} {names others : List String}
    {last : FragmentUses} (reached : Reached fragments others last)
    (starts : ∀ name ∈ others, ∀ fragment, Named.find? fragments name = some fragment →
      Reached fragments names fragment) : Reached fragments names last := by
  induction reached with
  | named member found => exact starts _ member _ found
  | onward _ member found ih => exact .onward ih member found

theorem reached_of_mem_reach {fragments : List FragmentUses} {visited names : List String} :
    ∀ fragment ∈ reach fragments visited names, Reached fragments names fragment := by
  fun_induction reach fragments visited names with
  | case1 visited => exact nofun
  | case2 visited name rest seen ih =>
      intro fragment member
      exact (ih fragment member).trans fun other isOther _ found =>
        .named (List.mem_cons_of_mem name isOther) found
  | case3 visited name rest new missing ih =>
      intro fragment member
      exact (ih fragment member).trans fun other isOther _ found =>
        .named (List.mem_cons_of_mem name isOther) found
  | case4 visited name rest new first found ih =>
      have start : Reached fragments (name :: rest) first := .named List.mem_cons_self found
      intro fragment member
      rcases List.mem_cons.mp member with rfl | later
      · exact start
      · refine (ih fragment later).trans ?_
        intro other isOther next isNext
        rcases List.mem_append.mp isOther with inFirst | inRest
        · exact .onward start inFirst isNext
        · exact .named (List.mem_cons_of_mem name inRest) isNext

/-- Names that were visited or whose fragments are among the given ones. -/
def Covered (fragments : List FragmentUses) (visited : List String) (result : List FragmentUses)
    (names : List String) : Prop :=
  ∀ name ∈ names, ∀ fragment, Named.find? fragments name = some fragment →
    name ∈ visited ∨ fragment ∈ result

theorem Covered.forget {fragments result wider : List FragmentUses} {visited names : List String}
    {name : String} (covered : Covered fragments (name :: visited) result names)
    (last : ∀ fragment, Named.find? fragments name = some fragment → fragment ∈ wider)
    (within : result ⊆ wider) : Covered fragments visited wider names := by
  intro other member fragment found
  rcases covered other member fragment found with isVisited | isFound
  · rcases List.mem_cons.mp isVisited with rfl | before
    · exact .inr (last fragment found)
    · exact .inl before
  · exact .inr (within isFound)

/-- The search leaves out no name that it is given, and none that is spread in what it finds. -/
theorem covered_reach (fragments : List FragmentUses) (visited names : List String) :
    Covered fragments visited (reach fragments visited names) names ∧
      ∀ found ∈ reach fragments visited names,
        Covered fragments visited (reach fragments visited names) found.spreads := by
  fun_induction reach fragments visited names with
  | case1 visited => exact ⟨nofun, nofun⟩
  | case2 visited name rest seen ih =>
      obtain ⟨inNames, inFound⟩ := ih
      have head := List.contains_iff_mem.mp seen
      exact ⟨List.forall_mem_cons.mpr ⟨fun _ _ => .inl head, inNames⟩, inFound⟩
  | case3 visited name rest new missing ih =>
      obtain ⟨inNames, inFound⟩ := ih
      have nothing (fragment : FragmentUses) (found : Named.find? fragments name = some fragment) :
          fragment ∈ reach fragments (name :: visited) rest := by
        rw [missing] at found
        cases found
      constructor
      · exact List.forall_mem_cons.mpr ⟨fun fragment found => .inr (nothing fragment found),
          inNames.forget nothing (List.Subset.refl _)⟩
      · intro found isFound
        exact (inFound found isFound).forget nothing (List.Subset.refl _)
  | case4 visited name rest new first found ih =>
      obtain ⟨inNames, inFound⟩ := ih
      have onlyFirst (fragment : FragmentUses)
          (isFragment : Named.find? fragments name = some fragment) :
          fragment ∈ first :: reach fragments (name :: visited) (first.spreads ++ rest) := by
        rw [found] at isFragment
        cases isFragment
        exact List.mem_cons_self
      have later := inNames.forget onlyFirst (List.subset_cons_self _ _)
      obtain ⟨inFirst, inRest⟩ := List.forall_mem_append.mp later
      constructor
      · exact List.forall_mem_cons.mpr
          ⟨fun fragment isFragment => .inr (onlyFirst fragment isFragment), inRest⟩
      · refine List.forall_mem_cons.mpr ⟨inFirst, fun other isOther => ?_⟩
        exact (inFound other isOther).forget onlyFirst (List.subset_cons_self _ _)

/-- The search finds the fragments that spreads lead to. -/
theorem mem_reach_iff {fragments : List FragmentUses} {names : List String}
    {fragment : FragmentUses} :
    fragment ∈ reach fragments [] names ↔ Reached fragments names fragment := by
  obtain ⟨inNames, inFound⟩ := covered_reach fragments [] names
  refine ⟨reached_of_mem_reach fragment, fun reached => ?_⟩
  induction reached with
  | named member found => exact (inNames _ member _ found).resolve_left List.not_mem_nil
  | onward _ member found ih => exact (inFound _ ih _ member _ found).resolve_left List.not_mem_nil

/-! ## The problems of a document -/

def problemsOf (operation : Operation) (names : List String) : List Problem :=
  (names.filter fun name => !VariableDefinition.declares operation.variableDefinitions name).map
    fun name => .undefinedVariable name operation.name?

theorem map_problem_undefined (operation : Operation) (uses : List VariableUse) :
    (undefined operation uses).map Finding.problem =
      problemsOf operation (uses.map VariableUse.name) := by
  rw [undefined, problemsOf, List.filter_map, List.map_map, List.map_map]
  rfl

def problemsReached (document : Document) (operation : Operation) : List Problem :=
  (reach (table document) [] (spreadsIn (.operation operation))).flatMap fun fragment =>
    problemsOf operation (bare fragment).1

/-- The problems in an operation, in the order in which they are found. -/
def problemsIn (operation : Operation) : List Problem :=
  problemsOf operation (variablesIn (.operation operation))

theorem flatMap_problemsOf_congr (operation : Operation) {first second : List FragmentUses}
    (same : first.map bare = second.map bare) :
    (first.flatMap fun fragment => problemsOf operation (bare fragment).1) =
      second.flatMap fun fragment => problemsOf operation (bare fragment).1 := by
  have view (fragments : List FragmentUses) :
      (fragments.flatMap fun fragment => problemsOf operation (bare fragment).1) =
        (fragments.map bare).flatMap fun names => problemsOf operation names.1 := by
    rw [List.flatMap_map]
  rw [view, same, ← view]

theorem map_problem_inFragments (document : Document) (operation : Operation) :
    (inFragments ((fragmentsAt document.definitions).foldl Named.insertNew [])
        (operationUses operation)).map Finding.problem =
      problemsReached document operation := by
  have same := reach_congr (find?_fragmentsAt document) [] (spreadsIn (.operation operation))
  rw [problemsReached, ← flatMap_problemsOf_congr operation same, inFragments, List.map_flatMap]
  simp only [map_problem_undefined]
  rfl

theorem flatMap_operations {β : Type} (found : Operation → List β) (document : Document) :
    (document.definitions.flatMap fun
      | .operation operation => found operation
      | .fragment _ => []) = document.operations.flatMap found := by
  obtain ⟨definitions⟩ := document
  induction definitions with
  | nil => rfl
  | cons definition definitions ih =>
      cases definition with
      | operation operation => exact congrArg _ ih
      | fragment fragment => exact ih

/-- The rule finds the problems in each operation, and then those in the fragments that each
operation reaches. -/
theorem exists_leads (document : Document) (state : State) :
    ∃ after findings, Outline.Leads visitor [Outline.ofDocument document] state after findings ∧
      findings.map Finding.problem =
        document.operations.flatMap problemsIn ++
          document.operations.flatMap (problemsReached document) := by
  refine ⟨_, _, leads document state, ?_⟩
  rw [List.map_append, ← flatMap_operations, List.map_flatMap, List.flatMap_map]
  refine congrArg₂ (· ++ ·) (Document.map_inDefinitions ?_ document) ?_
  · intro path definition
    cases definition with
    | operation operation =>
        rw [inDefinition, map_problem_undefined, map_name_usesIn]
        rfl
    | fragment fragment => rfl
  · simp only [map_problem_inFragments]

end NoUndefinedVariables

end QueryCheck
