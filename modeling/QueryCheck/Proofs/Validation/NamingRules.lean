import Mathlib.Data.List.Induction
import QueryCheck.Proofs.Traversal.Inside
import QueryCheck.Validation.RuleSet

/-!
# What the rules on names find

Four rules refuse a name that was used before in the same list: of the operations, of
the fragments, of the variables of an operation, or of the arguments of a field or a
directive. What they find is said here without the names they keep on the way: a
member of such a list is refused if a member before it has its name. The two other
rules on names, on operations without a name and on the fragments that are spread,
look at each node for itself.
-/

namespace QueryCheck

/-! ## Repeated names -/

namespace UsedNames

variable {α : Type}

/-- The names that are kept after the given ones were used. -/
def gather (names : List String) : List String :=
  names.foldl (fun used name => if used.contains name then used else used ++ [name]) []

theorem gather_append (names : List String) (name : String) :
    gather (names ++ [name]) =
      if (gather names).contains name then gather names else gather names ++ [name] := by
  rw [gather, List.foldl_append]
  rfl

theorem mem_gather {names : List String} {name : String} :
    name ∈ gather names ↔ name ∈ names := by
  induction names using List.reverseRecOn with
  | nil => exact Iff.rfl
  | append_singleton names last ih =>
      rw [gather_append, List.mem_append, List.mem_singleton, ← ih]
      split
      case isTrue known =>
        refine ⟨Or.inl, ?_⟩
        rintro (before | rfl)
        · exact before
        · exact List.contains_iff_mem.mp known
      case isFalse => rw [List.mem_append, List.mem_singleton]

theorem useAndSkip_gather (names : List String) (name : String) (problem : Problem) (path : Path) :
    useAndSkip (gather names) name problem path =
      ⟨.skip, gather (names ++ [name]), if name ∈ names then [⟨problem, path⟩] else []⟩ := by
  have known : (gather names).contains name = true ↔ name ∈ names :=
    List.contains_iff_mem.trans mem_gather
  rw [useAndSkip, use, gather_append]
  by_cases before : name ∈ names
  · simp only [known.mpr before, before, if_true]
  · have new : (gather names).contains name = false := by
      rwa [← Bool.not_eq_true, known]
    simp only [new, before, Bool.false_eq_true, if_false]

def again (name? : α → Option String) (problem : String → Problem) (before : List α) (member : α)
    (path : Path) : List Finding :=
  match name? member with
  | none => []
  | some name => if name ∈ before.filterMap name? then [⟨problem name, path⟩] else []

/-- The members of the list at a path whose names members before them have. -/
def repeats (name? : α → Option String) (problem : String → Problem) (path : Path)
    (members : List α) : List Finding :=
  members.zipIdx.flatMap fun entry =>
    again name? problem (members.take entry.2) entry.1 (path.push (.index entry.2))

/-- The names that are repeated in a list, once for each time after the first. -/
def repeated (names : List String) : List String :=
  names.zipIdx.flatMap fun entry => if entry.1 ∈ names.take entry.2 then [entry.1] else []

/-- What is said about each member of a list from those before it, with one more member. -/
theorem flatMap_zipIdx_append {β : Type} (said : Nat → List α → α → List β) (members : List α)
    (last : α) :
    ((members ++ [last]).zipIdx.flatMap fun entry =>
        said entry.2 ((members ++ [last]).take entry.2) entry.1) =
      (members.zipIdx.flatMap fun entry => said entry.2 (members.take entry.2) entry.1) ++
        said members.length members last := by
  rw [List.zipIdx_append, List.flatMap_append, Nat.zero_add, List.zipIdx_singleton,
    List.flatMap_singleton, List.take_left]
  refine congrArg (· ++ _) (List.flatMap_congr ?_)
  intro entry member
  have bound : entry.2 ≤ members.length :=
    Nat.le_of_lt (Nat.zero_add members.length ▸ (List.mem_zipIdx member).2.1)
  rw [List.take_append_of_le_length bound]

theorem repeated_append (names : List String) (last : String) :
    repeated (names ++ [last]) = repeated names ++ if last ∈ names then [last] else [] :=
  flatMap_zipIdx_append (fun _ before name => if name ∈ before then [name] else []) names last

/-- A name is repeated once less than it is used. -/
theorem count_repeated (names : List String) (name : String) :
    (repeated names).count name = names.count name - 1 := by
  induction names using List.reverseRecOn with
  | nil => rfl
  | append_singleton names last ih =>
      rw [repeated_append, List.count_append, ih, List.count_append]
      by_cases same : last = name
      · subst same
        by_cases member : last ∈ names
        · have positive := List.count_pos_iff.mpr member
          rw [if_pos member, List.count_singleton_self]
          omega
        · rw [if_neg member, List.count_eq_zero_of_not_mem member, List.count_singleton_self]
          rfl
      · have other : [last].count name = 0 := by
          simp [same]
        split
        · omega
        · rw [other]
          rfl

theorem repeated_eq_nil_iff {names : List String} : repeated names = [] ↔ names.Nodup := by
  rw [List.nodup_iff_count_le_one, List.eq_nil_iff_forall_not_mem]
  refine forall_congr' fun name => ?_
  rw [← List.count_eq_zero, count_repeated]
  omega

/-- The problems with repeated names depend on the names alone. -/
theorem map_problem_repeats (name? : α → Option String) (problem : String → Problem) (path : Path)
    (members : List α) :
    (repeats name? problem path members).map Finding.problem =
      (repeated (members.filterMap name?)).map problem := by
  induction members using List.reverseRecOn with
  | nil => rfl
  | append_singleton members last ih =>
      have split : repeats name? problem path (members ++ [last]) =
          repeats name? problem path members ++
            again name? problem members last (path.push (.index members.length)) :=
        flatMap_zipIdx_append (fun place before member =>
          again name? problem before member (path.push (.index place))) members last
      rw [split, List.map_append, ih, List.filterMap_append, again]
      cases named : name? last with
      | none => simp only [List.filterMap_cons, named, List.filterMap_nil, List.append_nil,
          List.map_nil]
      | some name =>
          simp only [List.filterMap_cons, named, List.filterMap_nil, repeated_append,
            List.map_append]
          split <;> rfl

def answer (name? : α → Option String) (problem : String → Problem) (member : α) (path : Path)
    (used : List String) : Reply (List String) Finding :=
  match name? member with
  | none => ⟨.skip, used, []⟩
  | some name => useAndSkip used name (problem name) path

theorem answer_gather (name? : α → Option String) (problem : String → Problem) (before : List α)
    (member : α) (path : Path) :
    answer name? problem member path (gather (before.filterMap name?)) =
      ⟨.skip, gather ((before ++ [member]).filterMap name?),
        again name? problem before member path⟩ := by
  rw [answer, again, List.filterMap_append]
  cases named : name? member with
  | none => simp only [List.filterMap_cons, named, List.filterMap_nil, List.append_nil]
  | some name => simp only [List.filterMap_cons, named, List.filterMap_nil, useAndSkip_gather]

/-- A rule that refuses repeated names finds them in a list that it starts with. -/
theorem leads_repeats {visitor : Visitor (List String) Finding} {outline : Path → α → Outline}
    {name? : α → Option String} {problem : String → Problem}
    (each : ∀ path member used after out,
      answer name? problem member path used = ⟨.skip, after, out⟩ →
        Outline.Leads visitor [outline path member] used after out)
    (path : Path) (members : List α) :
    Outline.Leads visitor (Outline.ofMembers outline path 0 members) []
      (gather (members.filterMap name?)) (repeats name? problem path members) := by
  refine Outline.Leads.ofMembers (fun before => gather (before.filterMap name?))
    (fun place before member => again name? problem before member (path.push (.index place)))
    ?_ members
  intro before member
  exact each _ member _ _ _ (answer_gather name? problem before member _)

end UsedNames

/-! ## Operations and fragments -/

namespace Definition

def operationName? : Definition → Option String
  | operation defined => defined.name?
  | fragment _ => none

def fragmentName? : Definition → Option String
  | operation _ => none
  | fragment defined => some defined.name

end Definition

/-- What the rule on the names of operations finds. -/
theorem UniqueOperationNames.leads (document : Document) (used : List String) :
    ∃ after, Outline.Leads visitor [Outline.ofDocument document] used after
      (UsedNames.repeats Definition.operationName? .repeatedOperation .root
        document.definitions) := by
  refine ⟨_, .through rfl (UsedNames.leads_repeats ?_ .root document.definitions) rfl⟩
  intro path definition used after out answered
  cases definition with
  | operation operation =>
      refine .skip (Eq.trans ?_ answered)
      rw [UsedNames.answer, Definition.operationName?, visitor]
      cases operation.name? with
      | none => rfl
      | some name => rfl
  | fragment fragment => exact .skip answered

/-- What the rule on the names of fragments finds. -/
theorem UniqueFragmentNames.leads (document : Document) (used : List String) :
    ∃ after, Outline.Leads visitor [Outline.ofDocument document] used after
      (UsedNames.repeats Definition.fragmentName? .repeatedFragment .root
        document.definitions) := by
  refine ⟨_, .through rfl (UsedNames.leads_repeats ?_ .root document.definitions) rfl⟩
  intro path definition used after out answered
  cases definition with
  | operation operation => exact .skip answered
  | fragment fragment => exact .skip answered

/-! ## Variables and arguments -/

namespace UniqueVariableNames

def inDefinition (path : Path) : Definition → List Finding
  | .operation operation =>
      UsedNames.repeats (fun definition => some definition.name) .repeatedVariable
        (path.push .variableDefinitions) operation.variableDefinitions
  | .fragment _ => []

theorem leads_ofDefinition (path : Path) (definition : Definition) (used : List String) :
    ∃ after, Outline.Leads visitor [Outline.ofDefinition path definition] used after
      (inDefinition path definition) := by
  cases definition with
  | operation operation =>
      have named : Outline.Leads visitor (Outline.ofVariableDefinitions
          (path.push .variableDefinitions) operation.variableDefinitions) [] _
          (inDefinition path (.operation operation)) :=
        UsedNames.leads_repeats (fun _ _ _ _ _ answered => .skip answered) _ _
      have directives (used : List String) : Outline.Leads visitor (Outline.ofDirectives
          (path.push .directives) operation.directives) used used [] :=
        .silent (Outline.forall_mem_ofMembers (fun _ _ => .skip rfl) _ 0 operation.directives)
      have selections (used : List String) : Outline.Leads visitor [Outline.ofSelectionSet
          (path.push .selectionSet) operation.selections] used used [] := .skip rfl
      have inner := (named.append (directives _)).append (selections _)
      rw [List.append_nil, List.append_nil] at inner
      exact ⟨_, .through rfl inner rfl⟩
  | fragment fragment => exact ⟨used, .skip rfl⟩

/-- What the rule on the names of variables finds. -/
theorem leads (document : Document) (used : List String) :
    ∃ after, Outline.Leads visitor [Outline.ofDocument document] used after
      (document.inDefinitions inDefinition) := by
  obtain ⟨after, inner⟩ :=
    Outline.Leads.members leads_ofDefinition .root 0 document.definitions used
  exact ⟨after, .through rfl inner rfl⟩

end UniqueVariableNames

namespace UniqueArgumentNames

def hidden : Node → Bool
  | .variableDefinition _ => true
  | _ => false

def ofNode (entry : Node × Path) : List Finding :=
  match entry.1.arguments? with
  | some arguments =>
      UsedNames.repeats (fun argument => some argument.name) .repeatedArgument
        (entry.2.push .arguments) arguments
  | none => []

def inDefinition (path : Path) (definition : Definition) : List Finding :=
  ((Outline.ofDefinition path definition).shown hidden).flatMap ofNode

theorem flatMap_ofArguments (passed : Node → Bool) (path : Path) (arguments : List Argument) :
    (Outline.shownAll passed (Outline.ofArguments path arguments)).flatMap ofNode = [] := by
  refine List.flatMap_eq_nil_iff.mpr ?_
  intro entry member
  obtain ⟨argument, isArgument⟩ := Outline.isInside_of_mem_ofArguments member
  rw [ofNode, isArgument]
  rfl

theorem leads_all {outlines : List Outline}
    (each : ∀ outline ∈ outlines, ∀ used, ∃ after,
      Outline.Leads visitor [outline] used after ((outline.shown hidden).flatMap ofNode))
    (used : List String) :
    ∃ after, Outline.Leads visitor outlines used after
      ((Outline.shownAll hidden outlines).flatMap ofNode) := by
  rw [Outline.shownAll_eq_flatMap, List.flatMap_assoc]
  exact Outline.Leads.all each used

/-- Inside of definitions, each list of arguments is looked at for itself. -/
theorem leads_inner {outline : Outline} (inner : outline.Inner) (used : List String) :
    ∃ after, Outline.Leads visitor [outline] used after
      ((outline.shown hidden).flatMap ofNode) := by
  induction inner generalizing used with
  | @owner node path arguments others owns _ ih =>
      have named : Outline.Leads visitor (Outline.ofArguments (path.push .arguments) arguments) []
          (UsedNames.gather (arguments.filterMap fun argument => some argument.name))
          (ofNode (node, path)) := by
        rw [ofNode, owns]
        exact UsedNames.leads_repeats (fun _ _ _ _ _ answered => .skip answered) _ _
      obtain ⟨after, rest⟩ := leads_all ih
        (UsedNames.gather (arguments.filterMap fun argument => some argument.name))
      have inside : Outline.Leads visitor
          (Outline.ofArguments (path.push .arguments) arguments ++ others) [] after
          (ofNode (node, path) ++ (Outline.shownAll hidden
            (Outline.ofArguments (path.push .arguments) arguments ++ others)).flatMap ofNode) := by
        rw [Outline.shownAll_append, List.flatMap_append, flatMap_ofArguments, List.nil_append]
        exact named.append rest
      cases node with
      | field field => exact ⟨after, .through rfl inside rfl⟩
      | directive directive => exact ⟨after, .through rfl inside rfl⟩
      | _ => cases owns
  | @plain node path children plain _ ih =>
      obtain ⟨after, inside⟩ := leads_all ih used
      cases node with
      | variableDefinition definition => exact ⟨used, .skip rfl⟩
      | selectionSet selections => exact ⟨after, .through rfl inside rfl⟩
      | spread spread => exact ⟨after, .through rfl inside rfl⟩
      | inline fragment => exact ⟨after, .through rfl inside rfl⟩
      | _ => cases plain

theorem leads_ofDefinition (path : Path) (definition : Definition) (used : List String) :
    ∃ after, Outline.Leads visitor [Outline.ofDefinition path definition] used after
      (inDefinition path definition) := by
  have inner := Outline.inner_of_mem_ofDefinition path definition
  obtain ⟨after, inside⟩ := leads_all (fun child member => leads_inner (inner child member)) used
  cases definition with
  | operation operation => exact ⟨after, .through rfl inside rfl⟩
  | fragment fragment => exact ⟨after, .through rfl inside rfl⟩

/-- What the rule on the names of arguments finds. -/
theorem leads (document : Document) (used : List String) :
    ∃ after, Outline.Leads visitor [Outline.ofDocument document] used after
      (document.inDefinitions inDefinition) := by
  obtain ⟨after, inner⟩ :=
    Outline.Leads.members leads_ofDefinition .root 0 document.definitions used
  exact ⟨after, .through rfl inner rfl⟩

end UniqueArgumentNames

/-! ## Nodes that are looked at one by one -/

namespace LoneAnonymousOperation

/-- What is found at a definition of a document with a number of operations. -/
def inDefinition (count : Nat) (path : Path) : Definition → List Finding
  | .operation operation =>
      if operation.name?.isNone && count > 1 then [⟨.anonymousOperation, path⟩] else []
  | .fragment _ => []

/-- What the rule on operations without a name finds. -/
theorem leads (document : Document) (count : Nat) :
    Outline.Leads visitor [Outline.ofDocument document] count document.operations.length
      (document.inDefinitions (inDefinition document.operations.length)) := by
  refine .through rfl (Outline.Leads.ofMembers (fun _ => document.operations.length)
    (fun place _ definition => inDefinition document.operations.length
      (Path.root.push (.index place)) definition) ?_ document.definitions) rfl
  intro before definition
  cases definition with
  | operation operation => exact .skip rfl
  | fragment fragment => exact .skip rfl

end LoneAnonymousOperation

namespace KnownFragmentNames

def hidden : Node → Bool
  | .spread _ | .variableDefinition _ | .argument _ | .directive _ => true
  | _ => false

def ofNode (known : List String) : Node × Path → List Finding
  | (.spread spread, path) =>
      if known.contains spread.name then [] else [⟨.unknownFragment spread.name, path⟩]
  | _ => []

def inDefinition (known : List String) (path : Path) (definition : Definition) : List Finding :=
  ((Outline.ofDefinition path definition).shown hidden).flatMap (ofNode known)

theorem surveys (known : List String) (entry : Node × Path) (nested : entry.1.isDocument = false) :
    Outline.Surveys visitor hidden (fun _ => known) (ofNode known) entry := by
  obtain ⟨node, path⟩ := entry
  cases node with
  | document document => cases nested
  | _ => exact ⟨fun _ => rfl, fun _ _ => rfl⟩

theorem leads_ofDefinition (known : List String) (path : Path) (definition : Definition) :
    Outline.Leads visitor [Outline.ofDefinition path definition] known known
      (inDefinition known path definition) := by
  refine Outline.leads_survey _ (fun entry member => surveys known entry ?_) []
  exact Outline.isDocument_of_mem_ofDefinition path definition entry member

/-- What the rule on the fragments that are spread finds. -/
theorem leads (document : Document) (known : List String) :
    Outline.Leads visitor [Outline.ofDocument document] known
      (document.fragments.map Fragment.name)
      (document.inDefinitions (inDefinition (document.fragments.map Fragment.name))) := by
  refine .through rfl (Outline.Leads.ofMembers (fun _ => document.fragments.map Fragment.name)
    (fun place _ definition => inDefinition (document.fragments.map Fragment.name)
      (Path.root.push (.index place)) definition) ?_ document.definitions) rfl
  intro before definition
  exact leads_ofDefinition _ _ definition

end KnownFragmentNames

end QueryCheck
