import QueryCheck.Proofs.Traversal.Stream

/-!
# Inside of definitions

Rules that keep something in mind between nodes rely on the shape of a document:
arguments stand at the head of the field or directive that owns them and nowhere
else, and definitions do not contain definitions. This module states that shape,
gives the steps by which a traversal that is not stopped is put together from its
parts, and lists the nodes that a visitor is shown if it always passes over nodes of
some kinds. Apart from the paths to them, these nodes do not depend on where in a
document they stand.
-/

namespace QueryCheck

namespace Node

def arguments? : Node → Option (List Argument)
  | field selected => some selected.arguments
  | directive used => some used.arguments
  | _ => none

/-- Whether a node stands inside of definitions and has no arguments. -/
def isPlain : Node → Bool
  | variableDefinition _ | selectionSet _ | spread _ | inline _ => true
  | _ => false

def isInside : Node → Bool
  | document _ | operation _ | fragment _ => false
  | _ => true

end Node

def Document.inDefinitions {ο : Type} (found : Path → Definition → List ο) (document : Document) :
    List ο :=
  document.definitions.zipIdx.flatMap fun entry => found (Path.root.push (.index entry.2)) entry.1

/-- What does not depend on paths is found in each definition for itself. -/
theorem Document.map_inDefinitions {ο β : Type} {found : Path → Definition → List ο} {view : ο → β}
    {bare : Definition → List β} (same : ∀ path definition, (found path definition).map view =
      bare definition) (document : Document) :
    (document.inDefinitions found).map view = document.definitions.flatMap bare := by
  rw [inDefinitions, List.map_flatMap]
  simp only [same]
  rw [← List.flatMap_map Prod.fst bare, List.zipIdx_map_fst]

namespace Outline

def children : Outline → List Outline
  | .branch _ _ children => children

/-- The outline of a node inside of a definition. Arguments are not counted as such, but come with
the node that has them. -/
inductive Inner : Outline → Prop where
  | owner {node : Node} {path : Path} {arguments : List Argument} {others : List Outline}
      (owns : node.arguments? = some arguments) (inner : ∀ child ∈ others, Inner child) :
      Inner (.branch node path (ofArguments (path.push .arguments) arguments ++ others))
  | plain {node : Node} {path : Path} {children : List Outline} (plain : node.isPlain = true)
      (inner : ∀ child ∈ children, Inner child) : Inner (.branch node path children)

/-! ## The shape of definitions -/

theorem forall_mem_ofMembers {α : Type} {holds : Outline → Prop} {outline : Path → α → Outline}
    (each : ∀ path member, holds (outline path member)) (path : Path) (place : Nat)
    (members : List α) : ∀ child ∈ ofMembers outline path place members, holds child := by
  induction members generalizing place with
  | nil => exact nofun
  | cons member members ih => exact List.forall_mem_cons.mpr ⟨each _ member, ih (place + 1)⟩

theorem inner_ofDirective (path : Path) (directive : Directive) :
    (ofDirective path directive).Inner := by
  have inner := @Inner.owner (.directive directive) path directive.arguments [] rfl nofun
  rwa [List.append_nil] at inner

theorem inner_ofDirectives (path : Path) (directives : List Directive) :
    ∀ child ∈ ofDirectives path directives, child.Inner :=
  forall_mem_ofMembers inner_ofDirective path 0 directives

theorem inner_ofSpread (path : Path) (spread : FragmentSpread) : (ofSpread path spread).Inner :=
  .plain rfl (inner_ofDirectives _ spread.directives)

mutual

theorem inner_ofSelection (path : Path) :
    (selection : Selection) → (ofSelection path selection).Inner
  | .field field => inner_ofField path field
  | .spread spread => inner_ofSpread path spread
  | .inline fragment => inner_ofInline path fragment

theorem inner_ofField (path : Path) : (field : Field) → (ofField path field).Inner
  | ⟨alias?, name, arguments, directives, selections⟩ => by
      have selected : Inner (.branch (.selectionSet selections) (path.push .selectionSet)
          (ofSelections (path.push .selectionSet) 0 selections)) :=
        .plain rfl (inner_ofSelections _ 0 selections)
      rw [ofField, List.append_assoc]
      refine .owner rfl (List.forall_mem_append.mpr ⟨inner_ofDirectives _ directives, ?_⟩)
      exact List.forall_mem_singleton.mpr selected

theorem inner_ofInline (path : Path) : (fragment : InlineFragment) → (ofInline path fragment).Inner
  | ⟨typeCondition?, directives, selections⟩ => by
      have selected : Inner (.branch (.selectionSet selections) (path.push .selectionSet)
          (ofSelections (path.push .selectionSet) 0 selections)) :=
        .plain rfl (inner_ofSelections _ 0 selections)
      rw [ofInline]
      refine .plain rfl (List.forall_mem_append.mpr ⟨inner_ofDirectives _ directives, ?_⟩)
      exact List.forall_mem_singleton.mpr selected

theorem inner_ofSelections (path : Path) (place : Nat) :
    (selections : List Selection) → ∀ child ∈ ofSelections path place selections, child.Inner
  | [] => nofun
  | selection :: selections =>
      List.forall_mem_cons.mpr
        ⟨inner_ofSelection _ selection, inner_ofSelections path (place + 1) selections⟩

end

theorem inner_ofSelectionSet (path : Path) (selections : List Selection) :
    (ofSelectionSet path selections).Inner :=
  .plain rfl (inner_ofSelections path 0 selections)

theorem inner_ofVariableDefinition (path : Path) (definition : VariableDefinition) :
    (ofVariableDefinition path definition).Inner :=
  .plain rfl (inner_ofDirectives _ definition.directives)

/-- Below the top of a definition everything is inside of it. -/
theorem inner_of_mem_ofDefinition (path : Path) (definition : Definition) :
    ∀ child ∈ (ofDefinition path definition).children, child.Inner := by
  cases definition with
  | operation operation =>
      refine List.forall_mem_append.mpr ⟨List.forall_mem_append.mpr ⟨?_, ?_⟩, ?_⟩
      · exact forall_mem_ofMembers inner_ofVariableDefinition _ 0 operation.variableDefinitions
      · exact inner_ofDirectives _ operation.directives
      · exact List.forall_mem_singleton.mpr (inner_ofSelectionSet _ operation.selections)
  | fragment fragment =>
      refine List.forall_mem_append.mpr ⟨inner_ofDirectives _ fragment.directives, ?_⟩
      exact List.forall_mem_singleton.mpr (inner_ofSelectionSet _ fragment.selections)

/-! ## Traversals that are not stopped -/

section Leads

variable {σ ο : Type} {visitor : Visitor σ ο}

/-- A traversal of outlines leads from one state to another and puts something out. -/
def Leads (visitor : Visitor σ ο) (outlines : List Outline) (state after : σ) (out : List ο) :
    Prop :=
  visitAll visitor outlines state = ⟨.next, after, out⟩

namespace Leads

variable {state middle after : σ} {ahead out behind : List ο}

theorem nil (state : σ) : Leads visitor [] state state [] := rfl

theorem append {first second : List Outline} (before : Leads visitor first state middle ahead)
    (rest : Leads visitor second middle after behind) :
    Leads visitor (first ++ second) state after (ahead ++ behind) := by
  induction first generalizing state ahead with
  | nil =>
      cases before
      exact rest
  | cons outline first ih =>
      by_cases stop : (outline.visit visitor state).flow = .stop
      · rw [Leads, visitAll_of_stop stop] at before
        rw [before] at stop
        cases stop
      · rw [Leads, visitAll_of_next stop] at before
        rw [Leads, List.cons_append, visitAll_of_next stop]
        cases inner : visitAll visitor first (outline.visit visitor state).state with
        | mk flow last said =>
            rw [inner] at before
            cases before
            rw [ih inner, List.append_assoc]
            rfl

variable {node : Node} {path : Path} {children : List Outline}

/-- A node that is gone through. -/
theorem branch {inside last : σ}
    (entered : visitor ⟨.enter, node, path⟩ state = ⟨.next, inside, ahead⟩)
    (inner : Leads visitor children inside last out)
    (left : visitor ⟨.leave, node, path⟩ last = ⟨.next, after, behind⟩) :
    Leads visitor [.branch node path children] state after (ahead ++ out ++ behind) := by
  rw [Leads] at inner
  simp only [Leads, visitAll, visit, entered, inner, left, Reply.after, Reply.pass,
    List.append_nil]

/-- A node at which nothing is put out. -/
theorem through {inside last : σ} (entered : visitor ⟨.enter, node, path⟩ state = .pass inside)
    (inner : Leads visitor children inside last out)
    (left : visitor ⟨.leave, node, path⟩ last = .pass after) :
    Leads visitor [.branch node path children] state after out := by
  have whole := branch entered inner left
  rwa [List.nil_append, List.append_nil] at whole

/-- A node that is passed over. -/
theorem skip (entered : visitor ⟨.enter, node, path⟩ state = ⟨.skip, after, out⟩) :
    Leads visitor [.branch node path children] state after out := by
  simp only [Leads, visitAll, visit, entered, Reply.after, Reply.pass, List.append_nil]

/-- What is put out on the way through one outline. -/
theorem out_visit {outline : Outline} (leads : Leads visitor [outline] state after out) :
    (outline.visit visitor state).out = out :=
  congrArg Reply.out (visitAll_singleton.symm.trans leads)

/-- The members of a list one after the other, where the state depends on those before. -/
theorem ofMembers {α : Type} {outline : Path → α → Outline} {path : Path} (states : List α → σ)
    (said : Nat → List α → α → List ο)
    (each : ∀ before member, Leads visitor [outline (path.push (.index before.length)) member]
      (states before) (states (before ++ [member])) (said before.length before member))
    (members : List α) :
    Leads visitor (Outline.ofMembers outline path 0 members) (states []) (states members)
      (members.zipIdx.flatMap fun entry => said entry.2 (members.take entry.2) entry.1) := by
  have after (before rest : List α) :
      Leads visitor (Outline.ofMembers outline path before.length rest) (states before)
        (states (before ++ rest)) ((rest.zipIdx before.length).flatMap fun entry =>
          said entry.2 ((before ++ rest).take entry.2) entry.1) := by
    induction rest generalizing before with
    | nil =>
        rw [List.append_nil]
        exact nil _
    | cons member rest ih =>
        have later := ih (before ++ [member])
        rw [List.append_assoc, List.length_append] at later
        rw [List.zipIdx_cons, List.flatMap_cons, List.take_left]
        exact (each before member).append later
  exact after [] members

/-- Outlines at which nothing happens. -/
theorem silent {outlines : List Outline}
    (each : ∀ outline ∈ outlines, Leads visitor [outline] state state []) :
    Leads visitor outlines state state [] := by
  induction outlines with
  | nil => exact nil state
  | cons outline outlines ih =>
      obtain ⟨first, rest⟩ := List.forall_mem_cons.mp each
      exact first.append (ih rest)

/-- Outlines one after the other in states that need not be known. -/
theorem all {said : Outline → List ο} {outlines : List Outline}
    (each : ∀ outline ∈ outlines, ∀ state,
      ∃ after, Leads visitor [outline] state after (said outline))
    (state : σ) : ∃ after, Leads visitor outlines state after (outlines.flatMap said) := by
  induction outlines generalizing state with
  | nil => exact ⟨state, nil state⟩
  | cons outline outlines ih =>
      obtain ⟨first, rest⟩ := List.forall_mem_cons.mp each
      obtain ⟨middle, ahead⟩ := first state
      obtain ⟨after, behind⟩ := ih rest middle
      exact ⟨after, ahead.append behind⟩

/-- The members of a list in states that need not be known. -/
theorem members {α : Type} {outline : Path → α → Outline} {said : Path → α → List ο}
    (each : ∀ path member state,
      ∃ after, Leads visitor [outline path member] state after (said path member))
    (path : Path) (place : Nat) (items : List α) (state : σ) :
    ∃ after, Leads visitor (Outline.ofMembers outline path place items) state after
      ((items.zipIdx place).flatMap fun entry =>
        said (path.push (.index entry.2)) entry.1) := by
  induction items generalizing place state with
  | nil => exact ⟨state, nil state⟩
  | cons member items ih =>
      obtain ⟨middle, ahead⟩ := each (path.push (.index place)) member state
      obtain ⟨after, behind⟩ := ih (place + 1) middle
      exact ⟨after, ahead.append behind⟩

end Leads

end Leads

/-! ## The nodes that are shown -/

mutual

/-- The nodes of an outline with their paths, except what is inside of hidden ones. -/
def shown (hidden : Node → Bool) : Outline → List (Node × Path)
  | .branch node path children =>
      (node, path) :: if hidden node then [] else shownAll hidden children

def shownAll (hidden : Node → Bool) : List Outline → List (Node × Path)
  | [] => []
  | outline :: outlines => outline.shown hidden ++ shownAll hidden outlines

end

theorem shownAll_eq_flatMap {hidden : Node → Bool} (outlines : List Outline) :
    shownAll hidden outlines = outlines.flatMap (shown hidden) := by
  induction outlines with
  | nil => rfl
  | cons outline outlines ih => rw [shownAll, ih, List.flatMap_cons]

theorem shownAll_append {hidden : Node → Bool} (first second : List Outline) :
    shownAll hidden (first ++ second) = shownAll hidden first ++ shownAll hidden second := by
  simp only [shownAll_eq_flatMap, List.flatMap_append]

theorem mem_shownAll {hidden : Node → Bool} {outlines : List Outline} {entry : Node × Path} :
    entry ∈ shownAll hidden outlines ↔ ∃ outline ∈ outlines, entry ∈ outline.shown hidden := by
  rw [shownAll_eq_flatMap, List.mem_flatMap]

/-- What is said about the members of a list, one after the other. -/
theorem flatMap_shownAll_ofMembers {α β : Type} {hidden : Node → Bool}
    {say : Node × Path → List β} {outline : Path → α → Outline} {said : Path → α → List β}
    (each : ∀ path member, ((outline path member).shown hidden).flatMap say = said path member)
    (path : Path) (place : Nat) (members : List α) :
    (shownAll hidden (ofMembers outline path place members)).flatMap say =
      (members.zipIdx place).flatMap fun entry => said (path.push (.index entry.2)) entry.1 := by
  induction members generalizing place with
  | nil => rfl
  | cons member members ih =>
      rw [ofMembers, shownAll, List.flatMap_append, each, ih, List.zipIdx_cons, List.flatMap_cons]

/-- Nothing is said about a list if nothing is said about its members. -/
theorem flatMap_shownAll_ofMembers_eq_nil {α β : Type} {hidden : Node → Bool}
    {say : Node × Path → List β} {outline : Path → α → Outline}
    (each : ∀ path member, ((outline path member).shown hidden).flatMap say = [])
    (path : Path) (place : Nat) (members : List α) :
    (shownAll hidden (ofMembers outline path place members)).flatMap say = [] := by
  rw [flatMap_shownAll_ofMembers each]
  exact List.flatMap_eq_nil_iff.mpr fun _ _ => rfl

theorem isInside_of_mem_ofArguments {hidden : Node → Bool} {path : Path}
    {arguments : List Argument} {entry : Node × Path}
    (member : entry ∈ shownAll hidden (ofArguments path arguments)) :
    ∃ argument, entry.1 = .argument argument := by
  obtain ⟨outline, isArgument, isShown⟩ := mem_shownAll.mp member
  have each : ∀ child ∈ ofArguments path arguments, ∃ place argument,
      child = ofArgument place argument :=
    forall_mem_ofMembers (fun place argument => ⟨place, argument, rfl⟩) path 0 arguments
  obtain ⟨place, argument, rfl⟩ := each outline isArgument
  rw [ofArgument, shown, shownAll, ite_self, List.mem_singleton] at isShown
  exact ⟨argument, congrArg Prod.fst isShown⟩

/-- What is shown inside of definitions. -/
theorem isInside_of_inner {hidden : Node → Bool} {outline : Outline} (inner : outline.Inner) :
    ∀ entry ∈ outline.shown hidden, entry.1.isInside = true := by
  induction inner with
  | @owner node path arguments others owns _ ih =>
      intro entry member
      rw [shown] at member
      rcases List.mem_cons.mp member with rfl | below
      · cases node with
        | field field => rfl
        | directive directive => rfl
        | _ => cases owns
      · split at below
        · cases below
        · rw [shownAll_append] at below
          rcases List.mem_append.mp below with ahead | behind
          · obtain ⟨argument, isArgument⟩ := isInside_of_mem_ofArguments ahead
            rw [isArgument]
            rfl
          · obtain ⟨child, isChild, isShown⟩ := mem_shownAll.mp behind
            exact ih child isChild entry isShown
  | @plain node path children plain _ ih =>
      intro entry member
      rw [shown] at member
      rcases List.mem_cons.mp member with rfl | below
      · cases node with
        | variableDefinition definition => rfl
        | selectionSet selections => rfl
        | spread spread => rfl
        | inline fragment => rfl
        | _ => cases plain
      · split at below
        · cases below
        · obtain ⟨child, isChild, isShown⟩ := mem_shownAll.mp below
          exact ih child isChild entry isShown

/-- What is shown below the top of a definition is inside of it. -/
theorem isInside_of_mem_ofDefinition {hidden : Node → Bool} (path : Path)
    (definition : Definition) :
    ∀ entry ∈ shownAll hidden (ofDefinition path definition).children,
      entry.1.isInside = true := by
  intro entry member
  obtain ⟨child, isChild, isShown⟩ := mem_shownAll.mp member
  exact isInside_of_inner (inner_of_mem_ofDefinition path definition child isChild) entry isShown

/-- No document is shown in a definition. -/
theorem isDocument_of_mem_ofDefinition {hidden : Node → Bool} (path : Path)
    (definition : Definition) :
    ∀ entry ∈ (ofDefinition path definition).shown hidden, entry.1.isDocument = false := by
  intro entry member
  have below (member : entry ∈ shownAll hidden (ofDefinition path definition).children) :
      entry.1.isDocument = false := by
    have inside := isInside_of_mem_ofDefinition path definition entry member
    cases isNode : entry.1 with
    | document document =>
        rw [isNode] at inside
        cases inside
    | _ => rfl
  cases definition with
  | operation operation =>
      rcases List.mem_cons.mp member with rfl | inner
      · rfl
      · split at inner
        · cases inner
        · exact below inner
  | fragment fragment =>
      rcases List.mem_cons.mp member with rfl | inner
      · rfl
      · split at inner
        · cases inner
        · exact below inner

/-! ## Surveys -/

section Survey

variable {σ ο : Type} {visitor : Visitor σ ο} {hidden : Node → Bool}
  {states : List (Node × Path) → σ} {say : Node × Path → List ο}

/-- A visitor enters a node in a state that depends on the nodes it was shown before, passes over
it if it is hidden, and does nothing when it leaves it. -/
structure Surveys (visitor : Visitor σ ο) (hidden : Node → Bool) (states : List (Node × Path) → σ)
    (say : Node × Path → List ο) (entry : Node × Path) : Prop where
  enter : ∀ seen, visitor ⟨.enter, entry.1, entry.2⟩ (states seen) =
    ⟨if hidden entry.1 then .skip else .next, states (seen ++ [entry]), say entry⟩
  leave : hidden entry.1 = false → ∀ seen,
    visitor ⟨.leave, entry.1, entry.2⟩ (states seen) = .pass (states seen)

mutual

theorem leads_survey : (outline : Outline) →
    (∀ entry ∈ outline.shown hidden, Surveys visitor hidden states say entry) →
      ∀ seen, Leads visitor [outline] (states seen) (states (seen ++ outline.shown hidden))
        ((outline.shown hidden).flatMap say)
  | .branch node path children, surveys, seen => by
      rw [shown] at surveys ⊢
      obtain ⟨entered, inner⟩ := List.forall_mem_cons.mp surveys
      rw [List.flatMap_cons]
      cases isHidden : hidden node with
      | true =>
          rw [if_pos rfl, List.flatMap_nil, List.append_nil]
          exact .skip (by rw [entered.enter seen, if_pos isHidden])
      | false =>
          rw [if_neg Bool.false_ne_true]
          rw [isHidden, if_neg Bool.false_ne_true] at inner
          have inside := leads_surveyAll children inner (seen ++ [(node, path)])
          have enters := entered.enter seen
          rw [if_neg (by rw [isHidden]; exact Bool.false_ne_true)] at enters
          have through := Leads.branch enters inside (entered.leave isHidden _)
          rwa [List.append_nil, List.append_assoc] at through

theorem leads_surveyAll : (outlines : List Outline) →
    (∀ entry ∈ shownAll hidden outlines, Surveys visitor hidden states say entry) →
      ∀ seen, Leads visitor outlines (states seen) (states (seen ++ shownAll hidden outlines))
        ((shownAll hidden outlines).flatMap say)
  | [], _, seen => by
      rw [shownAll, List.append_nil]
      exact .nil _
  | outline :: outlines, surveys, seen => by
      rw [shownAll] at surveys ⊢
      obtain ⟨first, rest⟩ := List.forall_mem_append.mp surveys
      rw [List.flatMap_append, ← List.append_assoc]
      exact (leads_survey outline first seen).append (leads_surveyAll outlines rest _)

end

end Survey

def nodes (hidden : Node → Bool) (outline : Outline) : List Node :=
  (outline.shown hidden).map Prod.fst

variable {hidden : Node → Bool}

theorem nodes_branch (node : Node) (path : Path) (children : List Outline) :
    nodes hidden (.branch node path children) =
      node :: if hidden node then [] else children.flatMap (nodes hidden) := by
  rw [nodes, shown, shownAll_eq_flatMap, List.map_cons]
  split
  · rfl
  · rw [List.map_flatMap]
    rfl

theorem flatMap_nodes_ofMembers {α : Type} {outline : Path → α → Outline}
    (each : ∀ first second member,
      nodes hidden (outline first member) = nodes hidden (outline second member))
    (path other : Path) (place : Nat) (members : List α) :
    (ofMembers outline path place members).flatMap (nodes hidden) =
      members.flatMap fun member => nodes hidden (outline other member) := by
  induction members generalizing place with
  | nil => rfl
  | cons member members ih =>
      rw [ofMembers, List.flatMap_cons, List.flatMap_cons, ih, each _ other]

theorem nodes_ofArgument (first second : Path) (argument : Argument) :
    nodes hidden (ofArgument first argument) = nodes hidden (ofArgument second argument) := by
  simp only [ofArgument, nodes_branch]

theorem flatMap_nodes_ofArguments (first second : Path) (arguments : List Argument) :
    (ofArguments first arguments).flatMap (nodes hidden) =
      (ofArguments second arguments).flatMap (nodes hidden) := by
  simp only [ofArguments, flatMap_nodes_ofMembers nodes_ofArgument _ .root]

theorem nodes_ofDirective (first second : Path) (directive : Directive) :
    nodes hidden (ofDirective first directive) = nodes hidden (ofDirective second directive) := by
  simp only [ofDirective, nodes_branch, flatMap_nodes_ofArguments _ .root]

theorem flatMap_nodes_ofDirectives (first second : Path) (directives : List Directive) :
    (ofDirectives first directives).flatMap (nodes hidden) =
      (ofDirectives second directives).flatMap (nodes hidden) := by
  simp only [ofDirectives, flatMap_nodes_ofMembers nodes_ofDirective _ .root]

theorem nodes_ofSpread (first second : Path) (spread : FragmentSpread) :
    nodes hidden (ofSpread first spread) = nodes hidden (ofSpread second spread) := by
  simp only [ofSpread, nodes_branch, flatMap_nodes_ofDirectives _ .root]

mutual

theorem nodes_ofSelection (first second : Path) :
    (selection : Selection) →
      nodes hidden (ofSelection first selection) = nodes hidden (ofSelection second selection)
  | .field field => nodes_ofField first second field
  | .spread spread => nodes_ofSpread first second spread
  | .inline fragment => nodes_ofInline first second fragment

theorem nodes_ofField (first second : Path) :
    (field : Field) → nodes hidden (ofField first field) = nodes hidden (ofField second field)
  | ⟨alias?, name, arguments, directives, selections⟩ => by
      simp only [ofField, nodes_branch, List.flatMap_append, List.flatMap_singleton,
        flatMap_nodes_ofArguments _ .root, flatMap_nodes_ofDirectives _ .root,
        flatMap_nodes_ofSelections (first.push .selectionSet) (second.push .selectionSet) 0 0
          selections]

theorem nodes_ofInline (first second : Path) :
    (fragment : InlineFragment) →
      nodes hidden (ofInline first fragment) = nodes hidden (ofInline second fragment)
  | ⟨typeCondition?, directives, selections⟩ => by
      simp only [ofInline, nodes_branch, List.flatMap_append, List.flatMap_singleton,
        flatMap_nodes_ofDirectives _ .root,
        flatMap_nodes_ofSelections (first.push .selectionSet) (second.push .selectionSet) 0 0
          selections]

theorem flatMap_nodes_ofSelections (first second : Path) (place other : Nat) :
    (selections : List Selection) →
      (ofSelections first place selections).flatMap (nodes hidden) =
        (ofSelections second other selections).flatMap (nodes hidden)
  | [] => rfl
  | selection :: selections => by
      rw [ofSelections, ofSelections, List.flatMap_cons, List.flatMap_cons,
        nodes_ofSelection (first.push (.index place)) (second.push (.index other)) selection,
        flatMap_nodes_ofSelections first second (place + 1) (other + 1) selections]

end

theorem nodes_ofSelectionSet (first second : Path) (selections : List Selection) :
    nodes hidden (ofSelectionSet first selections) =
      nodes hidden (ofSelectionSet second selections) := by
  rw [ofSelectionSet, ofSelectionSet, nodes_branch, nodes_branch,
    flatMap_nodes_ofSelections first second 0 0]

theorem nodes_ofVariableDefinition (first second : Path) (definition : VariableDefinition) :
    nodes hidden (ofVariableDefinition first definition) =
      nodes hidden (ofVariableDefinition second definition) := by
  simp only [ofVariableDefinition, nodes_branch, flatMap_nodes_ofDirectives _ .root]

/-- The nodes of a definition do not depend on its place. -/
theorem nodes_ofDefinition (first second : Path) (definition : Definition) :
    nodes hidden (ofDefinition first definition) =
      nodes hidden (ofDefinition second definition) := by
  cases definition with
  | operation operation =>
      simp only [ofDefinition, ofOperation, nodes_branch, List.flatMap_append,
        List.flatMap_singleton, ofVariableDefinitions, flatMap_nodes_ofDirectives _ .root,
        flatMap_nodes_ofMembers nodes_ofVariableDefinition _ .root, nodes_ofSelectionSet _ .root]
  | fragment fragment =>
      simp only [ofDefinition, ofFragment, nodes_branch, List.flatMap_append,
        List.flatMap_singleton, flatMap_nodes_ofDirectives _ .root, nodes_ofSelectionSet _ .root]

end Outline

end QueryCheck
