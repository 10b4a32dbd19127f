import QueryCheck.Traversal.Root

/-!
# Walks and outlines

A walk keeps one path, to which segments are added on the way down and from which
they are taken on the way back. An outline has a path at each of its nodes. The
main result is that a visitor is answered the same by both, wherever a traversal
starts. What carries it is that a walk through a part of a document that is not
stopped ends at the path at which it began, so that the next part is found at its
own path.
-/

namespace QueryCheck

namespace Reply

variable {σ ο : Type}

/-- The answer of a traversal in which a node is passed. Whether it was skipped is forgotten. -/
def passed (reply : Reply σ ο) : Reply σ ο :=
  ⟨if reply.flow = .stop then .stop else .next, reply.state, reply.out⟩

theorem after_after (reply : Reply σ ο) (first second : List ο) :
    (reply.after second).after first = reply.after (first ++ second) := by
  simp [Reply.after]

end Reply

/-! ## The cases of a traversal -/

namespace Outline

variable {σ ο : Type} {visitor : Visitor σ ο} {state : σ}

section Branch

variable {node : Node} {path : Path} {children : List Outline}

theorem visit_of_skip (skip : (visitor ⟨.enter, node, path⟩ state).flow ≠ .next) :
    (Outline.branch node path children).visit visitor state =
      visitor ⟨.enter, node, path⟩ state := by
  rw [visit]
  split
  case h_1 next => exact absurd next skip
  case h_2 => rfl

theorem visit_of_stop (next : (visitor ⟨.enter, node, path⟩ state).flow = .next)
    (stop : (visitAll visitor children (visitor ⟨.enter, node, path⟩ state).state).flow = .stop) :
    (Outline.branch node path children).visit visitor state =
      (visitAll visitor children (visitor ⟨.enter, node, path⟩ state).state).after
        (visitor ⟨.enter, node, path⟩ state).out := by
  simp only [visit, next, stop]

theorem visit_of_next (next : (visitor ⟨.enter, node, path⟩ state).flow = .next)
    (going : (visitAll visitor children (visitor ⟨.enter, node, path⟩ state).state).flow ≠ .stop) :
    (Outline.branch node path children).visit visitor state =
      ((visitor ⟨.leave, node, path⟩
        (visitAll visitor children (visitor ⟨.enter, node, path⟩ state).state).state).after
        (visitAll visitor children (visitor ⟨.enter, node, path⟩ state).state).out).after
        (visitor ⟨.enter, node, path⟩ state).out := by
  simp only [visit, next, Reply.after_after]

end Branch

variable {outline : Outline} {outlines : List Outline}

theorem visitAll_of_stop (stop : (outline.visit visitor state).flow = .stop) :
    visitAll visitor (outline :: outlines) state = outline.visit visitor state := by
  simp only [visitAll, stop]

theorem visitAll_of_next (going : (outline.visit visitor state).flow ≠ .stop) :
    visitAll visitor (outline :: outlines) state =
      (visitAll visitor outlines (outline.visit visitor state).state).after
        (outline.visit visitor state).out := by
  rw [visitAll]
  split
  case h_1 stop => exact absurd stop going
  case h_2 => rfl

/-- A list of outlines is never skipped. -/
theorem flow_visitAll (visitor : Visitor σ ο) (outlines : List Outline) (state : σ) :
    (visitAll visitor outlines state).flow = .stop ∨
      (visitAll visitor outlines state).flow = .next := by
  induction outlines generalizing state with
  | nil => exact .inr rfl
  | cons outline outlines ih =>
      by_cases stop : (outline.visit visitor state).flow = .stop
      · rw [visitAll_of_stop stop]
        exact .inl stop
      · rw [visitAll_of_next stop]
        exact ih _

theorem visitAll_singleton :
    visitAll visitor [outline] state = (outline.visit visitor state).passed := by
  by_cases stop : (outline.visit visitor state).flow = .stop
  · rw [visitAll_of_stop stop, Reply.passed, if_pos stop, ← stop]
  · rw [visitAll_of_next stop, Reply.passed, if_neg stop]
    simp [visitAll, Reply.pass, Reply.after]

theorem passed_visitAll :
    (visitAll visitor outlines state).passed = visitAll visitor outlines state := by
  rcases flow_visitAll visitor outlines state with stop | next
  · rw [Reply.passed, if_pos stop, ← stop]
  · rw [Reply.passed, if_neg (by rw [next]; decide), ← next]

section Append

variable {first second : List Outline}

theorem visitAll_append_of_stop (stop : (visitAll visitor first state).flow = .stop) :
    visitAll visitor (first ++ second) state = visitAll visitor first state := by
  induction first generalizing state with
  | nil => cases stop
  | cons outline outlines ih =>
      by_cases here : (outline.visit visitor state).flow = .stop
      · rw [List.cons_append, visitAll_of_stop here, visitAll_of_stop here]
      · rw [visitAll_of_next here] at stop
        rw [List.cons_append, visitAll_of_next here, visitAll_of_next here, ih stop]

theorem visitAll_append_of_next (going : (visitAll visitor first state).flow ≠ .stop) :
    visitAll visitor (first ++ second) state =
      (visitAll visitor second (visitAll visitor first state).state).after
        (visitAll visitor first state).out := by
  induction first generalizing state with
  | nil => rfl
  | cons outline outlines ih =>
      by_cases here : (outline.visit visitor state).flow = .stop
      · rw [visitAll_of_stop here] at going
        exact absurd here going
      · rw [visitAll_of_next here] at going
        rw [List.cons_append, visitAll_of_next here, visitAll_of_next here, ih going,
          Reply.after_after]
        rfl

end Append

end Outline

/-! ## The cases of a walk -/

namespace Walk

variable {σ ο : Type} {visitor : Visitor σ ο} {first second inner : Walk σ ο}
  {position : Position σ}

theorem andThen_of_stop (stop : (first position).flow = .stop) :
    first.andThen second position = first position := by
  simp only [andThen, stop]

theorem andThen_of_next (going : (first position).flow ≠ .stop) :
    first.andThen second position = (second (first position).state).after (first position).out := by
  rw [andThen]
  split
  case h_1 stop => exact absurd stop going
  case h_2 => rfl

section

variable {segment : PathSegment} {node : Node} {path : Path} {state : σ}

theorem child_of_stop (stop : (inner ⟨path.push segment, state⟩).flow = .stop) :
    child segment inner ⟨path, state⟩ = inner ⟨path.push segment, state⟩ := by
  simp only [child, stop]

theorem child_of_next (going : (inner ⟨path.push segment, state⟩).flow ≠ .stop) :
    child segment inner ⟨path, state⟩ =
      ⟨.next, ⟨(inner ⟨path.push segment, state⟩).state.path.parent,
        (inner ⟨path.push segment, state⟩).state.state⟩,
        (inner ⟨path.push segment, state⟩).out⟩ := by
  rw [child]
  split
  case h_1 stop => exact absurd stop going
  case h_2 => rfl

theorem node_of_skip (skip : (visitor ⟨.enter, node, path⟩ state).flow ≠ .next) :
    Walk.node visitor node inner ⟨path, state⟩ = call visitor .enter node ⟨path, state⟩ := by
  rw [Walk.node]
  split
  case h_1 next => exact absurd next skip
  case h_2 => rfl

theorem node_of_stop (next : (visitor ⟨.enter, node, path⟩ state).flow = .next)
    (stop : (inner ⟨path, (visitor ⟨.enter, node, path⟩ state).state⟩).flow = .stop) :
    Walk.node visitor node inner ⟨path, state⟩ =
      (inner ⟨path, (visitor ⟨.enter, node, path⟩ state).state⟩).after
        (visitor ⟨.enter, node, path⟩ state).out := by
  simp only [Walk.node, call, Reply.map, next, stop]

theorem node_of_next (next : (visitor ⟨.enter, node, path⟩ state).flow = .next)
    (going : (inner ⟨path, (visitor ⟨.enter, node, path⟩ state).state⟩).flow ≠ .stop) :
    Walk.node visitor node inner ⟨path, state⟩ =
      ((call visitor .leave node
        (inner ⟨path, (visitor ⟨.enter, node, path⟩ state).state⟩).state).after
        (inner ⟨path, (visitor ⟨.enter, node, path⟩ state).state⟩).out).after
        (visitor ⟨.enter, node, path⟩ state).out := by
  simp only [Walk.node, call, Reply.map, next, Reply.after_after]

end

end Walk

/-! ## Walks that come back -/

namespace Walk

variable {σ ο : Type}

/-- A walk from a path comes to an answer, and unless that is a stop it ends at the path. -/
def Returns (walk : Walk σ ο) (path : Path) (state : σ) (reply : Reply σ ο) : Prop :=
  ∃ last, walk ⟨path, state⟩ = reply.map (⟨last, ·⟩) ∧ (reply.flow ≠ .stop → last = path)

/-- From every path, a walk goes through the outline that is there. -/
def Follows (visitor : Visitor σ ο) (walk : Walk σ ο) (outline : Path → Outline) : Prop :=
  ∀ path state, walk.Returns path state ((outline path).visit visitor state)

def FollowsAll (visitor : Visitor σ ο) (walk : Walk σ ο) (outlines : Path → List Outline) : Prop :=
  ∀ path state, walk.Returns path state (Outline.visitAll visitor (outlines path) state)

section Returns

variable {walk next inner : Walk σ ο} {path : Path} {state : σ} {reply : Reply σ ο}

theorem Returns.of_eq (answer : walk ⟨path, state⟩ = reply.map (⟨path, ·⟩)) :
    walk.Returns path state reply :=
  ⟨path, answer, fun _ => rfl⟩

/-- What comes of a walk that is not stopped. -/
theorem Returns.eq (returns : walk.Returns path state reply) (going : reply.flow ≠ .stop) :
    walk ⟨path, state⟩ = reply.map (⟨path, ·⟩) := by
  obtain ⟨last, answer, back⟩ := returns
  rw [answer, back going]

theorem Returns.flow (returns : walk.Returns path state reply) :
    (walk ⟨path, state⟩).flow = reply.flow := by
  obtain ⟨last, answer, -⟩ := returns
  rw [answer]
  rfl

/-- Another walk comes to the same answer after something was put out. It may have gone on from
another state. -/
theorem Returns.after {origin : σ} {out : List ο} (returns : walk.Returns path state reply)
    (later : next ⟨path, origin⟩ = (walk ⟨path, state⟩).after out) :
    next.Returns path origin (reply.after out) := by
  obtain ⟨last, answer, back⟩ := returns
  refine ⟨last, ?_, back⟩
  rw [later, answer]
  rfl

/-- A walk below a segment that is not stopped comes back to where the segment was added. -/
theorem Returns.child {segment : PathSegment}
    (returns : inner.Returns (path.push segment) state reply) :
    (child segment inner).Returns path state reply.passed := by
  by_cases stop : reply.flow = .stop
  · have below := child_of_stop (returns.flow.trans stop)
    obtain ⟨last, answer, -⟩ := returns
    refine ⟨last, ?_, fun going => absurd (if_pos stop) going⟩
    rw [below, answer, Reply.passed, if_pos stop, Reply.map, stop]
    rfl
  · -- The inner walk ends at the segment, so the one that is taken off is the one that was added.
    refine .of_eq ?_
    rw [child_of_next (returns.flow ▸ stop), returns.eq stop, Reply.passed, if_neg stop]
    rfl

end Returns

/-! ## Walks through outlines

There is one lemma for each way in which walks are put together, and then one for each part of a
document. -/

section Follows

variable {visitor : Visitor σ ο} {walk : Walk σ ο} {outline : Path → Outline}
  {outlines : Path → List Outline}

theorem followsAll_done : FollowsAll visitor done fun _ => [] :=
  fun _ _ => .of_eq rfl

theorem Follows.child (follows : Follows visitor walk outline) (segment : PathSegment) :
    FollowsAll visitor (child segment walk) fun path => [outline (path.push segment)] := by
  intro path state
  rw [Outline.visitAll_singleton]
  exact (follows (path.push segment) state).child

theorem FollowsAll.child (follows : FollowsAll visitor walk outlines) (segment : PathSegment) :
    FollowsAll visitor (child segment walk) fun path => outlines (path.push segment) := by
  intro path state
  rw [← Outline.passed_visitAll]
  exact (follows (path.push segment) state).child

theorem FollowsAll.andThen {first second : Walk σ ο} {before after : Path → List Outline}
    (ahead : FollowsAll visitor first before) (behind : FollowsAll visitor second after) :
    FollowsAll visitor (first.andThen second) fun path => before path ++ after path := by
  intro path state
  have reached := ahead path state
  by_cases stop : (Outline.visitAll visitor (before path) state).flow = .stop
  · have halted := reached.flow.trans stop
    rw [Outline.visitAll_append_of_stop stop]
    obtain ⟨last, answer, back⟩ := reached
    exact ⟨last, (andThen_of_stop halted).trans answer, back⟩
  · -- The second walk starts from the same path, since the first came back to it.
    rw [Outline.visitAll_append_of_next stop]
    refine (behind path _).after ?_
    rw [andThen_of_next (reached.flow ▸ stop), reached.eq stop]
    rfl

/-- The node is left at the path at which it was entered, since the walk through its children came
back to it. -/
theorem FollowsAll.node (children : FollowsAll visitor walk outlines) (node : Node) :
    Follows visitor (Walk.node visitor node walk) fun path =>
      .branch node path (outlines path) := by
  intro path state
  by_cases next : (visitor ⟨.enter, node, path⟩ state).flow = .next
  · have inside := children path (visitor ⟨.enter, node, path⟩ state).state
    by_cases stop : (Outline.visitAll visitor (outlines path)
        (visitor ⟨.enter, node, path⟩ state).state).flow = .stop
    · rw [Outline.visit_of_stop next stop]
      exact inside.after (node_of_stop next (inside.flow.trans stop))
    · rw [Outline.visit_of_next next stop]
      refine .of_eq ?_
      rw [node_of_next next (inside.flow ▸ stop), inside.eq stop]
      rfl
  · rw [Outline.visit_of_skip next]
    exact .of_eq (node_of_skip next)

theorem Follows.members {α : Type} {walk : α → Walk σ ο} {outline : Path → α → Outline}
    (each : ∀ member, Follows visitor (walk member) (outline · member)) (place : Nat)
    (list : List α) :
    FollowsAll visitor (members walk place list) (Outline.ofMembers outline · place list) := by
  induction list generalizing place with
  | nil => exact followsAll_done
  | cons member rest ih => exact ((each member).child (.index place)).andThen (ih (place + 1))

end Follows

variable (visitor : Visitor σ ο)

theorem follows_ofArgument (argument : Argument) :
    Follows visitor (ofArgument visitor argument) (.ofArgument · argument) :=
  followsAll_done.node _

theorem followsAll_ofArguments (arguments : List Argument) :
    FollowsAll visitor (ofArguments visitor arguments) (Outline.ofArguments · arguments) :=
  Follows.members (follows_ofArgument visitor) 0 arguments

theorem follows_ofDirective (directive : Directive) :
    Follows visitor (ofDirective visitor directive) (.ofDirective · directive) :=
  ((followsAll_ofArguments visitor directive.arguments).child .arguments).node _

theorem followsAll_ofDirectives (directives : List Directive) :
    FollowsAll visitor (ofDirectives visitor directives) (Outline.ofDirectives · directives) :=
  Follows.members (follows_ofDirective visitor) 0 directives

theorem follows_ofSpread (spread : FragmentSpread) :
    Follows visitor (ofSpread visitor spread) (.ofSpread · spread) :=
  ((followsAll_ofDirectives visitor spread.directives).child .directives).node _

mutual

theorem follows_ofSelection :
    (selection : Selection) →
      Follows visitor (ofSelection visitor selection) (.ofSelection · selection)
  | .field field => follows_ofField field
  | .spread spread => follows_ofSpread visitor spread
  | .inline fragment => follows_ofInline fragment

theorem follows_ofField :
    (field : Field) → Follows visitor (ofField visitor field) (.ofField · field)
  | ⟨_, _, arguments, directives, selections⟩ =>
      ((followsAll_ofArguments visitor arguments).child .arguments
        |>.andThen ((followsAll_ofDirectives visitor directives).child .directives)
        |>.andThen (((followsAll_ofSelections 0 selections).node _).child .selectionSet)).node _

theorem follows_ofInline :
    (fragment : InlineFragment) → Follows visitor (ofInline visitor fragment) (.ofInline · fragment)
  | ⟨_, directives, selections⟩ =>
      ((followsAll_ofDirectives visitor directives).child .directives
        |>.andThen (((followsAll_ofSelections 0 selections).node _).child .selectionSet)).node _

theorem followsAll_ofSelections (place : Nat) :
    (selections : List Selection) →
      FollowsAll visitor (ofSelections visitor place selections)
        (Outline.ofSelections · place selections)
  | [] => followsAll_done
  | selection :: selections =>
      ((follows_ofSelection selection).child (.index place)).andThen
        (followsAll_ofSelections (place + 1) selections)

end

theorem follows_ofSelectionSet (selections : List Selection) :
    Follows visitor (ofSelectionSet visitor selections) (.ofSelectionSet · selections) :=
  (followsAll_ofSelections visitor 0 selections).node _

theorem follows_ofVariableDefinition (definition : VariableDefinition) :
    Follows visitor (ofVariableDefinition visitor definition)
      (.ofVariableDefinition · definition) :=
  ((followsAll_ofDirectives visitor definition.directives).child .directives).node _

theorem followsAll_ofVariableDefinitions (definitions : List VariableDefinition) :
    FollowsAll visitor (ofVariableDefinitions visitor definitions)
      (Outline.ofVariableDefinitions · definitions) :=
  Follows.members (follows_ofVariableDefinition visitor) 0 definitions

theorem follows_ofFragment (fragment : Fragment) :
    Follows visitor (ofFragment visitor fragment) (.ofFragment · fragment) :=
  ((followsAll_ofDirectives visitor fragment.directives).child .directives
    |>.andThen ((follows_ofSelectionSet visitor fragment.selections).child .selectionSet)).node _

theorem follows_ofOperation (operation : Operation) :
    Follows visitor (ofOperation visitor operation) (.ofOperation · operation) :=
  ((followsAll_ofVariableDefinitions visitor operation.variableDefinitions).child
      .variableDefinitions
    |>.andThen ((followsAll_ofDirectives visitor operation.directives).child .directives)
    |>.andThen ((follows_ofSelectionSet visitor operation.selections).child .selectionSet)).node _

theorem follows_ofDefinition :
    (definition : Definition) →
      Follows visitor (ofDefinition visitor definition) (.ofDefinition · definition)
  | .operation operation => follows_ofOperation visitor operation
  | .fragment fragment => follows_ofFragment visitor fragment

end Walk

/-! ## Traversals of the parts of a document -/

namespace Root

variable {σ ο : Type} (visitor : Visitor σ ο)

theorem returns_walk (root : Root) (state : σ) :
    (root.walk visitor).Returns .root state (root.course.visit visitor state) := by
  cases root with
  | document whole =>
      have definitions := Walk.Follows.members (Walk.follows_ofDefinition visitor) 0
        whole.definitions
      exact definitions.node (.document whole) .root state
  | definition part => exact Walk.follows_ofDefinition visitor part .root state
  | operation part => exact Walk.follows_ofOperation visitor part .root state
  | fragment part => exact Walk.follows_ofFragment visitor part .root state
  | variableDefinitions parts =>
      exact Walk.followsAll_ofVariableDefinitions visitor parts .root state
  | variableDefinition part => exact Walk.follows_ofVariableDefinition visitor part .root state
  | selectionSet parts => exact Walk.follows_ofSelectionSet visitor parts .root state
  | selection part => exact Walk.follows_ofSelection visitor part .root state
  | spread part => exact Walk.follows_ofSpread visitor part .root state
  | inline part => exact Walk.follows_ofInline visitor part .root state
  | field part => exact Walk.follows_ofField visitor part .root state
  | directives parts => exact Walk.followsAll_ofDirectives visitor parts .root state
  | directive part => exact Walk.follows_ofDirective visitor part .root state
  | arguments parts => exact Walk.followsAll_ofArguments visitor parts .root state
  | argument part => exact Walk.follows_ofArgument visitor part .root state

/-- A traversal that keeps one path answers like one that has a path at each node. -/
theorem visit_eq_course (root : Root) (state : σ) :
    root.visit visitor state = root.course.visit visitor state := by
  obtain ⟨last, answer, -⟩ := root.returns_walk visitor state
  rw [visit, answer]
  rfl

theorem visit_document (document : Document) (state : σ) :
    (Root.document document).visit visitor state =
      (Outline.ofDocument document).visit visitor state :=
  visit_eq_course visitor (.document document) state

end Root

end QueryCheck
