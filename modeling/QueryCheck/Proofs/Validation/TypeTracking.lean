import QueryCheck.Proofs.Traversal.Chain
import QueryCheck.Proofs.Traversal.Stream
import QueryCheck.Validation.Tracked

/-!
# The definitions behind a node depend on where it stands

A visitor that is run with the stack of definitions may go below a node, skip it or
stop. The main result is that, whatever it does, the definitions it finds at an
event are those of the chain of the event, and that the stack is empty again at the
end unless the traversal was stopped.
-/

namespace QueryCheck

/-! ## The definitions behind a chain -/

namespace Node

/-- Whether a node refers to definitions of its own. -/
def hasFrame : Node → Bool
  | operation _ | fragment _ | inline _ | field _ | directive _ | argument _ => true
  | document _ | variableDefinition _ | selectionSet _ | spread _ => false

end Node

namespace Chain

/-- The type on which selections are made inside the nodes of a chain. -/
def outputType? (schema : Schema) : List Node → Option TypeDefinition
  | [] => none
  | .operation operation :: _ => (schema.root? operation.kind).map .object
  | .fragment fragment :: _ => schema.composite? fragment.typeCondition
  | .inline fragment :: outer =>
      match fragment.typeCondition? with
      | some name => schema.composite? name
      | none => outputType? schema outer
  | .field field :: outer =>
      (((outputType? schema outer).filter TypeDefinition.isComposite).bind fun type =>
        type.fields.find? (·.name = field.name)).bind fun definition =>
          schema.resolve? definition.type
  | _ :: outer => outputType? schema outer

def parentType? (schema : Schema) : List Node → Option TypeDefinition
  | [] | .operation _ :: _ | .fragment _ :: _ => none
  | .field _ :: outer => (outputType? schema outer).filter TypeDefinition.isComposite
  | _ :: outer => parentType? schema outer

def field? (schema : Schema) : List Node → Option FieldDefinition
  | [] | .operation _ :: _ | .fragment _ :: _ => none
  | .field field :: outer =>
      (parentType? schema (.field field :: outer)).bind fun type =>
        type.fields.find? (·.name = field.name)
  | _ :: outer => field? schema outer

/-- The definition of the directive at the end of a chain or around its last argument. -/
def directive? (schema : Schema) : List Node → Option DirectiveDefinition
  | [] | .operation _ :: _ | .fragment _ :: _ | .inline _ :: _ | .field _ :: _ => none
  | .directive directive :: _ => schema.directive? directive.name
  | _ :: outer => directive? schema outer

/-- Whether a directive is closer to the end of a chain than a field. -/
def inDirective : List Node → Bool
  | [] | .operation _ :: _ | .fragment _ :: _ | .inline _ :: _ | .field _ :: _ => false
  | .directive _ :: _ => true
  | _ :: outer => inDirective outer

def argument? (schema : Schema) : List Node → Option InputValueDefinition
  | .argument argument :: outer =>
      if inDirective outer then
        (directive? schema outer).bind (·.arguments.find? (·.name = argument.name))
      else (field? schema outer).bind (·.arguments.find? (·.name = argument.name))
  | [] | .operation _ :: _ | .fragment _ :: _ | .inline _ :: _ | .field _ :: _ |
    .directive _ :: _ => none
  | _ :: outer => argument? schema outer

/-- The definitions behind a chain together. -/
def frame (schema : Schema) (chain : List Node) : Frame :=
  ⟨parentType? schema chain, outputType? schema chain, field? schema chain,
    directive? schema chain, inDirective chain, argument? schema chain⟩

end Chain

namespace TypeInfo

/-- The stack after the nodes of a chain were entered. -/
def ofChain (schema : Schema) : List Node → TypeInfo
  | [] => .start schema
  | node :: outer => (ofChain schema outer).enterNode node

theorem schema_enterNode (info : TypeInfo) (node : Node) :
    (info.enterNode node).schema = info.schema := by
  cases node <;> rfl

theorem depth_enterNode (info : TypeInfo) (node : Node) :
    (info.enterNode node).depth = info.depth + if node.hasFrame then 1 else 0 := by
  cases node <;> rfl

/-- Leaving a node undoes entering it. -/
theorem leaveNode_enterNode (info : TypeInfo) (node : Node) :
    (info.enterNode node).leaveNode node = info := by
  cases node <;> rfl

@[simp]
theorem schema_ofChain (schema : Schema) (chain : List Node) :
    (ofChain schema chain).schema = schema := by
  induction chain with
  | nil => rfl
  | cons node outer ih => exact (schema_enterNode _ node).trans ih

theorem depth_ofChain (schema : Schema) (chain : List Node) :
    (ofChain schema chain).depth = chain.countP Node.hasFrame := by
  induction chain with
  | nil => rfl
  | cons node outer ih => rw [ofChain, depth_enterNode, ih, List.countP_cons]

/-- The frame of a node is that of the chain it ends. -/
theorem top_enterNode {info : TypeInfo} {outer : List Node}
    (top : info.top = Chain.frame info.schema outer) (node : Node) :
    (info.enterNode node).top = Chain.frame info.schema (node :: outer) := by
  cases node with
  | operation | fragment => rfl
  | inline fragment => exact congrArg (Frame.inline info.schema · fragment.typeCondition?) top
  | field field => exact congrArg (Frame.field info.schema · field.name) top
  | directive directive => exact congrArg (Frame.directive info.schema · directive.name) top
  | argument argument => exact congrArg (Frame.argument · argument.name) top
  | document | variableDefinition | selectionSet | spread => exact top

theorem top_ofChain (schema : Schema) (chain : List Node) :
    (ofChain schema chain).top = Chain.frame schema chain := by
  induction chain with
  | nil => rfl
  | cons node outer ih =>
      have inside : (ofChain schema outer).top =
          Chain.frame (ofChain schema outer).schema outer := by
        rw [schema_ofChain, ih]
      rw [ofChain, top_enterNode inside, schema_ofChain]

/-- The definitions behind an event of a document. -/
def ofEvent (schema : Schema) (document : Document) (event : Event) : TypeInfo :=
  ofChain schema ((Outline.ofDocument document).chainTo event.path)

theorem ofEvent_located {schema : Schema} {document : Document} {chain : List Node}
    {event : Event} (member : (chain, event) ∈ (Outline.ofDocument document).located []) :
    ofEvent schema document event = ofChain schema chain := by
  rw [ofEvent, ← Outline.chainTo_located (Outline.placed_ofDocument document) member,
    List.append_nil]

structure Behind (schema : Schema) (chain : List Node) (types : TypeInfo) : Prop where
  depth : types.depth = chain.countP Node.hasFrame
  parentType : types.top.parentType? = Chain.parentType? schema chain
  outputType : types.top.outputType? = Chain.outputType? schema chain
  field : types.top.field? = Chain.field? schema chain
  directive : types.top.directive? = Chain.directive? schema chain
  argument : types.top.argument? = Chain.argument? schema chain
  inputType : types.inputType? = (Chain.argument? schema chain).map (·.type)

theorem behind_ofChain (schema : Schema) (chain : List Node) :
    Behind schema chain (ofChain schema chain) := by
  have top := top_ofChain schema chain
  exact ⟨depth_ofChain schema chain, congrArg _ top, congrArg _ top, congrArg _ top,
    congrArg _ top, congrArg _ top, congrArg (fun frame => frame.argument?.map (·.type)) top⟩

end TypeInfo

/-! ## Traversals with and without a stack -/

namespace Tracked

variable {σ ο : Type}

def onto (types : TypeInfo) (state : Context × σ) : Tracked σ :=
  ⟨types, state.1, state.2⟩

/-- Runs a visitor with definitions that depend on the event alone. -/
def stepAt (absorb : Context → ο → Context) (visitor : TypeInfo → Visitor σ ο)
    (typesAt : Event → TypeInfo) : Visitor (Context × σ) ο := fun event state =>
  let answer := visitor (typesAt event) event state.2
  let context := answer.out.foldl absorb state.1
  ⟨if context.aborted then .stop else answer.flow, (context, answer.state), answer.out⟩

variable {absorb : Context → ο → Context} {visitor : TypeInfo → Visitor σ ο}
  {typesAt : Event → TypeInfo}

/-- A traversal that is not stopped goes on as the visitor says. -/
theorem flow_stepAt {event : Event} {state : Context × σ} {flow : Flow}
    (answered : (stepAt absorb visitor typesAt event state).flow = flow) (going : flow ≠ .stop) :
    (visitor (typesAt event) event state.2).flow = flow := by
  rw [stepAt] at answered
  split at answered
  case isTrue => exact absurd answered.symm going
  case isFalse => exact answered

/-- A reply with a stack is one without it, and unless it stops, the stack is as given. -/
def Balanced (types : TypeInfo) (reply : Reply (Tracked σ) ο) (other : Reply (Context × σ) ο) :
    Prop :=
  ∃ left, reply = other.map (onto left) ∧ (other.flow ≠ .stop → left = types)

section Balanced

variable {types : TypeInfo} {reply : Reply (Tracked σ) ο} {other : Reply (Context × σ) ο}

theorem Balanced.after (balanced : Balanced types reply other) (out : List ο) :
    Balanced types (reply.after out) (other.after out) := by
  obtain ⟨left, rfl, back⟩ := balanced
  exact ⟨left, rfl, back⟩

theorem Balanced.flow (balanced : Balanced types reply other) : reply.flow = other.flow := by
  obtain ⟨left, rfl, _⟩ := balanced
  rfl

theorem Balanced.out (balanced : Balanced types reply other) : reply.out = other.out := by
  obtain ⟨left, rfl, _⟩ := balanced
  rfl

theorem Balanced.state (balanced : Balanced types reply other) (going : other.flow ≠ .stop) :
    reply.state = onto types other.state := by
  obtain ⟨left, rfl, back⟩ := balanced
  rw [back going]
  rfl

/-- What the stack should be does not matter after a stop. -/
theorem Balanced.of_stop (balanced : Balanced types reply other) (stop : other.flow = .stop)
    (wanted : TypeInfo) : Balanced wanted reply other := by
  obtain ⟨left, same, _⟩ := balanced
  exact ⟨left, same, fun going => absurd stop going⟩

end Balanced

section Event

variable {node : Node} {path : Path} {types : TypeInfo}

/-- The frame of a node stays while the traversal is below it. -/
theorem enter_next (known : typesAt ⟨.enter, node, path⟩ = types.enterNode node)
    {state : Context × σ}
    (next : (stepAt absorb visitor typesAt ⟨.enter, node, path⟩ state).flow = .next) :
    Balanced (types.enterNode node)
      (step absorb visitor ⟨.enter, node, path⟩ (onto types state))
      (stepAt absorb visitor typesAt ⟨.enter, node, path⟩ state) := by
  refine ⟨types.enterNode node, ?_, fun _ => rfl⟩
  have flow := flow_stepAt next nofun
  rw [known] at flow
  simp only [step, stepAt, known, onto, Reply.map, flow, settle]

/-- The frame of a node is dropped if the traversal does not go below it. -/
theorem enter_skip (known : typesAt ⟨.enter, node, path⟩ = types.enterNode node)
    {state : Context × σ}
    (other : (stepAt absorb visitor typesAt ⟨.enter, node, path⟩ state).flow ≠ .next) :
    Balanced types (step absorb visitor ⟨.enter, node, path⟩ (onto types state))
      (stepAt absorb visitor typesAt ⟨.enter, node, path⟩ state) := by
  refine ⟨settle (types.enterNode node) node .enter
    (visitor (types.enterNode node) ⟨.enter, node, path⟩ state.2).flow, ?_, ?_⟩
  · simp only [stepAt, known]
    rfl
  · intro going
    have flow := flow_stepAt rfl going
    rw [known] at flow
    rw [flow]
    cases answer : (stepAt absorb visitor typesAt ⟨.enter, node, path⟩ state).flow with
    | next => exact absurd answer other
    | skip => exact types.leaveNode_enterNode node
    | stop => exact absurd answer going

/-- The frame of a node is dropped when the node is left. -/
theorem leave_balanced (known : typesAt ⟨.leave, node, path⟩ = types.enterNode node)
    (state : Context × σ) :
    Balanced types (step absorb visitor ⟨.leave, node, path⟩ (onto (types.enterNode node) state))
      (stepAt absorb visitor typesAt ⟨.leave, node, path⟩ state) := by
  refine ⟨(types.enterNode node).leaveNode node, ?_, fun _ => types.leaveNode_enterNode node⟩
  simp only [stepAt, known]
  rfl

end Event

/-- The definitions that are given for each event are those behind its chain. -/
def Known (typesAt : Event → TypeInfo) (schema : Schema) (places : List (List Node × Event)) :
    Prop :=
  ∀ place ∈ places, typesAt place.2 = TypeInfo.ofChain schema place.1

mutual

/-- A traversal keeps the stack balanced, and the definitions it finds are those of the chains. -/
theorem visit_balanced {schema : Schema} (chain : List Node) (state : Context × σ) :
    (outline : Outline) → Known typesAt schema (outline.located chain) →
      Balanced (.ofChain schema chain)
        (outline.visit (step absorb visitor) (onto (.ofChain schema chain) state))
        (outline.visit (stepAt absorb visitor typesAt) state)
  | .branch node path children, known => by
      rw [Outline.located] at known
      obtain ⟨entering, known⟩ := List.forall_mem_cons.mp known
      obtain ⟨inside, leaving⟩ := List.forall_mem_append.mp known
      have leaving := List.forall_mem_singleton.mp leaving
      by_cases next : (stepAt absorb visitor typesAt ⟨.enter, node, path⟩ state).flow = .next
      · have entered : Balanced (.ofChain schema (node :: chain)) _ _ := enter_next entering next
        have inner := visitAll_balanced (node :: chain)
          (stepAt absorb visitor typesAt ⟨.enter, node, path⟩ state).state children inside
        rw [← entered.state (next ▸ nofun)] at inner
        by_cases stop : (Outline.visitAll (stepAt absorb visitor typesAt) children
            (stepAt absorb visitor typesAt ⟨.enter, node, path⟩ state).state).flow = .stop
        · rw [Outline.visit_of_stop next stop,
            Outline.visit_of_stop (entered.flow.trans next) (inner.flow.trans stop), entered.out]
          exact (inner.of_stop stop _).after _
        · rw [Outline.visit_of_next next stop,
            Outline.visit_of_next (entered.flow.trans next) (inner.flow ▸ stop), entered.out,
            inner.out, inner.state stop]
          exact ((leave_balanced leaving _).after _).after _
      · have skipped := enter_skip entering next
        rw [Outline.visit_of_skip next, Outline.visit_of_skip (skipped.flow ▸ next)]
        exact skipped

theorem visitAll_balanced {schema : Schema} (chain : List Node) (state : Context × σ) :
    (outlines : List Outline) → Known typesAt schema (Outline.locatedAll chain outlines) →
      Balanced (.ofChain schema chain)
        (Outline.visitAll (step absorb visitor) outlines (onto (.ofChain schema chain) state))
        (Outline.visitAll (stepAt absorb visitor typesAt) outlines state)
  | [], _ => ⟨_, rfl, fun _ => rfl⟩
  | outline :: outlines, known => by
      rw [Outline.locatedAll] at known
      obtain ⟨ahead, behind⟩ := List.forall_mem_append.mp known
      have first := visit_balanced chain state outline ahead
      by_cases stop : (outline.visit (stepAt absorb visitor typesAt) state).flow = .stop
      · rw [Outline.visitAll_of_stop stop, Outline.visitAll_of_stop (first.flow.trans stop)]
        exact first
      · rw [Outline.visitAll_of_next stop, Outline.visitAll_of_next (first.flow ▸ stop), first.out,
          first.state stop]
        exact (visitAll_balanced chain _ outlines behind).after _

end

/-- A traversal of a document starts and ends without frames. -/
theorem visit_document (absorb : Context → ο → Context) (visitor : TypeInfo → Visitor σ ο)
    (schema : Schema) (limit? : Option Nat) (inner : σ) (document : Document) :
    Balanced (.start schema)
      ((Root.document document).visit (step absorb visitor) (.start schema limit? inner))
      ((Root.document document).visit (stepAt absorb visitor (.ofEvent schema document))
        (.start limit?, inner)) := by
  rw [Root.visit_document, Root.visit_document]
  refine visit_balanced [] (.start limit?, inner) (Outline.ofDocument document) ?_
  intro place member
  exact TypeInfo.ofEvent_located member

/-! ## What a visitor sees -/

/-- A call of a visitor: the definitions it was given, the event, and what it put out. -/
structure Sighting (ο : Type) where
  types : TypeInfo
  event : Event
  out : List ο

def watched (visitor : TypeInfo → Visitor σ ο) : TypeInfo → Visitor σ (Sighting ο) :=
  fun types event state =>
    let answer := visitor types event state
    ⟨answer.flow, answer.state, [⟨types, event, answer.out⟩]⟩

def absorbAll (absorb : Context → ο → Context) (context : Context) (sighting : Sighting ο) :
    Context :=
  sighting.out.foldl absorb context

theorem mirrors_watched (absorb : Context → ο → Context) (visitor : TypeInfo → Visitor σ ο) :
    Run.Mirrors id (step (absorbAll absorb) (watched visitor)) (step absorb visitor) :=
  ⟨fun _ _ => rfl, fun _ _ => rfl⟩

def sightings (absorb : Context → ο → Context) (visitor : TypeInfo → Visitor σ ο)
    (document : Document) (start : Tracked σ) : List (Sighting ο) :=
  ((Root.document document).visit (step (absorbAll absorb) (watched visitor)) start).out

/-- Watching a visitor does not change the traversal. -/
theorem flatMap_sightings (absorb : Context → ο → Context) (visitor : TypeInfo → Visitor σ ο)
    (document : Document) (start : Tracked σ) :
    (sightings absorb visitor document start).flatMap Sighting.out =
      ((Root.document document).visit (step absorb visitor) start).out := by
  refine ((mirrors_watched absorb visitor).out_visit ?_ (.document document) start).symm
  intro event state
  exact (List.append_nil _).symm

/-- A call gets the definitions that its event has in the document. -/
theorem types_of_mem_sightings {schema : Schema} {limit? : Option Nat} {inner : σ}
    {document : Document} {sighting : Sighting ο}
    (member : sighting ∈ sightings absorb visitor document (.start schema limit? inner)) :
    sighting.event ∈ (Outline.ofDocument document).events ∧
      sighting.types = .ofEvent schema document sighting.event := by
  have balanced := visit_document (absorbAll absorb) (watched visitor) schema limit? inner document
  rw [sightings, balanced.out, Run.out_visit] at member
  obtain ⟨event, isEvent, state, _, out⟩ :=
    Run.exists_of_mem_rows (Run.invariant_true _) trivial member
  cases List.mem_singleton.mp out
  exact ⟨isEvent, rfl⟩

/-- In every traversal of a document a visitor is given the definitions behind the chains of the
events, and the frames are dropped again. -/
structure Positional (absorb : Context → ο → Context) (visitor : TypeInfo → Visitor σ ο)
    (schema : Schema) (limit? : Option Nat) (inner : σ) (document : Document) : Prop where
  /-- The definitions in a call are those behind the node and the nodes around it. -/
  behind : ∀ sighting ∈ sightings absorb visitor document (.start schema limit? inner),
    ∃ chain, (chain, sighting.event) ∈ (Outline.ofDocument document).located [] ∧
      TypeInfo.Behind schema chain sighting.types
  /-- Entering and leaving a node show the same definitions. -/
  again : ∀ first ∈ sightings absorb visitor document (.start schema limit? inner),
    ∀ second ∈ sightings absorb visitor document (.start schema limit? inner),
      first.event.path = second.event.path → first.types = second.types
  /-- The calls are those of a traversal without frames. -/
  calls : sightings absorb visitor document (.start schema limit? inner) =
    ((Root.document document).visit
      (stepAt (absorbAll absorb) (watched visitor) (.ofEvent schema document))
      (.start limit?, inner)).out
  /-- What is put out in the calls is what the traversal puts out. -/
  out : (sightings absorb visitor document (.start schema limit? inner)).flatMap Sighting.out =
    ((Root.document document).visit (step absorb visitor) (.start schema limit? inner)).out
  /-- Unless the traversal is stopped, no frame is left. -/
  balanced :
    ((Root.document document).visit (step absorb visitor)
      (.start schema limit? inner)).flow ≠ .stop →
    ((Root.document document).visit (step absorb visitor)
      (.start schema limit? inner)).state.types.depth = 0

theorem positional (absorb : Context → ο → Context) (visitor : TypeInfo → Visitor σ ο)
    (schema : Schema) (limit? : Option Nat) (inner : σ) (document : Document) :
    Positional absorb visitor schema limit? inner document where
  behind sighting member := by
    obtain ⟨isEvent, types⟩ := types_of_mem_sightings member
    obtain ⟨chain, located⟩ := Outline.exists_located [] isEvent
    refine ⟨chain, located, ?_⟩
    rw [types, TypeInfo.ofEvent_located located]
    exact TypeInfo.behind_ofChain schema chain
  again first isFirst second isSecond samePath := by
    rw [(types_of_mem_sightings isFirst).2, (types_of_mem_sightings isSecond).2, TypeInfo.ofEvent,
      TypeInfo.ofEvent, samePath]
  calls := (visit_document (absorbAll absorb) (watched visitor) schema limit? inner document).out
  out := flatMap_sightings absorb visitor document _
  balanced going := by
    have balanced := visit_document absorb visitor schema limit? inner document
    rw [balanced.state (balanced.flow ▸ going)]
    rfl

end Tracked

end QueryCheck
