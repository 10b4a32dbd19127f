import Mathlib.Data.List.Basic
import Mathlib.Data.List.Nodup
import QueryCheck.Traversal.Root

/-!
# The events of a traversal

A traversal that is neither cut short nor told to skip goes through every node of
its course and meets each of them twice. The main result is that no two of these
events are the same, whatever part of a document the traversal starts at. It rests
on the paths: those of two nodes side by side are apart, and stay so further down.
-/

namespace QueryCheck

namespace Path

/-- The second path goes on from where the first one ends. -/
def Above (upper lower : Path) : Prop :=
  upper.steps <:+ lower.steps

def Apart (first second : Path) : Prop :=
  ¬first.Above second ∧ ¬second.Above first

theorem Above.refl (path : Path) : path.Above path :=
  List.suffix_refl _

theorem Above.trans {upper middle lower : Path} (first : upper.Above middle)
    (second : middle.Above lower) : upper.Above lower :=
  List.IsSuffix.trans first second

theorem above_push (path : Path) (segment : PathSegment) : path.Above (path.push segment) :=
  List.suffix_cons _ _

theorem not_push_above (path : Path) (segment : PathSegment) : ¬(path.push segment).Above path := by
  intro above
  have shorter : path.steps.length + 1 ≤ path.steps.length := List.IsSuffix.length_le above
  exact Nat.lt_irrefl _ shorter

theorem above_or_above {first second lower : Path} (left : first.Above lower)
    (right : second.Above lower) : first.Above second ∨ second.Above first :=
  List.suffix_or_suffix_of_suffix left right

theorem Apart.symm {first second : Path} (apart : first.Apart second) : second.Apart first :=
  ⟨apart.2, apart.1⟩

/-- What is apart from a path is not above anything below it. -/
theorem Apart.not_above {first second lower : Path} (apart : first.Apart second)
    (below : first.Above lower) : ¬second.Above lower := by
  intro above
  rcases above_or_above below above with left | right
  · exact apart.1 left
  · exact apart.2 right

theorem apart_push {path : Path} {left right : PathSegment} (differ : left ≠ right) :
    (path.push left).Apart (path.push right) := by
  have alike {one other : PathSegment} (above : (path.push one).Above (path.push other)) :
      one = other := by
    have same := List.IsSuffix.eq_of_length above rfl
    exact (List.cons.inj same).1
  exact ⟨fun above => differ (alike above), fun above => differ (alike above).symm⟩

/-- Paths that go on from two that are apart are apart themselves. -/
theorem Apart.below {first second left right : Path} (apart : first.Apart second)
    (leftBelow : first.Above left) (rightBelow : second.Above right) : left.Apart right := by
  constructor
  · intro above
    exact apart.not_above (leftBelow.trans above) rightBelow
  · intro above
    exact apart.symm.not_above (rightBelow.trans above) leftBelow

end Path

namespace Outline

def node : Outline → Node
  | .branch node _ _ => node

def path : Outline → Path
  | .branch _ path _ => path

mutual

/-- The events of a traversal that goes through all of an outline. -/
def events : Outline → List Event
  | .branch node path children =>
      ⟨.enter, node, path⟩ :: (eventsAll children ++ [⟨.leave, node, path⟩])

def eventsAll : List Outline → List Event
  | [] => []
  | outline :: outlines => outline.events ++ eventsAll outlines

end

theorem eventsAll_append (first second : List Outline) :
    eventsAll (first ++ second) = eventsAll first ++ eventsAll second := by
  induction first with
  | nil => rfl
  | cons outline first ih => simp [eventsAll, ih]

theorem eventsAll_singleton (outline : Outline) : eventsAll [outline] = outline.events :=
  List.append_nil _

theorem mem_eventsAll {event : Event} {outlines : List Outline} :
    event ∈ eventsAll outlines ↔ ∃ outline ∈ outlines, event ∈ outline.events := by
  induction outlines with
  | nil => simp [eventsAll]
  | cons outline outlines ih => simp [eventsAll, ih]

theorem mem_events {event : Event} {node : Node} {path : Path} {children : List Outline} :
    event ∈ (Outline.branch node path children).events ↔
      event = ⟨.enter, node, path⟩ ∨ event ∈ eventsAll children ∨
        event = ⟨.leave, node, path⟩ := by
  simp [events]

/-- The nodes of an outline have paths by which they can be told from one another: children lie
further down, and apart. None of them is a document. -/
inductive Placed : Outline → Prop where
  | branch {node : Node} {path : Path} {children : List Outline}
      (nested : ∀ child ∈ children, child.node.isDocument = false)
      (below : ∀ child ∈ children, ∃ segment, (path.push segment).Above child.path)
      (apart : children.Pairwise fun first second => first.path.Apart second.path)
      (inner : ∀ child ∈ children, child.Placed) : Placed (.branch node path children)

structure Part (path : Path) (outline : Outline) : Prop where
  nested : outline.node.isDocument = false
  start : outline.path = path
  placed : outline.Placed

/-- Outlines whose paths go on from a path by segments of some kind, apart from one another. -/
structure Fan (path : Path) (segments : PathSegment → Prop) (outlines : List Outline) : Prop where
  nested : ∀ outline ∈ outlines, outline.node.isDocument = false
  below : ∀ outline ∈ outlines, ∃ segment, segments segment ∧ (path.push segment).Above outline.path
  apart : outlines.Pairwise fun first second => first.path.Apart second.path
  placed : ∀ outline ∈ outlines, outline.Placed

namespace Fan

variable {path : Path} {left right : PathSegment → Prop} {first second : List Outline}

theorem branch (fan : Fan path left first) (node : Node) :
    (Outline.branch node path first).Placed := by
  refine .branch fan.nested ?_ fan.apart fan.placed
  intro child member
  obtain ⟨segment, _, below⟩ := fan.below child member
  exact ⟨segment, below⟩

theorem nil : Fan path left [] :=
  ⟨by simp, by simp, List.Pairwise.nil, by simp⟩

theorem append (ahead : Fan path left first) (behind : Fan path right second)
    (disjoint : ∀ segment, left segment → ¬right segment) :
    Fan path (fun segment => left segment ∨ right segment) (first ++ second) := by
  refine ⟨List.forall_mem_append.mpr ⟨ahead.nested, behind.nested⟩, ?_, ?_,
    List.forall_mem_append.mpr ⟨ahead.placed, behind.placed⟩⟩
  · intro outline member
    rcases List.mem_append.mp member with inFirst | inSecond
    · obtain ⟨segment, allowed, below⟩ := ahead.below outline inFirst
      exact ⟨segment, Or.inl allowed, below⟩
    · obtain ⟨segment, allowed, below⟩ := behind.below outline inSecond
      exact ⟨segment, Or.inr allowed, below⟩
  · refine List.pairwise_append.mpr ⟨ahead.apart, behind.apart, ?_⟩
    intro one inFirst other inSecond
    obtain ⟨oneSegment, oneAllowed, oneBelow⟩ := ahead.below one inFirst
    obtain ⟨otherSegment, otherAllowed, otherBelow⟩ := behind.below other inSecond
    have differ : oneSegment ≠ otherSegment := by
      rintro rfl
      exact disjoint oneSegment oneAllowed otherAllowed
    exact (Path.apart_push differ).below oneBelow otherBelow

/-- A fan further down is a fan whose paths all start with one segment. -/
theorem under {segment : PathSegment} (fan : Fan (path.push segment) left first) :
    Fan path (· = segment) first := by
  refine ⟨fan.nested, ?_, fan.apart, fan.placed⟩
  intro outline member
  obtain ⟨_, _, below⟩ := fan.below outline member
  exact ⟨segment, rfl, (Path.above_push _ _).trans below⟩

theorem single {segment : PathSegment} {outline : Outline}
    (part : Part (path.push segment) outline) : Fan path (· = segment) [outline] := by
  refine ⟨?_, ?_, List.pairwise_singleton _ _, ?_⟩
  · exact List.forall_mem_singleton.mpr part.nested
  · refine List.forall_mem_singleton.mpr ⟨segment, rfl, ?_⟩
    rw [part.start]
    exact Path.Above.refl _
  · exact List.forall_mem_singleton.mpr part.placed

/-- One more outline, at an index before those of the others. -/
theorem cons {place : Nat} {outline : Outline} (part : Part (path.push (.index place)) outline)
    (fan : Fan path (fun segment => ∃ later, place < later ∧ segment = .index later) first) :
    Fan path (fun segment => ∃ later, place ≤ later ∧ segment = .index later)
      (outline :: first) := by
  have whole := (single part).append fan (by
    rintro segment rfl ⟨later, after, same⟩
    cases same
    exact Nat.lt_irrefl _ after)
  refine ⟨whole.nested, ?_, whole.apart, whole.placed⟩
  intro other member
  obtain ⟨segment, allowed, below⟩ := whole.below other member
  rcases allowed with rfl | ⟨later, after, rfl⟩
  · exact ⟨_, ⟨place, Nat.le_refl _, rfl⟩, below⟩
  · exact ⟨_, ⟨later, Nat.le_of_lt after, rfl⟩, below⟩

/-- The members of a list stand at its indexes. -/
theorem ofMembers {α : Type} {outline : Path → α → Outline}
    (part : ∀ path member, Part path (outline path member)) (path : Path) (place : Nat)
    (members : List α) :
    Fan path (fun segment => ∃ later, place ≤ later ∧ segment = .index later)
      (Outline.ofMembers outline path place members) := by
  induction members generalizing place with
  | nil => exact nil
  | cons member members ih => exact (ih (place + 1)).cons (part _ _)

end Fan

/-! ## The parts of a document -/

theorem part_ofArgument (path : Path) (argument : Argument) :
    Part path (ofArgument path argument) := by
  have fan : Fan path (· = .arguments) [] := .nil
  exact ⟨rfl, rfl, fan.branch _⟩

theorem fan_ofArguments (path : Path) (arguments : List Argument) :
    Fan path (· = .arguments) (ofArguments (path.push .arguments) arguments) :=
  (Fan.ofMembers part_ofArgument _ 0 arguments).under

theorem part_ofDirective (path : Path) (directive : Directive) :
    Part path (ofDirective path directive) :=
  ⟨rfl, rfl, (fan_ofArguments path directive.arguments).branch _⟩

theorem fan_ofDirectives (path : Path) (directives : List Directive) :
    Fan path (· = .directives) (ofDirectives (path.push .directives) directives) :=
  (Fan.ofMembers part_ofDirective _ 0 directives).under

theorem part_ofSpread (path : Path) (spread : FragmentSpread) : Part path (ofSpread path spread) :=
  ⟨rfl, rfl, (fan_ofDirectives path spread.directives).branch _⟩

mutual

theorem part_ofSelection (path : Path) :
    (selection : Selection) → Part path (ofSelection path selection)
  | .field field => part_ofField path field
  | .spread spread => part_ofSpread path spread
  | .inline fragment => part_ofInline path fragment

theorem part_ofField (path : Path) : (field : Field) → Part path (ofField path field)
  | ⟨alias?, name, arguments, directives, selections⟩ => by
      have inner := (fan_ofSelections (path.push .selectionSet) 0 selections).branch
        (.selectionSet selections)
      have leading := (fan_ofArguments path arguments).append (fan_ofDirectives path directives)
        (by rintro segment rfl; simp)
      have whole := leading.append (Fan.single ⟨rfl, rfl, inner⟩)
        (by rintro segment (rfl | rfl) <;> simp)
      exact ⟨rfl, rfl, whole.branch _⟩

theorem part_ofInline (path : Path) :
    (fragment : InlineFragment) → Part path (ofInline path fragment)
  | ⟨typeCondition?, directives, selections⟩ => by
      have inner := (fan_ofSelections (path.push .selectionSet) 0 selections).branch
        (.selectionSet selections)
      have whole := (fan_ofDirectives path directives).append (Fan.single ⟨rfl, rfl, inner⟩)
        (by rintro segment rfl; simp)
      exact ⟨rfl, rfl, whole.branch _⟩

theorem fan_ofSelections (path : Path) (place : Nat) :
    (selections : List Selection) →
      Fan path (fun segment => ∃ later, place ≤ later ∧ segment = .index later)
        (ofSelections path place selections)
  | [] => .nil
  | selection :: selections =>
      (fan_ofSelections path (place + 1) selections).cons (part_ofSelection _ selection)

end

theorem part_ofSelectionSet (path : Path) (selections : List Selection) :
    Part path (ofSelectionSet path selections) :=
  ⟨rfl, rfl, (fan_ofSelections path 0 selections).branch _⟩

theorem part_ofVariableDefinition (path : Path) (definition : VariableDefinition) :
    Part path (ofVariableDefinition path definition) :=
  ⟨rfl, rfl, (fan_ofDirectives path definition.directives).branch _⟩

theorem fan_ofVariableDefinitions (path : Path) (definitions : List VariableDefinition) :
    Fan path (· = .variableDefinitions)
      (ofVariableDefinitions (path.push .variableDefinitions) definitions) :=
  (Fan.ofMembers part_ofVariableDefinition _ 0 definitions).under

theorem part_ofFragment (path : Path) (fragment : Fragment) :
    Part path (ofFragment path fragment) := by
  have whole := (fan_ofDirectives path fragment.directives).append
    (Fan.single (part_ofSelectionSet (path.push .selectionSet) fragment.selections))
    (by rintro segment rfl; simp)
  exact ⟨rfl, rfl, whole.branch _⟩

theorem part_ofOperation (path : Path) (operation : Operation) :
    Part path (ofOperation path operation) := by
  have leading := (fan_ofVariableDefinitions path operation.variableDefinitions).append
    (fan_ofDirectives path operation.directives) (by rintro segment rfl; simp)
  have whole := leading.append
    (Fan.single (part_ofSelectionSet (path.push .selectionSet) operation.selections))
    (by rintro segment (rfl | rfl) <;> simp)
  exact ⟨rfl, rfl, whole.branch _⟩

theorem part_ofDefinition (path : Path) (definition : Definition) :
    Part path (ofDefinition path definition) := by
  cases definition with
  | operation operation => exact part_ofOperation path operation
  | fragment fragment => exact part_ofFragment path fragment

theorem placed_ofDocument (document : Document) : (ofDocument document).Placed :=
  (Fan.ofMembers part_ofDefinition .root 0 document.definitions).branch _

/-! ## No event comes twice -/

/-- All events of an outline are at its path or below. -/
theorem above_of_mem_events {outline : Outline} (placed : outline.Placed) {event : Event}
    (member : event ∈ outline.events) : outline.path.Above event.path := by
  induction placed with
  | @branch node path children nested below apart inner ih =>
      rcases mem_events.mp member with rfl | inChild | rfl
      · exact Path.Above.refl _
      · obtain ⟨child, isChild, inEvents⟩ := mem_eventsAll.mp inChild
        obtain ⟨segment, pushed⟩ := below child isChild
        exact ((Path.above_push path segment).trans pushed).trans (ih child isChild inEvents)
      · exact Path.Above.refl _

theorem nodup_eventsAll {outlines : List Outline}
    (apart : outlines.Pairwise fun first second => first.path.Apart second.path)
    (placed : ∀ outline ∈ outlines, outline.Placed)
    (nodup : ∀ outline ∈ outlines, outline.events.Nodup) : (eventsAll outlines).Nodup := by
  induction outlines with
  | nil => exact List.nodup_nil
  | cons outline outlines ih =>
      obtain ⟨away, apart⟩ := List.pairwise_cons.mp apart
      have rest := ih apart (fun other member => placed other (List.mem_cons_of_mem _ member))
        (fun other member => nodup other (List.mem_cons_of_mem _ member))
      refine List.Nodup.append (nodup outline List.mem_cons_self) rest ?_
      intro event inFirst inRest
      obtain ⟨other, isOther, inOther⟩ := mem_eventsAll.mp inRest
      have first := above_of_mem_events (placed outline List.mem_cons_self) inFirst
      have second := above_of_mem_events (placed other (List.mem_cons_of_mem _ isOther)) inOther
      exact (away other isOther).not_above first second

theorem Placed.inner {node : Node} {path : Path} {children : List Outline}
    (placed : (Outline.branch node path children).Placed) : ∀ child ∈ children, child.Placed := by
  cases placed with
  | branch _ _ _ inner => exact inner

/-- What happens inside of a node has a longer path than the node itself. -/
theorem not_mem_eventsAll {node : Node} {path : Path} {children : List Outline}
    (placed : (Outline.branch node path children).Placed) (phase : Phase) :
    (⟨phase, node, path⟩ : Event) ∉ eventsAll children := by
  cases placed with
  | branch nested below apart inner =>
      intro member
      obtain ⟨child, isChild, inEvents⟩ := mem_eventsAll.mp member
      obtain ⟨segment, pushed⟩ := below child isChild
      exact Path.not_push_above path segment
        (pushed.trans (above_of_mem_events (inner child isChild) inEvents))

theorem nodup_events {outline : Outline} (placed : outline.Placed) : outline.events.Nodup := by
  induction placed with
  | @branch node path children nested below apart inner ih =>
      have inside {phase : Phase} : (⟨phase, node, path⟩ : Event) ∉ eventsAll children :=
        not_mem_eventsAll (.branch nested below apart inner) phase
      refine List.nodup_cons.mpr ⟨?_, ?_⟩
      · simp [inside]
      · refine List.Nodup.append (nodup_eventsAll apart inner ih) (List.nodup_singleton _) ?_
        rw [List.disjoint_singleton]
        exact inside

/-- No document is met below the top of an outline. -/
theorem nested_of_mem_events {outline : Outline} (placed : outline.Placed)
    (nested : outline.node.isDocument = false) {event : Event} (member : event ∈ outline.events) :
    event.node.isDocument = false := by
  induction placed with
  | @branch node path children childNested below apart inner ih =>
      rcases mem_events.mp member with rfl | inChild | rfl
      · exact nested
      · obtain ⟨child, isChild, inEvents⟩ := mem_eventsAll.mp inChild
        exact ih child isChild (childNested child isChild) inEvents
      · exact nested

theorem Fan.nodup_eventsAll {path : Path} {segments : PathSegment → Prop} {outlines : List Outline}
    (fan : Fan path segments outlines) : (eventsAll outlines).Nodup :=
  Outline.nodup_eventsAll fan.apart fan.placed fun outline member =>
    nodup_events (fan.placed outline member)

theorem Fan.nested_of_mem_eventsAll {path : Path} {segments : PathSegment → Prop}
    {outlines : List Outline} (fan : Fan path segments outlines) {event : Event}
    (member : event ∈ eventsAll outlines) : event.node.isDocument = false := by
  obtain ⟨outline, isOutline, inEvents⟩ := mem_eventsAll.mp member
  exact nested_of_mem_events (fan.placed outline isOutline) (fan.nested outline isOutline) inEvents

end Outline

namespace Event

def OpensDocument (event : Event) : Prop :=
  event.phase = .enter ∧ event.node.isDocument

end Event

namespace Course

def events : Course → List Event
  | one outline => outline.events
  | several outlines => Outline.eventsAll outlines

end Course

namespace Root

def events (root : Root) : List Event :=
  root.course.events

theorem events_document (whole : Document) :
    (Root.document whole).events = (Outline.ofDocument whole).events := rfl

/-- A course goes through a whole document, one part of it, or several parts side by side. -/
theorem course_cases (root : Root) :
    (∃ whole, root = .document whole) ∨
      (∃ outline, root.course = .one outline ∧ Outline.Part .root outline) ∨
      ∃ outlines segments,
        root.course = .several outlines ∧ Outline.Fan .root segments outlines := by
  have one {outline : Outline} (same : root.course = .one outline)
      (part : Outline.Part .root outline) :
      ∃ outline, root.course = .one outline ∧ Outline.Part .root outline := ⟨outline, same, part⟩
  cases root with
  | document whole => exact Or.inl ⟨whole, rfl⟩
  | definition part => exact Or.inr (Or.inl (one rfl (Outline.part_ofDefinition .root part)))
  | operation part => exact Or.inr (Or.inl (one rfl (Outline.part_ofOperation .root part)))
  | fragment part => exact Or.inr (Or.inl (one rfl (Outline.part_ofFragment .root part)))
  | variableDefinitions parts =>
      exact Or.inr (Or.inr ⟨_, _, rfl,
        Outline.Fan.ofMembers Outline.part_ofVariableDefinition .root 0 parts⟩)
  | variableDefinition part =>
      exact Or.inr (Or.inl (one rfl (Outline.part_ofVariableDefinition .root part)))
  | selectionSet parts => exact Or.inr (Or.inl (one rfl (Outline.part_ofSelectionSet .root parts)))
  | selection part => exact Or.inr (Or.inl (one rfl (Outline.part_ofSelection .root part)))
  | spread part => exact Or.inr (Or.inl (one rfl (Outline.part_ofSpread .root part)))
  | inline part => exact Or.inr (Or.inl (one rfl (Outline.part_ofInline .root part)))
  | field part => exact Or.inr (Or.inl (one rfl (Outline.part_ofField .root part)))
  | directives parts =>
      exact Or.inr (Or.inr ⟨_, _, rfl,
        Outline.Fan.ofMembers Outline.part_ofDirective .root 0 parts⟩)
  | directive part => exact Or.inr (Or.inl (one rfl (Outline.part_ofDirective .root part)))
  | arguments parts =>
      exact Or.inr (Or.inr ⟨_, _, rfl, Outline.Fan.ofMembers Outline.part_ofArgument .root 0 parts⟩)
  | argument part => exact Or.inr (Or.inl (one rfl (Outline.part_ofArgument .root part)))

/-- No event comes twice in a traversal. -/
theorem nodup_events (root : Root) : root.events.Nodup := by
  rcases root.course_cases with ⟨whole, rfl⟩ | ⟨outline, same, part⟩ | ⟨outlines, _, same, fan⟩
  · exact Outline.nodup_events (Outline.placed_ofDocument whole)
  · rw [events, same]
    exact Outline.nodup_events part.placed
  · rw [events, same]
    exact fan.nodup_eventsAll

/-- A document is entered at the start of a traversal or not at all. -/
theorem not_opensDocument_of_mem_tail (root : Root) {event : Event}
    (member : event ∈ root.events.tail) : ¬event.OpensDocument := by
  rintro ⟨entered, isDocument⟩
  have nested : event.node.isDocument = false := by
    rcases root.course_cases with ⟨whole, rfl⟩ | ⟨outline, same, part⟩ | ⟨outlines, _, same, fan⟩
    · have fan := Outline.Fan.ofMembers Outline.part_ofDefinition .root 0 whole.definitions
      rcases List.mem_append.mp member with inside | last
      · exact fan.nested_of_mem_eventsAll inside
      · rw [List.mem_singleton.mp last] at entered
        cases entered
    · rw [events, same] at member
      exact Outline.nested_of_mem_events part.placed part.nested (List.mem_of_mem_tail member)
    · rw [events, same] at member
      exact fan.nested_of_mem_eventsAll (List.mem_of_mem_tail member)
  rw [nested] at isDocument
  cases isDocument

end Root

end QueryCheck
