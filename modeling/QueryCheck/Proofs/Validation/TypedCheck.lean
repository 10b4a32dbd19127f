import QueryCheck.Proofs.Validation.Unlimited

/-!
# The rules on schemas as one recursion

The rules that compare a document with a schema are run side by side, with a stack
of definitions and a stack of locations. Here the same is said as a recursion over the
document, which carries nothing but the type that selections are made on. The main
result is that both report the same, in the same order.
-/

namespace QueryCheck

/-! ## The recursion -/

namespace TypedCheck

def undeclared (declared : List InputValueDefinition) (problem : String → Problem) (path : Path)
    (arguments : List Argument) : List Finding :=
  (arguments.zipIdx.filter fun entry => !declared.any (·.name = entry.1.name)).map fun entry =>
    ⟨problem entry.1.name, (path.push .arguments).push (.index entry.2)⟩

/-- The declared arguments that refuse null and are not given. -/
def absent (declared : List InputValueDefinition) (problem : InputValueDefinition → Problem)
    (path : Path) (arguments : List Argument) : List Finding :=
  (declared.filter fun definition =>
    definition.type.isNonNull && !arguments.any (·.name = definition.name)).map fun definition =>
      ⟨problem definition, path⟩

def field? (scope? : Option TypeDefinition) (name : String) : Option FieldDefinition :=
  (scope?.filter TypeDefinition.isComposite).bind (·.fields.find? (·.name = name))

/-- Entering a field. It is unknown if the type has selections but not this field, unless its name
is reserved. -/
def enterField (scope? : Option TypeDefinition) (path : Path) (name : String)
    (arguments : List Argument) : List Finding :=
  match scope?.filter TypeDefinition.isComposite with
  | none => []
  | some type =>
      match type.fields.find? (·.name = name) with
      | none => if ['_', '_'] <+: name.toList then [] else [⟨.unknownField name type.name, path⟩]
      | some definition =>
          undeclared definition.arguments (.unknownFieldArgument · name type.name) path arguments

def leaveField (scope? : Option TypeDefinition) (path : Path) (name : String)
    (arguments : List Argument) : List Finding :=
  match field? scope? name with
  | none => []
  | some definition =>
      absent definition.arguments
        (fun argument => .missingFieldArgument name argument.name argument.type) path arguments

variable (schema : Schema)

/-- A directive of a node that has the given location. -/
def ofDirective (location : DirectiveLocation) (path : Path) (directive : Directive) :
    List Finding :=
  match schema.directive? directive.name with
  | none => [⟨.unknownDirective directive.name, path⟩]
  | some definition =>
      undeclared definition.arguments (.unknownDirectiveArgument · directive.name) path
          directive.arguments ++
        (if location ∈ definition.locations then []
          else [⟨.misplacedDirective directive.name location, path⟩]) ++
        absent definition.arguments
          (fun argument => .missingDirectiveArgument directive.name argument.name argument.type)
          path directive.arguments

def ofDirectives (location : DirectiveLocation) (path : Path) (directives : List Directive) :
    List Finding :=
  directives.zipIdx.flatMap fun entry =>
    ofDirective schema location ((path.push .directives).push (.index entry.2)) entry.1

mutual

def ofSelection (scope? : Option TypeDefinition) (path : Path) : Selection → List Finding
  | .field field => ofField scope? path field
  | .spread spread => ofDirectives schema .fragmentSpread path spread.directives
  | .inline fragment => ofInline scope? path fragment

def ofField (scope? : Option TypeDefinition) (path : Path) : Field → List Finding
  | ⟨_, name, arguments, directives, selections⟩ =>
      enterField scope? path name arguments ++ ofDirectives schema .field path directives ++
        ofSelections ((field? scope? name).bind fun definition => schema.resolve? definition.type)
          (path.push .selectionSet) 0 selections ++
        leaveField scope? path name arguments

def ofInline (scope? : Option TypeDefinition) (path : Path) : InlineFragment → List Finding
  | ⟨typeCondition?, directives, selections⟩ =>
      ofDirectives schema .inlineFragment path directives ++
        ofSelections
          (match typeCondition? with
            | some name => schema.composite? name
            | none => scope?)
          (path.push .selectionSet) 0 selections

def ofSelections (scope? : Option TypeDefinition) (path : Path) (place : Nat) :
    List Selection → List Finding
  | [] => []
  | selection :: selections =>
      ofSelection scope? (path.push (.index place)) selection ++
        ofSelections scope? path (place + 1) selections

end

def ofVariableDefinition (path : Path) (definition : VariableDefinition) : List Finding :=
  ofDirectives schema .variableDefinition path definition.directives

def ofOperation (path : Path) (operation : Operation) : List Finding :=
  (operation.variableDefinitions.zipIdx.flatMap fun entry =>
      ofVariableDefinition schema ((path.push .variableDefinitions).push (.index entry.2))
        entry.1) ++
    ofDirectives schema (.ofOperation operation.kind) path operation.directives ++
    ofSelections schema ((schema.root? operation.kind).map .object) (path.push .selectionSet) 0
      operation.selections

def ofFragment (path : Path) (fragment : Fragment) : List Finding :=
  ofDirectives schema .fragmentDefinition path fragment.directives ++
    ofSelections schema (schema.composite? fragment.typeCondition) (path.push .selectionSet) 0
      fragment.selections

def ofDefinition (path : Path) : Definition → List Finding
  | .operation operation => ofOperation schema path operation
  | .fragment fragment => ofFragment schema path fragment

def ofDocument (document : Document) : List Finding :=
  document.definitions.zipIdx.flatMap fun entry =>
    ofDefinition schema (Path.root.push (.index entry.2)) entry.1

/-! ## Fields and directives -/

theorem isSome_find?_eq_any {α : Type} [HasName α] (items : List α) (name : String) :
    (Named.find? items name).isSome = items.any fun item => HasName.name item = name := by
  rw [Named.find?, List.isSome_find?]

theorem unknown_eq_undeclared (declared : List InputValueDefinition) (problem : String → Problem)
    (path : Path) (arguments : List Argument) :
    KnownArgumentNames.unknown (fun name => (Named.find? declared name).isSome) problem
        (path.push .arguments) 0 arguments =
      undeclared declared problem path arguments := by
  rw [undeclared]
  generalize 0 = place
  induction arguments generalizing place with
  | nil => rfl
  | cons argument arguments ih =>
      rw [KnownArgumentNames.unknown, ih, isSome_find?_eq_any, List.zipIdx_cons]
      cases known : declared.any (HasName.name · = argument.name) <;> simp_all [HasName.name]

theorem missing_eq_absent (declared : List InputValueDefinition)
    (problem : InputValueDefinition → Problem) (path : Path) (arguments : List Argument) :
    ((ProvidedNonNullArguments.missing declared arguments).map fun definition =>
        ⟨problem definition, path⟩) = absent declared problem path arguments := by
  rw [absent, ProvidedNonNullArguments.missing]
  refine congrArg _ (List.filter_congr ?_)
  intro definition _
  rw [Argument.get?, Option.isNone_map, ← Option.not_isSome, List.isSome_find?]

theorem isReserved_iff (name : String) :
    FieldsOnCorrectType.isReserved name = true ↔ ['_', '_'] <+: name.toList := by
  rw [FieldsOnCorrectType.isReserved, beq_iff_eq, List.prefix_iff_eq_take]
  exact eq_comm

/-- What the rules find on entering a field. -/
theorem enter_eq_enterField (schema : Schema) (chain : List Node) (field : Field) (path : Path) :
    FieldsOnCorrectType.onField (Chain.frame schema (.field field :: chain)) field path ++
        KnownArgumentNames.onField (Chain.frame schema (.field field :: chain)) field path =
      enterField (Chain.outputType? schema chain) path field.name field.arguments := by
  have parent : (Chain.frame schema (.field field :: chain)).parentType? =
      (Chain.outputType? schema chain).filter TypeDefinition.isComposite := rfl
  have found : (Chain.frame schema (.field field :: chain)).field? =
      ((Chain.outputType? schema chain).filter TypeDefinition.isComposite).bind
        (·.fields.find? (·.name = field.name)) := rfl
  rw [FieldsOnCorrectType.onField, KnownArgumentNames.onField, enterField, parent, found]
  cases (Chain.outputType? schema chain).filter TypeDefinition.isComposite with
  | none => rfl
  | some type =>
      simp only [Option.bind_some]
      cases type.fields.find? (·.name = field.name) with
      | none => simp only [isReserved_iff, List.append_nil]
      | some definition => exact unknown_eq_undeclared definition.arguments _ path field.arguments

/-- What the rules find on leaving a field. -/
theorem leave_eq_leaveField (schema : Schema) (chain : List Node) (field : Field) (path : Path) :
    ProvidedNonNullArguments.onField (Chain.frame schema (.field field :: chain)) field path =
      leaveField (Chain.outputType? schema chain) path field.name field.arguments := by
  have found : (Chain.frame schema (.field field :: chain)).field? =
      field? (Chain.outputType? schema chain) field.name := rfl
  rw [ProvidedNonNullArguments.onField, leaveField, found]
  cases field? (Chain.outputType? schema chain) field.name with
  | none => rfl
  | some definition => exact missing_eq_absent _ _ path field.arguments

/-- What the rules find on entering and leaving a directive. -/
theorem directive_eq_ofDirective (schema : Schema) (chain : List Node)
    (location : DirectiveLocation) (directive : Directive) (path : Path) :
    KnownArgumentNames.onDirective (Chain.frame schema (.directive directive :: chain)) directive
          path ++
        KnownDirectives.onDirective (Chain.frame schema (.directive directive :: chain))
          (some location) directive path ++
        ProvidedNonNullArguments.onDirective (Chain.frame schema (.directive directive :: chain))
          directive path =
      ofDirective schema location path directive := by
  have found : (Chain.frame schema (.directive directive :: chain)).directive? =
      schema.directive? directive.name := rfl
  rw [KnownArgumentNames.onDirective, KnownDirectives.onDirective,
    ProvidedNonNullArguments.onDirective, ofDirective, found]
  cases schema.directive? directive.name with
  | none => rfl
  | some definition =>
      simp only [DirectiveDefinition.argument?, unknown_eq_undeclared, missing_eq_absent,
        DirectiveDefinition.allows, List.contains_iff_mem]

/-! ## What the rules find at a place -/

def locations (chain : List Node) : List DirectiveLocation :=
  chain.filterMap KnownDirectives.location?

/-- The state of a rule on its way to the last node of a chain. -/
def inside (chain : List Node) : RuleState → RuleState
  | .knownDirectives _ => .knownDirectives (locations chain.tail)
  | state => state

/-- What a rule finds at an event with the given chain. -/
def cell (schema : Schema) (state : RuleState) (place : List Node × Event) : List Finding :=
  (RuleState.visitor (.ofChain schema place.1) place.2 (inside place.1 state)).out

/-- What the rules on schemas find at an event with the given chain. -/
def emitted (schema : Schema) (place : List Node × Event) : List Finding :=
  RuleSet.schemaBased.start.leaves.flatMap fun state => cell schema state place

section Place

variable (schema : Schema) (chain : List Node) (path : Path)

theorem emitted_enter_field (field : Field) :
    emitted schema (.field field :: chain, ⟨.enter, .field field, path⟩) =
      enterField (Chain.outputType? schema chain) path field.name field.arguments := by
  rw [← enter_eq_enterField, ← TypeInfo.top_ofChain]
  exact congrArg _ (List.append_nil _)

theorem emitted_leave_field (field : Field) :
    emitted schema (.field field :: chain, ⟨.leave, .field field, path⟩) =
      leaveField (Chain.outputType? schema chain) path field.name field.arguments := by
  rw [← leave_eq_leaveField, ← TypeInfo.top_ofChain]
  exact List.append_nil _

theorem emitted_enter_directive (directive : Directive) :
    emitted schema (.directive directive :: chain, ⟨.enter, .directive directive, path⟩) =
      KnownArgumentNames.onDirective (Chain.frame schema (.directive directive :: chain)) directive
          path ++
        KnownDirectives.onDirective (Chain.frame schema (.directive directive :: chain))
          (locations chain).head? directive path := by
  rw [← TypeInfo.top_ofChain]
  exact congrArg _ (List.append_nil _)

theorem emitted_leave_directive (directive : Directive) :
    emitted schema (.directive directive :: chain, ⟨.leave, .directive directive, path⟩) =
      ProvidedNonNullArguments.onDirective (Chain.frame schema (.directive directive :: chain))
        directive path := by
  rw [← TypeInfo.top_ofChain]
  exact List.append_nil _

end Place

/-! ## Documents -/

section Documents

variable (schema : Schema) (typesAt : Event → TypeInfo)

/-- The rule on directives goes into a node with its location and comes back without it. -/
structure Located (chain : List Node) (node : Node) (path : Path) : Prop where
  opens : KnownDirectives.visitor (typesAt ⟨.enter, node, path⟩) ⟨.enter, node, path⟩
    (locations chain) = .pass (locations (node :: chain))
  closes : KnownDirectives.visitor (typesAt ⟨.leave, node, path⟩) ⟨.leave, node, path⟩
    (locations (node :: chain)) = .pass (locations chain)

/-- The rule on directives finds at each event what it finds at the place of the event, and the
rules on schemas together find what is given. -/
structure Checked (chain : List Node) (outlines : List Outline) (findings : List Finding) :
    Prop where
  along : Run.along (.given typesAt KnownDirectives.visitor) (Outline.eventsAll outlines)
    ⟨.running, locations chain⟩ = ⟨.running, locations chain⟩
  rows : Run.rows (.given typesAt KnownDirectives.visitor) (Outline.eventsAll outlines)
      ⟨.running, locations chain⟩ =
    (Outline.locatedAll chain outlines).map fun place =>
      (KnownDirectives.visitor (typesAt place.2) place.2 (locations place.1.tail)).out
  found : (Outline.locatedAll chain outlines).flatMap (emitted schema) = findings

namespace Checked

variable {schema typesAt} {chain : List Node}

theorem nil : Checked schema typesAt chain [] [] := ⟨rfl, rfl, rfl⟩

theorem append {first second : List Outline} {ahead behind : List Finding}
    (before : Checked schema typesAt chain first ahead)
    (after : Checked schema typesAt chain second behind) :
    Checked schema typesAt chain (first ++ second) (ahead ++ behind) := by
  constructor
  · rw [Outline.eventsAll_append, Run.along_append, before.along, after.along]
  · rw [Outline.eventsAll_append, Run.rows_append, before.along, before.rows, after.rows,
      Outline.locatedAll_append, List.map_append]
  · rw [Outline.locatedAll_append, List.flatMap_append, before.found, after.found]

theorem branch {node : Node} {path : Path} {children : List Outline} {findings : List Finding}
    (located : Located typesAt chain node path)
    (inner : Checked schema typesAt (node :: chain) children findings) :
    Checked schema typesAt chain [.branch node path children]
      (emitted schema (node :: chain, ⟨.enter, node, path⟩) ++ findings ++
        emitted schema (node :: chain, ⟨.leave, node, path⟩)) := by
  have entered : Run.feed (.given typesAt KnownDirectives.visitor) _ _ = _ :=
    Run.feed_of_pass located.opens
  have left : Run.feed (.given typesAt KnownDirectives.visitor) _ _ = _ :=
    Run.feed_of_pass located.closes
  constructor
  · rw [Outline.eventsAll_singleton, Outline.events, Run.along, entered, Run.along_append,
      inner.along, Run.along, left, Run.along]
  · rw [Outline.eventsAll_singleton, Outline.events, Run.rows, entered, Run.rows_append,
      inner.along, inner.rows, Run.rows, left, Run.rows, Outline.locatedAll_singleton, Outline.located,
      List.map_cons, List.map_append, List.tail_cons, located.opens]
    rfl
  · rw [Outline.locatedAll_singleton, Outline.located, List.flatMap_cons, List.flatMap_append,
      inner.found, List.flatMap_singleton, List.append_assoc]

/-- A node at which nothing is found itself. -/
theorem silent {node : Node} {path : Path} {children : List Outline} {findings : List Finding}
    (located : Located typesAt chain node path)
    (entering : emitted schema (node :: chain, ⟨.enter, node, path⟩) = [])
    (leaving : emitted schema (node :: chain, ⟨.leave, node, path⟩) = [])
    (inner : Checked schema typesAt (node :: chain) children findings) :
    Checked schema typesAt chain [.branch node path children] findings := by
  have whole := branch located inner
  rwa [entering, leaving, List.nil_append, List.append_nil] at whole

theorem ofMembers {α : Type} {outline : Path → α → Outline} {path : Path}
    {findings : Path → α → List Finding}
    (each : ∀ path member,
      Checked schema typesAt chain [outline path member] (findings path member))
    (place : Nat) (members : List α) :
    Checked schema typesAt chain (Outline.ofMembers outline path place members)
      ((members.zipIdx place).flatMap fun entry =>
        findings (path.push (.index entry.2)) entry.1) := by
  induction members generalizing place with
  | nil => exact nil
  | cons member members ih =>
      rw [List.zipIdx_cons, List.flatMap_cons]
      exact (each (path.push (.index place)) member).append (ih (place + 1))

theorem ofArguments (path : Path) (arguments : List Argument) :
    Checked schema typesAt chain (Outline.ofArguments path arguments) [] := by
  have each (path : Path) (argument : Argument) :
      Checked schema typesAt chain [Outline.ofArgument path argument] [] :=
    silent ⟨rfl, rfl⟩ rfl rfl nil
  have members : Checked schema typesAt chain (Outline.ofArguments path arguments) _ :=
    ofMembers each 0 arguments
  rwa [List.flatMap_eq_nil_iff.mpr fun _ _ => rfl] at members

/-- The rule on directives finds nothing at arguments. -/
theorem quiet_arguments (path : Path) (place : Nat) (arguments : List Argument) :
    ((Outline.locatedAll chain (Outline.ofMembers Outline.ofArgument path place arguments)).map
      fun place =>
        (KnownDirectives.visitor (typesAt place.2) place.2 (locations place.1.tail)).out) =
      (Outline.eventsAll (Outline.ofMembers Outline.ofArgument path place arguments)).map
        fun _ => [] := by
  induction arguments generalizing place with
  | nil => rfl
  | cons argument arguments ih => exact congrArg ([] :: [] :: ·) (ih (place + 1))

theorem ofDirective {location : DirectiveLocation} (owner : (locations chain).head? = some location)
    (path : Path) (directive : Directive) :
    Checked schema typesAt chain [Outline.ofDirective path directive]
      (TypedCheck.ofDirective schema location path directive) := by
  have arguments : Checked schema typesAt (.directive directive :: chain) _ _ :=
    ofArguments (path.push .arguments) directive.arguments
  have skipped : Run.Passes (.given typesAt KnownDirectives.visitor)
      (Outline.eventsAll (Outline.ofArguments (path.push .arguments) directive.arguments))
      ⟨.skipping 0, locations chain⟩ := Run.passes_skippingAll 0 _ _
  constructor
  · rw [Outline.eventsAll_singleton, Outline.ofDirective, Outline.events, Run.along]
    change Run.along _ _ ⟨.skipping 0, locations chain⟩ = _
    rw [Run.along_append, skipped.along]
    rfl
  · rw [Outline.eventsAll_singleton, Outline.ofDirective, Outline.events, Run.rows]
    change _ :: Run.rows _ _ ⟨.skipping 0, locations chain⟩ = _
    rw [Run.rows_append, skipped.along, skipped.rows, Outline.locatedAll_singleton, Outline.located,
      List.map_cons, List.map_append, Outline.ofArguments, quiet_arguments]
    rfl
  · rw [Outline.locatedAll_singleton, Outline.ofDirective, Outline.located, List.flatMap_cons,
      List.flatMap_append, arguments.found, List.flatMap_singleton, List.nil_append,
      emitted_enter_directive, emitted_leave_directive, owner, directive_eq_ofDirective]

theorem ofDirectives {location : DirectiveLocation}
    (owner : (locations chain).head? = some location) (path : Path) (directives : List Directive) :
    Checked schema typesAt chain (Outline.ofDirectives (path.push .directives) directives)
      (TypedCheck.ofDirectives schema location path directives) :=
  ofMembers (ofDirective owner) 0 directives

theorem ofSpread (path : Path) (spread : FragmentSpread) :
    Checked schema typesAt chain [Outline.ofSpread path spread]
      (TypedCheck.ofDirectives schema .fragmentSpread path spread.directives) :=
  silent ⟨rfl, rfl⟩ rfl rfl (ofDirectives rfl path spread.directives)

mutual

theorem ofSelection (chain : List Node) (path : Path) :
    (selection : Selection) →
      Checked schema typesAt chain [Outline.ofSelection path selection]
        (TypedCheck.ofSelection schema (Chain.outputType? schema chain) path selection)
  | .field field => ofField chain path field
  | .spread spread => ofSpread path spread
  | .inline fragment => ofInline chain path fragment

theorem ofField (chain : List Node) (path : Path) :
    (field : Field) →
      Checked schema typesAt chain [Outline.ofField path field]
        (TypedCheck.ofField schema (Chain.outputType? schema chain) path field)
  | ⟨alias?, name, arguments, directives, selections⟩ => by
      have selected : Checked schema typesAt
          (.field ⟨alias?, name, arguments, directives, selections⟩ :: chain)
          [Outline.ofSelectionSet (path.push .selectionSet) selections] _ :=
        silent ⟨rfl, rfl⟩ rfl rfl (ofSelections _ (path.push .selectionSet) 0 selections)
      have inner := ((ofArguments (path.push .arguments) arguments).append
        (ofDirectives rfl path directives)).append selected
      have whole : Checked schema typesAt chain
          [Outline.ofField path ⟨alias?, name, arguments, directives, selections⟩] _ :=
        branch ⟨rfl, rfl⟩ inner
      rw [emitted_enter_field, emitted_leave_field, List.nil_append, ← List.append_assoc] at whole
      exact whole

theorem ofInline (chain : List Node) (path : Path) :
    (fragment : InlineFragment) →
      Checked schema typesAt chain [Outline.ofInline path fragment]
        (TypedCheck.ofInline schema (Chain.outputType? schema chain) path fragment)
  | ⟨typeCondition?, directives, selections⟩ => by
      refine silent ⟨rfl, rfl⟩ rfl rfl ((ofDirectives rfl path directives).append ?_)
      exact silent ⟨rfl, rfl⟩ rfl rfl (ofSelections _ (path.push .selectionSet) 0 selections)

theorem ofSelections (chain : List Node) (path : Path) (place : Nat) :
    (selections : List Selection) →
      Checked schema typesAt chain (Outline.ofSelections path place selections)
        (TypedCheck.ofSelections schema (Chain.outputType? schema chain) path place selections)
  | [] => nil
  | selection :: selections =>
      (ofSelection chain (path.push (.index place)) selection).append
        (ofSelections chain path (place + 1) selections)

end

theorem ofSelectionSet (path : Path) (selections : List Selection) :
    Checked schema typesAt chain [Outline.ofSelectionSet path selections]
      (TypedCheck.ofSelections schema (Chain.outputType? schema chain) path 0 selections) :=
  silent ⟨rfl, rfl⟩ rfl rfl (ofSelections _ path 0 selections)

theorem ofVariableDefinition (path : Path) (definition : VariableDefinition) :
    Checked schema typesAt chain [Outline.ofVariableDefinition path definition]
      (TypedCheck.ofVariableDefinition schema path definition) :=
  silent ⟨rfl, rfl⟩ rfl rfl (ofDirectives rfl path definition.directives)

theorem ofOperation (path : Path) (operation : Operation) :
    Checked schema typesAt chain [Outline.ofOperation path operation]
      (TypedCheck.ofOperation schema path operation) := by
  refine silent ⟨rfl, rfl⟩ rfl rfl ?_
  refine ((ofMembers ofVariableDefinition 0 operation.variableDefinitions).append
    (ofDirectives rfl path operation.directives)).append ?_
  exact ofSelectionSet (path.push .selectionSet) operation.selections

theorem ofFragment (path : Path) (fragment : Fragment) :
    Checked schema typesAt chain [Outline.ofFragment path fragment]
      (TypedCheck.ofFragment schema path fragment) := by
  refine silent ⟨rfl, rfl⟩ rfl rfl ?_
  refine (ofDirectives rfl path fragment.directives).append ?_
  exact ofSelectionSet (path.push .selectionSet) fragment.selections

theorem ofDefinition (path : Path) (definition : Definition) :
    Checked schema typesAt chain [Outline.ofDefinition path definition]
      (TypedCheck.ofDefinition schema path definition) := by
  cases definition with
  | operation operation => exact ofOperation path operation
  | fragment fragment => exact ofFragment path fragment

/-- Only here the rule on directives forgets the locations, which are none. -/
theorem ofDocument (document : Document) :
    Checked schema typesAt [] [Outline.ofDocument document]
      (TypedCheck.ofDocument schema document) :=
  silent ⟨rfl, rfl⟩ rfl rfl (ofMembers ofDefinition 0 document.definitions)

end Checked

end Documents

end TypedCheck

/-! ## The rules in a run -/

theorem FieldsOnCorrectType.flow_visitor (types : TypeInfo) (event : Event) :
    (visitor types event ()).flow = .next := by
  unfold visitor
  split <;> rfl

theorem KnownArgumentNames.flow_visitor (types : TypeInfo) (event : Event) :
    (visitor types event ()).flow = .next := by
  unfold visitor
  split <;> rfl

theorem ProvidedNonNullArguments.flow_visitor (types : TypeInfo) (event : Event) :
    (visitor types event ()).flow = .next := by
  unfold visitor
  split <;> rfl

namespace TypedCheck

section Runs

variable (schema : Schema) (document : Document)

/-- A rule that always goes on finds at each event what it finds at the place of the event. -/
theorem rows_of_steady {state : RuleState} (stays : ∀ chain, inside chain state = state)
    (steady : ∀ types event, (RuleState.visitor types event state).flow = .next ∧
      (RuleState.visitor types event state).state = state) :
    Run.rows (Validation.ruleAt schema document) (Outline.ofDocument document).events
        ⟨.running, state⟩ =
      ((Outline.ofDocument document).located []).map (cell schema state) := by
  have next (event : Event) : (Validation.ruleAt schema document event state).flow = .next :=
    (steady _ event).1
  have same (event : Event) : (Validation.ruleAt schema document event state).state = state :=
    (steady _ event).2
  rw [Run.rows_of_steady next same, ← Outline.map_located [], List.map_map]
  refine List.map_congr_left ?_
  intro place member
  rw [cell, stays, ← TypeInfo.ofEvent_located member]
  rfl

theorem rows_knownDirectives :
    Run.rows (Validation.ruleAt schema document) (Outline.ofDocument document).events
        ⟨.running, .knownDirectives []⟩ =
      ((Outline.ofDocument document).located []).map (cell schema (.knownDirectives [])) := by
  have mirrors : Run.Mirrors RuleState.knownDirectives
      (.given (.ofEvent schema document) KnownDirectives.visitor)
      (Validation.ruleAt schema document) := ⟨fun _ _ => rfl, fun _ _ => rfl⟩
  have checked : Checked schema (.ofEvent schema document) [] [Outline.ofDocument document] _ :=
    .ofDocument document
  have alone := checked.rows
  rw [Outline.eventsAll_singleton, Outline.locatedAll_singleton] at alone
  refine (mirrors.rows_same (fun _ _ => rfl) _ ⟨.running, []⟩).trans ?_
  refine alone.trans (List.map_congr_left ?_)
  intro place member
  rw [cell, TypeInfo.ofEvent_located member]
  rfl

/-- Each of the rules finds at each event what it finds at the place of the event. -/
theorem rows_leaf : ∀ state ∈ RuleSet.schemaBased.start.leaves,
    Run.rows (Validation.ruleAt schema document) (Outline.ofDocument document).events
        ⟨.running, state⟩ =
      ((Outline.ofDocument document).located []).map (cell schema state) := by
  intro state member
  have listed : state ∈ [.fieldsOnCorrectType, .knownArgumentNames, .knownDirectives [],
    RuleState.providedNonNullArguments] := member
  simp only [List.mem_cons, List.not_mem_nil, or_false] at listed
  rcases listed with rfl | rfl | rfl | rfl
  · exact rows_of_steady schema document (fun _ => rfl) fun types event =>
      ⟨FieldsOnCorrectType.flow_visitor types event, rfl⟩
  · exact rows_of_steady schema document (fun _ => rfl) fun types event =>
      ⟨KnownArgumentNames.flow_visitor types event, rfl⟩
  · exact rows_knownDirectives schema document
  · exact rows_of_steady schema document (fun _ => rfl) fun types event =>
      ⟨ProvidedNonNullArguments.flow_visitor types event, rfl⟩

end Runs

end TypedCheck

/-- Without a limit, the rules on schemas report what the recursion finds. -/
theorem Validation.reports_schemaBased (schema : Schema) (document : Document) :
    (validate schema none .schemaBased document).reports =
      (TypedCheck.ofDocument schema document).map Finding.diagnostic := by
  have checked : TypedCheck.Checked schema (.ofEvent schema document) []
      [Outline.ofDocument document] _ := .ofDocument document
  have found := checked.found
  rw [Outline.locatedAll_singleton] at found
  rw [reports_validate, RuleSet.schemaBased.fresh_start.rows_along _
    (Composite.opening_ofDocument document) _ _ (TypedCheck.rows_leaf schema document),
    ← List.flatMap_def]
  exact congrArg _ found

end QueryCheck
