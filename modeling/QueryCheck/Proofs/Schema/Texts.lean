import Mathlib.Data.List.Basic
import QueryCheck.Proofs.Reading.Documents
import QueryCheck.Proofs.Schema.Types

/-!
# Reading schema texts

The definitions of a schema text are read exactly if the tokens derive them and no name is
repeated.
-/

namespace QueryCheck

open QueryCheck.Language (Led)

namespace Definitions

/-! ## Directives -/

theorem ofSpelling?_eq_some {text : String} {location : DirectiveLocation} :
    DirectiveLocation.ofSpelling? text = some location ↔ text = location.spelling :=
  find?_spelling (by intro location; cases location <;> decide)

theorem scan_readLocations (directive : String) :
    Scan.of (readLocations directive) = (do
      let first ← Scan.take (Token.word? DirectiveLocation.ofSpelling?)
        fun _ => .malformed (.expectedLocation directive)
      Scan.optional .pipe (.malformed (.expectedLocation directive)) (do
        let others ← Scan.of (readLocations directive)
        pure (first :: others)) [first]) := by
  funext tokens
  rw [Scan.of, readLocations.eq_def]
  rcases tokens with _ | ⟨next, rest⟩
  · rfl
  · cases next with
    | name text =>
        cases found : DirectiveLocation.ofSpelling? text with
        | none =>
            refine Eq.trans ?_ (Scan.bind_error (Scan.take_eq_error.mpr ⟨rfl, ?_⟩)).symm
            · simp [found, Reading.fail, Reading.plain]
            · simpa [Token.word?, Token.name?] using found
        | some location =>
            rw [Scan.bind_ok (Scan.take_eq_ok.mpr ⟨_, rfl, by
              simpa [Token.word?, Token.name?] using found⟩), Scan.optional]
            simp only [found]
            split
            next refused =>
              rw [Scan.choose_refused refused]
              rfl
            next next accepted =>
              rw [Scan.choose_accepted accepted]
              exact Scan.plain_bind rfl fun _ => rfl
    | _ => rfl

/-- One or more locations, with bars between them and possibly before them. -/
theorem recognizes_locations (bound : Nat) (directive : String) (cause : SchemaFault) :
    Recognizes bound (do
      let _ ← Scan.eat .pipe cause
      Scan.of (readLocations directive))
      (Led .pipe DirectiveDefinition.LocationDerives)
      (fun next => next = some .pipe ∨ ∃ name, next = some (.name name)) (· ≠ some .pipe) := by
  have location : Recognizes bound _ DirectiveDefinition.LocationDerives _ _ :=
    (Predictive.spelled (SchemaFault.malformed (.expectedLocation directive))
      (Token.word?_eq_some ofSpelling?_eq_some) .query).toRecognizes
  have locations : Recognizes bound (Scan.of (readLocations directive)) _ _ (· ≠ some .pipe) :=
    .separated (scan_readLocations directive) location (by simp) (fun _ _ => trivial) fun _ => id
  refine (locations.led cause (by simp) (by simp)).congr (fun _ _ => Iff.rfl) ?_ fun _ => id
  grind

theorem scan_readDirective :
    Scan.of readDirective = (do
      let name ← Scan.take Token.directiveName? fun _ => .malformed .expectedDirectiveName
      let arguments ← Scan.of (readInputValues .parenOpen .parenClose)
      let isRepeatable ← Scan.eat (.name "repeatable") (.malformed .expectedDirectiveName)
      Scan.exactly (.name "on") (.malformed (.expectedToken (.name "on")))
      let locations ← (do
        let _ ← Scan.eat .pipe (.malformed .expectedDirectiveName)
        Scan.of (readLocations name))
      pure ⟨name, arguments, locations.eraseDups, isRepeatable⟩) := by
  have name (tokens : List Token) : (readDirectiveName tokens).plain =
      Scan.take Token.directiveName? (fun _ => .malformed .expectedDirectiveName) tokens := by
    rcases tokens with _ | ⟨next, rest⟩
    · rfl
    · cases next <;> rfl
  funext tokens
  refine Scan.plain_bind (name tokens) fun name => ?_
  refine Scan.plain_bind rfl fun arguments => ?_
  rw [Scan.bind_ok (Scan.eat_eq _ _ _)]
  refine Scan.plain_bind (Scan.plain_expect _ _ _) fun on => ?_
  have lead := Scan.eat_bind .pipe (.malformed .expectedDirectiveName)
    (Scan.of (readLocations name.value)) on.rest
  exact Scan.plain_bind lead.symm fun _ => rfl

theorem recognizes_readDirective (bound : Nat) :
    Recognizes bound (Scan.of readDirective)
      (fun word directive => DirectiveDefinition.Derives (.name "directive" :: word) directive ∧
        Named.Distinct directive.arguments)
      (fun next => ∃ name, next = some (.directiveName name)) FollowsDefinition := by
  have name : Recognizes bound _ _ _ _ := (Predictive.spelled
    (SchemaFault.malformed .expectedDirectiveName) Token.directiveName?_eq_some "").toRecognizes
  have locations (name : String) (arguments : List InputValueDefinition) (isRepeatable : Bool) :=
    ((recognizes_locations bound name (.malformed .expectedDirectiveName)).narrow
      FollowsDefinition fun _ follow => follow.ne rfl rfl).map fun locations =>
        DirectiveDefinition.mk name arguments locations.eraseDups isRepeatable
  rw [scan_readDirective]
  refine (name.bind (fun name => (recognizes_readInputValues (.inl rfl)).bind (fun arguments =>
    (Recognizes.eat (.name "repeatable") _).bind (fun isRepeatable =>
      (locations name arguments isRepeatable).after (.name "on") _) ?afterRepeatable)
        ?afterArguments) fun _ _ => trivial).congr ?words ?starts fun _ => id
  case afterRepeatable => grind [Ahead]
  case afterArguments => grind [Ahead]
  case words =>
    intro word directive
    constructor
    · rintro ⟨_, _, name, rfl, rfl, _, _, _, rfl, ⟨given, distinct⟩, _, _, _, rfl, often, _, rfl, _,
        places, rfl⟩
      refine ⟨?_, distinct⟩
      rcases often with ⟨rfl, rfl⟩ | ⟨rfl, rfl⟩
      · have derived := DirectiveDefinition.Derives.intro name given .present places
        exact derived
      · have derived := DirectiveDefinition.Derives.intro name given .absent places
        exact derived
    · rintro ⟨derived, distinct⟩
      cases derived with
      | intro name given often places =>
          refine ⟨_, _, name, rfl, rfl, _, _, _, rfl, ⟨given, distinct⟩, _, _, _, rfl, ?_, _, rfl,
            _, places, rfl⟩
          cases often with
          | absent => exact .inr ⟨rfl, rfl⟩
          | present => exact .inl ⟨rfl, rfl⟩
  case starts => grind [Ahead]

/-! ## Root types -/

end Definitions

namespace RootNames

theorem get?_set (roots : RootNames) (kind other : OperationKind) (name : String) :
    (roots.set kind name).get? other = if other = kind then some name else roots.get? other := by
  cases kind <;> cases other <;> rfl

theorem ext_get? {first second : RootNames} (same : ∀ kind, first.get? kind = second.get? kind) :
    first = second := by
  obtain ⟨_, _, _⟩ := first
  obtain ⟨_, _, _⟩ := second
  simpa [get?] using And.intro (same .query) (And.intro (same .mutation) (same .subscription))

/-- Root types can be added one after another to those that are given. -/
def Extends (roots : RootNames) (entries : List (OperationKind × String)) (all : RootNames) :
    Prop :=
  (entries.map Prod.fst).Nodup ∧ (∀ entry ∈ entries, roots.get? entry.1 = none) ∧
    all = entries.foldl (fun roots entry => roots.set entry.1 entry.2) roots

theorem extends_cons {roots all : RootNames} {kind : OperationKind} {name : String}
    {entries : List (OperationKind × String)} :
    Extends roots ((kind, name) :: entries) all ↔
      Extends (roots.set kind name) entries all ∧ (roots.get? kind).isSome = false := by
  simp only [Extends, List.map_cons, List.nodup_cons, List.mem_map, List.forall_mem_cons,
    List.foldl_cons, get?_set, Option.isSome_eq_false_iff, Option.isNone_iff_eq_none]
  grind

theorem get?_foldl {entries : List (OperationKind × String)}
    (distinct : (entries.map Prod.fst).Nodup) (roots : RootNames) (kind : OperationKind) :
    (entries.foldl (fun roots entry => roots.set entry.1 entry.2) roots).get? kind =
      (entries.lookup kind).or (roots.get? kind) := by
  induction entries generalizing roots with
  | nil => rfl
  | cons entry entries ih =>
      obtain ⟨other, name⟩ := entry
      rw [List.map_cons, List.nodup_cons] at distinct
      rw [List.foldl_cons, ih distinct.2, get?_set, List.lookup_cons]
      by_cases same : kind = other
      · subst same
        have absent : entries.lookup kind = none := by
          rw [List.lookup_eq_none_iff]
          intro entry member
          have differ : kind ≠ entry.1 := by
            rintro rfl
            exact distinct.1 (List.mem_map.mpr ⟨entry, member, rfl⟩)
          simpa using differ
        simp [absent]
      · rw [if_neg same, beq_false_of_ne same]

/-- Root types are those that are given, if none is given twice. -/
theorem extends_empty {entries : List (OperationKind × String)} {all : RootNames} :
    Extends .empty entries all ↔
      (entries.map Prod.fst).Nodup ∧ all = SchemaItem.rootNames entries := by
  have free (kind : OperationKind) : empty.get? kind = none := by
    cases kind <;> rfl
  have names (distinct : (entries.map Prod.fst).Nodup) :
      entries.foldl (fun roots entry => roots.set entry.1 entry.2) empty =
        SchemaItem.rootNames entries := by
    apply ext_get?
    intro kind
    rw [get?_foldl distinct, free, Option.or_none]
    cases kind <;> rfl
  constructor
  · rintro ⟨distinct, _, rfl⟩
    exact ⟨distinct, names distinct⟩
  · rintro ⟨distinct, rfl⟩
    exact ⟨distinct, fun entry _ => free entry.1, (names distinct).symm⟩

end RootNames

namespace Definitions

theorem scan_readRoots (roots : RootNames) :
    Scan.of (readRoots roots) = Scan.choose (· = some .braceClose)
      (do
        Scan.exactly .braceClose (.malformed .expectedOperationType)
        pure roots)
      (do
        let kind ← Scan.take (Token.word? OperationKind.ofKeyword?)
          fun _ => .malformed .expectedOperationType
        Scan.failIf (roots.get? kind).isSome (.conflicting .repeatedRoot) (do
          Scan.exactly .colon (.malformed (.expectedToken .colon))
          let name ← Scan.name (.malformed (.expectedName .type))
          Scan.of (readRoots (roots.set kind name)))) := by
  funext tokens
  rw [Scan.of, readRoots.eq_def]
  rcases tokens with _ | ⟨next, rest⟩
  · rfl
  · cases next with
    | braceClose => rfl
    | name text =>
        rw [Scan.choose_other _ _ (by simp)]
        cases found : OperationKind.ofKeyword? text with
        | none =>
            refine Eq.trans ?_ (Scan.bind_error (Scan.take_eq_error.mpr ⟨rfl, ?_⟩)).symm
            · simp [found, Reading.fail, Reading.plain]
            · simpa [Token.word?, Token.name?] using found
        | some kind =>
            rw [Scan.bind_ok (Scan.take_eq_ok.mpr ⟨_, rfl, by
              simpa [Token.word?, Token.name?] using found⟩), Scan.failIf]
            simp only [found]
            split
            · rfl
            · refine Scan.plain_bind (Scan.plain_expect _ _ _) fun colon => ?_
              refine Scan.plain_bind (Scan.plain_name _ _) fun name => ?_
              exact Scan.plain_weaken _ (Nat.le_succ_of_le (Nat.le_of_lt (colon.after name)))
    | _ => rfl

/-- Root types up to the closing brace, none of which is given twice. -/
theorem recognizes_readRoots (bound : Nat) (roots : RootNames) :
    Recognizes bound (Scan.of (readRoots roots))
      (fun word all => ∃ entries,
        Language.closedBy SchemaItem.RootDerives .braceClose word entries ∧
          roots.Extends entries all)
      (fun next => next = some .braceClose ∨ ∃ name, next = some (.name name))
      fun _ => True := by
  induction bound generalizing roots with
  | zero =>
      refine .zero ?_
      rintro _ _ ⟨_, ⟨_, rfl, _ | ⟨⟨kind, name⟩, _⟩⟩, _⟩
      · exact .inl rfl
      · exact .inr ⟨_, rfl⟩
  | succ bound ih =>
      have kind : Recognizes (bound + 1) _ _ _ _ := (Predictive.spelled
        (SchemaFault.malformed .expectedOperationType) OperationKind.word?_eq_some
          .query).toRecognizes
      rw [scan_readRoots]
      refine (((Recognizes.exactly .braceClose _).map fun _ => roots).choose
        (kind.bindLess (by simp) (fun kind => (((recognizes_readName .type).bind
          (fun name => ih (roots.set kind name)) fun _ _ => trivial).after
            .colon _).failIf _ _) fun _ _ => trivial) ?passes ?fails).congr ?words ?starts
              fun _ => id
      case passes => grind [Ahead]
      case fails => grind [Ahead]
      case words =>
        intro word all
        constructor
        · rintro (⟨_, rfl, rfl⟩ | ⟨_, _, kind, rfl, rfl, ⟨_, rfl, _, _, name, rfl, rfl, _,
            ⟨_, rfl, many⟩, added⟩, fresh⟩)
          · exact ⟨[], ⟨[], rfl, .nil⟩, by simp [RootNames.Extends]⟩
          · exact ⟨_, ⟨_, rfl, .cons (.intro kind name) many⟩,
              RootNames.extends_cons.mpr ⟨added, fresh⟩⟩
        · rintro ⟨_, ⟨_, rfl, _ | ⟨⟨kind, name⟩, many⟩⟩, added⟩
          · exact .inl ⟨(), rfl, added.2.2⟩
          · obtain ⟨added, fresh⟩ := RootNames.extends_cons.mp added
            exact .inr ⟨[_], _, kind, rfl, rfl, ⟨_, rfl, [_], _, name, rfl, rfl, _,
              ⟨_, rfl, many⟩, added⟩, fresh⟩
      case starts => grind [Ahead]

theorem scan_readSchema :
    Scan.of readSchema = (do
      Scan.of skipDirectives
      Scan.exactly .braceOpen (.malformed (.expectedToken .braceOpen))
      Scan.of (readRoots .empty)) := by
  funext tokens
  refine Scan.plain_bind rfl fun directives => ?_
  refine Scan.plain_bind (Scan.plain_expect _ _ _) fun brace => ?_
  exact Scan.plain_weaken _ _

theorem recognizes_readSchema (bound : Nat) :
    Recognizes bound (Scan.of readSchema)
      (fun word names => ∃ entries, SchemaItem.Derives (.name "schema" :: word) (.roots entries) ∧
        (SchemaItem.roots entries).Distinct ∧ names = SchemaItem.rootNames entries)
      (fun next => next = some .braceOpen ∨ ∃ name, next = some (.directiveName name))
      fun _ => True := by
  rw [scan_readSchema]
  refine ((recognizes_skipDirectives bound).bind (fun _ =>
    (recognizes_readRoots bound .empty).after .braceOpen _) ?afterDirectives).congr ?words ?starts
      fun _ => id
  case afterDirectives => grind [Ahead, Directive.Follows]
  case words =>
    intro word names
    constructor
    · rintro ⟨_, _, _, rfl, ⟨_, marks⟩, _, rfl, entries, ⟨_, rfl, many⟩, added⟩
      exact ⟨entries, .roots marks many, RootNames.extends_empty.mp added⟩
    · rintro ⟨entries, derived, added⟩
      cases derived with
      | roots marks many =>
          exact ⟨_, _, (), rfl, ⟨_, marks⟩, _, rfl, entries, ⟨_, rfl, many⟩,
            RootNames.extends_empty.mpr added⟩
  case starts => grind [Ahead]

/-! ## Whole texts -/

def add (found : Definitions) : SchemaItem → Definitions
  | .roots entries => { found with roots? := some (SchemaItem.rootNames entries) }
  | .type definition => { found with types := found.types ++ [definition] }
  | .directive definition => { found with directives := found.directives ++ [definition] }

/-- Whether a definition goes together with those before it. -/
def Fits (found : Definitions) : SchemaItem → Prop
  | .roots _ => found.roots? = none
  | .type definition => Named.contains found.types definition.name = false
  | .directive definition => Named.contains found.directives definition.name = false

def Admits (found : Definitions) : List SchemaItem → Prop
  | [] => True
  | item :: items => (item.Distinct ∧ found.Fits item) ∧ (found.add item).Admits items

def StartsItem (next : Option Token) : Prop :=
  next = some (.name "schema") ∨ next = some (.name "directive") ∨ StartsType next

theorem StartsItem.follows {next : Option Token} (start : StartsItem next) :
    FollowsDefinition next := by
  rcases start with rfl | rfl | ⟨kind, rfl⟩
  · exact .inr (.inr ⟨_, rfl, by decide⟩)
  · exact .inr (.inr ⟨_, rfl, by decide⟩)
  · exact .inr (.inr ⟨_, rfl, by cases kind <;> decide⟩)

theorem StartsType.apart {next : Option Token} (start : StartsType next) :
    next ≠ some (.name "schema") ∧ next ≠ some (.name "directive") ∧ next ≠ none := by
  obtain ⟨kind, rfl⟩ := start
  cases kind <;> decide

theorem scan_readNext (found : Definitions) :
    Scan.of (readNext found) =
      Scan.choose (· = some (.name "schema"))
        (Scan.failIf found.roots?.isSome (.malformed .repeatedSchema) (do
          Scan.exactly (.name "schema") (.malformed .expectedDefinition)
          let names ← Scan.of readSchema
          pure { found with roots? := some names }))
        (Scan.choose (· = some (.name "directive"))
          (do
            Scan.exactly (.name "directive") (.malformed .expectedDefinition)
            let definition ← Scan.of readDirective
            Scan.failIf (Named.contains found.directives definition.name)
              (.conflicting (.repeatedDirective definition.name))
              (pure { found with directives := found.directives ++ [definition] }))
          (do
            let definition ← Scan.of readType
            Scan.failIf (Named.contains found.types definition.name)
              (.conflicting (.repeatedType definition.name))
              (pure { found with types := found.types ++ [definition] }))) := by
  funext tokens
  rw [Scan.of, readNext]
  split
  next keyword accepted =>
    rw [Scan.choose_present accepted, Scan.failIf]
    split
    · rfl
    · rw [Scan.bind_ok (Scan.exactly_accepted accepted _)]
      exact (Scan.plain_weaken _ _).trans (Scan.plain_bind rfl fun _ => rfl)
  next refused =>
    rw [Scan.choose_refused refused]
    split
    next keyword accepted =>
      rw [Scan.choose_accepted accepted]
      refine (Scan.plain_weaken _ _).trans (Scan.plain_bind rfl fun directive => ?_)
      rw [Scan.failIf]
      split <;> rfl
    next refused =>
      rw [Scan.choose_refused refused]
      refine Scan.plain_bind rfl fun type => ?_
      rw [Scan.failIf]
      split <;> rfl

/-- One more definition, which goes together with those before it. -/
theorem recognizes_readNext (bound : Nat) (found : Definitions) :
    Recognizes bound (Scan.of (readNext found))
      (fun word all => ∃ item, SchemaItem.Derives word item ∧
        (item.Distinct ∧ found.Fits item) ∧ all = found.add item)
      StartsItem FollowsDefinition := by
  have roots := ((((recognizes_readSchema bound).narrow FollowsDefinition
    fun _ _ => trivial).map fun names => { found with roots? := some names }).after
      (.name "schema") (.malformed .expectedDefinition)).failIf found.roots?.isSome
        (.malformed .repeatedSchema)
  have directive := ((recognizes_readDirective bound).bind (fun definition =>
    (Recognizes.pure { found with directives := found.directives ++ [definition] }).failIf
      (Named.contains found.directives definition.name)
      (.conflicting (.repeatedDirective definition.name))) fun _ => Ahead.of_none).after
        (.name "directive") (.malformed .expectedDefinition)
  have type := (recognizes_readType bound).bind (fun definition =>
    (Recognizes.pure { found with types := found.types ++ [definition] }).failIf
      (Named.contains found.types definition.name)
      (.conflicting (.repeatedType definition.name))) fun _ => Ahead.of_none
  rw [scan_readNext]
  refine (roots.choose (directive.choose type ?directivePasses ?typeFails)
    ?rootsPass ?othersFail).congr ?words ?starts fun _ => id
  case directivePasses => grind [Ahead]
  case typeFails => grind [Ahead, → StartsType.apart]
  case rootsPass => grind [Ahead]
  case othersFail => grind [Ahead, → StartsType.apart]
  case words =>
    intro word all
    constructor
    · rintro (⟨⟨_, rfl, _, ⟨entries, derived, distinct, rfl⟩, rfl⟩, free⟩ |
        ⟨_, rfl, _, _, definition, rfl, ⟨derived, distinct⟩, ⟨rfl, rfl⟩, fresh⟩ |
        ⟨_, _, definition, rfl, ⟨derived, distinct⟩, ⟨rfl, rfl⟩, fresh⟩)
      · exact ⟨.roots entries, derived, ⟨distinct, by simpa [Fits] using free⟩, rfl⟩
      · rw [List.append_nil]
        exact ⟨.directive definition, .directive derived, ⟨distinct, fresh⟩, rfl⟩
      · rw [List.append_nil]
        exact ⟨.type definition, .type derived, ⟨distinct, fresh⟩, rfl⟩
    · rintro ⟨item, derived, ⟨distinct, fits⟩, rfl⟩
      cases derived with
      | roots marks many =>
          exact .inl ⟨⟨_, rfl, _, ⟨_, .roots marks many, distinct, rfl⟩, rfl⟩, by
            simpa [Fits] using fits⟩
      | directive derived =>
          obtain ⟨name, given, often, places⟩ := derived
          exact .inr (.inl ⟨_, rfl, _, [], _, (List.append_nil _).symm,
            ⟨.intro name given often places, distinct⟩, ⟨rfl, rfl⟩, fits⟩)
      | type derived =>
          exact .inr (.inr ⟨_, [], _, (List.append_nil _).symm, ⟨derived, distinct⟩, ⟨rfl, rfl⟩,
            fits⟩)
  case starts => grind [Ahead, StartsItem]

theorem whole_readAll (found : Definitions) :
    Scan.whole (readAll found) = (do
      scanDescription
      Scan.choose Option.isSome
        (do
          let next ← Scan.of (readNext found)
          Scan.whole (readAll next))
        (pure found)) := by
  funext tokens
  rw [description_bind, Scan.whole, readAll, Scan.choose]
  split
  next empty =>
    rw [List.isEmpty_iff.mp empty]
    rfl
  next nonempty =>
    have ahead : (skipDescription tokens).rest.head?.isSome = true := by
      simpa [List.isEmpty_iff] using nonempty
    rw [if_pos ahead]
    exact Scan.map_bind rfl fun _ => rfl

theorem StartsItem.of_derives {word rest : List Token} {item : SchemaItem}
    (derived : SchemaItem.Derives word item) : StartsItem (word ++ rest).head? := by
  cases derived with
  | roots => exact .inl rfl
  | type derived =>
      obtain @⟨kind, _, _, _⟩ := derived
      exact .inr (.inr ⟨kind, rfl⟩)
  | directive derived =>
      obtain ⟨_, _, _, _⟩ := derived
      exact .inr (.inl rfl)

/-- Definitions up to the end, which go together with those before them. -/
theorem recognizes_readAll (bound : Nat) (found : Definitions) :
    Recognizes bound (Scan.whole (readAll found))
      (fun word all => ∃ items, SchemaItem.TextDerives word items ∧ found.Admits items ∧
        all = items.foldl add found)
      (fun next => next = none ∨ (∃ text, next = some (.string text)) ∨ StartsItem next)
      (· = none) := by
  -- Each definition is read with all those before it, by which its name may be taken.
  induction bound generalizing found with
  | zero =>
      refine .zero ?_
      rintro _ _ ⟨_, ⟨_ | text⟩ | @⟨_, word, rest, _, _, _ | text, derived, _⟩, _⟩
      · exact .inl rfl
      · exact .inr (.inl ⟨text, rfl⟩)
      · have start : StartsItem (word ++ rest).head? := StartsItem.of_derives derived
        exact .inr (.inr start)
      · exact .inr (.inl ⟨text, rfl⟩)
  | succ bound ih =>
      have next := recognizes_readNext (bound + 1) found
      have nonempty : ¬StartsItem none := by simp [StartsItem, StartsType]
      rw [whole_readAll]
      refine ((recognizes_description (bound + 1)).bind (fun _ =>
        (next.bindLess nonempty ih ?afterItem).choose (.pure found) ?passes ?fails)
          ?afterDescription).congr ?words ?starts fun _ => id
      case afterItem => grind [Ahead, FollowsDefinition, StartsItem.follows]
      case passes => grind [Ahead, Option.isSome_iff_ne_none]
      case fails => grind [Ahead]
      case afterDescription => grind [Ahead, StartsItem, StartsType]
      case words =>
        intro word all
        constructor
        · rintro ⟨_, _, _, rfl, description, ⟨_, _, _, rfl, ⟨item, derived, fits, rfl⟩, items,
            others, admitted, rfl⟩ | ⟨rfl, rfl⟩⟩
          · exact ⟨item :: items, .cons description derived others, ⟨fits, admitted⟩, rfl⟩
          · rw [List.append_nil]
            exact ⟨[], .nil description, trivial, rfl⟩
        · rintro ⟨_, description | ⟨description, derived, others⟩, admitted, rfl⟩
          · exact ⟨_, [], (), (List.append_nil _).symm, description, .inr ⟨rfl, rfl⟩⟩
          · exact ⟨_, _, (), rfl, description, .inl ⟨_, _, _, rfl, ⟨_, derived, admitted.1, rfl⟩,
              _, others, admitted.2, rfl⟩⟩
      case starts => grind [Ahead]

/-- Definitions can be added one after another if no name is repeated among them and those that are
given. -/
theorem admits_iff (found : Definitions) (items : List SchemaItem) :
    found.Admits items ↔ (∀ item ∈ items, item.Distinct) ∧
      Named.DistinctFrom found.types (items.filterMap SchemaItem.type?) ∧
      Named.DistinctFrom found.directives (items.filterMap SchemaItem.directive?) ∧
      found.roots?.toList.length + (items.filterMap SchemaItem.roots?).length ≤ 1 := by
  induction items generalizing found with
  | nil => simp [Admits, Named.DistinctFrom, Named.Distinct]
  | cons item items ih =>
      rw [Admits, ih, List.forall_mem_cons]
      cases item with
      | roots entries =>
          simp only [List.filterMap_cons, SchemaItem.type?, SchemaItem.directive?,
            SchemaItem.roots?, add, Fits, Option.toList_some, List.length_cons, List.length_nil]
          cases found.roots? <;> grind
      | type definition =>
          simp only [List.filterMap_cons, SchemaItem.type?, SchemaItem.directive?,
            SchemaItem.roots?, add, Fits, Named.distinctFrom_cons, HasName.name]
          grind
      | directive definition =>
          simp only [List.filterMap_cons, SchemaItem.type?, SchemaItem.directive?,
            SchemaItem.roots?, add, Fits, Named.distinctFrom_cons, HasName.name]
          grind

theorem admits_empty_iff (items : List SchemaItem) :
    Admits ⟨none, [], []⟩ items ↔ SchemaItem.AllDistinct items := by
  rw [admits_iff, Named.distinctFrom_nil, Named.distinctFrom_nil]
  constructor
  · rintro ⟨inside, types, directives, roots⟩
    exact ⟨inside, types, directives, by simpa using roots⟩
  · rintro ⟨inside, types, directives, roots⟩
    exact ⟨inside, types, directives, by simpa using roots⟩

/-- What is added to definitions stands after them in source order. -/
theorem foldl_add {found : Definitions} {items : List SchemaItem} (admitted : found.Admits items) :
    items.foldl add found =
      ⟨found.roots?.or ((items.filterMap SchemaItem.roots?).head?.map SchemaItem.rootNames),
        found.types ++ items.filterMap SchemaItem.type?,
        found.directives ++ items.filterMap SchemaItem.directive?⟩ := by
  induction items generalizing found with
  | nil => simp
  | cons item items ih =>
      rw [List.foldl_cons, ih admitted.2]
      cases item with
      | roots entries =>
          have free : found.roots? = none := admitted.1.2
          simp [add, List.filterMap_cons, SchemaItem.type?, SchemaItem.directive?,
            SchemaItem.roots?, free]
      | type definition =>
          simp [add, List.filterMap_cons, SchemaItem.type?, SchemaItem.directive?,
            SchemaItem.roots?]
      | directive definition =>
          simp [add, List.filterMap_cons, SchemaItem.type?, SchemaItem.directive?,
            SchemaItem.roots?]

theorem read_eq_ok_iff {tokens : List Token} {definitions : Definitions} :
    read tokens = .ok definitions ↔ ∃ items, SchemaItem.TextDerives tokens items ∧
      SchemaItem.AllDistinct items ∧ definitions = SchemaItem.collect items := by
  have exact : read tokens = .ok definitions ↔ _ :=
    Recognizes.whole_iff fun bound => recognizes_readAll bound ⟨none, [], []⟩
  rw [exact]
  refine exists_congr fun items => and_congr_right fun _ => ?_
  rw [← admits_empty_iff]
  refine and_congr_right fun admitted => ?_
  rw [foldl_add admitted]
  simp [SchemaItem.collect]

/-- The definitions of a schema text are read exactly if the tokens derive them and no name is
repeated. All other tokens give a failure. -/
theorem reads_schema_grammar :
    (∀ tokens definitions, read tokens = .ok definitions ↔
      ∃ items, SchemaItem.TextDerives tokens items ∧ SchemaItem.AllDistinct items ∧
        definitions = SchemaItem.collect items) ∧
      ∀ tokens, (∃ failure, read tokens = .error failure) ↔
        ¬∃ items, SchemaItem.TextDerives tokens items ∧ SchemaItem.AllDistinct items := by
  refine ⟨fun _ _ => read_eq_ok_iff, fun tokens => ?_⟩
  constructor
  · rintro ⟨failure, error⟩ ⟨items, derived, distinct⟩
    rw [read_eq_ok_iff.mpr ⟨items, derived, distinct, rfl⟩] at error
    cases error
  · intro none
    cases outcome : read tokens with
    | error failure => exact ⟨failure, rfl⟩
    | ok definitions =>
        obtain ⟨items, derived, distinct, _⟩ := read_eq_ok_iff.mp outcome
        exact absurd ⟨items, derived, distinct⟩ none

/-- A schema text with descriptions, one of them alone at the end, and a repeated location. -/
def sampleText : List Token :=
  [.string "Root types.", .name "schema", .braceOpen, .name "query", .colon, .name "Root",
    .braceClose, .name "type", .name "Root", .name "implements", .ampersand, .name "Node",
    .braceOpen, .name "pet", .parenOpen, .name "id", .colon, .name "ID", .equal, .name "null",
    .parenClose, .colon, .name "Node", .exclam, .braceClose, .name "interface", .name "Node",
    .name "directive", .directiveName "d", .name "on", .pipe, .name "FIELD", .pipe,
    .name "FIELD", .string "The end."]

def sampleRead : Definitions where
  roots? := some ⟨some "Root", none, none⟩
  types :=
    [.object ⟨"Root", [⟨"pet", [⟨"id", .named "ID", some .null⟩], .nonNull (.named "Node")⟩],
      ["Node"]⟩,
    .interface ⟨"Node", [], [], []⟩]
  directives := [⟨"d", [], [.field], false⟩]

theorem read_sampleText : read sampleText = .ok sampleRead := by
  cbv

theorem reads_schema_grammar_sampleText :
    ∃ items, SchemaItem.TextDerives sampleText items ∧ SchemaItem.AllDistinct items ∧
      sampleRead = SchemaItem.collect items :=
  (reads_schema_grammar.1 _ _).mp read_sampleText

end Definitions

end QueryCheck
