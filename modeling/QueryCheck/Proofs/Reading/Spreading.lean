import QueryCheck.Proofs.Reading.Surroundings

/-!
# Spreading fragments

A selection set of a document that is read is replaced by a spread of a fragment of the document
and nothing else. The main result says what comes of it. The tokens are read, and the spread is
found in the place of the selection set, exactly if the fragment is not named `on`. A fragment of
that name can be defined, but not spread: after the dots its name starts a type condition.
-/

namespace QueryCheck

namespace Selection

/-- How a selection set is spelled that is a spread of a fragment and nothing else. -/
def spreadAlone (name : String) : List Token :=
  [.braceOpen, .ellipsis, .name name, .braceClose]

theorem setDerives_spreadAlone {name : String} (free : name ≠ "on") :
    SetDerives (spreadAlone name) [.spread ⟨name, []⟩] := by
  have spread : Derives [.ellipsis, .name name] (.spread ⟨name, []⟩) := .spread (.intro free .nil)
  exact .intro (.cons spread .nil) (List.cons_ne_nil _ _)

/-- A field alone is spelled with its name. -/
theorem derives_leaf (name : String) : Derives [.name name] (.field ⟨none, name, [], [], []⟩) :=
  .field (.intro (.plain name) .absent .nil .absent)

theorem setDerives_leaf (name : String) :
    SetDerives [.braceOpen, .name name, .braceClose] [.field ⟨none, name, [], [], []⟩] :=
  .intro (.cons (derives_leaf name) .nil) (List.cons_ne_nil _ _)

/-- After dots `on` starts a type condition, and the name of the type is missing. -/
theorem readRequired_spreadAlone_on (kind : NodeKind) (rest : List Token) :
    Scan.of (readRequired kind) (spreadAlone "on" ++ rest) =
      .error ⟨.namedType, [.braceClose] ++ rest⟩ := by
  have condition : Scan.of InlineFragment.readCondition (.name "on" :: .braceClose :: rest) =
      .error ⟨.namedType, .braceClose :: rest⟩ := by
    rw [InlineFragment.scan_readCondition, Scan.choose_exactly]
    rfl
  have fragment : InlineFragment.scanBody (.name "on" :: .braceClose :: rest) =
      .error ⟨.namedType, .braceClose :: rest⟩ :=
    Scan.bind_error (Scan.bind_error condition)
  have selection : Scan.of read (.ellipsis :: .name "on" :: .braceClose :: rest) =
      .error ⟨.namedType, .braceClose :: rest⟩ := by
    rw [scan_read, Scan.choose, if_neg (by simp [Token.name?]), Scan.exactly_bind, Scan.choose,
      if_pos (by simp [startsInline]), Scan.bind_error fragment]
  rw [scan_readRequired, spreadAlone, List.cons_append, Scan.exactly_bind, Scan.refuse,
    if_neg (by simp)]
  have items := manyUntil_fails .nil (.inl rfl) selection
  exact items

end Selection

theorem Fragment.derives_leaf (name type field : String) :
    Definition.Derives
      [.name "fragment", .name name, .name "on", .name type, .braceOpen, .name field, .braceClose]
      (.fragment ⟨name, type, [], [.field ⟨none, field, [], [], []⟩]⟩) :=
  .fragment (.intro name type .nil (Selection.setDerives_leaf field))

namespace Document

/-- Every selection set of a document that is read can be replaced by a spread of a fragment of the
document and nothing else. The tokens are read, and the spread is found where the selection set
was, if the fragment is not named `on`. If it is, reading fails behind its name. -/
theorem read_spreadAlone {tokens : List Token} {document : Document}
    (accepted : read tokens = .ok document) :
    (∀ path selections, (Root.document document).follow? path = some (.selectionSet selections) →
        ∃ surroundings before word after,
          Occurs document tokens path surroundings before word after selections) ∧
      ∀ fragment : Fragment, .fragment fragment ∈ document.definitions →
        ∀ path surroundings before word after selections,
          Occurs document tokens path surroundings before word after selections →
            (Root.document document).follow? path = some (.selectionSet selections) ∧
              (fragment.name ≠ "on" →
                read (before ++ (Selection.spreadAlone fragment.name ++ after)) =
                    .ok (surroundings.fill [.spread ⟨fragment.name, []⟩]) ∧
                  (Root.document (surroundings.fill [.spread ⟨fragment.name, []⟩])).follow? path =
                    some (.selectionSet [.spread ⟨fragment.name, []⟩])) ∧
              (fragment.name = "on" →
                read (before ++ (Selection.spreadAlone fragment.name ++ after)) =
                  .error ⟨.namedType, .braceClose :: after⟩) := by
  refine ⟨fun path selections => exists_occurs (read_eq_ok_iff.mp accepted), ?_⟩
  rintro fragment - path surroundings before word after selections
    ⟨around, -, -, rfl, rfl⟩
  refine ⟨Surroundings.follow_fill around selections, fun free => ⟨?_, ?_⟩, fun on => ?_⟩
  · exact read_eq_ok_iff.mpr
      (Surroundings.derives_fill around (Selection.setDerives_spreadAlone free))
  · exact Surroundings.follow_fill around _
  · rw [on]
    exact Surroundings.read_fails around rfl Selection.readRequired_spreadAlone_on

def sampleFragments : Document :=
  ⟨[.operation ⟨.query, none, [], [], [.field ⟨none, "a", [], [], [.field ⟨none, "b", [], [], []⟩]⟩,
      .field ⟨none, "c", [], [], []⟩]⟩,
    .fragment ⟨"f", "T", [], [.field ⟨none, "d", [], [], []⟩]⟩,
    .fragment ⟨"on", "T", [], [.field ⟨none, "e", [], [], []⟩]⟩]⟩

def sampleAfter : List Token :=
  [.name "c", .braceClose, .name "fragment", .name "f", .name "on", .name "T", .braceOpen,
    .name "d", .braceClose, .name "fragment", .name "on", .name "on", .name "T", .braceOpen,
    .name "e", .braceClose]

theorem read_spreadAlone_sampleFragments :
    read ([.braceOpen, .name "a"] ++ ([.braceOpen, .name "b", .braceClose] ++ sampleAfter)) =
        .ok sampleFragments ∧
      read ([.braceOpen, .name "a"] ++ (Selection.spreadAlone "f" ++ sampleAfter)) =
        .ok ⟨.operation ⟨.query, none, [], [], [.field ⟨none, "a", [], [], [.spread ⟨"f", []⟩]⟩,
          .field ⟨none, "c", [], [], []⟩]⟩ :: sampleFragments.definitions.tail⟩ ∧
      read ([.braceOpen, .name "a"] ++ (Selection.spreadAlone "on" ++ sampleAfter)) =
        .error ⟨.namedType, .braceClose :: sampleAfter⟩ := by
  let around : Selection.Surroundings :=
    .inside [] (.field ⟨none, "a", [], [], []⟩) .nothing [.field ⟨none, "c", [], [], []⟩]
  let surroundings : Surroundings :=
    ⟨[], .operation ⟨.query, none, [], [], []⟩, around, sampleFragments.definitions.tail⟩
  have derived : surroundings.Derives [.braceOpen, .name "a"] sampleAfter :=
    .intro surroundings .nil .short (.inside .nil (.field (.plain "a") .absent .nil) .nothing
      (.cons (Selection.derives_leaf "c") .nil))
      (.cons (Fragment.derives_leaf "f" "T" "d") (.cons (Fragment.derives_leaf "on" "T" "e") .nil))
  have occurs : Occurs sampleFragments
      ([.braceOpen, .name "a"] ++ ([.braceOpen, .name "b", .braceClose] ++ sampleAfter))
      surroundings.path surroundings [.braceOpen, .name "a"] [.braceOpen, .name "b", .braceClose]
      sampleAfter [.field ⟨none, "b", [], [], []⟩] :=
    ⟨derived, .present (Selection.setDerives_leaf "b"), rfl, rfl, rfl⟩
  have accepted : read
      ([.braceOpen, .name "a"] ++ ([.braceOpen, .name "b", .braceClose] ++ sampleAfter)) =
        .ok sampleFragments :=
    read_eq_ok_iff.mpr (Surroundings.derives_fill derived (Selection.setDerives_leaf "b"))
  obtain ⟨-, replaced⟩ := read_spreadAlone accepted
  obtain ⟨-, free, -⟩ := replaced ⟨"f", "T", [], [.field ⟨none, "d", [], [], []⟩]⟩
    (by simp [sampleFragments]) _ _ _ _ _ _ occurs
  obtain ⟨-, -, on⟩ := replaced ⟨"on", "T", [], [.field ⟨none, "e", [], [], []⟩]⟩
    (by simp [sampleFragments]) _ _ _ _ _ _ occurs
  exact ⟨accepted, (free (by decide)).1, on rfl⟩

/-- A fragment named `on` is read, and a spread of it in its own selection set is not. -/
theorem fragment_on_not_spread :
    read [.name "fragment", .name "on", .name "on", .name "T", .braceOpen, .name "a",
        .braceClose] =
      .ok ⟨[.fragment ⟨"on", "T", [], [.field ⟨none, "a", [], [], []⟩]⟩]⟩ ∧
    read [.name "fragment", .name "on", .name "on", .name "T", .braceOpen, .ellipsis, .name "on",
        .braceClose] =
      .error ⟨.namedType, [.braceClose]⟩ := by
  refine ⟨read_eq_ok_iff.mpr (.cons (Fragment.derives_leaf "on" "T" "a") .nil), ?_⟩
  cbv

end Document

end QueryCheck
