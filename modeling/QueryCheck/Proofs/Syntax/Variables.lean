import QueryCheck.Syntax.Value

/-!
# Variables in values

A variable occurs in a value at a place, which is found by counting the items of lists and the
fields of objects from the outside in. All occurrences are listed here in source order, each once.
The names that are collected from a value are those of its occurrences, in the same order.
-/

namespace QueryCheck

namespace Value

/-- A variable is in a value, at any depth. -/
inductive Mentions (name : String) : Value → Prop where
  | var : Mentions name (.var name)
  | list {items : List Value} {item : Value} (member : item ∈ items)
      (inner : Mentions name item) : Mentions name (.list items)
  | object {fields : List (String × Value)} {key : String} {value : Value}
      (member : (key, value) ∈ fields) (inner : Mentions name value) :
      Mentions name (.object fields)

/-! ## Places -/

def parts : Value → List Value
  | list items => items
  | object fields => fields.map Prod.snd
  | _ => []

def part? : Value → List Nat → Option Value
  | value, [] => some value
  | value, place :: inner => value.parts[place]?.bind fun part => part.part? inner

variable {name : String}

theorem mentions_iff_part? {value : Value} :
    value.Mentions name ↔ ∃ place, value.part? place = some (.var name) := by
  constructor
  · intro mentions
    induction mentions with
    | var => exact ⟨[], rfl⟩
    | list member _ ih =>
        obtain ⟨first, found⟩ := List.mem_iff_getElem?.mp member
        obtain ⟨inner, isVar⟩ := ih
        exact ⟨first :: inner, by rw [part?, parts, found, Option.bind_some, isVar]⟩
    | object member _ ih =>
        obtain ⟨first, found⟩ := List.mem_iff_getElem?.mp member
        obtain ⟨inner, isVar⟩ := ih
        refine ⟨first :: inner, ?_⟩
        rw [part?, parts, List.getElem?_map, found, Option.map_some, Option.bind_some, isVar]
  · rintro ⟨place, isVar⟩
    induction place generalizing value with
    | nil =>
        cases isVar
        exact .var
    | cons first inner ih =>
        rw [part?, Option.bind_eq_some_iff] at isVar
        obtain ⟨part, found, isVar⟩ := isVar
        have member := List.mem_of_getElem? found
        cases value with
        | list items => exact .list member (ih isVar)
        | object fields =>
            obtain ⟨entry, isEntry, rfl⟩ := List.mem_map.mp member
            exact .object isEntry (ih isVar)
        | _ => cases member

/-! ## Occurrences -/

/-- A list of variables in a value with their places is complete, without repetitions and in source
order. -/
structure Enumerates (value : Value) (found : List (List Nat × String)) : Prop where
  complete : ∀ place name, (place, name) ∈ found ↔ value.part? place = some (.var name)
  ordered : found.Pairwise fun first second => List.Lex (· < ·) first.1 second.1

/-- The occurrences inside of the part with the given number. -/
def within (place : Nat) (found : List (List Nat × String)) : List (List Nat × String) :=
  found.map fun occurrence => (place :: occurrence.1, occurrence.2)

mutual

/-- The variables in a value with their places. -/
def occurrences : Value → List (List Nat × String)
  | var name => [([], name)]
  | list items => itemOccurrences 0 items
  | object fields => fieldOccurrences 0 fields
  | _ => []

def itemOccurrences (place : Nat) : List Value → List (List Nat × String)
  | [] => []
  | item :: items => within place item.occurrences ++ itemOccurrences (place + 1) items

def fieldOccurrences (place : Nat) : List (String × Value) → List (List Nat × String)
  | [] => []
  | (_, value) :: fields => within place value.occurrences ++ fieldOccurrences (place + 1) fields

end

/-- Like `Enumerates`, for values that are parts of another one from a number on. -/
structure EnumeratesFrom (start : Nat) (values : List Value)
    (found : List (List Nat × String)) : Prop where
  complete : ∀ place name, (place, name) ∈ found ↔ ∃ offset inner,
    place = (start + offset) :: inner ∧
      (values[offset]?.bind fun part => part.part? inner) = some (.var name)
  ordered : found.Pairwise fun first second => List.Lex (· < ·) first.1 second.1

theorem enumeratesFrom_nil (start : Nat) : EnumeratesFrom start [] [] where
  complete := by simp
  ordered := .nil

theorem mem_within {start : Nat} {place : List Nat} {found : List (List Nat × String)} :
    (place, name) ∈ within start found ↔
      ∃ inner, place = start :: inner ∧ (inner, name) ∈ found := by
  rw [within, List.mem_map]
  constructor
  · rintro ⟨⟨inner, _⟩, member, ⟨⟩⟩
    exact ⟨inner, rfl, member⟩
  · rintro ⟨inner, rfl, member⟩
    exact ⟨(inner, name), member, rfl⟩

theorem EnumeratesFrom.cons {start : Nat} {value : Value} {values : List Value}
    {found others : List (List Nat × String)} (first : value.Enumerates found)
    (rest : EnumeratesFrom (start + 1) values others) :
    EnumeratesFrom start (value :: values) (within start found ++ others) where
  complete place name := by
    rw [List.mem_append, mem_within, rest.complete]
    constructor
    · rintro (⟨inner, rfl, member⟩ | ⟨offset, inner, rfl, isVar⟩)
      · exact ⟨0, inner, rfl, (first.complete inner name).mp member⟩
      · exact ⟨offset + 1, inner, by rw [Nat.add_right_comm, Nat.add_assoc], isVar⟩
    · rintro ⟨offset, inner, rfl, isVar⟩
      cases offset with
      | zero => exact .inl ⟨inner, rfl, (first.complete inner name).mpr isVar⟩
      | succ offset =>
          exact .inr ⟨offset, inner, by rw [Nat.add_right_comm, Nat.add_assoc], isVar⟩
  ordered := by
    refine List.pairwise_append.mpr ⟨?_, rest.ordered, ?_⟩
    · rw [within, List.pairwise_map]
      exact first.ordered.imp .cons
    · rintro ⟨place, name⟩ inFirst ⟨other, otherName⟩ inRest
      obtain ⟨inner, rfl, -⟩ := mem_within.mp inFirst
      obtain ⟨offset, otherInner, rfl, -⟩ := (rest.complete other otherName).mp inRest
      exact .rel (Nat.lt_of_lt_of_le (Nat.lt_succ_self start) (Nat.le_add_right _ offset))

/-- The occurrences in a value are those in its parts, unless it is a variable itself. -/
theorem enumerates_of_parts (value : Value) (apart : ∀ name, value ≠ .var name)
    {found : List (List Nat × String)} (inParts : EnumeratesFrom 0 value.parts found) :
    value.Enumerates found where
  complete place name := by
    rw [inParts.complete]
    cases place with
    | nil =>
        refine iff_of_false ?_ fun same => apart name (Option.some.inj same)
        rintro ⟨_, _, ⟨⟩, _⟩
    | cons first inner =>
        constructor
        · rintro ⟨offset, _, same, isVar⟩
          rw [Nat.zero_add] at same
          cases same
          exact isVar
        · intro isVar
          exact ⟨first, inner, by rw [Nat.zero_add], isVar⟩
  ordered := inParts.ordered

theorem enumerates_var (name : String) : (var name).Enumerates [([], name)] where
  complete place other := by
    cases place with
    | nil => simp [part?, eq_comm]
    | cons first inner => simp [part?, parts]
  ordered := List.pairwise_singleton _ _

mutual

theorem enumerates_occurrences : (value : Value) → value.Enumerates value.occurrences
  | var name => enumerates_var name
  | list items => enumerates_of_parts (list items) (by simp) (enumeratesFrom_items 0 items)
  | object fields => enumerates_of_parts (object fields) (by simp) (enumeratesFrom_fields 0 fields)
  | string _ | float _ | int _ | boolean _ | enum _ | null =>
      enumerates_of_parts _ (by simp) (enumeratesFrom_nil 0)

theorem enumeratesFrom_items (start : Nat) : (items : List Value) →
    EnumeratesFrom start items (itemOccurrences start items)
  | [] => enumeratesFrom_nil start
  | item :: items => .cons (enumerates_occurrences item) (enumeratesFrom_items (start + 1) items)

theorem enumeratesFrom_fields (start : Nat) : (fields : List (String × Value)) →
    EnumeratesFrom start (fields.map Prod.snd) (fieldOccurrences start fields)
  | [] => enumeratesFrom_nil start
  | (_, value) :: fields =>
      .cons (enumerates_occurrences value) (enumeratesFrom_fields (start + 1) fields)

end

/-! ## Collected names -/

theorem map_snd_within (place : Nat) (found : List (List Nat × String)) :
    (within place found).map Prod.snd = found.map Prod.snd := by
  rw [within, List.map_map]
  rfl

mutual

/-- The names in a value are collected once for each occurrence, in source order. -/
theorem map_snd_occurrences : (value : Value) →
    value.occurrences.map Prod.snd = value.variableNames
  | list items => map_snd_itemOccurrences 0 items
  | object fields => map_snd_fieldOccurrences 0 fields
  | var _ | string _ | float _ | int _ | boolean _ | enum _ | null => rfl

theorem map_snd_itemOccurrences (place : Nat) : (items : List Value) →
    (itemOccurrences place items).map Prod.snd = listVariableNames items
  | [] => rfl
  | item :: items => by
      rw [itemOccurrences, List.map_append, map_snd_within, map_snd_occurrences item,
        map_snd_itemOccurrences (place + 1) items, listVariableNames]

theorem map_snd_fieldOccurrences (place : Nat) : (fields : List (String × Value)) →
    (fieldOccurrences place fields).map Prod.snd = fieldVariableNames fields
  | [] => rfl
  | (_, value) :: fields => by
      rw [fieldOccurrences, List.map_append, map_snd_within, map_snd_occurrences value,
        map_snd_fieldOccurrences (place + 1) fields, fieldVariableNames]

end

theorem mem_variableNames_iff {value : Value} :
    name ∈ value.variableNames ↔ value.Mentions name := by
  rw [← map_snd_occurrences, mentions_iff_part?, List.mem_map]
  constructor
  · rintro ⟨⟨place, _⟩, member, rfl⟩
    exact ⟨place, (value.enumerates_occurrences.complete place _).mp member⟩
  · rintro ⟨place, isVar⟩
    exact ⟨(place, name), (value.enumerates_occurrences.complete place name).mpr isVar, rfl⟩

end Value

end QueryCheck
