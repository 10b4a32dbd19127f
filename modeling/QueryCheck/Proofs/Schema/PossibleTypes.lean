import QueryCheck.Proofs.Named
import QueryCheck.Schema.Link

/-!
# Possible types of interfaces

Interfaces are linked by their places: names are looked up in an index, links are collected, and
then the types are changed one link after the other. Where names are distinct, each interface
gets the names of the types that say to implement it, in source order and once for each time.
-/

namespace QueryCheck.Definitions

/-- The names of the types that implement an interface, in source order, once for each time they
say so. -/
def implementers (types : List TypeDefinition) (interface : String) : List String :=
  types.flatMap fun type =>
    (type.interfaces.filter (· = interface)).map fun _ => type.name

def withImplementers (types : List TypeDefinition) : TypeDefinition → TypeDefinition
  | .interface type =>
      .interface { type with possibleTypes := type.possibleTypes ++ implementers types type.name }
  | other => other

@[simp]
theorem name_withImplementers (types : List TypeDefinition) (type : TypeDefinition) :
    (withImplementers types type).name = type.name := by
  cases type <;> rfl

/-! ## The index -/

theorem places_eq (types : List TypeDefinition) :
    places types = (types.zipIdx.map fun entry => (entry.1.name, entry.2)).reverse := by
  rw [places, List.foldl_flip_cons_eq_append, List.append_nil]

theorem mem_places {types : List TypeDefinition} {name : String} {place : Nat} :
    (name, place) ∈ places types ↔ ∃ type, types[place]? = some type ∧ type.name = name := by
  rw [places_eq, List.mem_reverse, List.mem_map]
  constructor
  · rintro ⟨⟨type, _⟩, member, ⟨⟩⟩
    exact ⟨type, List.mem_zipIdx_iff_getElem?.mp member, rfl⟩
  · rintro ⟨type, found, rfl⟩
    exact ⟨(type, place), List.mem_zipIdx_iff_getElem?.mpr found, rfl⟩

theorem mem_places_of_lookup {types : List TypeDefinition} {name : String} {place : Nat}
    (found : (places types).lookup name = some place) : (name, place) ∈ places types := by
  obtain ⟨before, after, whole, -⟩ := List.lookup_eq_some_iff.mp found
  rw [whole]
  exact List.mem_append_right before List.mem_cons_self

section Distinct

variable {types : List TypeDefinition} (distinct : Named.Distinct types)
include distinct

/-- No two types stand under one name. -/
theorem place_unique {name : String} {first second : Nat} (isFirst : (name, first) ∈ places types)
    (isSecond : (name, second) ∈ places types) : first = second := by
  obtain ⟨type, found, rfl⟩ := mem_places.mp isFirst
  obtain ⟨other, otherFound, same⟩ := mem_places.mp isSecond
  obtain ⟨inside, -⟩ := List.getElem?_eq_some_iff.mp found
  refine (List.getElem?_inj (by rwa [List.length_map]) distinct).mp ?_
  rw [List.getElem?_map, found, List.getElem?_map, otherFound]
  exact congrArg some same.symm

theorem lookup_places {name : String} {place : Nat} :
    (places types).lookup name = some place ↔
      ∃ type, types[place]? = some type ∧ type.name = name := by
  rw [← mem_places]
  refine ⟨mem_places_of_lookup, fun member => ?_⟩
  have isSome : ((places types).lookup name).isSome :=
    List.lookup_isSome_iff.mpr ⟨(name, place), member, beq_self_eq_true name⟩
  obtain ⟨other, found⟩ := Option.isSome_iff_exists.mp isSome
  rw [found, place_unique distinct (mem_places_of_lookup found) member]

/-- The links to the place of a type are those of its implementers. -/
theorem links_to {place : Nat} {type : TypeDefinition} (found : types[place]? = some type) :
    ((links types).filter (·.1 = place)).map Prod.snd = implementers types type.name := by
  have here (interface : String) :
      (places types).lookup interface = some place ↔ interface = type.name := by
    rw [lookup_places distinct]
    simp [found, eq_comm]
  rw [links, List.filter_flatMap, List.map_flatMap, implementers]
  refine congrArg (types.flatMap ·) (funext fun implementer => ?_)
  rw [List.filter_filterMap, List.map_filterMap, ← List.filterMap_eq_map, List.filterMap_filter]
  refine List.filterMap_congr fun interface _ => ?_
  by_cases same : interface = type.name
  · rw [(here interface).mpr same]
    simp [same]
  · cases looked : (places types).lookup interface with
    | none => simp [same]
    | some other =>
        have elsewhere : other ≠ place := by
          rintro rfl
          exact same ((here interface).mp looked)
        simp [same, elsewhere]

end Distinct

/-! ## One link after the other -/

/-- What becomes of the type at a place depends on the links to it alone. -/
theorem getElem?_foldl_modify (links : List (Nat × String)) (types : List TypeDefinition)
    (place : Nat) :
    (links.foldl (fun linked link => linked.modify link.1 (addPossibleType link.2)) types)[place]? =
      types[place]?.map fun type =>
        ((links.filter (·.1 = place)).map Prod.snd).foldl
          (fun type name => addPossibleType name type) type := by
  -- Each link changes the types, so they are not fixed.
  induction links generalizing types with
  | nil => simp
  | cons link links ih =>
      rw [List.foldl_cons, ih, List.getElem?_modify, Option.map_eq_map, Option.map_map]
      by_cases here : link.1 = place <;> simp [here, Function.comp_def]

theorem foldl_addPossibleType (names : List String) (type : InterfaceType) :
    names.foldl (fun type name => addPossibleType name type) (.interface type) =
      .interface { type with possibleTypes := type.possibleTypes ++ names } := by
  induction names generalizing type with
  | nil => simp
  | cons name names ih =>
      rw [List.foldl_cons, addPossibleType, ih, List.append_assoc, List.singleton_append]

theorem foldl_addPossibleType_eq (types : List TypeDefinition) (type : TypeDefinition) :
    (implementers types type.name).foldl (fun type name => addPossibleType name type) type =
      withImplementers types type := by
  cases type with
  | interface type => exact foldl_addPossibleType _ type
  | _ => exact List.foldl_fixed' (fun _ => rfl) _

/-- Linking by places and linking by names are the same. -/
theorem linkPossibleTypes_eq {types : List TypeDefinition} (distinct : Named.Distinct types) :
    linkPossibleTypes types = types.map (withImplementers types) := by
  refine List.ext_getElem? fun place => ?_
  rw [linkPossibleTypes, getElem?_foldl_modify, List.getElem?_map]
  cases found : types[place]? with
  | none => rfl
  | some type =>
      rw [Option.map_some, links_to distinct found, foldl_addPossibleType_eq, Option.map_some]

end QueryCheck.Definitions
