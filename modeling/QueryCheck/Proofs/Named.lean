import Mathlib.Data.List.Perm.Basic
import QueryCheck.Named

/-!
# Facts about collections by name

What is found under a name, and what a collection holds after things have been added to it
whose names were free. Where names are distinct, a collection is known by what is found in it,
and its order does not matter.
-/

namespace QueryCheck.Named

variable {α : Type} [HasName α]

def Distinct (items : List α) : Prop :=
  (items.map HasName.name).Nodup

instance (items : List α) : Decidable (Distinct items) :=
  inferInstanceAs (Decidable (items.map HasName.name).Nodup)

theorem contains_eq_false_iff {items : List α} {name : String} :
    contains items name = false ↔ ∀ item ∈ items, HasName.name item ≠ name := by
  simp [contains]

/-- With distinct names, a thing is found under its own name and no other. -/
theorem find?_eq_some_iff {items : List α} (distinct : Distinct items) {name : String} {item : α} :
    find? items name = some item ↔ item ∈ items ∧ HasName.name item = name := by
  constructor
  · intro found
    exact ⟨List.mem_of_find?_eq_some found, by simpa using List.find?_some found⟩
  · rintro ⟨member, rfl⟩
    induction items with
    | nil => cases member
    | cons first items ih =>
        rw [Distinct, List.map_cons, List.nodup_cons] at distinct
        rw [find?, List.find?_cons]
        rcases List.mem_cons.mp member with rfl | member
        · simp
        · have differ : HasName.name first ≠ HasName.name item := by
            intro same
            exact distinct.1 (same ▸ List.mem_map_of_mem member)
          simp only [differ, decide_false]
          exact ih distinct.2 member

/-! ## Order -/

theorem Distinct.perm {items others : List α} (perm : items.Perm others) :
    Distinct items ↔ Distinct others :=
  (perm.map HasName.name).nodup_iff

theorem contains_perm {items others : List α} (perm : items.Perm others) (name : String) :
    contains items name = contains others name :=
  perm.any_eq

/-- With distinct names, what is found does not depend on the order. -/
theorem find?_perm {items others : List α} (perm : items.Perm others) (distinct : Distinct items)
    (name : String) : find? items name = find? others name := by
  ext item
  rw [find?_eq_some_iff distinct, find?_eq_some_iff ((Distinct.perm perm).mp distinct),
    perm.mem_iff]

/-! ## Maps that keep names -/

section Map

variable {change : α → α} (keeps : ∀ item, HasName.name (change item) = HasName.name item)
include keeps

theorem map_name (items : List α) :
    (items.map change).map HasName.name = items.map HasName.name := by
  rw [List.map_map]
  exact List.map_congr_left fun item _ => keeps item

theorem distinct_map {items : List α} : Distinct (items.map change) ↔ Distinct items := by
  rw [Distinct, map_name keeps, Distinct]

theorem contains_map (items : List α) (name : String) :
    contains (items.map change) name = contains items name := by
  rw [contains, List.any_map, contains]
  simp only [Function.comp_def, keeps]

theorem find?_map (items : List α) (name : String) :
    find? (items.map change) name = (find? items name).map change := by
  rw [find?, List.find?_map, find?]
  simp only [Function.comp_def, keeps]

end Map

/-- What is found in two lists whose things are related one by one is related. -/
theorem rel_find? {related : α → α → Prop}
    (keeps : ∀ item other, related item other → HasName.name item = HasName.name other)
    {items others : List α} (all : List.Forall₂ related items others) (name : String) :
    Option.Rel related (find? items name) (find? others name) := by
  induction all with
  | nil => exact .none
  | @cons item other items others first rest ih =>
      rw [find?, find?, List.find?_cons, List.find?_cons, keeps item other first]
      by_cases same : HasName.name other = name
      · simp only [same, decide_true]
        exact .some first
      · simp only [same, decide_false]
        exact ih

/-! ## Adding things whose names are free -/

theorem mem_of_mem_insertNew {items : List α} {item other : α}
    (member : other ∈ insertNew items item) : other ∈ items ∨ other = item := by
  rw [insertNew] at member
  split at member
  · exact .inl member
  · exact (List.mem_append.mp member).imp_right List.mem_singleton.mp

theorem contains_insertNew {items : List α} {item : α} {name : String} :
    contains (insertNew items item) name = false ↔
      contains items name = false ∧ HasName.name item ≠ name := by
  unfold insertNew
  split
  next present =>
    constructor
    · intro absent
      refine ⟨absent, ?_⟩
      rintro rfl
      rw [present] at absent
      cases absent
    · exact And.left
  next => simp [contains]

theorem distinct_insertNew {items : List α} (distinct : Distinct items) (item : α) :
    Distinct (insertNew items item) := by
  unfold insertNew
  split
  · exact distinct
  next absent =>
    have fresh := contains_eq_false_iff.mp (Bool.eq_false_iff.mpr absent)
    rw [Distinct, List.map_append, List.nodup_append]
    refine ⟨distinct, by simp, ?_⟩
    intro name before other after
    obtain ⟨given, member, rfl⟩ := List.mem_map.mp before
    rw [List.map_singleton, List.mem_singleton] at after
    rw [after]
    exact fresh given member

theorem distinct_foldl_insertNew {items : List α} (distinct : Distinct items) (more : List α) :
    Distinct (more.foldl insertNew items) := by
  induction more generalizing items with
  | nil => exact distinct
  | cons item more ih => exact ih (distinct_insertNew distinct item)

theorem find?_insertNew (items : List α) (item : α) (name : String) :
    find? (insertNew items item) name = (find? items name).or (find? [item] name) := by
  rw [insertNew]
  split
  case isTrue known =>
    by_cases same : HasName.name item = name
    · have found : (find? items name).isSome = true := by
        rw [find?, List.isSome_find?, ← same]
        exact known
      rw [Option.or_of_isSome found]
    · have lacks : find? [item] name = none := by simp [find?, same]
      rw [lacks, Option.or_none]
  case isFalse => exact List.find?_append

theorem find?_foldl_insertNew (items added : List α) (name : String) :
    find? (added.foldl insertNew items) name = (find? items name).or (find? added name) := by
  induction added generalizing items with
  | nil => exact (Option.or_none).symm
  | cons item added ih =>
      have split : find? ([item] ++ added) name =
          (find? [item] name).or (find? added name) := List.find?_append
      rw [List.foldl_cons, ih, find?_insertNew, Option.or_assoc, ← split, List.singleton_append]

/-- Of things with distinct names, those are added whose names are free, in their order. -/
theorem foldl_insertNew_eq {items more : List α} (distinct : Distinct more) :
    more.foldl insertNew items =
      items ++ more.filter fun item => !contains items (HasName.name item) := by
  induction more generalizing items with
  | nil => simp
  | cons first more ih =>
      rw [Distinct, List.map_cons, List.nodup_cons] at distinct
      have apart : ∀ item ∈ more, HasName.name first ≠ HasName.name item := by
        intro item member same
        exact distinct.1 (same ▸ List.mem_map_of_mem member)
      have later : (more.filter fun item => !contains (insertNew items first) (HasName.name item)) =
          more.filter fun item => !contains items (HasName.name item) := by
        refine List.filter_congr fun item member => congrArg Bool.not (Bool.eq_iff_iff.mpr ?_)
        rw [← not_iff_not, Bool.not_eq_true, Bool.not_eq_true, contains_insertNew]
        exact and_iff_left (apart item member)
      rw [List.foldl_cons, ih distinct.2, later, insertNew, List.filter_cons]
      split
      next present => rw [present]; rfl
      next absent => rw [Bool.eq_false_iff.mpr absent]; simp

theorem mem_foldl_insertNew {items more : List α} (distinct : Distinct more) {item : α} :
    item ∈ more.foldl insertNew items ↔
      item ∈ items ∨ (item ∈ more ∧ contains items (HasName.name item) = false) := by
  simp [foldl_insertNew_eq distinct]

end QueryCheck.Named
