import Mathlib.Logic.Relation
import QueryCheck.Proofs.Validation.VariableUses

/-!
# Depth-first orders

Names lead to other names, in a graph that may have cycles. They are visited depth first: a name
that was visited before is passed over, and what a new name leads to is visited right after it,
before the names that stand beside it. There is at most one such order. It repeats no name, and
its names are exactly those that can be reached. The search for the fragments that spreads lead
to is shown to go through them in this order.
-/

namespace QueryCheck

/-- The order in which names are visited depth first, where some names were visited before. -/
inductive DepthFirst {α : Type} (next : α → List α) : List α → List α → List α → Prop where
  | nil (before : List α) : DepthFirst next before [] []
  | seen {before names order : List α} {name : α} (known : name ∈ before)
      (rest : DepthFirst next before names order) : DepthFirst next before (name :: names) order
  | visit {before names inner outer : List α} {name : α} (new : name ∉ before)
      (below : DepthFirst next (before ++ [name]) (next name) inner)
      (rest : DepthFirst next (before ++ name :: inner) names outer) :
      DepthFirst next before (name :: names) (name :: (inner ++ outer))

namespace DepthFirst

variable {α : Type} {next : α → List α} {before names order : List α}

/-- What is visited for the first names comes first, and the others are visited after it. -/
theorem split_append {first second : List α}
    (visits : DepthFirst next before (first ++ second) order) :
    ∃ inner outer, order = inner ++ outer ∧ DepthFirst next before first inner ∧
      DepthFirst next (before ++ inner) second outer := by
  induction first generalizing before order with
  | nil => exact ⟨[], order, rfl, .nil before, by rwa [List.append_nil]⟩
  | cons name first ih =>
      cases visits with
      | seen known rest =>
          obtain ⟨inner, outer, isOrder, ahead, behind⟩ := ih rest
          exact ⟨inner, outer, isOrder, .seen known ahead, behind⟩
      | @visit _ _ below others _ new inside rest =>
          obtain ⟨inner, outer, rfl, ahead, behind⟩ := ih rest
          refine ⟨name :: (below ++ inner), outer, ?_, .visit new inside ahead, ?_⟩
          · rw [List.cons_append, List.append_assoc]
          · rwa [List.append_assoc, List.cons_append] at behind

/-- There is only one order. -/
theorem eq_of_visits {other : List α} (visits : DepthFirst next before names order)
    (others : DepthFirst next before names other) : order = other := by
  induction visits generalizing other with
  | nil => cases others; rfl
  | seen known _ ih =>
      cases others with
      | seen _ rest => exact ih rest
      | visit new => exact absurd known new
  | visit new _ _ inside after =>
      cases others with
      | seen known => exact absurd known new
      | visit _ below rest =>
          cases inside below
          cases after rest
          rfl

/-- No name is visited twice, nor one that was visited before. -/
theorem nodup_and_new (visits : DepthFirst next before names order) :
    order.Nodup ∧ ∀ name ∈ order, name ∉ before := by
  induction visits with
  | nil => exact ⟨List.nodup_nil, List.forall_mem_nil _⟩
  | seen _ _ ih => exact ih
  | @visit before names inner outer name new _ _ inside after =>
      obtain ⟨onceInner, newInner⟩ := inside
      obtain ⟨onceOuter, newOuter⟩ := after
      have apart : ∀ other ∈ inner, other ∉ outer := fun other isInner isOuter =>
        newOuter other isOuter (List.mem_append_right _ (List.mem_cons_of_mem _ isInner))
      have notInner : name ∉ inner := fun isInner =>
        newInner name isInner (List.mem_append_right _ (List.mem_singleton_self _))
      have notOuter : name ∉ outer := fun isOuter =>
        newOuter name isOuter (List.mem_append_right _ List.mem_cons_self)
      constructor
      · refine List.nodup_cons.mpr ⟨?_, List.nodup_append'.mpr ⟨onceInner, onceOuter, apart⟩⟩
        exact fun member => (List.mem_append.mp member).elim notInner notOuter
      · refine List.forall_mem_cons.mpr ⟨new, List.forall_mem_append.mpr ⟨?_, ?_⟩⟩
        · exact fun other isInner known => newInner other isInner (List.mem_append_left _ known)
        · exact fun other isOuter known => newOuter other isOuter (List.mem_append_left _ known)

/-- What is visited can be reached. -/
theorem reached_of_mem (visits : DepthFirst next before names order) :
    ∀ name ∈ order, ∃ start ∈ names,
      Relation.ReflTransGen (fun name other => other ∈ next name) start name := by
  induction visits with
  | nil => exact List.forall_mem_nil _
  | seen _ _ ih =>
      intro name member
      obtain ⟨start, isStart, reached⟩ := ih name member
      exact ⟨start, List.mem_cons_of_mem _ isStart, reached⟩
  | @visit before names inner outer name _ _ _ inside after =>
      refine List.forall_mem_cons.mpr ⟨⟨name, List.mem_cons_self, .refl⟩,
        List.forall_mem_append.mpr ⟨?_, ?_⟩⟩
      · intro other isInner
        obtain ⟨start, isStart, reached⟩ := inside other isInner
        exact ⟨name, List.mem_cons_self, .head isStart reached⟩
      · intro other isOuter
        obtain ⟨start, isStart, reached⟩ := after other isOuter
        exact ⟨start, List.mem_cons_of_mem _ isStart, reached⟩

/-- All names that are given, and all that visited names lead to, are visited. -/
theorem closed (visits : DepthFirst next before names order) :
    (∀ name ∈ names, name ∈ before ∨ name ∈ order) ∧
      ∀ name ∈ order, ∀ other ∈ next name, other ∈ before ∨ other ∈ order := by
  induction visits with
  | nil => exact ⟨List.forall_mem_nil _, List.forall_mem_nil _⟩
  | seen known _ ih => exact ⟨List.forall_mem_cons.mpr ⟨.inl known, ih.1⟩, ih.2⟩
  | @visit before names inner outer name _ _ _ inside after =>
      have ahead (other : α) (visited : other ∈ before ++ [name] ∨ other ∈ inner) :
          other ∈ before ∨ other ∈ name :: (inner ++ outer) := by
        simp only [List.mem_append, List.mem_cons, List.not_mem_nil] at visited ⊢
        tauto
      have behind (other : α) (visited : other ∈ before ++ name :: inner ∨ other ∈ outer) :
          other ∈ before ∨ other ∈ name :: (inner ++ outer) := by
        simp only [List.mem_append, List.mem_cons] at visited ⊢
        tauto
      constructor
      · refine List.forall_mem_cons.mpr ⟨.inr List.mem_cons_self, ?_⟩
        exact fun other isName => behind other (after.1 other isName)
      · refine List.forall_mem_cons.mpr ⟨fun other led => ahead other (inside.1 other led),
          List.forall_mem_append.mpr ⟨?_, ?_⟩⟩
        · exact fun each isInner other led => ahead other (inside.2 each isInner other led)
        · exact fun each isOuter other led => behind other (after.2 each isOuter other led)

/-- What can be reached is visited, and nothing else. -/
theorem mem_iff_reached (visits : DepthFirst next [] names order) (name : α) :
    name ∈ order ↔ ∃ start ∈ names,
      Relation.ReflTransGen (fun name other => other ∈ next name) start name := by
  refine ⟨visits.reached_of_mem name, ?_⟩
  rintro ⟨start, isStart, reached⟩
  obtain ⟨given, led⟩ := visits.closed
  induction reached with
  | refl => exact (given start isStart).resolve_left List.not_mem_nil
  | tail _ step ih => exact (led _ ih _ step).resolve_left List.not_mem_nil

end DepthFirst

namespace NoUndefinedVariables

def onward (fragments : List FragmentUses) (name : String) : List String :=
  (Named.find? fragments name).elim [] FragmentUses.spreads

/-- The search visits names depth first, and finds the fragments that have them. -/
theorem exists_depthFirst (fragments : List FragmentUses) (visited names before : List String)
    (same : ∀ name, name ∈ visited ↔ name ∈ before) :
    ∃ order, DepthFirst (onward fragments) before names order ∧
      reach fragments visited names = order.filterMap (Named.find? fragments) := by
  -- The search puts new names in front and the relation behind, so only their members agree.
  have wider {visited before : List String} (name : String)
      (same : ∀ name, name ∈ visited ↔ name ∈ before) (other : String) :
      other ∈ name :: visited ↔ other ∈ before ++ [name] := by
    rw [List.mem_cons, List.mem_append, List.mem_singleton, same, or_comm]
  fun_induction reach fragments visited names generalizing before with
  | case1 visited => exact ⟨[], .nil before, rfl⟩
  | case2 visited name rest seen ih =>
      obtain ⟨order, visits, isReach⟩ := ih before same
      exact ⟨order, .seen ((same name).mp (List.contains_iff_mem.mp seen)) visits, isReach⟩
  | case3 visited name rest new missing ih =>
      have isNew : name ∉ before := fun known =>
        new (List.contains_iff_mem.mpr ((same name).mpr known))
      have nothing : onward fragments name = [] := by
        rw [onward, missing]
        rfl
      obtain ⟨order, visits, isReach⟩ := ih (before ++ [name]) (wider name same)
      refine ⟨name :: ([] ++ order), .visit isNew ?_ visits, ?_⟩
      · rw [nothing]
        exact .nil _
      · rw [List.nil_append, List.filterMap_cons_none missing, isReach]
  | case4 visited name rest new fragment found ih =>
      -- The spreads of the fragment are put before the rest; their visits are split off again.
      have isNew : name ∉ before := fun known =>
        new (List.contains_iff_mem.mpr ((same name).mpr known))
      have spread : onward fragments name = fragment.spreads := by
        rw [onward, found]
        rfl
      obtain ⟨order, visits, isReach⟩ := ih (before ++ [name]) (wider name same)
      obtain ⟨inner, outer, rfl, ahead, behind⟩ := visits.split_append
      rw [List.append_assoc] at behind
      refine ⟨name :: (inner ++ outer), .visit isNew ?_ behind, ?_⟩
      · rwa [spread]
      · rw [List.filterMap_cons_some found, isReach]

end NoUndefinedVariables

end QueryCheck
