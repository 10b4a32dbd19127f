import QueryCheck.Named
import QueryCheck.Validation.Rule.Names

/-!
# Rules on variables

The variables that a fragment uses have to be defined by every operation that
reaches the fragment through spreads. So their uses are kept until the end of the
document, when each operation is compared with the fragments that it reaches.
-/

namespace QueryCheck

namespace UniqueVariableNames

/-- The variables of an operation must have different names. The state holds the names used so
far. -/
def visitor : Visitor (List String) Finding
  | ⟨.enter, .operation _, _⟩, _ => .pass []
  | ⟨.enter, .variableDefinition definition, path⟩, used =>
      UsedNames.useAndSkip used definition.name (.repeatedVariable definition.name) path
  | ⟨.enter, .selectionSet _, _⟩, used => ⟨.skip, used, []⟩
  | ⟨.enter, .directive _, _⟩, used => ⟨.skip, used, []⟩
  | ⟨.enter, .fragment _, _⟩, used => ⟨.skip, used, []⟩
  | _, used => .pass used

end UniqueVariableNames

/-- A variable in an argument, and the path to the argument. -/
structure VariableUse where
  name : String
  path : Path
deriving DecidableEq, Repr

structure FragmentUses where
  name : String
  uses : List VariableUse
  spreads : List String
deriving DecidableEq, Repr

structure OperationUses where
  operation : Operation
  spreads : List String
deriving DecidableEq, Repr

instance : HasName FragmentUses := ⟨FragmentUses.name⟩

namespace NoUndefinedVariables

/-- The operation that the traversal is in, the uses since the last definition was left, and those
of the definitions that were left. -/
structure State where
  operation? : Option Operation
  uses : List VariableUse
  spreads : List String
  operations : List OperationUses
  fragments : List FragmentUses
deriving DecidableEq, Repr

def State.start : State := ⟨none, [], [], [], []⟩

/-- The most names that can still be looked at for the sake of fragments that were not visited:
each of them and its spreads. -/
def work (visited : List String) : List FragmentUses → Nat
  | [] => 0
  | fragment :: fragments =>
      (if visited.contains fragment.name then 0 else fragment.spreads.length + 1) +
        work visited fragments

/-- Visiting one more name adds no work. -/
theorem work_cons_le (name : String) (visited : List String) (fragments : List FragmentUses) :
    work (name :: visited) fragments ≤ work visited fragments := by
  induction fragments with
  | nil => exact Nat.le_refl _
  | cons fragment fragments ih =>
      simp only [work, List.contains_cons]
      cases visited.contains fragment.name with
      | true => simpa using ih
      | false =>
          simp only [Bool.or_false]
          split
          · simp only [Bool.false_eq_true, if_false]
            omega
          · simpa using ih

/-- Visiting a fragment for the first time takes off the work for it and its spreads. -/
theorem work_cons_lt {fragments : List FragmentUses} {visited : List String} {name : String}
    {fragment : FragmentUses} (found : Named.find? fragments name = some fragment)
    (isNew : ¬visited.contains name) :
    work (name :: visited) fragments + fragment.spreads.length < work visited fragments := by
  have isNew : visited.contains name = false := by simpa using isNew
  induction fragments with
  | nil => simp [Named.find?] at found
  | cons head rest ih =>
      simp only [Named.find?, HasName.name, List.find?_cons] at found
      simp only [work, List.contains_cons]
      split at found
      case h_1 same =>
        cases found
        have same : fragment.name = name := by simpa using same
        have := work_cons_le name visited rest
        simp only [same, isNew, BEq.rfl, Bool.true_or, if_true, Bool.false_eq_true, if_false]
        omega
      case h_2 differs =>
        have differs : (head.name == name) = false := by simpa using differs
        have := ih found
        simp only [differs, Bool.false_or]
        omega

/-- The fragments that are reached from the given names through spreads, depth first, each once.
A name stands for the first fragment that has it. -/
def reach (fragments : List FragmentUses) (visited names : List String) : List FragmentUses :=
  match names with
  | [] => []
  | name :: rest =>
      if _seen : visited.contains name then reach fragments visited rest
      else
        match _found : Named.find? fragments name with
        | none => reach fragments (name :: visited) rest
        | some fragment =>
            fragment :: reach fragments (name :: visited) (fragment.spreads ++ rest)
termination_by work visited fragments + names.length
decreasing_by
  · simp
  · have := work_cons_le name visited fragments
    simp only [List.length_cons]
    omega
  · have := work_cons_lt _found _seen
    simp only [List.length_append, List.length_cons]
    omega

def undefined (operation : Operation) (uses : List VariableUse) : List Finding :=
  (uses.filter fun use => !VariableDefinition.declares operation.variableDefinitions use.name).map
    fun use => ⟨.undefinedVariable use.name operation.name?, use.path⟩

def usesOf (argument : Argument) (path : Path) : List VariableUse :=
  argument.value.variableNames.map fun name => ⟨name, path⟩

def inFragments (fragments : List FragmentUses) (operation : OperationUses) : List Finding :=
  (reach fragments [] operation.spreads).flatMap fun fragment =>
    undefined operation.operation fragment.uses

/-- Variables that an operation uses, itself or in the fragments it reaches, must be defined by
it. -/
def visitor : Visitor State Finding
  | ⟨.enter, .document _, _⟩, _ => .pass .start
  | ⟨.enter, .operation operation, _⟩, state =>
      .pass { state with operation? := some operation }
  | ⟨.enter, .variableDefinition _, _⟩, state => ⟨.skip, state, []⟩
  | ⟨.enter, .argument argument, path⟩, state =>
      match state.operation? with
      | some operation => ⟨.skip, state, undefined operation (usesOf argument path)⟩
      | none =>
          ⟨.skip, { state with uses := state.uses ++ usesOf argument path }, []⟩
  | ⟨.enter, .spread spread, _⟩, state =>
      ⟨.skip, { state with spreads := state.spreads ++ [spread.name] }, []⟩
  | ⟨.leave, .operation operation, _⟩, state =>
      .pass { state with
        operation? := none
        spreads := []
        operations := state.operations ++ [⟨operation, state.spreads⟩] }
  | ⟨.leave, .fragment fragment, _⟩, state =>
      .pass { state with
        uses := []
        spreads := []
        fragments :=
          Named.insertNew state.fragments ⟨fragment.name, state.uses, state.spreads⟩ }
  | ⟨.leave, .document _, _⟩, state =>
      ⟨.next, state, state.operations.flatMap (inFragments state.fragments)⟩
  | _, state => .pass state

end NoUndefinedVariables

end QueryCheck
