import QueryCheck.Syntax.Value

/-!
# Selections

What a document asks for: fields, spreads of fragments, and inline fragments.
Fields and inline fragments hold selections again. A field without a selection
set has no selections.
-/

namespace QueryCheck

/-- A value given to a field or a directive under a name. -/
structure Argument where
  name : String
  value : Value
deriving DecidableEq, Repr

/-- A directive with its arguments. Its name has no sign. -/
structure Directive where
  name : String
  arguments : List Argument
deriving DecidableEq, Repr

/-- A place where the selections of a fragment are put in. -/
structure FragmentSpread where
  name : String
  directives : List Directive
deriving DecidableEq, Repr

mutual

structure Field where
  alias? : Option String
  name : String
  arguments : List Argument
  directives : List Directive
  selections : List Selection
deriving Repr

structure InlineFragment where
  typeCondition? : Option String
  directives : List Directive
  selections : List Selection
deriving Repr

inductive Selection where
  | field (field : Field)
  | spread (spread : FragmentSpread)
  | inline (fragment : InlineFragment)
deriving Repr

end

namespace Argument

def get? (arguments : List Argument) (name : String) : Option Value :=
  (arguments.find? fun argument => argument.name = name).map Argument.value

end Argument

namespace Field

/-- The name under which a field's result is returned. -/
def responseKey (field : Field) : String :=
  field.alias?.getD field.name

end Field

namespace Selection

mutual

def same : Selection → Selection → Bool
  | .field first, .field second => sameField first second
  | .spread first, .spread second => first == second
  | .inline first, .inline second => sameInline first second
  | _, _ => false

def sameField : Field → Field → Bool
  | ⟨alias?, name, arguments, directives, selections⟩, other =>
      alias? == other.alias? && name == other.name && arguments == other.arguments &&
        directives == other.directives && sameList selections other.selections

def sameInline : InlineFragment → InlineFragment → Bool
  | ⟨typeCondition?, directives, selections⟩, other =>
      typeCondition? == other.typeCondition? && directives == other.directives &&
        sameList selections other.selections

def sameList : List Selection → List Selection → Bool
  | [], [] => true
  | first :: firsts, second :: seconds => first.same second && sameList firsts seconds
  | _, _ => false

end

mutual

theorem same_iff : (first second : Selection) → (first.same second = true ↔ first = second)
  | .field first, second => by cases second <;> simp [same, sameField_iff first]
  | .spread first, second => by cases second <;> simp [same]
  | .inline first, second => by cases second <;> simp [same, sameInline_iff first]

theorem sameField_iff : (first second : Field) → (sameField first second = true ↔ first = second)
  | ⟨alias?, name, arguments, directives, selections⟩, ⟨_, _, _, _, others⟩ => by
      simp [sameField, sameList_iff selections others, and_assoc]

theorem sameInline_iff :
    (first second : InlineFragment) → (sameInline first second = true ↔ first = second)
  | ⟨typeCondition?, directives, selections⟩, ⟨_, _, others⟩ => by
      simp [sameInline, sameList_iff selections others, and_assoc]

theorem sameList_iff :
    (first second : List Selection) → (sameList first second = true ↔ first = second)
  | [], second => by cases second <;> simp [sameList]
  | selection :: selections, second => by
      cases second with
      | nil => simp [sameList]
      | cons other others => simp [sameList, same_iff selection, sameList_iff selections]

end

instance : DecidableEq Selection := fun first second =>
  decidable_of_iff _ (same_iff first second)

instance : DecidableEq Field := fun first second =>
  decidable_of_iff _ (sameField_iff first second)

instance : DecidableEq InlineFragment := fun first second =>
  decidable_of_iff _ (sameInline_iff first second)

end Selection

end QueryCheck
