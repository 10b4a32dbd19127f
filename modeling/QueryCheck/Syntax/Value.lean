/-!
# Values

Values of arguments and defaults. Numbers keep their spelling, so two numbers
are the same value only if they are written the same way. Strings hold the text
that they stand for.
-/

namespace QueryCheck

/-- An input value. The `null` value also stands for a default that is not given. -/
inductive Value where
  | var (name : String)
  | string (value : String)
  | float (text : String)
  | int (text : String)
  | boolean (value : Bool)
  | enum (name : String)
  | list (items : List Value)
  | object (fields : List (String × Value))
  | null
deriving Repr

namespace Value

mutual

/-- The names of the variables in a value, in source order, once for each time they are used. -/
def variableNames : Value → List String
  | var name => [name]
  | list items => listVariableNames items
  | object fields => fieldVariableNames fields
  | _ => []

def listVariableNames : List Value → List String
  | [] => []
  | item :: items => item.variableNames ++ listVariableNames items

def fieldVariableNames : List (String × Value) → List String
  | [] => []
  | (_, value) :: fields => value.variableNames ++ fieldVariableNames fields

end

mutual

def same : Value → Value → Bool
  | var first, var second => first == second
  | string first, string second => first == second
  | float first, float second => first == second
  | int first, int second => first == second
  | boolean first, boolean second => first == second
  | enum first, enum second => first == second
  | list first, list second => sameList first second
  | object first, object second => sameFields first second
  | null, null => true
  | _, _ => false

def sameList : List Value → List Value → Bool
  | [], [] => true
  | first :: firsts, second :: seconds => first.same second && sameList firsts seconds
  | _, _ => false

def sameFields : List (String × Value) → List (String × Value) → Bool
  | [], [] => true
  | (name, first) :: firsts, (other, second) :: seconds =>
      name == other && first.same second && sameFields firsts seconds
  | _, _ => false

end

mutual

theorem same_iff : (first second : Value) → (first.same second = true ↔ first = second)
  | var a, second => by cases second <;> simp [same]
  | string a, second => by cases second <;> simp [same]
  | float a, second => by cases second <;> simp [same]
  | int a, second => by cases second <;> simp [same]
  | boolean a, second => by cases second <;> simp [same]
  | enum a, second => by cases second <;> simp [same]
  | list items, second => by cases second <;> simp [same, sameList_iff items]
  | object fields, second => by cases second <;> simp [same, sameFields_iff fields]
  | null, second => by cases second <;> simp [same]

theorem sameList_iff : (first second : List Value) → (sameList first second = true ↔ first = second)
  | [], second => by cases second <;> simp [sameList]
  | item :: items, second => by
      cases second with
      | nil => simp [sameList]
      | cons other others => simp [sameList, same_iff item, sameList_iff items]

theorem sameFields_iff :
    (first second : List (String × Value)) → (sameFields first second = true ↔ first = second)
  | [], second => by cases second <;> simp [sameFields]
  | (name, value) :: fields, second => by
      cases second with
      | nil => simp [sameFields]
      | cons other others =>
          simp [sameFields, same_iff value, sameFields_iff fields, Prod.ext_iff]

end

instance : DecidableEq Value := fun first second =>
  decidable_of_iff _ (same_iff first second)

end Value

end QueryCheck
