/-!
# Type references

The type of a variable, a field or an argument: a named type, possibly inside
list and non-null wrappers.
-/

namespace QueryCheck

inductive TypeRef where
  | named (name : String)
  | list (item : TypeRef)
  | nonNull (inner : TypeRef)
deriving DecidableEq, Repr

namespace TypeRef

/-- The name inside all wrappers. -/
def namedType : TypeRef → String
  | named name => name
  | list item => item.namedType
  | nonNull inner => inner.namedType

def isNonNull : TypeRef → Bool
  | nonNull _ => true
  | _ => false

def print : TypeRef → String
  | named name => name
  | list item => "[" ++ item.print ++ "]"
  | nonNull inner => inner.print ++ "!"

end TypeRef

end QueryCheck
