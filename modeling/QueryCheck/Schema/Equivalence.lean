import QueryCheck.Schema.Basic

/-!
# Schemas with the same meaning

Two schemas mean the same if they hold the same definitions. The order of types,
of directives, of the fields of a type and of the values of an enum does not
matter. The order of arguments, of interfaces, of possible types and of the
fields of input objects does.
-/

namespace QueryCheck

namespace ObjectType

def same (first second : ObjectType) : Bool :=
  first.name == second.name && Named.sameBy (· == ·) first.fields second.fields &&
    first.interfaces == second.interfaces

end ObjectType

namespace InterfaceType

def same (first second : InterfaceType) : Bool :=
  first.name == second.name && Named.sameBy (· == ·) first.fields second.fields &&
    first.interfaces == second.interfaces && first.possibleTypes == second.possibleTypes

end InterfaceType

namespace EnumType

def same (first second : EnumType) : Bool :=
  first.name == second.name && first.values.all second.values.contains &&
    second.values.all first.values.contains

end EnumType

namespace TypeDefinition

def same : TypeDefinition → TypeDefinition → Bool
  | object first, object second => first.same second
  | interface first, interface second => first.same second
  | union first, union second => first == second
  | enum first, enum second => first.same second
  | scalar first, scalar second => first == second
  | inputObject first, inputObject second => first == second
  | _, _ => false

end TypeDefinition

namespace Schema

def sameRoot : Option ObjectType → Option ObjectType → Bool
  | some first, some second => first.same second
  | none, none => true
  | _, _ => false

def same (first second : Schema) : Bool :=
  (OperationKind.all.all fun kind => sameRoot (first.root? kind) (second.root? kind)) &&
    Named.sameBy TypeDefinition.same first.types second.types &&
    Named.sameBy (· == ·) first.directives second.directives

end Schema

end QueryCheck
