import QueryCheck.Proofs.Reading.Scan
import QueryCheck.Syntax.Document

/-!
# The grammar of documents

Which words stand for which parts of a document. A word derives a part if it is spelled by
the rules here, which say nothing about how it is read.

Several spellings may stand for one part. Arguments may be left out or be given in empty
parentheses. A query without name, variables and directives may be written as its selection
set. A variable without a default and one whose default is null are the same.
-/

namespace QueryCheck

open QueryCheck.Language (Many)

inductive Language.Labelled {α : Type} (item : Language α) : Language (String × α)
  | intro (name : String) {word : List Token} {value : α} :
      item word value → Labelled item (.name name :: .colon :: word) (name, value)

namespace Value

def IsEnumName (name : String) : Prop :=
  name ≠ "true" ∧ name ≠ "false" ∧ name ≠ "null"

inductive Derives : List Token → Value → Prop
  | var (name : String) : Derives [.variableName name] (.var name)
  | string (value : String) : Derives [.string value] (.string value)
  | float (text : String) : Derives [.float text] (.float text)
  | int (text : String) : Derives [.integer text] (.int text)
  | yes : Derives [.name "true"] (.boolean true)
  | no : Derives [.name "false"] (.boolean false)
  | null : Derives [.name "null"] .null
  | enum {name : String} : IsEnumName name → Derives [.name name] (.enum name)
  | list {body : List Token} {items : List Value} :
      Many Derives body items → Derives (.bracketOpen :: (body ++ [.bracketClose])) (.list items)
  | object {body : List Token} {fields : List (String × Value)} :
      Many (Language.Labelled Derives) body fields →
        Derives (.braceOpen :: (body ++ [.braceClose])) (.object fields)

end Value

/-- How type references are spelled. No type is marked twice in a row. -/
inductive TypeRef.Derives : List Token → TypeRef → Prop
  | named (name : String) : Derives [.name name] (.named name)
  | list {word : List Token} {item : TypeRef} :
      Derives word item → Derives (.bracketOpen :: (word ++ [.bracketClose])) (.list item)
  | nonNull {word : List Token} {inner : TypeRef} :
      Derives word inner → inner.isNonNull = false → Derives (word ++ [.exclam]) (.nonNull inner)

namespace Argument

inductive Derives : List Token → Argument → Prop
  | intro (name : String) {word : List Token} {value : Value} :
      Value.Derives word value → Derives (.name name :: .colon :: word) ⟨name, value⟩

inductive ListDerives : List Token → List Argument → Prop
  | absent : ListDerives [] []
  | present {body : List Token} {arguments : List Argument} :
      Many Derives body arguments →
        ListDerives (.parenOpen :: (body ++ [.parenClose])) arguments

end Argument

inductive Directive.Derives : List Token → Directive → Prop
  | intro (name : String) {word : List Token} {arguments : List Argument} :
      Argument.ListDerives word arguments → Derives (.directiveName name :: word) ⟨name, arguments⟩

inductive Field.NameDerives : List Token → Option String × String → Prop
  | plain (name : String) : NameDerives [.name name] (none, name)
  | aliased (other name : String) :
      NameDerives [.name other, .colon, .name name] (some other, name)

inductive InlineFragment.ConditionDerives : List Token → Option String → Prop
  | absent : ConditionDerives [] none
  | present (name : String) : ConditionDerives [.name "on", .name name] (some name)

inductive FragmentSpread.Derives : List Token → FragmentSpread → Prop
  | intro {name : String} {marks : List Token} {directives : List Directive} :
      name ≠ "on" → Many Directive.Derives marks directives →
        Derives (.ellipsis :: .name name :: marks) ⟨name, directives⟩

mutual

inductive Selection.Derives : List Token → Selection → Prop
  | field {word : List Token} {field : Field} :
      Field.Derives word field → Selection.Derives word (.field field)
  | spread {word : List Token} {spread : FragmentSpread} :
      FragmentSpread.Derives word spread → Selection.Derives word (.spread spread)
  | inline {word : List Token} {fragment : InlineFragment} :
      InlineFragment.Derives word fragment → Selection.Derives word (.inline fragment)

inductive Field.Derives : List Token → Field → Prop
  | intro {head given marks body : List Token} {alias? : Option String} {name : String}
      {arguments : List Argument} {directives : List Directive} {selections : List Selection} :
      Field.NameDerives head (alias?, name) → Argument.ListDerives given arguments →
        Many Directive.Derives marks directives → Selection.OptionalDerives body selections →
          Field.Derives (head ++ (given ++ (marks ++ body)))
            ⟨alias?, name, arguments, directives, selections⟩

inductive InlineFragment.Derives : List Token → InlineFragment → Prop
  | intro {condition marks body : List Token} {type? : Option String}
      {directives : List Directive} {selections : List Selection} :
      InlineFragment.ConditionDerives condition type? → Many Directive.Derives marks directives →
        Selection.SetDerives body selections →
          InlineFragment.Derives (.ellipsis :: (condition ++ (marks ++ body)))
            ⟨type?, directives, selections⟩

/-- How selection sets are spelled. None is empty. -/
inductive Selection.SetDerives : List Token → List Selection → Prop
  | intro {body : List Token} {selections : List Selection} :
      Many Selection.Derives body selections → selections ≠ [] →
        Selection.SetDerives (.braceOpen :: (body ++ [.braceClose])) selections

inductive Selection.OptionalDerives : List Token → List Selection → Prop
  | absent : Selection.OptionalDerives [] []
  | present {word : List Token} {selections : List Selection} :
      Selection.SetDerives word selections → Selection.OptionalDerives word selections

end

namespace VariableDefinition

/-- How the default of a variable is spelled. There are no variables in it at any depth. -/
inductive DefaultDerives : List Token → Value → Prop
  | absent : DefaultDerives [] .null
  | present {word : List Token} {value : Value} :
      Value.Derives word value → value.variableNames = [] → DefaultDerives (.equal :: word) value

inductive Derives : List Token → VariableDefinition → Prop
  | intro (name : String) {spelled given marks : List Token} {type : TypeRef} {default : Value}
      {directives : List Directive} :
      TypeRef.Derives spelled type → DefaultDerives given default →
        Many Directive.Derives marks directives →
          Derives (.variableName name :: .colon :: (spelled ++ (given ++ marks)))
            ⟨name, type, default, directives⟩

/-- How all definitions of variables of an operation are spelled. Parentheses around them are not
empty. -/
inductive ListDerives : List Token → List VariableDefinition → Prop
  | absent : ListDerives [] []
  | present {body : List Token} {definitions : List VariableDefinition} :
      Many Derives body definitions → definitions ≠ [] →
        ListDerives (.parenOpen :: (body ++ [.parenClose])) definitions

end VariableDefinition

namespace Operation

inductive NameDerives : List Token → Option String → Prop
  | absent : NameDerives [] none
  | present (name : String) : NameDerives [.name name] (some name)

inductive Derives : List Token → Operation → Prop
  | short {body : List Token} {selections : List Selection} :
      Selection.SetDerives body selections → Derives body ⟨.query, none, [], [], selections⟩
  | full (kind : OperationKind) {head given marks body : List Token} {name? : Option String}
      {definitions : List VariableDefinition} {directives : List Directive}
      {selections : List Selection} :
      NameDerives head name? → VariableDefinition.ListDerives given definitions →
        Many Directive.Derives marks directives → Selection.SetDerives body selections →
          Derives (.name kind.keyword :: (head ++ (given ++ (marks ++ body))))
            ⟨kind, name?, definitions, directives, selections⟩

end Operation

inductive Fragment.Derives : List Token → Fragment → Prop
  | intro (name type : String) {marks body : List Token} {directives : List Directive}
      {selections : List Selection} :
      Many Directive.Derives marks directives → Selection.SetDerives body selections →
        Derives (.name "fragment" :: .name name :: .name "on" :: .name type :: (marks ++ body))
          ⟨name, type, directives, selections⟩

inductive Definition.Derives : List Token → Definition → Prop
  | operation {word : List Token} {operation : Operation} :
      Operation.Derives word operation → Derives word (.operation operation)
  | fragment {word : List Token} {fragment : Fragment} :
      Fragment.Derives word fragment → Derives word (.fragment fragment)

def Document.Derives (tokens : List Token) (document : Document) : Prop :=
  Many Definition.Derives tokens document.definitions

end QueryCheck
