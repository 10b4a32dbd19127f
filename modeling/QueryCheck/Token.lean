import QueryCheck.Text.Escaped

/-!
# Tokens

The words of the query language and of the schema language. Both share them.
-/

namespace QueryCheck

/-- A word of a source text. Names of variables and directives come without their sign. Numbers
keep their spelling. Strings hold the text they stand for. `invalid` marks text that is no word. -/
inductive Token where
  | ellipsis
  | bracketOpen
  | bracketClose
  | braceOpen
  | braceClose
  | parenOpen
  | parenClose
  | colon
  | equal
  | exclam
  | ampersand
  | pipe
  | variableName (name : String)
  | directiveName (name : String)
  | name (name : String)
  | float (text : String)
  | integer (text : String)
  | string (value : String)
  | invalid
deriving DecidableEq, Repr

namespace Token

def kindName : Token → String
  | ellipsis => "Ellipsis"
  | bracketOpen => "BracketOpen"
  | bracketClose => "BracketClose"
  | braceOpen => "BraceOpen"
  | braceClose => "BraceClose"
  | parenOpen => "ParenOpen"
  | parenClose => "ParenClose"
  | colon => "Colon"
  | equal => "Equal"
  | exclam => "Exclam"
  | ampersand => "Ampersand"
  | pipe => "Pipe"
  | variableName _ => "VariableName"
  | directiveName _ => "DirectiveName"
  | name _ => "Name"
  | float _ => "Float"
  | integer _ => "Integer"
  | string _ => "String"
  | invalid => "Error"

def payload? : Token → Option String
  | variableName text | directiveName text | name text => some text
  | float text | integer text | string text => some text
  | _ => none

def describe (token : Token) : String :=
  match token.payload? with
  | some text => token.kindName ++ "(" ++ Text.escaped text ++ ")"
  | none => token.kindName

/-- The token a text goes on with as messages show it, where the text may be at its end. -/
def describe? : Option Token → String
  | some token => token.describe
  | none => "End"

end Token

end QueryCheck
