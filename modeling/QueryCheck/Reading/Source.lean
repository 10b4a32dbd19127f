import QueryCheck.Error
import QueryCheck.Reading.Document
import QueryCheck.Token.Lexer

/-!
# Reading from a source text

A source text that can not be read gives a syntax error at the first impossible
token, or at the end of the text if it ended too early.
-/

namespace QueryCheck

namespace Source

/-- The place of the first of the tokens that are left, or the end of the text. -/
def spanOf (source : List Char) (left : List Token) : Span :=
  let words := lexemes source
  match words.drop (words.length - left.length) with
  | word :: _ => word.span
  | [] => ⟨Text.byteSize source, Text.byteSize source⟩

def nodeError (source : List Char) (failure : Failure NodeKind) : Error :=
  .ofSpan failure.cause.invalidMessage source (spanOf source failure.rest)

/-- Reads a node at the start of a text. What follows it is not looked at. -/
def parse {α : Type} {bound : List Token → Nat}
    (read : (tokens : List Token) → Reading NodeKind α (bound tokens)) (text : String) :
    Except Error α :=
  match read (tokens text.toList) with
  | .ok parsed => .ok parsed.value
  | .error failure => .error (nodeError text.toList failure)

end Source

namespace Document

def parse (text : String) : Except Error Document :=
  match read (tokens text.toList) with
  | .ok document => .ok document
  | .error failure => .error (Source.nodeError text.toList failure)

end Document

end QueryCheck
