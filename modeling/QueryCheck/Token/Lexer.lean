import QueryCheck.Text.Bytes
import QueryCheck.Token
import QueryCheck.Token.Block
import QueryCheck.Token.Number
import QueryCheck.Token.Quoted

/-!
# Words of a source text

A source text is cut into pieces. Each piece is a token or text between tokens
that is ignored: blanks, commas, byte order marks and comments. A piece is the
longest that the text can start with. Text that starts no token is one invalid
character. A string that is malformed or does not end leaves its opening quotes
as an invalid piece, and the text goes on right after them.

The pieces put together are the source text, so a token's place is the number
of bytes of the pieces before it.
-/

namespace QueryCheck

/-- A piece of a source text, ignored unless it has a token. -/
structure Piece where
  token? : Option Token
  text : List Char
deriving DecidableEq, Repr

structure Lexeme where
  token : Token
  span : Span
deriving DecidableEq, Repr

namespace Lexer

def isIgnored (c : Char) : Bool :=
  c == ' ' || c == ',' || c == '\t' || c == '\n' || c == '\r' || c == '\x0c' || c == '\ufeff'

def isComment (c : Char) : Bool :=
  c != '\n' && c != '\r'

def isNameStart (c : Char) : Bool :=
  c == '_' || ('a' ≤ c && c ≤ 'z') || ('A' ≤ c && c ≤ 'Z')

def isNameRest (c : Char) : Bool :=
  isNameStart c || Number.isDigit c

def nameRest (cs : List Char) : Nat :=
  (cs.takeWhile isNameRest).length

/-- The length of a name at the start of a text, or zero. -/
def nameLength : List Char → Nat
  | [] => 0
  | c :: cs => if isNameStart c then nameRest cs + 1 else 0

def punctuator? : Char → Option Token
  | '[' => some .bracketOpen
  | ']' => some .bracketClose
  | '{' => some .braceOpen
  | '}' => some .braceClose
  | '(' => some .parenOpen
  | ')' => some .parenClose
  | ':' => some .colon
  | '=' => some .equal
  | '!' => some .exclam
  | '&' => some .ampersand
  | '|' => some .pipe
  | _ => none

/-- The name of a variable or a directive after its sign. -/
def signedName (token : String → Token) (cs : List Char) : Token × Nat :=
  match nameLength cs with
  | 0 => (.invalid, 0)
  | count => (token (String.ofList (cs.take count)), count)

/-- A string after its first quote. -/
def stringToken : List Char → Token × Nat
  | '"' :: '"' :: cs =>
      match Block.read? cs with
      | some (value, count) => (.string (String.ofList value), count + 2)
      | none => (.invalid, 2)
  | '"' :: _ => (.string "", 1)
  | cs =>
      match Quoted.read? cs with
      | some (value, count) => (.string (String.ofList value), count)
      | none => (.invalid, 0)

def numberToken (c : Char) (cs : List Char) : Token × Nat :=
  match Number.read? (c :: cs) with
  | some (whole, length) =>
      let text := String.ofList ((c :: cs).take length)
      (if length = whole then .integer text else .float text, length - 1)
  | none => (.invalid, 0)

/-- The token that starts with the given character, and how many characters it takes after it. -/
def tokenAt (c : Char) (cs : List Char) : Token × Nat :=
  if isNameStart c then
    (.name (String.ofList (c :: cs.take (nameRest cs))), nameRest cs)
  else if Number.isDigit c || c == '-' then numberToken c cs
  else if c = '"' then stringToken cs
  else if c = '$' then signedName .variableName cs
  else if c = '@' then signedName .directiveName cs
  else if c = '.' then
    if cs.take 2 = ['.', '.'] then (.ellipsis, 2) else (.invalid, 0)
  else ((punctuator? c).getD .invalid, 0)

/-- The piece that starts with the given character: its token, unless it is ignored, and how many
characters it takes after that one. -/
def pieceAt (c : Char) (cs : List Char) : Option Token × Nat :=
  if isIgnored c then (none, 0)
  else if c = '#' then (none, (cs.takeWhile isComment).length)
  else
    let (token, count) := tokenAt c cs
    (some token, count)

def pieces : List Char → List Piece
  | [] => []
  | c :: cs =>
      let (token?, count) := pieceAt c cs
      ⟨token?, c :: cs.take count⟩ :: pieces (cs.drop count)
termination_by cs => cs.length

/-- The tokens among pieces that start at the given byte, each with its place. -/
def place (start : Nat) : List Piece → List Lexeme
  | [] => []
  | piece :: rest =>
      let stop := start + Text.byteSize piece.text
      match piece.token? with
      | some token => ⟨token, ⟨start, stop⟩⟩ :: place stop rest
      | none => place stop rest

end Lexer

def lexemes (source : List Char) : List Lexeme :=
  Lexer.place 0 (Lexer.pieces source)

def tokens (source : List Char) : List Token :=
  (lexemes source).map Lexeme.token

end QueryCheck
