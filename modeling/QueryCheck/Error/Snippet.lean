import QueryCheck.Text.Bytes
import QueryCheck.Text.Lines

/-!
# Places in a source text

A location is the line and column at which a span starts. A snippet shows the
lines of a span and the line before them, each with its number, and marks the
span if it lies in one line. Columns and marks count bytes.
-/

namespace QueryCheck

/-- A place in a source text. Lines are counted from one, columns from zero. -/
structure Location where
  line : Nat
  column : Nat
deriving DecidableEq, Repr

namespace Location

def ofSpan (source : List Char) (span : Span) : Location :=
  let rows := Text.rows (Text.takeBytes span.start source)
  ⟨rows.length, Text.byteSize (rows.getLastD [])⟩

end Location

namespace Snippet

def padLeft (width : Nat) (text : String) : String :=
  String.ofList (List.replicate (width - text.length) ' ') ++ text

def row (width : Nat) (number text : String) : String :=
  padLeft width number ++ " | " ++ text

/-- The text that a snippet shows, and the number of its first line. -/
def shown (source : List Char) (span : Span) : List Char × Nat :=
  let rows := Text.rows (Text.takeBytes span.start source)
  let before := ['\n'].intercalate (rows.drop (rows.length - 2))
  let spanned := Text.takeBytes (span.stop - span.start) (Text.dropBytes span.start source)
  let after := (Text.dropBytes span.stop source).takeWhile (· ≠ '\n')
  (before ++ spanned ++ after, max 1 (rows.length - 1))

def numbered (width : Nat) (number : Nat) : List (List Char) → List String
  | [] => []
  | line :: lines =>
      row width (toString number) (String.ofList line) :: numbered width (number + 1) lines

/-- The line below a span that marks its bytes. -/
def marker (width : Nat) (source : List Char) (span : Span) : String :=
  row width "" (String.ofList
    (List.replicate (Location.ofSpan source span).column ' ' ++
      List.replicate (max 1 (span.stop - span.start)) '^'))

def ofSpan (source : List Char) (span : Span) : String :=
  let (text, first) := shown source span
  let lines := Text.lines text
  let width := (toString (first + (lines.length - 1))).length + 1
  let spanned := Text.takeBytes (span.stop - span.start) (Text.dropBytes span.start source)
  let marks := if spanned.contains '\n' then [] else [marker width source span]
  Text.unlines (numbered width first lines ++ marks)

end Snippet

end QueryCheck
