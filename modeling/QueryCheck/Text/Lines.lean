import QueryCheck.Text.Split

/-!
# Lines

Three ways of reading a text as lines. Positions are counted in *rows*, cut at
every line feed. A listing shows the *lines* of a text: a carriage return before
a line feed belongs to the line's end, and a text that ends with a line feed has
no empty line after it. A block string is cut at every line feed, carriage
return, or pair of both.
-/

namespace QueryCheck.Text

/-- The rows of a text between its line feeds. -/
def rows (cs : List Char) : List (List Char) :=
  split '\n' cs

def stripReturn (line : List Char) : List Char :=
  if line.getLast? = some '\r' then line.dropLast else line

/-- Turns the rows of a text into its lines: every row but the last was ended by a line feed. -/
def linesOfRows : List (List Char) → List (List Char)
  | [] => []
  | [last] => if last.isEmpty then [] else [last]
  | row :: rest => stripReturn row :: linesOfRows rest

def lines (cs : List Char) : List (List Char) :=
  linesOfRows (rows cs)

/-- The lines of a block string's raw text: a line ends at a line feed, at a carriage return, or
at a carriage return and a line feed together. -/
def blockLines : List Char → List (List Char)
  | [] => [[]]
  | '\r' :: '\n' :: cs => [] :: blockLines cs
  | c :: cs => if c = '\n' ∨ c = '\r' then [] :: blockLines cs else consFirst c (blockLines cs)

def unlines (texts : List String) : String :=
  "\n".intercalate texts

end QueryCheck.Text
