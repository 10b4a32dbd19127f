import QueryCheck.Text.Lines

/-!
# Block strings

The text of a block string after its opening triple quote. It ends at the first
triple quote that has no backslash before it. Its value is the text without the
indentation that its lines share and without blank lines at its ends.
-/

namespace QueryCheck.Block

/-- Reads the raw text up to the closing triple quote, with each escaped triple quote written as
the quotes alone, and the number of characters read, the closing quotes included. -/
def raw? : List Char → Option (List Char × Nat)
  | [] => none
  | '\\' :: '"' :: '"' :: '"' :: rest => do
      let (text, count) ← raw? rest
      return ('"' :: '"' :: '"' :: text, count + 4)
  | '"' :: '"' :: '"' :: _ => some ([], 3)
  | c :: rest => do
      let (text, count) ← raw? rest
      return (c :: text, count + 1)

def isIndent (c : Char) : Bool :=
  c == ' ' || c == '\t'

def isBlank (line : List Char) : Bool :=
  line.all isIndent

def indentOf (line : List Char) : Nat :=
  (line.takeWhile isIndent).length

/-- The least indentation of the lines that are not blank, or zero if all are. -/
def commonIndent (lines : List (List Char)) : Nat :=
  (((lines.filter fun line => !isBlank line).map indentOf).min?).getD 0

/-- The lines of a text, all but the first without the indentation that those share. -/
def outdent : List (List Char) → List (List Char)
  | [] => []
  | first :: rest => first :: rest.map (List.drop (commonIndent rest))

/-- The lines of a text without the blank ones at both ends. -/
def trimBlank (lines : List (List Char)) : List (List Char) :=
  ((lines.dropWhile isBlank).reverse.dropWhile isBlank).reverse

def value (raw : List Char) : List Char :=
  ['\n'].intercalate (trimBlank (outdent (Text.blockLines raw)))

/-- Reads the rest of a block string. Gives its value and the number of characters read, the
closing quotes included, or nothing when the string does not end. -/
def read? (cs : List Char) : Option (List Char × Nat) := do
  let (raw, count) ← raw? cs
  return (value raw, count)

end QueryCheck.Block
