import QueryCheck.Token

/-!
# How block strings are written

Where a block string ends, how three quotes are written inside of it, and what its text stands
for. Nothing is said here about how a block string is read.
-/

namespace QueryCheck.Spelling

/-! ## Patterns -/

/-- A text has a pattern right after the given part, and not before that. -/
structure FirstAfter (pattern text before : List Char) : Prop where
  found : before ++ pattern <+: text
  first : ∀ shorter, shorter ++ pattern <+: text → before.length ≤ shorter.length

/-- A text in which a pattern is replaced from left to right, wherever it occurs without
overlap. -/
inductive Replaces (pattern new : List Char) : List Char → List Char → Prop where
  | absent {text : List Char} (absent : ¬pattern <:+: text) : Replaces pattern new text text
  | first {before rest replaced : List Char}
      (found : FirstAfter pattern (before ++ pattern ++ rest) before)
      (after : Replaces pattern new rest replaced) :
      Replaces pattern new (before ++ pattern ++ rest) (before ++ new ++ replaced)

/-! ## The end of a block string -/

def quotes : List Char := ['"', '"', '"']

/-- Three quotes inside of a block string. -/
def escapedQuotes : List Char := '\\' :: quotes

/-- The text after the opening quotes, its part up to the closing ones, and this part without the
backslashes of the quotes that were passed over. Three quotes are sought from left to right and
without overlap, and the first that have no backslash right before them are the closing ones. -/
inductive Closes : (text raw plain : List Char) → Prop where
  | closing {text raw : List Char} (found : FirstAfter quotes text raw)
      (unescaped : raw.getLast? ≠ some '\\') : Closes text raw raw
  | escaped {before rest raw plain : List Char}
      (found : FirstAfter quotes (before ++ escapedQuotes ++ rest) (before ++ ['\\']))
      (after : Closes rest raw plain) :
      Closes (before ++ escapedQuotes ++ rest) (before ++ escapedQuotes ++ raw)
        (before ++ quotes ++ plain)

/-! ## The value of a block string -/

/-- What ends a line, before the given rest of the text. -/
inductive LineEnd : List Char → List Char → Prop where
  | feed (rest : List Char) : LineEnd ['\n'] rest
  | both (rest : List Char) : LineEnd ['\r', '\n'] rest
  | carriageReturn {rest : List Char} (alone : rest.head? ≠ some '\n') : LineEnd ['\r'] rest

inductive Lines : List Char → List (List Char) → Prop where
  | last {line : List Char} (whole : ∀ c ∈ line, c ≠ '\n' ∧ c ≠ '\r') : Lines line [line]
  | cons {line ending rest : List Char} {lines : List (List Char)}
      (whole : ∀ c ∈ line, c ≠ '\n' ∧ c ≠ '\r') (ended : LineEnd ending rest)
      (after : Lines rest lines) : Lines (line ++ ending ++ rest) (line :: lines)

def Indents (c : Char) : Prop :=
  c = ' ' ∨ c = '\t'

def Blank (line : List Char) : Prop :=
  ∀ c ∈ line, Indents c

instance (c : Char) : Decidable (Indents c) :=
  inferInstanceAs (Decidable (_ ∨ _))

instance (line : List Char) : Decidable (Blank line) :=
  List.decidableBAll Indents line

/-- A line that starts with exactly so many characters of indentation. -/
inductive Indented : Nat → List Char → Prop where
  | mk {indent rest : List Char} (blank : Blank indent) (stop : ∀ c ∈ rest.head?, ¬Indents c) :
      Indented indent.length (indent ++ rest)

/-- The least indentation of lines that are not blank, or zero if all of them are. -/
inductive LeastIndent (lines : List (List Char)) : Nat → Prop where
  | none (blank : ∀ line ∈ lines, Blank line) : LeastIndent lines 0
  | reached {least : Nat} {line : List Char} (member : line ∈ lines) (solid : ¬Blank line)
      (indented : Indented least line)
      (bound : ∀ other ∈ lines, ¬Blank other → ∀ count, Indented count other → least ≤ count) :
      LeastIndent lines least

inductive Trimmed : List (List Char) → List (List Char) → Prop where
  | mk {leading kept trailing : List (List Char)} (before : ∀ line ∈ leading, Blank line)
      (after : ∀ line ∈ trailing, Blank line) (first : ∀ line ∈ kept.head?, ¬Blank line)
      (last : ∀ line ∈ kept.getLast?, ¬Blank line) : Trimmed (leading ++ kept ++ trailing) kept

/-- What the text of a block string stands for: its lines, all but the first without the least
indentation of those, without the blank lines at both ends, put together with line feeds. -/
inductive BlockValue (raw : List Char) : List Char → Prop where
  | mk {first : List Char} {rest kept : List (List Char)} {least : Nat}
      (lines : Lines raw (first :: rest)) (indent : LeastIndent rest least)
      (trimmed : Trimmed (first :: rest.map (List.drop least)) kept) :
      BlockValue raw (['\n'].intercalate kept)

end QueryCheck.Spelling
