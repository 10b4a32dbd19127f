/-!
# Quoted strings

The text of a quoted string after its opening quote. Every character stands for
itself but for the quote, which ends the string, the line breaks, which may not
occur, and the backslash, which starts an escape sequence.
-/

namespace QueryCheck.Quoted

def shortEscape? : Char → Option Char
  | '"' => some '"'
  | '\\' => some '\\'
  | '/' => some '/'
  | 'b' => some '\x08'
  | 'f' => some '\x0c'
  | 'n' => some '\n'
  | 'r' => some '\r'
  | 't' => some '\t'
  | _ => none

/-- The value of a hexadecimal digit of either case. -/
def hexDigit? (c : Char) : Option Nat :=
  if '0' ≤ c ∧ c ≤ '9' then some (c.toNat - '0'.toNat)
  else if 'a' ≤ c ∧ c ≤ 'f' then some (c.toNat - 'a'.toNat + 10)
  else if 'A' ≤ c ∧ c ≤ 'F' then some (c.toNat - 'A'.toNat + 10)
  else none

def leadingDigit? (c : Char) : Option Nat :=
  if c = '+' then some 0 else hexDigit? c

/-- The number that four characters stand for, which are hexadecimal digits but for a plus sign that
may take the place of the first. -/
def hexNumber? (first second third fourth : Char) : Option Nat := do
  let a ← leadingDigit? first
  let b ← hexDigit? second
  let c ← hexDigit? third
  let d ← hexDigit? fourth
  return ((a * 16 + b) * 16 + c) * 16 + d

/-- The character with the given code point, unless the code point is a surrogate. -/
def charOf? (code : Nat) : Option Char :=
  if h : code.isValidChar then some (Char.ofNatAux code h) else none

/-- The character written as `\u` and four digits. -/
def codePoint? (first second third fourth : Char) : Option Char := do
  charOf? (← hexNumber? first second third fourth)

/-- Whether a character may stand for itself. -/
def isRaw (c : Char) : Bool :=
  c != '"' && c != '\\' && c != '\n' && c != '\r'

/-- Reads the rest of a quoted string. Gives its value and the number of characters read, the
closing quote included, or nothing when the string is malformed or does not end. -/
def read? : List Char → Option (List Char × Nat)
  | [] => none
  | '"' :: _ => some ([], 1)
  | '\\' :: 'u' :: first :: second :: third :: fourth :: rest => do
      let c ← codePoint? first second third fourth
      let (value, count) ← read? rest
      return (c :: value, count + 6)
  | '\\' :: letter :: rest => do
      let c ← shortEscape? letter
      let (value, count) ← read? rest
      return (c :: value, count + 2)
  | c :: rest =>
      if isRaw c then do
        let (value, count) ← read? rest
        return (c :: value, count + 1)
      else none

end QueryCheck.Quoted
