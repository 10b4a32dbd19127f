import QueryCheck.Token

/-!
# How tokens are written

The texts of each kind of token, and the texts that may stand between tokens. Nothing is said
here about how texts are cut into tokens.

A name or a number is written in one way. A string may be written in many, as each of its
characters can be spelled as itself, as a short escape or by its code point.
-/

namespace QueryCheck

namespace Spelling

/-! ## Names and numbers -/

/-- A digit: `[0-9]`. -/
def IsDigit (c : Char) : Prop :=
  '0' ≤ c ∧ c ≤ '9'

/-- A character that a name may start with: `[_a-zA-Z]`. -/
def StartsName (c : Char) : Prop :=
  c = '_' ∨ ('a' ≤ c ∧ c ≤ 'z') ∨ ('A' ≤ c ∧ c ≤ 'Z')

instance (c : Char) : Decidable (IsDigit c) :=
  inferInstanceAs (Decidable (_ ∧ _))

instance (c : Char) : Decidable (StartsName c) :=
  inferInstanceAs (Decidable (_ ∨ _))

/-- A name: `[_a-zA-Z][_0-9a-zA-Z]*`. -/
inductive Name : List Char → Prop where
  | mk {c : Char} {cs : List Char} (start : StartsName c)
      (rest : ∀ d ∈ cs, StartsName d ∨ IsDigit d) : Name (c :: cs)

/-- One or more digits: `[0-9]+`. -/
structure Digits (text : List Char) : Prop where
  nonempty : text ≠ []
  digits : ∀ c ∈ text, IsDigit c

/-- A natural number without superfluous zeros: `[1-9][0-9]*|0`. -/
inductive Natural : List Char → Prop where
  | zero : Natural ['0']
  | positive {c : Char} {cs : List Char} (first : '1' ≤ c ∧ c ≤ '9') (rest : ∀ d ∈ cs, IsDigit d) :
      Natural (c :: cs)

/-- An integer: `-?([1-9][0-9]*|0)`. -/
inductive Integer : List Char → Prop where
  | plain {text : List Char} (natural : Natural text) : Integer text
  | negative {text : List Char} (natural : Natural text) : Integer ('-' :: text)

/-- A fraction: `[.][0-9]+`. -/
inductive Fraction : List Char → Prop where
  | mk {text : List Char} (digits : Digits text) : Fraction ('.' :: text)

/-- An exponent: `[eE][+-]?[0-9]+`. -/
inductive Exponent : List Char → Prop where
  | mk {mark : Char} {sign text : List Char} (marked : mark = 'e' ∨ mark = 'E')
      (signed : sign = [] ∨ sign = ['+'] ∨ sign = ['-']) (digits : Digits text) :
      Exponent (mark :: (sign ++ text))

/-- An integer with a fraction, with an exponent or with both. -/
inductive Decimal : List Char → Prop where
  | fraction {whole fraction : List Char} (integer : Integer whole) (given : Fraction fraction) :
      Decimal (whole ++ fraction)
  | exponent {whole exponent : List Char} (integer : Integer whole) (given : Exponent exponent) :
      Decimal (whole ++ exponent)
  | both {whole fraction exponent : List Char} (integer : Integer whole)
      (given : Fraction fraction) (scaled : Exponent exponent) :
      Decimal (whole ++ fraction ++ exponent)

/-! ## Strings -/

def shortEscapes : List (Char × Char) :=
  [('"', '"'), ('\\', '\\'), ('/', '/'), ('b', '\x08'), ('f', '\x0c'), ('n', '\n'), ('r', '\r'),
    ('t', '\t')]

def hexDigits : List (Char × Nat) :=
  [('0', 0), ('1', 1), ('2', 2), ('3', 3), ('4', 4), ('5', 5), ('6', 6), ('7', 7), ('8', 8),
    ('9', 9), ('a', 10), ('b', 11), ('c', 12), ('d', 13), ('e', 14), ('f', 15), ('A', 10),
    ('B', 11), ('C', 12), ('D', 13), ('E', 14), ('F', 15)]

/-- The ways to spell a character of a string. The first of four digits may be a plus sign. -/
inductive Spells (c : Char) : List Char → Prop where
  | raw (allowed : c ∉ ['"', '\\', '\n', '\r']) : Spells c [c]
  | short {letter : Char} (listed : (letter, c) ∈ shortEscapes) : Spells c ['\\', letter]
  | code {first second third fourth : Char} {x y z w : Nat}
      (leading : (first, x) ∈ ('+', 0) :: hexDigits) (next : (second, y) ∈ hexDigits)
      (afterNext : (third, z) ∈ hexDigits) (last : (fourth, w) ∈ hexDigits)
      (value : c.toNat = x * 4096 + y * 256 + z * 16 + w) :
      Spells c ['\\', 'u', first, second, third, fourth]

inductive Content : List Char → List Char → Prop where
  | nil : Content [] []
  | cons {c : Char} {cs spelling text : List Char} (first : Spells c spelling)
      (rest : Content cs text) : Content (c :: cs) (spelling ++ text)

/-! ## Text between tokens -/

def blanks : List Char := [' ', ',', '\t', '\n', '\r', '\x0c', '\ufeff']

/-- Text between tokens: blanks, and comments up to the end of a line. -/
inductive Gap : List Char → Prop where
  | nil : Gap []
  | blank {c : Char} {rest : List Char} (listed : c ∈ blanks) (after : Gap rest) : Gap (c :: rest)
  | comment {text rest : List Char} {stop : Char} (inside : ∀ c ∈ text, c ≠ '\n' ∧ c ≠ '\r')
      (ended : stop = '\n' ∨ stop = '\r') (after : Gap rest) : Gap ('#' :: (text ++ stop :: rest))

/-! ## Tokens -/

def punctuators : List (Char × Token) :=
  [('[', .bracketOpen), (']', .bracketClose), ('{', .braceOpen), ('}', .braceClose),
    ('(', .parenOpen), (')', .parenClose), (':', .colon), ('=', .equal), ('!', .exclam),
    ('&', .ampersand), ('|', .pipe)]

/-- The ways to write a token. Text that is no token has none. -/
inductive Writes : Token → List Char → Prop where
  | ellipsis : Writes .ellipsis ['.', '.', '.']
  | punctuator {c : Char} {token : Token} (listed : (c, token) ∈ punctuators) : Writes token [c]
  | name {text : List Char} (name : Name text) : Writes (.name (String.ofList text)) text
  | variableName {text : List Char} (name : Name text) :
      Writes (.variableName (String.ofList text)) ('$' :: text)
  | directiveName {text : List Char} (name : Name text) :
      Writes (.directiveName (String.ofList text)) ('@' :: text)
  | integer {text : List Char} (integer : Integer text) :
      Writes (.integer (String.ofList text)) text
  | float {text : List Char} (decimal : Decimal text) : Writes (.float (String.ofList text)) text
  | string {value text : List Char} (content : Content value text) :
      Writes (.string (String.ofList value)) ('"' :: (text ++ ['"']))

/-- Tokens one after the other, each with some text after it. Between two tokens there is always
some. -/
inductive Sequence : List Token → List Char → Prop where
  | nil : Sequence [] []
  | cons {token : Token} {tokens : List Token} {text gap rest : List Char}
      (written : Writes token text) (between : Gap gap) (apart : tokens ≠ [] → gap ≠ [])
      (after : Sequence tokens rest) : Sequence (token :: tokens) (text ++ gap ++ rest)

/-- The ways to write a source text with the given tokens. -/
inductive Prints (tokens : List Token) : List Char → Prop where
  | mk {gap rest : List Char} (before : Gap gap) (sequence : Sequence tokens rest) :
      Prints tokens (gap ++ rest)

end Spelling

end QueryCheck
