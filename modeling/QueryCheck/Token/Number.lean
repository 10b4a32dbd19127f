/-!
# Numbers

A number is an integer part, which has no superfluous leading zero and may have
a minus sign, then an optional fraction, then an optional exponent. It is an
integer if it is the integer part alone. Each reader gives the number of
characters that its part takes at the start of a text, and each part takes all
the characters that it can.
-/

namespace QueryCheck.Number

def isDigit (c : Char) : Bool :=
  '0' ≤ c && c ≤ '9'

def digits (cs : List Char) : Nat :=
  (cs.takeWhile isDigit).length

/-- The length of an unsigned integer part: a zero, or digits that do not start with one. -/
def natural? : List Char → Option Nat
  | [] => none
  | c :: cs => if c = '0' then some 1 else if isDigit c then some (digits cs + 1) else none

def integer? : List Char → Option Nat
  | '-' :: cs => (natural? cs).map (· + 1)
  | cs => natural? cs

/-- The length of a fraction, or zero if there is none. -/
def fraction : List Char → Nat
  | '.' :: cs => if digits cs = 0 then 0 else digits cs + 1
  | _ => 0

def sign : List Char → Nat
  | '+' :: _ | '-' :: _ => 1
  | _ => 0

def exponent : List Char → Nat
  | 'e' :: cs | 'E' :: cs =>
      let count := digits (cs.drop (sign cs))
      if count = 0 then 0 else 1 + sign cs + count
  | _ => 0

/-- The lengths of the integer part of a number and of the whole number. -/
def read? (cs : List Char) : Option (Nat × Nat) := do
  let whole ← integer? cs
  let fractional := whole + fraction (cs.drop whole)
  return (whole, fractional + exponent (cs.drop fractional))

end QueryCheck.Number
