import QueryCheck.Text.ExtendingMark
import QueryCheck.Text.Unprintable

/-!
# Escaped text

The form in which messages show the payload of a token: between quotes, with
every character that would not be visible on its own spelled out.
-/

namespace QueryCheck.Text

/-- A character by its code point in hexadecimal digits. -/
def codePointEscape (c : Char) : List Char :=
  ['\\', 'u', '\x7b'] ++ Nat.toDigits 16 c.toNat ++ ['\x7d']

def escapeChar (c : Char) : List Char :=
  match c with
  | '\x00' => ['\\', '0']
  | '\t' => ['\\', 't']
  | '\r' => ['\\', 'r']
  | '\n' => ['\\', 'n']
  | '\\' => ['\\', '\\']
  | '"' => ['\\', '"']
  | _ => if isExtendingMark c || isUnprintable c then codePointEscape c else [c]

def escaped (text : String) : String :=
  String.ofList (['"'] ++ text.toList.flatMap escapeChar ++ ['"'])

end QueryCheck.Text
