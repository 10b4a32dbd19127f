/-!
# Byte offsets in a text

A text is handled as its list of characters, while positions in it count the
bytes of its UTF-8 form. This module measures texts in bytes and cuts them at
byte offsets. A cut that falls inside a character keeps the character whole in
the second part.
-/

namespace QueryCheck

/-- A stretch of a text: the byte offsets of its first byte and of the byte after its last. -/
structure Span where
  start : Nat
  stop : Nat
deriving DecidableEq, Repr

namespace Text

def byteSize : List Char → Nat
  | [] => 0
  | c :: cs => c.utf8Size + byteSize cs

@[simp] theorem byteSize_nil : byteSize [] = 0 := rfl

@[simp] theorem byteSize_cons (c : Char) (cs : List Char) :
    byteSize (c :: cs) = c.utf8Size + byteSize cs := rfl

@[simp] theorem byteSize_append (first second : List Char) :
    byteSize (first ++ second) = byteSize first + byteSize second := by
  induction first with
  | nil => simp
  | cons c cs ih => simp [ih, Nat.add_assoc]

/-- The characters that end at or before byte `offset`. -/
def takeBytes (offset : Nat) : List Char → List Char
  | [] => []
  | c :: cs => if c.utf8Size ≤ offset then c :: takeBytes (offset - c.utf8Size) cs else []

def dropBytes (offset : Nat) : List Char → List Char
  | [] => []
  | c :: cs => if c.utf8Size ≤ offset then dropBytes (offset - c.utf8Size) cs else c :: cs

/-- Cutting a text loses nothing. -/
@[simp] theorem takeBytes_append_dropBytes (offset : Nat) (cs : List Char) :
    takeBytes offset cs ++ dropBytes offset cs = cs := by
  induction cs generalizing offset with
  | nil => rfl
  | cons c cs ih =>
      simp only [takeBytes, dropBytes]
      split <;> simp [ih]

/-- The first part of a cut at the end of a leading piece is that piece. -/
@[simp] theorem takeBytes_byteSize_append (first second : List Char) :
    takeBytes (byteSize first) (first ++ second) = first := by
  induction first with
  | nil =>
      cases second with
      | nil => rfl
      | cons c cs =>
          have := c.utf8Size_pos
          simp only [List.nil_append, byteSize_nil, takeBytes]
          rw [if_neg (by omega)]
  | cons c cs ih => simp [takeBytes, ih]

/-- The second part of a cut at the end of a leading piece is what follows the piece. -/
@[simp] theorem dropBytes_byteSize_append (first second : List Char) :
    dropBytes (byteSize first) (first ++ second) = second := by
  have whole := takeBytes_append_dropBytes (byteSize first) (first ++ second)
  rw [takeBytes_byteSize_append] at whole
  exact List.append_cancel_left whole

end Text

end QueryCheck
