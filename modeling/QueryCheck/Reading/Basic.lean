import QueryCheck.Token

/-!
# Reading from a list of tokens

A reader takes the tokens that are left and gives a value with the tokens that
are left after it, or fails. What is left after a success is shorter than a
bound: the length of the tokens left before, for a reader that reads at least
one token, or one more than that, for a reader that may read none. So every
repetition ends.

A failure names its cause and keeps the tokens from the first impossible one on.
No tokens at all mean that the text ended too early.
-/

namespace QueryCheck

/-- Why reading failed, and the tokens from the first impossible one on. -/
structure Failure (ε : Type) where
  cause : ε
  rest : List Token
deriving DecidableEq, Repr

/-- A value that was read and the tokens after it, of which there are fewer than a bound. -/
structure Parsed (α : Type) (bound : Nat) where
  value : α
  rest : List Token
  rest_lt : rest.length < bound

abbrev Reading (ε α : Type) (bound : Nat) : Type :=
  Except (Failure ε) (Parsed α bound)

namespace Parsed

variable {α β : Type} {bound other : Nat}

def weaken (parsed : Parsed α bound) (le : bound ≤ other) : Parsed α other :=
  ⟨parsed.value, parsed.rest, Nat.lt_of_lt_of_le parsed.rest_lt le⟩

def map (f : α → β) (parsed : Parsed α bound) : Parsed β bound :=
  ⟨f parsed.value, parsed.rest, parsed.rest_lt⟩

/-- What is read after a value leaves fewer tokens than the bound of that value. -/
theorem after (parsed : Parsed α bound) (next : Parsed β parsed.rest.length) :
    next.rest.length < bound :=
  Nat.lt_trans next.rest_lt parsed.rest_lt

/-- What is read after a value, or nothing, leaves fewer tokens than the bound of that value. -/
theorem afterOptional (parsed : Parsed α bound) (next : Parsed β (parsed.rest.length + 1)) :
    next.rest.length < bound :=
  Nat.lt_of_le_of_lt (Nat.le_of_lt_succ next.rest_lt) parsed.rest_lt

end Parsed

namespace Reading

variable {ε α : Type} {bound : Nat}

def fail (cause : ε) (rest : List Token) : Reading ε α bound :=
  .error ⟨cause, rest⟩

/-- No more tokens are left than there are. -/
theorem left_le_self (tokens : List Token) : tokens.length ≤ tokens.length :=
  Nat.le_refl _

/-- The tokens after a name are fewer. -/
theorem rest_lt_name (text : String) (rest : List Token) :
    rest.length < (Token.name text :: rest).length :=
  Nat.lt_succ_self _

/-- The tokens after a name are no more. -/
theorem rest_le_name (text : String) (rest : List Token) :
    rest.length ≤ (Token.name text :: rest).length :=
  Nat.le_succ _

/-- The tokens after the name of a directive are fewer. -/
theorem rest_lt_directiveName (text : String) (rest : List Token) :
    rest.length < (Token.directiveName text :: rest).length :=
  Nat.lt_succ_self _

/-- The tokens after any token fit a bound for reading it or nothing. -/
theorem rest_le_cons_succ (token : Token) (rest : List Token) :
    rest.length ≤ (token :: rest).length + 1 :=
  Nat.le_add_right _ 2

/-- What is read after a token that may be missing fits a bound for reading both or nothing. -/
theorem after_lt_succ {α : Type} {tokens : List Token} (first : Parsed Unit tokens.length)
    (next : Parsed α first.rest.length) : next.rest.length < tokens.length + 1 :=
  Nat.lt_succ_of_lt (first.after next)

def nothing (value : α) (tokens : List Token) : Parsed α (tokens.length + 1) :=
  ⟨value, tokens, Nat.lt_succ_self _⟩

def accept? (token : Token) (tokens : List Token) : Option (Parsed Unit tokens.length) :=
  match tokens with
  | [] => none
  | next :: rest => if next = token then some ⟨(), rest, by simp⟩ else none

def expect (token : Token) (cause : ε) (tokens : List Token) : Reading ε Unit tokens.length :=
  match accept? token tokens with
  | some parsed => .ok parsed
  | none => fail cause tokens

/-- Reads the given token if it comes next, and says whether it did. -/
def eat (token : Token) (tokens : List Token) : Parsed Bool (tokens.length + 1) :=
  match accept? token tokens with
  | some parsed => (parsed.map fun _ => true).weaken (Nat.le_succ _)
  | none => nothing false tokens

def name (cause : ε) (tokens : List Token) : Reading ε String tokens.length :=
  match tokens with
  | .name text :: rest => .ok ⟨text, rest, by simp⟩
  | _ => fail cause tokens

/-- Reads items up to a closing token and that token. The item reader is used only where no more
tokens are left than a bound. -/
def manyUntil {limit : Nat} (close : Token)
    (item : (left : List Token) → left.length ≤ limit → Reading ε α left.length)
    (tokens : List Token) (le : tokens.length ≤ limit) : Reading ε (List α) tokens.length :=
  match accept? close tokens with
  | some closed => .ok (closed.map fun _ => [])
  | none => do
      let first ← item tokens le
      let others ← manyUntil close item first.rest (Nat.le_trans (Nat.le_of_lt first.rest_lt) le)
      .ok ⟨first.value :: others.value, others.rest, first.after others⟩
termination_by tokens.length
decreasing_by exact first.rest_lt

end Reading

end QueryCheck
