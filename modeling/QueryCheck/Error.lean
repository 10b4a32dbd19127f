import QueryCheck.Error.Snippet

/-!
# Errors

An error has a message, and possibly a location and a context. The context of a
syntax error is a snippet of the source text. The context of a failed validation
lists the messages of all its problems.
-/

universe u v

theorem Except.bind_eq_ok_iff {ε : Type u} {α β : Type v} {first : Except ε α}
    {next : α → Except ε β} {value : β} :
    (first >>= next) = .ok value ↔ ∃ middle, first = .ok middle ∧ next middle = .ok value := by
  cases first with
  | error cause => simp [bind, Except.bind]
  | ok middle => simp [bind, Except.bind]

theorem Except.bind_eq_ok_unit {ε : Type u} {α : Type} {first : Except ε Unit}
    {second : Except ε α} {value : α} :
    (do first; second) = .ok value ↔ first = .ok () ∧ second = .ok value := by
  rw [bind_eq_ok_iff]
  constructor
  · rintro ⟨⟨⟩, before, after⟩
    exact ⟨before, after⟩
  · rintro ⟨before, after⟩
    exact ⟨(), before, after⟩

namespace QueryCheck

/-- What an error is about: the meaning of a text that could be read, or its form. -/
inductive ErrorType where
  | graphQL
  | syntactic
deriving DecidableEq, Repr

structure Error where
  type : ErrorType
  message : String
  location? : Option Location
  context? : Option String
deriving DecidableEq, Repr

namespace ErrorType

def name : ErrorType → String
  | graphQL => "GraphQL"
  | syntactic => "Syntax"

def title (type : ErrorType) : String :=
  type.name ++ " Error"

end ErrorType

namespace Error

def ofMessage (message : String) (type : ErrorType) : Error :=
  ⟨type, message, none, none⟩

def ofSpan (message : String) (source : List Char) (span : Span) : Error :=
  ⟨.syntactic, message, some (Location.ofSpan source span), some (Snippet.ofSpan source span)⟩

/-- An error that lists messages below its own. -/
def listing (message : String) (messages : List String) : Error :=
  ⟨.graphQL, message, none, some (Text.unlines (messages.map ("- " ++ ·)))⟩

/-- An error in one line. -/
def brief (error : Error) : String :=
  error.type.title ++ ": " ++ error.message

/-- An error with its context below it. -/
def print (error : Error) : String :=
  match error.context? with
  | some context => error.brief ++ "\n" ++ context
  | none => error.brief

end Error

end QueryCheck
