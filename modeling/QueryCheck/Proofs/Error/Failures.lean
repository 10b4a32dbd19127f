import QueryCheck.Proofs.Token.Spans
import QueryCheck.Reading.Source
import QueryCheck.Schema.Source

/-!
# Where reading fails

A text that can not be read gives an error at the token where reading failed, or at the end of the
text. This is so for every kind of node, for documents and for schemas.
-/

namespace QueryCheck

open Source (spanOf)

/-- A text can not be read as a node, as a document or as a schema: the error that is given, and the
stretch of the token at which reading failed. -/
inductive FailsAt (text : String) : Error → Span → Prop where
  | node {α : Type} {bound : List Token → Nat}
      {read : (tokens : List Token) → Reading NodeKind α (bound tokens)}
      {failure : Failure NodeKind} {error : Error}
      (failed : read (tokens text.toList) = .error failure)
      (reported : Source.parse read text = .error error) :
      FailsAt text error (spanOf text.toList failure.rest)
  | document {failure : Failure NodeKind} {error : Error}
      (failed : Document.read (tokens text.toList) = .error failure)
      (reported : Document.parse text = .error error) :
      FailsAt text error (spanOf text.toList failure.rest)
  | schema {failure : Failure SchemaFault} {error : Error}
      (failed : Definitions.read (tokens text.toList) = .error failure)
      (reported : Schema.parse text = .error error) (form : error.type = .syntactic) :
      FailsAt text error (spanOf text.toList failure.rest)

/-- A stretch of a text that cuts no character and is empty only at the end. -/
inductive Text.Stretch (source : List Char) : Span → Prop where
  | mk {before word after : List Char} (whole : source = before ++ word ++ after)
      (ended : word = [] → after = []) :
      Stretch source ⟨byteSize before, byteSize (before ++ word)⟩

theorem Text.stretch_end (source : List Char) :
    Stretch source ⟨byteSize source, byteSize source⟩ := by
  have stretch : Stretch source ⟨byteSize source, byteSize (source ++ [])⟩ :=
    .mk (by rw [List.append_nil, List.append_nil]) fun _ => rfl
  rwa [List.append_nil] at stretch

theorem Placed.stretch {source : List Char} {lexeme : Lexeme} (placed : Placed source lexeme) :
    Text.Stretch source lexeme.span := by
  obtain ⟨whole, some, -, -⟩ := placed
  exact .mk whole fun none => absurd none some

theorem placed_of_mem_lexemes {source : List Char} :
    ∀ lexeme ∈ lexemes source, Placed source lexeme :=
  (Lexer.tiles source 0).placed [] rfl

/-- Whatever tokens are left, the first of them has a stretch of the text, and so has its end. -/
theorem Source.stretch_spanOf (source : List Char) (left : List Token) :
    Text.Stretch source (spanOf source left) := by
  rw [spanOf]
  cases dropped : (lexemes source).drop ((lexemes source).length - left.length) with
  | nil => exact Text.stretch_end source
  | cons word words =>
      have member : word ∈ lexemes source := List.mem_of_mem_drop (dropped ▸ List.mem_cons_self)
      exact (placed_of_mem_lexemes word member).stretch

namespace FailsAt

variable {text : String} {error : Error} {span : Span}

theorem stretch (fails : FailsAt text error span) : Text.Stretch text.toList span := by
  cases fails <;> exact Source.stretch_spanOf _ _

/-- The error is about the stretch of the token. -/
theorem exists_ofSpan (fails : FailsAt text error span) :
    ∃ message, error = .ofSpan message text.toList span := by
  cases fails with
  | node failed reported =>
      rw [Source.parse, failed] at reported
      exact ⟨_, (Except.error.inj reported).symm⟩
  | document failed reported =>
      rw [Document.parse, failed] at reported
      exact ⟨_, (Except.error.inj reported).symm⟩
  | @schema failure error failed reported form =>
      rw [Schema.parse, failed] at reported
      obtain rfl := Except.error.inj reported
      rw [Schema.readError] at form ⊢
      cases cause : failure.cause with
      | malformed malformation => exact ⟨_, rfl⟩
      | conflicting conflict =>
          rw [cause] at form
          cases form

theorem of_node {α : Type} {bound : List Token → Nat}
    {read : (tokens : List Token) → Reading NodeKind α (bound tokens)}
    (reported : Source.parse read text = .error error) : ∃ span, FailsAt text error span := by
  cases failed : read (tokens text.toList) with
  | ok parsed =>
      rw [Source.parse, failed] at reported
      cases reported
  | error failure => exact ⟨_, .node failed reported⟩

theorem of_document (reported : Document.parse text = .error error) :
    ∃ span, FailsAt text error span := by
  cases failed : Document.read (tokens text.toList) with
  | ok document =>
      rw [Document.parse, failed] at reported
      cases reported
  | error failure => exact ⟨_, .document failed reported⟩

/-- An error of a schema about its form comes from reading it, and not from its definitions. -/
theorem of_schema (reported : Schema.parse text = .error error) (form : error.type = .syntactic) :
    ∃ span, FailsAt text error span := by
  cases failed : Definitions.read (tokens text.toList) with
  | error failure => exact ⟨_, .schema failed reported form⟩
  | ok definitions =>
      rw [Schema.parse, failed] at reported
      dsimp only at reported
      split at reported
      next =>
        cases reported
        cases form
      next => cases reported

end FailsAt

end QueryCheck
