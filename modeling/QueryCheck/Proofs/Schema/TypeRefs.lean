import QueryCheck.Proofs.Reading.Rendering
import QueryCheck.Proofs.Schema.Phrases
import QueryCheck.Proofs.Token.Printing

/-!
# Types as texts

Types of variables are read along with documents, and types of fields and input values along with
schemas. The two readers are written apart. They read the same types from the same tokens, and
differ only in what they say about faults. A type that is printed is read back by both.
-/

namespace QueryCheck

open Spelling

/-! ## Two readers -/

namespace Definitions

def typeFault : NodeKind → SchemaFault
  | .listType => .malformed .unterminatedList
  | _ => .malformed .expectedType

/-- The readers differ only in what they say about faults. -/
theorem readTypeRef_eq (tokens : List Token) :
    readTypeRef tokens =
      (TypeRef.read tokens).mapError fun failure => ⟨typeFault failure.cause, failure.rest⟩ := by
  induction tokens with
  | nil => rfl
  | cons next rest ih =>
      cases next with
      | name text => rfl
      | bracketOpen =>
          rw [readTypeRef, TypeRef.read, ih]
          cases TypeRef.read rest with
          | error failure => rfl
          | ok item =>
              simp only [bind, Except.bind, Except.mapError, Reading.expect]
              cases Reading.accept? .bracketClose item.rest with
              | none => rfl
              | some close => rfl
      | _ => rfl

theorem plain_readTypeRef_eq_ok_iff {tokens : List Token} {outcome : TypeRef × List Token} :
    (readTypeRef tokens).plain = .ok outcome ↔ (TypeRef.read tokens).plain = .ok outcome := by
  rw [readTypeRef_eq]
  cases TypeRef.read tokens with
  | error failure => simp [Except.mapError, Reading.plain]
  | ok parsed => simp [Except.mapError, Reading.plain]

theorem plain_readTypeRef_eq_error_iff {tokens rest : List Token} :
    (∃ cause, (readTypeRef tokens).plain = .error ⟨cause, rest⟩) ↔
      ∃ cause, (TypeRef.read tokens).plain = .error ⟨cause, rest⟩ := by
  rw [readTypeRef_eq]
  cases TypeRef.read tokens with
  | error failure =>
      constructor
      · rintro ⟨_, ⟨⟩⟩
        exact ⟨failure.cause, rfl⟩
      · rintro ⟨_, ⟨⟩⟩
        exact ⟨_, rfl⟩
  | ok parsed => exact iff_of_false (by rintro ⟨_, ⟨⟩⟩) (by rintro ⟨_, ⟨⟩⟩)

end Definitions

/-! ## Printed types -/

theorem tokens_punctuator {c : Char} {token : Token} (listed : (c, token) ∈ punctuators)
    (rest : List Char) : tokens (c :: rest) = token :: tokens rest := by
  obtain ⟨apart, taken⟩ := Lexer.tokenAt_punctuator listed rest
  rw [tokens_cons, Lexer.pieceAt_eq apart, taken]
  rfl

theorem tokens_name {text rest : List Char} (name : Name text)
    (stop : ∀ c ∈ rest.head?, Lexer.isNameRest c = false) :
    tokens (text ++ rest) = .name (String.ofList text) :: tokens rest := by
  obtain ⟨start, inside⟩ := name
  have unnamed : ('#' :: blanks).any Lexer.isNameStart = false := by decide
  have apart := fun listed =>
    List.any_eq_false.mp unnamed _ listed (Lexer.isNameStart_iff.mpr start)
  rw [List.cons_append, tokens_cons, Lexer.pieceAt_eq apart,
    Lexer.tokenAt_name start inside stop, List.drop_left]
  rfl

namespace TypeRef

/-- A type with a name that can be written, and marked at most once at each level. -/
structure Printable (type : TypeRef) : Prop where
  name : Name type.namedType.toList
  regular : type.Regular

/-- What is cut off a printed type is what the type is spelled with. -/
theorem tokens_print {type : TypeRef} (name : Name type.namedType.toList) (rest : List Char)
    (stop : ∀ c ∈ rest.head?, Lexer.isNameRest c = false) :
    tokens (type.print.toList ++ rest) = type.spell ++ tokens rest := by
  induction type generalizing rest with
  | named text =>
      have cut := tokens_name name stop
      rw [String.ofList_toList] at cut
      exact cut
  | list item ih =>
      have opening : ('[', Token.bracketOpen) ∈ punctuators := by decide
      have closing : (']', Token.bracketClose) ∈ punctuators := by decide
      have closed : (list item).print.toList ++ rest =
          '[' :: (item.print.toList ++ ']' :: rest) := by
        simp [print]
      have after : ∀ c ∈ (']' :: rest).head?, Lexer.isNameRest c = false := by
        rintro c ⟨⟩
        decide
      rw [closed, tokens_punctuator opening, ih name _ after, tokens_punctuator closing]
      simp [spell]
  | nonNull inner ih =>
      have mark : ('!', Token.exclam) ∈ punctuators := by decide
      have marked : (nonNull inner).print.toList ++ rest = inner.print.toList ++ '!' :: rest := by
        simp [print]
      have after : ∀ c ∈ ('!' :: rest).head?, Lexer.isNameRest c = false := by
        rintro c ⟨⟩
        decide
      rw [marked, ih name _ after, tokens_punctuator mark]
      simp [spell]

theorem read_print {type : TypeRef} (printable : type.Printable) :
    (read (tokens type.print.toList)).plain = .ok (type, []) := by
  have cut := tokens_print printable.name [] (by simp)
  rw [List.append_nil, tokens_nil] at cut
  rw [cut]
  exact (readsType_read.predictive _).complete (Nat.lt_succ_self _)
    (derives_spell printable.regular) (by simp)

/-- Both readers read the same types from the same tokens and leave the same tokens, or fail at the
same one. A printed type is read back whole by both if its name can be written and no mark is
directly inside of another, so no two such types are printed alike. -/
theorem readers_agree_with_printer :
    (∀ (tokens : List Token) (type : TypeRef) (rest : List Token),
        (read tokens).plain = .ok (type, rest) ↔
          (Definitions.readTypeRef tokens).plain = .ok (type, rest)) ∧
      (∀ tokens rest : List Token,
        (∃ cause, (read tokens).plain = .error ⟨cause, rest⟩) ↔
          ∃ cause, (Definitions.readTypeRef tokens).plain = .error ⟨cause, rest⟩) ∧
      (∀ type : TypeRef, type.Printable →
        (read (tokens type.print.toList)).plain = .ok (type, []) ∧
          (Definitions.readTypeRef (tokens type.print.toList)).plain = .ok (type, [])) ∧
      ∀ first second : TypeRef, first.Printable → second.Printable → first ≠ second →
        first.print ≠ second.print := by
  refine ⟨?_, ?_, ?_, ?_⟩
  · exact fun _ _ _ => Definitions.plain_readTypeRef_eq_ok_iff.symm
  · exact fun _ _ => Definitions.plain_readTypeRef_eq_error_iff.symm
  · intro type printable
    have reads := read_print printable
    exact ⟨reads, Definitions.plain_readTypeRef_eq_ok_iff.mpr reads⟩
  · intro first second printableFirst printableSecond differ same
    have reads := read_print printableFirst
    rw [same, read_print printableSecond, Except.ok.injEq, Prod.mk.injEq] at reads
    exact differ reads.1.symm

def sampleNested : TypeRef :=
  .list (.nonNull (.list (.nonNull (.named "ID"))))

theorem readers_agree_with_printer_sampleNested :
    sampleNested.Printable ∧ sampleNested.print = "[[ID!]!]" ∧
      (read (tokens "[[ID!]!]".toList)).plain = .ok (sampleNested, []) ∧
      (Definitions.readTypeRef (tokens "[[ID!]!]".toList)).plain = .ok (sampleNested, []) := by
  have printable : sampleNested.Printable := by
    have name : Name ['I', 'D'] := .mk (by decide) (by simp; decide)
    refine ⟨name, ?_⟩
    simp [sampleNested, Regular, isNonNull]
  obtain ⟨-, -, reads, -⟩ := readers_agree_with_printer
  exact ⟨printable, by decide, reads sampleNested printable⟩

end TypeRef

end QueryCheck
