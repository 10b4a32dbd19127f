import QueryCheck.Proofs.Token.BlockStrings
import QueryCheck.Proofs.Token.QuotedStrings

/-!
# What is cut off

The token that is cut off a text is written there. What is no token is one character, or three
quotes that no closing ones follow.
-/

namespace QueryCheck

open Spelling

/-- The ways in which a token stands before the rest of a text. -/
inductive Spelling.Stands (rest : List Char) : Token → List Char → Prop where
  | written {token : Token} {text : List Char} (written : Writes token text) :
      Stands rest token text
  | block {raw plain value : List Char} (closes : Closes (raw ++ quotes ++ rest) raw plain)
      (stands : BlockValue plain value) :
      Stands rest (.string (String.ofList value)) (quotes ++ raw ++ quotes)
  | invalid (c : Char) : Stands rest .invalid [c]
  | unclosed (endless : ¬∃ raw plain, Closes rest raw plain) : Stands rest .invalid quotes

/-! ## Numbers -/

namespace Number

variable {cs : List Char} {length : Nat}

theorem exists_digits (cs : List Char) :
    ∃ text, text <+: cs ∧ text.length = digits cs ∧ ∀ c ∈ text, IsDigit c := by
  refine ⟨cs.takeWhile isDigit, List.takeWhile_prefix isDigit, rfl, ?_⟩
  intro c member
  exact isDigit_iff.mp (List.all_eq_true.mp List.all_takeWhile c member)

theorem nonzero_of_isDigit {c : Char} (digit : isDigit c = true) (apart : c ≠ '0') :
    '1' ≤ c ∧ c ≤ '9' := by
  obtain ⟨low, high⟩ := isDigit_iff.mp digit
  refine ⟨?_, high⟩
  have above : 48 ≤ c.toNat := low
  have other : c.toNat ≠ 48 := fun same => apart (Char.ext (UInt32.toNat_inj.mp same))
  show 49 ≤ c.toNat
  omega

theorem exists_natural (reads : natural? cs = some length) :
    ∃ text, text <+: cs ∧ text.length = length ∧ Natural text := by
  cases cs with
  | nil => cases reads
  | cons c cs =>
      rw [natural?] at reads
      split at reads
      next zero =>
        cases reads
        subst zero
        exact ⟨['0'], ⟨cs, rfl⟩, rfl, .zero⟩
      next apart =>
        split at reads
        next digit =>
          cases reads
          obtain ⟨text, starts, size, inside⟩ := exists_digits cs
          exact ⟨c :: text, List.cons_prefix_cons.mpr ⟨rfl, starts⟩, congrArg (· + 1) size,
            .positive (nonzero_of_isDigit digit apart) inside⟩
        next => cases reads

theorem exists_integer (reads : integer? cs = some length) :
    ∃ text, text <+: cs ∧ text.length = length ∧ Integer text := by
  unfold integer? at reads
  split at reads
  next cs =>
    obtain ⟨inner, found, rfl⟩ := Option.map_eq_some_iff.mp reads
    obtain ⟨text, starts, size, natural⟩ := exists_natural found
    exact ⟨'-' :: text, List.cons_prefix_cons.mpr ⟨rfl, starts⟩, congrArg (· + 1) size,
      .negative natural⟩
  next =>
    obtain ⟨text, starts, size, natural⟩ := exists_natural reads
    exact ⟨text, starts, size, .plain natural⟩

theorem exists_fraction (some : fraction cs ≠ 0) :
    ∃ text, text <+: cs ∧ text.length = fraction cs ∧ Fraction text := by
  unfold fraction at some ⊢
  split at some
  next cs =>
    have given : digits cs ≠ 0 := fun none => some (if_pos none)
    obtain ⟨text, starts, size, inside⟩ := exists_digits cs
    refine ⟨'.' :: text, List.cons_prefix_cons.mpr ⟨rfl, starts⟩, ?_, .mk ⟨?_, inside⟩⟩
    · rw [if_neg given, ← size, List.length_cons]
    · rintro rfl
      exact given size.symm
  next => exact absurd rfl some

theorem exists_sign (cs : List Char) :
    ∃ mark, mark <+: cs ∧ mark.length = sign cs ∧ (mark = [] ∨ mark = ['+'] ∨ mark = ['-']) := by
  unfold sign
  split
  next rest => exact ⟨['+'], ⟨rest, rfl⟩, rfl, .inr (.inl rfl)⟩
  next rest => exact ⟨['-'], ⟨rest, rfl⟩, rfl, .inr (.inr rfl)⟩
  next => exact ⟨[], List.nil_prefix, rfl, .inl rfl⟩

theorem exists_exponent (some : exponent cs ≠ 0) :
    ∃ text, text <+: cs ∧ text.length = exponent cs ∧ Exponent text := by
  have marked {mark : Char} (cs : List Char) (letter : mark = 'e' ∨ mark = 'E')
      (given : digits (cs.drop (sign cs)) ≠ 0) :
      ∃ text, text <+: mark :: cs ∧ text.length = 1 + sign cs + digits (cs.drop (sign cs)) ∧
        Exponent text := by
    obtain ⟨signs, ⟨rest, rfl⟩, signSize, signed⟩ := exists_sign cs
    rw [← signSize, List.drop_left] at given ⊢
    obtain ⟨text, starts, size, inside⟩ := exists_digits rest
    refine ⟨mark :: (signs ++ text), ?_, ?_, .mk letter signed ⟨?_, inside⟩⟩
    · exact List.cons_prefix_cons.mpr ⟨rfl, (List.prefix_append_right_inj signs).mpr starts⟩
    · rw [List.length_cons, List.length_append, size]
      omega
    · rintro rfl
      exact given size.symm
  unfold exponent at some ⊢
  split at some
  next cs =>
    have given : digits (cs.drop (sign cs)) ≠ 0 := fun none => some (if_pos none)
    dsimp only
    rw [if_neg given]
    exact marked cs (.inl rfl) given
  next cs =>
    have given : digits (cs.drop (sign cs)) ≠ 0 := fun none => some (if_pos none)
    dsimp only
    rw [if_neg given]
    exact marked cs (.inr rfl) given
  next => exact absurd rfl some

/-- What is read is an integer if it has no further parts, and a decimal number if it has. -/
theorem exists_number {whole : Nat} (reads : read? cs = some (whole, length)) :
    ∃ text, text <+: cs ∧ text.length = length ∧
      (length = whole ∧ Integer text ∨ length ≠ whole ∧ Decimal text) := by
  obtain ⟨_, first, same⟩ := Option.bind_eq_some_iff.mp reads
  cases same
  obtain ⟨text, ⟨rest, rfl⟩, rfl, integer⟩ := exists_integer first
  rw [List.drop_left]
  by_cases fractionless : fraction rest = 0
  · rw [fractionless, Nat.add_zero, List.drop_left]
    by_cases plain : exponent rest = 0
    · rw [plain, Nat.add_zero]
      exact ⟨text, List.prefix_append _ _, rfl, .inl ⟨rfl, integer⟩⟩
    · obtain ⟨exponential, starts, size, given⟩ := exists_exponent plain
      exact ⟨text ++ exponential, (List.prefix_append_right_inj text).mpr starts, by
        rw [List.length_append, size], .inr ⟨by omega, .exponent integer given⟩⟩
  · obtain ⟨fractional, ⟨tail, rfl⟩, size, given⟩ := exists_fraction fractionless
    rw [← size, ← List.length_append, ← List.append_assoc, List.drop_left]
    have longer : text.length < (text ++ fractional).length := by
      rw [List.length_append]
      omega
    by_cases plain : exponent tail = 0
    · rw [plain, Nat.add_zero]
      exact ⟨text ++ fractional, List.prefix_append _ _, rfl,
        .inr ⟨by omega, .fraction integer given⟩⟩
    · obtain ⟨exponential, starts, scale, scaled⟩ := exists_exponent plain
      exact ⟨text ++ fractional ++ exponential, (List.prefix_append_right_inj _).mpr starts, by
        rw [List.length_append, scale], .inr ⟨by omega, .both integer given scaled⟩⟩

end Number

/-! ## Tokens -/

namespace Lexer

/-- A token is cut off where it stands, with the given number of characters after its first. -/
def Cuts (c : Char) (cs : List Char) (cut : Token × Nat) : Prop :=
  ∃ text rest, cs = text ++ rest ∧ text.length = cut.2 ∧ Stands rest cut.1 (c :: text)

theorem Cuts.invalid (c : Char) (cs : List Char) : Cuts c cs (.invalid, 0) :=
  ⟨[], cs, rfl, rfl, .invalid c⟩

theorem Cuts.written {c : Char} {cs text : List Char} {token : Token}
    (written : Writes token (c :: text)) (starts : text <+: cs) :
    Cuts c cs (token, text.length) := by
  obtain ⟨rest, rfl⟩ := starts
  exact ⟨text, rest, rfl, rfl, .written written⟩

theorem exists_nameRest (cs : List Char) :
    ∃ text, text <+: cs ∧ text.length = nameRest cs ∧ ∀ c ∈ text, StartsName c ∨ IsDigit c := by
  refine ⟨cs.takeWhile isNameRest, List.takeWhile_prefix isNameRest, rfl, ?_⟩
  intro c member
  exact isNameRest_iff.mp (List.all_eq_true.mp List.all_takeWhile c member)

theorem exists_nameLength {cs : List Char} (some : nameLength cs ≠ 0) :
    ∃ text, text <+: cs ∧ text.length = nameLength cs ∧ Name text := by
  cases cs with
  | nil => exact absurd rfl some
  | cons c cs =>
      rw [nameLength] at some ⊢
      split at some
      next start =>
        obtain ⟨text, starts, size, inside⟩ := exists_nameRest cs
        exact ⟨c :: text, List.cons_prefix_cons.mpr ⟨rfl, starts⟩, by
          rw [if_pos start, List.length_cons, size], .mk (isNameStart_iff.mp start) inside⟩
      next => exact absurd rfl some

theorem cuts_name {c : Char} (start : isNameStart c = true) (cs : List Char) :
    Cuts c cs (.name (String.ofList (c :: cs.take (nameRest cs))), nameRest cs) := by
  obtain ⟨text, ⟨rest, rfl⟩, size, inside⟩ := exists_nameRest cs
  rw [← size, List.take_left]
  exact .written (.name (.mk (isNameStart_iff.mp start) inside)) (List.prefix_append _ _)

theorem cuts_signedName {sign : Char} {token : String → Token}
    (writes : ∀ text, Name text → Writes (token (String.ofList text)) (sign :: text))
    (cs : List Char) : Cuts sign cs (signedName token cs) := by
  unfold signedName
  split
  next => exact .invalid sign cs
  next some =>
    obtain ⟨text, ⟨rest, rfl⟩, size, name⟩ := exists_nameLength some
    rw [← size, List.take_left]
    exact .written (writes text name) (List.prefix_append _ _)

theorem cuts_numberToken (c : Char) (cs : List Char) : Cuts c cs (numberToken c cs) := by
  cases reads : Number.read? (c :: cs) with
  | none =>
      rw [numberToken, reads]
      exact .invalid c cs
  | some found =>
      obtain ⟨whole, length⟩ := found
      obtain ⟨text, starts, rfl, ⟨same, integer⟩ | ⟨longer, decimal⟩⟩ := Number.exists_number reads
      · obtain ⟨d, ds, rfl, -⟩ := exists_cons_of_integer integer
        obtain ⟨rfl, rest, rfl⟩ := List.cons_prefix_cons.mp starts
        rw [numberToken_append reads, if_pos same]
        exact .written (.integer integer) (List.prefix_append _ _)
      · obtain ⟨d, ds, rfl, -⟩ := exists_cons_of_decimal decimal
        obtain ⟨rfl, rest, rfl⟩ := List.cons_prefix_cons.mp starts
        rw [numberToken_append reads, if_neg longer]
        exact .written (.float decimal) (List.prefix_append _ _)

theorem cuts_stringToken (cs : List Char) : Cuts '"' cs (stringToken cs) := by
  unfold stringToken
  split
  next cs =>
    split
    next value count reads =>
      obtain ⟨raw, plain, closes, stands, rfl⟩ := Block.read?_eq_some_iff.mp reads
      obtain ⟨rest, rfl⟩ := closes.isPrefix
      exact ⟨'"' :: '"' :: (raw ++ quotes), rest, rfl, rfl, .block closes stands⟩
    next unread =>
      refine ⟨['"', '"'], cs, rfl, rfl, .unclosed fun closes => ?_⟩
      have succeeds := (Block.readsBlock cs).succeeds.mpr closes
      rw [unread] at succeeds
      cases succeeds
  next rest _ => exact .written (.string .nil) ⟨rest, rfl⟩
  next =>
    split
    next value count reads =>
      obtain ⟨content, starts, spelled, rfl⟩ := Quoted.read?_eq_some_iff.mp reads
      exact .written (.string spelled) starts
    next => exact .invalid '"' cs

theorem cuts_punctuator (c : Char) (cs : List Char) :
    Cuts c cs ((punctuator? c).getD .invalid, 0) := by
  cases found : punctuator? c with
  | none => exact .invalid c cs
  | some token =>
      have listed : (c, token) ∈ punctuators := by
        unfold punctuator? at found
        split at found <;> cases found <;> decide
      exact .written (.punctuator listed) List.nil_prefix

/-- The token that is cut off a text stands there. -/
theorem cuts_tokenAt (c : Char) (cs : List Char) : Cuts c cs (tokenAt c cs) := by
  rw [tokenAt]
  split
  next start => exact cuts_name start cs
  next =>
  split
  next => exact cuts_numberToken c cs
  next =>
  split
  next quote =>
    subst quote
    exact cuts_stringToken cs
  next =>
  split
  next sign =>
    subst sign
    exact cuts_signedName (fun _ => .variableName) cs
  next =>
  split
  next sign =>
    subst sign
    exact cuts_signedName (fun _ => .directiveName) cs
  next =>
  split
  next dot =>
    subst dot
    split
    next dots => exact .written .ellipsis (dots ▸ List.take_prefix 2 cs)
    next => exact .invalid '.' cs
  next => exact cuts_punctuator c cs

end Lexer

end QueryCheck
