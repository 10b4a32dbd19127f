import QueryCheck.Proofs.Token.CutTokens

/-!
# The longest token

The token that is cut off a text is the longest that is written there: whatever comes after a
written token, either that token is cut off or more of the text is.
-/

namespace QueryCheck

open Spelling

/-- Of what is written at the start of a text, a token takes the most, and no other takes as
much. -/
def Token.Longest (token : Token) (text rest : List Char) : Prop :=
  ∀ other written, Writes other written → written <+: text ++ rest →
    written.length < text.length ∨ (other = token ∧ written = text)

theorem length_le_takeWhile_append {p : Char → Bool} {text : List Char} (rest : List Char)
    (inside : ∀ c ∈ text, p c = true) : text.length ≤ ((text ++ rest).takeWhile p).length := by
  rw [List.takeWhile_append_of_pos inside, List.length_append]
  exact Nat.le_add_right _ _

/-! ## Numbers -/

namespace Number

variable {text : List Char} (rest : List Char)

theorem length_le_digits (inside : ∀ c ∈ text, IsDigit c) : text.length ≤ digits (text ++ rest) :=
  length_le_takeWhile_append rest fun c member => isDigit_iff.mpr (inside c member)

theorem exists_natural? (natural : Natural text) :
    ∃ length, natural? (text ++ rest) = some length ∧ text.length ≤ length := by
  cases natural with
  | zero => exact ⟨1, rfl, Nat.le_refl 1⟩
  | positive first inside =>
      exact ⟨_, natural?_positive first _, Nat.succ_le_succ (length_le_digits rest inside)⟩

theorem exists_integer? (integer : Integer text) :
    ∃ length, integer? (text ++ rest) = some length ∧ text.length ≤ length := by
  cases integer with
  | negative natural =>
      obtain ⟨length, reads, covers⟩ := exists_natural? rest natural
      refine ⟨length + 1, ?_, Nat.succ_le_succ covers⟩
      rw [List.cons_append, integer?, reads]
      rfl
  | plain natural =>
      rw [integer?_natural natural]
      exact exists_natural? rest natural

theorem fraction_length_pos (given : Fraction text) : 0 < text.length := by
  cases given
  exact Nat.succ_pos _

theorem exponent_length_pos (given : Exponent text) : 0 < text.length := by
  cases given
  exact Nat.succ_pos _

theorem length_le_fraction (given : Fraction text) : text.length ≤ fraction (text ++ rest) := by
  cases given with
  | mk inside =>
      have covers := length_le_digits rest inside.digits
      have some := inside.length_ne_zero
      rw [List.cons_append, fraction, if_neg (by omega), List.length_cons]
      omega

theorem length_le_exponent (given : Exponent text) : text.length ≤ exponent (text ++ rest) := by
  cases given with
  | mk marked signed inside =>
      have covers := length_le_digits rest inside.digits
      have some := inside.length_ne_zero
      rw [List.cons_append, List.append_assoc, exponent_cons marked signed inside,
        if_neg (by omega), List.length_cons, List.length_append]
      omega

theorem read?_of_integer? {cs : List Char} {whole : Nat} (reads : integer? cs = some whole) :
    read? cs = some (whole, whole + fraction (cs.drop whole) +
      exponent (cs.drop (whole + fraction (cs.drop whole)))) := by
  rw [read?, reads]
  rfl

/-- A number that starts with an integer takes more of the text or is that integer. -/
theorem read?_integer_or_longer (integer : Integer text) :
    ∃ whole length, read? (text ++ rest) = some (whole, length) ∧
      (text.length < length ∨ text.length = length ∧ length = whole) := by
  obtain ⟨whole, reads, covers⟩ := exists_integer? rest integer
  refine ⟨whole, _, read?_of_integer? reads, ?_⟩
  omega

/-- A number that starts with a decimal number takes more of the text or is that number. -/
theorem read?_decimal_or_longer (decimal : Decimal text) :
    ∃ whole length, read? (text ++ rest) = some (whole, length) ∧
      (text.length < length ∨ text.length = length ∧ length ≠ whole) := by
  -- The integer part ends where the next part starts, and so does a fraction before an exponent.
  cases decimal with
  | @fraction whole fractional integer given =>
      have stop : ∀ c ∈ (fractional ++ rest).head?, isDigit c = false := stop_fraction given
      have covers := length_le_fraction rest given
      have some := fraction_length_pos given
      rw [List.append_assoc]
      refine ⟨whole.length, _, read?_of_integer? (integer?_append integer stop), ?_⟩
      rw [List.drop_left, List.length_append]
      omega
  | @exponent whole exponential integer given =>
      have stop : ∀ c ∈ (exponential ++ rest).head?, isDigit c = false ∧ c ≠ '.' :=
        stop_exponent given
      have covers := length_le_exponent rest given
      have some := exponent_length_pos given
      have fractionless : fraction (exponential ++ rest) = 0 :=
        fraction_eq_zero fun c head => (stop c head).2
      rw [List.append_assoc]
      refine ⟨whole.length, _,
        read?_of_integer? (integer?_append integer fun c head => (stop c head).1), ?_⟩
      rw [List.drop_left, fractionless, Nat.add_zero, List.drop_left, List.length_append]
      omega
  | @both whole fractional exponential integer given scaled =>
      have stop : ∀ c ∈ (fractional ++ (exponential ++ rest)).head?, isDigit c = false :=
        stop_fraction given
      have fractions : fraction (fractional ++ (exponential ++ rest)) = fractional.length :=
        fraction_append given fun c head => (stop_exponent scaled c head).1
      have covers := length_le_exponent rest scaled
      have some := fraction_length_pos given
      rw [List.append_assoc, List.append_assoc]
      refine ⟨whole.length, _, read?_of_integer? (integer?_append integer stop), ?_⟩
      rw [List.drop_left, fractions, ← List.length_append, ← List.append_assoc, List.drop_left,
        List.length_append, List.length_append]
      omega

end Number

/-! ## Tokens -/

namespace Lexer

variable {text : List Char} (rest : List Char)

/-- What is cut off takes more than the characters after the first, or it is the token that they
are written for. -/
def Outruns (cut : Token × Nat) (token : Token) (count : Nat) : Prop :=
  count < cut.2 ∨ cut = (token, count)

theorem numberToken_outruns {c : Char} {cs : List Char} {whole length : Nat} {token : Token}
    (reads : Number.read? (c :: cs ++ rest) = some (whole, length))
    (covers : (c :: cs).length < length ∨ (c :: cs).length = length ∧
      token = if length = whole then .integer (String.ofList (c :: cs))
        else .float (String.ofList (c :: cs))) :
    Outruns (numberToken c (cs ++ rest)) token cs.length := by
  rcases covers with shorter | ⟨rfl, rfl⟩
  · rw [List.cons_append] at reads
    rw [List.length_cons] at shorter
    rw [Outruns, numberToken, reads]
    exact .inl (by dsimp only; omega)
  · exact .inr (numberToken_append reads)

theorem length_le_nameRest (inside : ∀ c ∈ text, StartsName c ∨ IsDigit c) :
    text.length ≤ nameRest (text ++ rest) :=
  length_le_takeWhile_append rest fun c member => isNameRest_iff.mpr (inside c member)

theorem signedName_outruns (name : Name text) (token : String → Token) :
    Outruns (signedName token (text ++ rest)) (token (String.ofList text)) text.length := by
  cases name with
  | @mk c cs start inside =>
      have length : nameLength (c :: (cs ++ rest)) = nameRest (cs ++ rest) + 1 := by
        rw [nameLength, if_pos (isNameStart_iff.mpr start)]
      rw [Outruns, List.cons_append, signedName, length]
      rcases Nat.lt_or_eq_of_le (length_le_nameRest rest inside) with longer | same
      · exact .inl (Nat.succ_lt_succ longer)
      · rw [← same]
        show _ ∨ (token (String.ofList ((c :: (cs ++ rest)).take (cs.length + 1))), _) = _
        rw [List.take_succ_cons, List.take_left]
        exact .inr rfl

theorem two_le_of_quotes (cs : List Char) : 2 ≤ (stringToken ('"' :: '"' :: cs)).2 := by
  rw [stringToken]
  split
  · exact Nat.le_add_left 2 _
  · exact Nat.le_refl 2

theorem stringToken_outruns {value : List Char} (content : Content value text) :
    Outruns (stringToken (text ++ '"' :: rest)) (.string (String.ofList value))
      (text.length + 1) := by
  by_cases block : ['"', '"'] <+: text ++ '"' :: rest
  · -- Only the empty string is written so that a block string may start there.
    cases content with
    | nil =>
        obtain ⟨tail, same⟩ := block
        rw [← same]
        exact .inl (two_le_of_quotes tail)
    | cons first _ =>
        obtain ⟨d, ds, rfl, quoteless⟩ := Quoted.exists_cons_of_spells first
        obtain ⟨tail, same⟩ := block
        exact absurd (List.cons.inj same).1.symm quoteless
  · rw [stringToken_quoted block, Quoted.read?_content content]
    exact .inr rfl

/-- A token that is written at the start of a text is cut off, or more of the text is. -/
theorem exists_tokenAt_outruns {token : Token} (written : Writes token text) :
    ∃ c cs, text = c :: cs ∧ Outruns (tokenAt c (cs ++ rest)) token cs.length := by
  cases written with
  | ellipsis => exact ⟨'.', ['.', '.'], rfl, .inr rfl⟩
  | punctuator listed =>
      exact ⟨_, [], rfl, .inr (tokenAt_punctuator listed rest).2⟩
  | name name =>
      obtain ⟨start, inside⟩ := name
      refine ⟨_, _, rfl, ?_⟩
      rw [Outruns, tokenAt, if_pos (isNameStart_iff.mpr start)]
      rcases Nat.lt_or_eq_of_le (length_le_nameRest rest inside) with longer | same
      · exact .inl longer
      · rw [← same, List.take_left]
        exact .inr rfl
  | variableName name => exact ⟨'$', _, rfl, signedName_outruns rest name .variableName⟩
  | directiveName name => exact ⟨'@', _, rfl, signedName_outruns rest name .directiveName⟩
  | integer integer =>
      obtain ⟨whole, length, reads, covers⟩ := Number.read?_integer_or_longer rest integer
      obtain ⟨c, cs, rfl, first⟩ := exists_cons_of_integer integer
      refine ⟨c, cs, rfl, ?_⟩
      rw [tokenAt_number first]
      refine numberToken_outruns rest reads (covers.imp_right (And.imp_right fun equal => ?_))
      rw [if_pos equal]
  | float decimal =>
      obtain ⟨whole, length, reads, covers⟩ := Number.read?_decimal_or_longer rest decimal
      obtain ⟨c, cs, rfl, first⟩ := exists_cons_of_decimal decimal
      refine ⟨c, cs, rfl, ?_⟩
      rw [tokenAt_number first]
      refine numberToken_outruns rest reads (covers.imp_right (And.imp_right fun longer => ?_))
      rw [if_neg longer]
  | @string value text content =>
      refine ⟨'"', text ++ ['"'], rfl, ?_⟩
      have cut := stringToken_outruns rest content
      rw [List.append_assoc, List.length_append]
      exact cut

/-- The token that is cut off a text stands there, and no longer one is written there. -/
theorem exists_cut (c : Char) (cs : List Char) :
    ∃ text rest, cs = text ++ rest ∧ text.length = (tokenAt c cs).2 ∧
      Stands rest (tokenAt c cs).1 (c :: text) ∧ (tokenAt c cs).1.Longest (c :: text) rest := by
  obtain ⟨text, rest, rfl, size, stands⟩ := cuts_tokenAt c cs
  refine ⟨text, rest, rfl, size, stands, ?_⟩
  rintro other written spelled ⟨tail, whole⟩
  obtain ⟨d, ds, rfl, outruns⟩ := exists_tokenAt_outruns tail spelled
  rw [List.cons_append, List.cons_append, List.cons.injEq] at whole
  obtain ⟨rfl, same⟩ := whole
  rw [same] at outruns
  rcases outruns with longer | equal
  · exact .inl (Nat.succ_lt_succ (size ▸ longer))
  · rw [equal] at size ⊢
    have whole : ds = text := List.append_inj_left same size.symm
    exact .inr ⟨rfl, by rw [whole]⟩

end Lexer

end QueryCheck
