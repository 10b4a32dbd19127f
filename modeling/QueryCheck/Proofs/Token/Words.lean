import QueryCheck.Proofs.Token.Spelling
import QueryCheck.Token.Lexer

/-!
# Reading one word

What each reader of the lexer takes from the start of a text: a number, a name or a string that
is written there, if what comes after it can not be taken for a part of it.
-/

namespace QueryCheck

open Spelling

/-- A run of characters of a kind is taken whole if no other follows. -/
theorem takeWhile_append_of_stop {p : Char → Bool} {text rest : List Char}
    (inside : ∀ c ∈ text, p c = true) (stop : ∀ c ∈ rest.head?, p c = false) :
    (text ++ rest).takeWhile p = text := by
  rw [List.takeWhile_append_of_pos inside]
  cases rest with
  | nil => simp
  | cons c rest =>
      rw [List.takeWhile_cons_of_neg, List.append_nil]
      simp [stop c rfl]

/-- A text ends or goes on with text between tokens, so that a token before it ends there. -/
def Spelling.Ends (rest : List Char) : Prop :=
  ∀ c ∈ rest.head?, c ∈ '#' :: blanks

theorem Spelling.Ends.stop {rest : List Char} (ends : Ends rest) {p : Char → Bool}
    (refused : ('#' :: blanks).any p = false) : ∀ c ∈ rest.head?, p c = false :=
  fun c head => Bool.eq_false_iff.mpr (List.any_eq_false.mp refused c (ends c head))

/-! ## Numbers -/

theorem Spelling.Digits.length_ne_zero {text : List Char} (digits : Digits text) :
    text.length ≠ 0 :=
  fun none => digits.nonempty (List.eq_nil_of_length_eq_zero none)

namespace Number

variable {text rest : List Char}

theorem isDigit_iff {c : Char} : isDigit c = true ↔ IsDigit c := by
  simp [isDigit, IsDigit]

theorem isDigit_of_nonzero {c : Char} (nonzero : '1' ≤ c ∧ c ≤ '9') : isDigit c = true :=
  isDigit_iff.mpr ⟨Char.le_trans (by decide) nonzero.1, nonzero.2⟩

theorem digits_append (inside : ∀ c ∈ text, IsDigit c)
    (stop : ∀ c ∈ rest.head?, isDigit c = false) : digits (text ++ rest) = text.length := by
  rw [digits, takeWhile_append_of_stop (fun c member => isDigit_iff.mpr (inside c member)) stop]

theorem natural?_positive {c : Char} (first : '1' ≤ c ∧ c ≤ '9') (cs : List Char) :
    natural? (c :: cs) = some (digits cs + 1) := by
  have nonzero : c ≠ '0' := by
    rintro rfl
    exact absurd first.1 (by decide)
  rw [natural?, if_neg nonzero, if_pos (isDigit_of_nonzero first)]

theorem natural?_append (natural : Natural text) (stop : ∀ c ∈ rest.head?, isDigit c = false) :
    natural? (text ++ rest) = some text.length := by
  cases natural with
  | zero => rfl
  | @positive c cs first inside =>
      rw [List.cons_append, natural?_positive first, digits_append inside stop, List.length_cons]

/-- No natural number starts with a sign. -/
theorem integer?_natural (natural : Natural text) (rest : List Char) :
    integer? (text ++ rest) = natural? (text ++ rest) := by
  cases natural with
  | zero => rfl
  | @positive c cs first inside =>
      have sign : c ≠ '-' := by
        rintro rfl
        exact absurd first.1 (by decide)
      rw [List.cons_append, integer?]
      exact fun _ same => sign (List.cons.inj same).1

theorem integer?_append (integer : Integer text) (stop : ∀ c ∈ rest.head?, isDigit c = false) :
    integer? (text ++ rest) = some text.length := by
  cases integer with
  | negative natural =>
      rw [List.cons_append, integer?, natural?_append natural stop]
      rfl
  | plain natural => rw [integer?_natural natural, natural?_append natural stop]

theorem fraction_append (given : Fraction text) (stop : ∀ c ∈ rest.head?, isDigit c = false) :
    fraction (text ++ rest) = text.length := by
  cases given with
  | @mk text digits =>
      rw [List.cons_append, fraction, digits_append digits.digits stop,
        if_neg digits.length_ne_zero, List.length_cons]

theorem fraction_eq_zero (other : ∀ c ∈ rest.head?, c ≠ '.') : fraction rest = 0 := by
  rw [fraction.eq_def]
  split
  next => exact absurd rfl (other '.' rfl)
  next => rfl

theorem sign_append {mark : List Char} (signed : mark = [] ∨ mark = ['+'] ∨ mark = ['-'])
    (digits : Digits text) : sign (mark ++ (text ++ rest)) = mark.length := by
  rcases signed with rfl | rfl | rfl
  · -- Without a sign, the digits come first, and none of them is a sign.
    obtain ⟨c, cs, rfl⟩ := List.exists_cons_of_ne_nil digits.nonempty
    have digit := digits.digits c List.mem_cons_self
    rw [List.nil_append, List.cons_append, sign.eq_def]
    split
    next same =>
      cases same
      exact absurd digit.1 (by decide)
    next same =>
      cases same
      exact absurd digit.1 (by decide)
    next => rfl
  · rfl
  · rfl

theorem exponent_cons {mark : Char} {signs : List Char} (marked : mark = 'e' ∨ mark = 'E')
    (signed : signs = [] ∨ signs = ['+'] ∨ signs = ['-']) (inside : Digits text) :
    exponent (mark :: (signs ++ (text ++ rest))) =
      if digits (text ++ rest) = 0 then 0 else 1 + signs.length + digits (text ++ rest) := by
  rcases marked with rfl | rfl <;>
    simp only [exponent, sign_append signed inside, List.drop_left]

theorem exponent_append (given : Exponent text) (stop : ∀ c ∈ rest.head?, isDigit c = false) :
    exponent (text ++ rest) = text.length := by
  cases given with
  | @mk mark signs text marked signed inside =>
      rw [List.cons_append, List.append_assoc, exponent_cons marked signed inside,
        digits_append inside.digits stop, if_neg inside.length_ne_zero, List.length_cons,
        List.length_append]
      omega

theorem exponent_eq_zero (other : ∀ c ∈ rest.head?, c ≠ 'e' ∧ c ≠ 'E') : exponent rest = 0 := by
  rw [exponent.eq_def]
  split
  next => exact absurd rfl (other 'e' rfl).1
  next => exact absurd rfl (other 'E' rfl).2
  next => rfl

/-- A number is read whole if each of its parts is. -/
theorem read?_append (whole fractional exponential : List Char)
    (integer : integer? (whole ++ (fractional ++ (exponential ++ rest))) = some whole.length)
    (fractions : fraction (fractional ++ (exponential ++ rest)) = fractional.length)
    (exponents : exponent (exponential ++ rest) = exponential.length) :
    read? (whole ++ fractional ++ exponential ++ rest) =
      some (whole.length, (whole ++ fractional ++ exponential).length) := by
  have drops : (whole ++ (fractional ++ (exponential ++ rest))).drop
      (whole.length + fractional.length) = exponential ++ rest := by
    rw [← List.append_assoc, ← List.length_append, List.drop_left]
  simp only [List.append_assoc, read?, integer, Option.bind_eq_bind, Option.bind_some,
    List.drop_left, fractions, drops, exponents, List.length_append]
  rw [Nat.add_assoc]
  rfl

/-- Nothing of a fraction or an exponent can be taken for digits of what is before it. -/
theorem stop_fraction (given : Fraction text) : ∀ c ∈ (text ++ rest).head?, isDigit c = false := by
  cases given
  rintro c ⟨⟩
  decide

theorem stop_exponent (given : Exponent text) :
    ∀ c ∈ (text ++ rest).head?, isDigit c = false ∧ c ≠ '.' := by
  obtain ⟨marked, _, _⟩ := given
  rintro c ⟨⟩
  rcases marked with rfl | rfl <;> decide

section Ends

variable (ends : Ends rest)
include ends

theorem stop_ends : ∀ c ∈ rest.head?, isDigit c = false :=
  ends.stop (by decide)

theorem fraction_ends : fraction rest = 0 := by
  refine fraction_eq_zero fun c head => ?_
  rintro rfl
  exact absurd (ends _ head) (by decide)

theorem exponent_ends : exponent rest = 0 := by
  refine exponent_eq_zero fun c head => ?_
  constructor <;> rintro rfl <;> exact absurd (ends _ head) (by decide)

theorem read?_integer (integer : Integer text) :
    read? (text ++ rest) = some (text.length, text.length) := by
  simpa using read?_append text [] [] (integer?_append integer (stop_ends ends))
    (fraction_ends ends) (exponent_ends ends)

/-- A number with a fraction or an exponent is longer than its integer part. -/
theorem read?_decimal (decimal : Decimal text) :
    ∃ whole, whole ≠ text.length ∧ read? (text ++ rest) = some (whole, text.length) := by
  cases decimal with
  | @fraction whole fractional integer given =>
      refine ⟨whole.length, ?_, ?_⟩
      · cases given
        simp
      · simpa using read?_append whole fractional [] (integer?_append integer (stop_fraction given))
          (fraction_append given (stop_ends ends)) (exponent_ends ends)
  | @exponent whole exponential integer given =>
      have stop : ∀ c ∈ (exponential ++ rest).head?, isDigit c = false ∧ c ≠ '.' :=
        stop_exponent given
      refine ⟨whole.length, ?_, ?_⟩
      · cases given
        simp
      · simpa using read?_append whole [] exponential
          (integer?_append integer fun c head => (stop c head).1)
          (fraction_eq_zero fun c head => (stop c head).2)
          (exponent_append given (stop_ends ends))
  | @both whole fractional exponential integer given scaled =>
      refine ⟨whole.length, ?_, ?_⟩
      · cases given
        simp
      · exact read?_append whole fractional exponential
          (integer?_append integer (stop_fraction given))
          (fraction_append given fun c head => (stop_exponent scaled c head).1)
          (exponent_append scaled (stop_ends ends))

end Ends

end Number

/-! ## Strings -/

namespace Quoted

theorem shortEscape?_eq {letter c : Char} (listed : (letter, c) ∈ shortEscapes) :
    shortEscape? letter = some c := by
  have all : ∀ entry ∈ shortEscapes, shortEscape? entry.1 = some entry.2 := by decide
  exact all _ listed

theorem hexDigit?_eq {c : Char} {value : Nat} (listed : (c, value) ∈ hexDigits) :
    hexDigit? c = some value := by
  have all : ∀ entry ∈ hexDigits, hexDigit? entry.1 = some entry.2 := by decide
  exact all _ listed

theorem leadingDigit?_eq {c : Char} {value : Nat} (listed : (c, value) ∈ ('+', 0) :: hexDigits) :
    leadingDigit? c = some value := by
  have all : ∀ entry ∈ ('+', 0) :: hexDigits, leadingDigit? entry.1 = some entry.2 := by decide
  exact all _ listed

theorem hexNumber?_eq {first second third fourth : Char} {x y z w : Nat}
    (leading : (first, x) ∈ ('+', 0) :: hexDigits) (next : (second, y) ∈ hexDigits)
    (afterNext : (third, z) ∈ hexDigits) (last : (fourth, w) ∈ hexDigits) :
    hexNumber? first second third fourth = some (x * 4096 + y * 256 + z * 16 + w) := by
  rw [hexNumber?, leadingDigit?_eq leading, hexDigit?_eq next, hexDigit?_eq afterNext,
    hexDigit?_eq last]
  refine congrArg some ?_
  omega

theorem charOf?_toNat (c : Char) : charOf? c.toNat = some c := by
  have valid : c.toNat.isValidChar := c.valid
  rw [charOf?, dif_pos valid]
  rfl

/-- No spelling starts with a quote. -/
theorem exists_cons_of_spells {c : Char} {spelling : List Char}
    (spells : Spells c spelling) : ∃ d ds, spelling = d :: ds ∧ d ≠ '"' := by
  cases spells with
  | raw allowed => exact ⟨c, [], rfl, fun same => allowed (same ▸ List.mem_cons_self)⟩
  | short | code => exact ⟨_, _, rfl, by decide⟩

section Steps

variable {c : Char} {rest : List Char}

theorem read?_raw (raw : isRaw c = true) :
    read? (c :: rest) = (read? rest).map fun (value, count) => (c :: value, count + 1) := by
  have apart : c ≠ '"' ∧ c ≠ '\\' := by
    constructor <;> rintro rfl <;> exact absurd raw (by decide)
  rw [read?.eq_def]
  split
  next same => cases same
  next same => exact absurd (List.cons.inj same).1 apart.1
  next same => exact absurd (List.cons.inj same).1 apart.2
  next same => exact absurd (List.cons.inj same).1 apart.2
  next same =>
    cases same
    rw [if_pos raw]
    cases read? rest <;> rfl

theorem read?_short {letter : Char} (given : shortEscape? letter = some c) :
    read? ('\\' :: letter :: rest) =
      (read? rest).map fun (value, count) => (c :: value, count + 2) := by
  have apart : letter ≠ 'u' := by
    rintro rfl
    cases given
  rw [read?]
  · rw [given]
    cases read? rest <;> rfl
  · intro _ _ _ _ _ same
    exact absurd same apart

theorem read?_code {first second third fourth : Char}
    (given : codePoint? first second third fourth = some c) :
    read? ('\\' :: 'u' :: first :: second :: third :: fourth :: rest) =
      (read? rest).map fun (value, count) => (c :: value, count + 6) := by
  rw [read?, given]
  cases read? rest <;> rfl

/-- A spelled character is read back. -/
theorem read?_spells {spelling : List Char} (spells : Spells c spelling) :
    read? (spelling ++ rest) =
      (read? rest).map fun (value, count) => (c :: value, count + spelling.length) := by
  cases spells with
  | raw allowed =>
      have isRaw : isRaw c = true := by simpa [isRaw, and_assoc] using allowed
      exact read?_raw isRaw
  | short listed => exact read?_short (shortEscape?_eq listed)
  | @code first second third fourth x y z w leading next afterNext last value =>
      refine read?_code ?_
      rw [codePoint?, hexNumber?_eq leading next afterNext last, ← value]
      exact charOf?_toNat c

end Steps

theorem read?_content {value text : List Char} (content : Content value text) (rest : List Char) :
    read? (text ++ '"' :: rest) = some (value, text.length + 1) := by
  induction content with
  | nil => rfl
  | cons first _ ih =>
      rw [List.append_assoc, read?_spells first, ih, Option.map_some, List.length_append]
      simp only [Option.some.injEq, Prod.mk.injEq, true_and]
      omega

end Quoted

namespace Lexer

/-! ## Names -/

variable {text rest : List Char}

theorem isNameStart_iff {c : Char} : isNameStart c = true ↔ StartsName c := by
  simp [isNameStart, StartsName, or_assoc]

theorem isNameRest_iff {c : Char} : isNameRest c = true ↔ StartsName c ∨ IsDigit c := by
  rw [isNameRest, Bool.or_eq_true, isNameStart_iff, Number.isDigit_iff]

theorem nameRest_append (inside : ∀ c ∈ text, StartsName c ∨ IsDigit c)
    (stop : ∀ c ∈ rest.head?, isNameRest c = false) : nameRest (text ++ rest) = text.length := by
  rw [nameRest,
    takeWhile_append_of_stop (fun c member => isNameRest_iff.mpr (inside c member)) stop]

theorem signedName_append (name : Name text) (ends : Ends rest) (token : String → Token) :
    signedName token (text ++ rest) = (token (String.ofList text), text.length) := by
  cases name with
  | @mk c cs start inside =>
      have length : nameLength (c :: cs ++ rest) = (c :: cs).length := by
        rw [List.cons_append, nameLength, if_pos (isNameStart_iff.mpr start),
          nameRest_append inside (ends.stop (by decide)), List.length_cons]
      rw [signedName, length]
      show (token (String.ofList ((c :: cs ++ rest).take (c :: cs).length)), _) = _
      rw [List.take_left]

/-! ## Tokens -/

theorem numberToken_append {c : Char} {cs : List Char} {whole : Nat}
    (reads : Number.read? (c :: cs ++ rest) = some (whole, (c :: cs).length)) :
    numberToken c (cs ++ rest) =
      (if (c :: cs).length = whole then .integer (String.ofList (c :: cs))
        else .float (String.ofList (c :: cs)), cs.length) := by
  have taken : (c :: (cs ++ rest)).take (c :: cs).length = c :: cs := List.take_left
  rw [List.cons_append] at reads
  rw [numberToken, reads]
  simp only [taken]
  rfl

theorem stringToken_content {value : List Char} (content : Content value text) (ends : Ends rest) :
    stringToken (text ++ '"' :: rest) = (.string (String.ofList value), text.length + 1) := by
  have reads := Quoted.read?_content content rest
  cases content with
  | nil =>
      -- The empty string is two quotes. A third would start a block string, but none follows.
      rw [List.nil_append, stringToken]
      · rfl
      · rintro cs rfl
        exact absurd (ends '"' rfl) (by decide)
  | @cons c cs spelling text first _ =>
      obtain ⟨d, ds, rfl, quoteless⟩ := Quoted.exists_cons_of_spells first
      rw [List.cons_append, List.cons_append] at reads
      rw [List.cons_append, List.cons_append, stringToken, reads]
      · exact fun cs same => quoteless (List.cons.inj same).1
      · exact fun cs same => quoteless (List.cons.inj same).1

/-- A text that starts with a quote has the string after it as its first piece. -/
theorem pieces_quote (text : List Char) :
    pieces ('"' :: text) =
      ⟨some (stringToken text).1, '"' :: text.take (stringToken text).2⟩ ::
        pieces (text.drop (stringToken text).2) := by
  rw [pieces]
  rfl

theorem tokenAt_name {c : Char} {cs : List Char} (start : StartsName c)
    (inside : ∀ d ∈ cs, StartsName d ∨ IsDigit d)
    (stop : ∀ d ∈ rest.head?, isNameRest d = false) :
    tokenAt c (cs ++ rest) = (.name (String.ofList (c :: cs)), cs.length) := by
  rw [tokenAt, if_pos (isNameStart_iff.mpr start), nameRest_append inside stop, List.take_left]

theorem not_startsName_of_isDigit {c : Char} (digit : IsDigit c) : ¬StartsName c := by
  rintro (rfl | ⟨low, _⟩ | ⟨low, _⟩)
  · exact absurd digit.2 (by decide)
  · exact absurd (Char.le_trans low digit.2) (by decide)
  · exact absurd (Char.le_trans low digit.2) (by decide)

theorem tokenAt_number {c : Char} (first : (Number.isDigit c || c == '-') = true) (cs : List Char) :
    tokenAt c cs = numberToken c cs := by
  have unnamed : ¬isNameStart c = true := by
    rcases Bool.or_eq_true _ _ ▸ first with digit | minus
    · rw [isNameStart_iff]
      exact not_startsName_of_isDigit (Number.isDigit_iff.mp digit)
    · rw [eq_of_beq minus]
      decide
  rw [tokenAt, if_neg unnamed, if_pos first]

/-- A number starts with a digit or with a minus sign. -/
theorem exists_cons_of_integer (integer : Integer text) :
    ∃ c cs, text = c :: cs ∧ (Number.isDigit c || c == '-') = true := by
  have natural {text : List Char} (natural : Natural text) :
      ∃ c cs, text = c :: cs ∧ Number.isDigit c = true := by
    cases natural with
    | zero => exact ⟨'0', [], rfl, rfl⟩
    | positive first _ => exact ⟨_, _, rfl, Number.isDigit_of_nonzero first⟩
  cases integer with
  | plain given =>
      obtain ⟨c, cs, rfl, digit⟩ := natural given
      exact ⟨c, cs, rfl, by rw [digit, Bool.true_or]⟩
  | negative => exact ⟨'-', _, rfl, rfl⟩

theorem exists_cons_of_decimal (decimal : Decimal text) :
    ∃ c cs, text = c :: cs ∧ (Number.isDigit c || c == '-') = true := by
  cases decimal with
  | fraction integer | exponent integer | both integer =>
      obtain ⟨c, cs, rfl, first⟩ := exists_cons_of_integer integer
      exact ⟨c, _, rfl, first⟩

theorem tokenAt_punctuator {c : Char} {token : Token} (listed : (c, token) ∈ punctuators)
    (cs : List Char) : c ∉ '#' :: blanks ∧ tokenAt c cs = (token, 0) := by
  simp only [punctuators, List.mem_cons, List.not_mem_nil, or_false, Prod.mk.injEq] at listed
  rcases listed with ⟨rfl, rfl⟩ | ⟨rfl, rfl⟩ | ⟨rfl, rfl⟩ | ⟨rfl, rfl⟩ | ⟨rfl, rfl⟩ |
    ⟨rfl, rfl⟩ | ⟨rfl, rfl⟩ | ⟨rfl, rfl⟩ | ⟨rfl, rfl⟩ | ⟨rfl, rfl⟩ | ⟨rfl, rfl⟩ <;>
    exact ⟨by decide, rfl⟩

/-- A token that is written at the start of a text is taken from it. -/
theorem exists_tokenAt {token : Token} (written : Writes token text) (ends : Ends rest) :
    ∃ c cs, text = c :: cs ∧ c ∉ '#' :: blanks ∧ tokenAt c (cs ++ rest) = (token, cs.length) := by
  have apart {p : Char → Bool} (refused : ('#' :: blanks).any p = false) {c : Char}
      (holds : p c = true) : c ∉ '#' :: blanks :=
    fun listed => List.any_eq_false.mp refused c listed holds
  have numeric : ('#' :: blanks).any (fun c => Number.isDigit c || c == '-') = false := by decide
  cases written with
  | ellipsis => exact ⟨'.', ['.', '.'], rfl, by decide, rfl⟩
  | punctuator listed =>
      exact ⟨_, [], rfl, tokenAt_punctuator listed rest⟩
  | name name =>
      obtain ⟨start, inside⟩ := name
      exact ⟨_, _, rfl, apart (by decide) (isNameStart_iff.mpr start),
        tokenAt_name start inside (ends.stop (by decide))⟩
  | variableName name =>
      exact ⟨'$', _, rfl, by decide, signedName_append name ends .variableName⟩
  | directiveName name =>
      exact ⟨'@', _, rfl, by decide, signedName_append name ends .directiveName⟩
  | integer integer =>
      obtain ⟨c, cs, rfl, first⟩ := exists_cons_of_integer integer
      refine ⟨c, cs, rfl, apart numeric first, ?_⟩
      rw [tokenAt_number first, numberToken_append (Number.read?_integer ends integer), if_pos rfl]
  | float decimal =>
      obtain ⟨c, cs, rfl, first⟩ := exists_cons_of_decimal decimal
      refine ⟨c, cs, rfl, apart numeric first, ?_⟩
      obtain ⟨whole, shorter, reads⟩ := Number.read?_decimal ends decimal
      rw [tokenAt_number first, numberToken_append reads, if_neg shorter.symm]
  | @string value text content =>
      refine ⟨'"', text ++ ['"'], rfl, by decide, ?_⟩
      have taken := stringToken_content content ends
      rw [List.append_assoc, List.length_append]
      exact taken

end Lexer

end QueryCheck
