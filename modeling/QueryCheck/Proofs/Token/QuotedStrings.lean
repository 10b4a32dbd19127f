import QueryCheck.Proofs.Token.Words

/-!
# Reading quoted strings

A quoted string is read exactly if a spelling of some text and a closing quote follow its opening
quote, and what is spelled is its value. Otherwise nothing is read, and the text goes on right
after the opening quote.
-/

namespace QueryCheck

open Spelling

/-! ## Spelled characters -/

namespace Quoted

theorem mem_shortEscapes {letter c : Char} (given : shortEscape? letter = some c) :
    (letter, c) ∈ shortEscapes := by
  unfold shortEscape? at given
  split at given <;> cases given <;> decide

/-- The characters of a range are listed with their values if their codes are. -/
theorem mem_hexDigits_of_range {c : Char} (low size value : Nat)
    (listed : ∀ code ∈ List.range' low size, (Char.ofNat code, code - low + value) ∈ hexDigits)
    (above : low ≤ c.toNat) (below : c.toNat < low + size) :
    (c, c.toNat - low + value) ∈ hexDigits := by
  have inside := listed c.toNat (List.mem_range'_1.mpr ⟨above, below⟩)
  rwa [Char.ofNat_toNat] at inside

theorem mem_hexDigits {c : Char} {value : Nat} (given : hexDigit? c = some value) :
    (c, value) ∈ hexDigits := by
  simp only [hexDigit?, Char.le_def, UInt32.le_iff_toNat_le] at given
  split at given
  next range =>
    cases given
    exact mem_hexDigits_of_range 48 10 0 (by decide) range.1 (Nat.lt_succ_of_le range.2)
  next =>
    split at given
    next range =>
      cases given
      exact mem_hexDigits_of_range 97 6 10 (by decide) range.1 (Nat.lt_succ_of_le range.2)
    next =>
      split at given
      next range =>
        cases given
        exact mem_hexDigits_of_range 65 6 10 (by decide) range.1 (Nat.lt_succ_of_le range.2)
      next => cases given

theorem mem_leadingDigits {c : Char} {value : Nat} (given : leadingDigit? c = some value) :
    (c, value) ∈ ('+', 0) :: hexDigits := by
  unfold leadingDigit? at given
  split at given
  next same =>
    cases given
    rw [same]
    exact List.mem_cons_self
  next => exact List.mem_cons_of_mem _ (mem_hexDigits given)

/-- A number is made of digits that are listed. -/
theorem exists_hexDigits {first second third fourth : Char} {number : Nat}
    (given : hexNumber? first second third fourth = some number) :
    ∃ x y z w, (first, x) ∈ ('+', 0) :: hexDigits ∧ (second, y) ∈ hexDigits ∧
      (third, z) ∈ hexDigits ∧ (fourth, w) ∈ hexDigits ∧
        number = x * 4096 + y * 256 + z * 16 + w := by
  simp only [hexNumber?, Option.bind_eq_bind, Option.bind_eq_some_iff] at given
  obtain ⟨x, leading, y, next, z, afterNext, w, last, ⟨⟩⟩ := given
  refine ⟨x, y, z, w, mem_leadingDigits leading, mem_hexDigits next, mem_hexDigits afterNext,
    mem_hexDigits last, ?_⟩
  omega

theorem toNat_of_charOf? {code : Nat} {c : Char} (given : charOf? code = some c) :
    c.toNat = code := by
  rw [charOf?] at given
  by_cases valid : code.isValidChar
  · rw [dif_pos valid] at given
    cases given
    rfl
  · rw [dif_neg valid] at given
    cases given

theorem spells_code {first second third fourth c : Char}
    (given : codePoint? first second third fourth = some c) :
    Spells c ['\\', 'u', first, second, third, fourth] := by
  rw [codePoint?, Option.bind_eq_bind, Option.bind_eq_some_iff] at given
  obtain ⟨number, isNumber, isChar⟩ := given
  obtain ⟨x, y, z, w, leading, next, afterNext, last, value⟩ := exists_hexDigits isNumber
  exact .code leading next afterNext last ((toNat_of_charOf? isChar).trans value)

/-! ## Spelled texts -/

/-- What is read after an opening quote: the spelling of the value, and a closing quote. -/
def Spelled (text value : List Char) (count : Nat) : Prop :=
  ∃ content, content ++ ['"'] <+: text ∧ Content value content ∧ count = (content ++ ['"']).length

theorem Spelled.cons {c : Char} {spelling text value : List Char} {count : Nat}
    (spelled : Spelled text value count) (spells : Spells c spelling) :
    Spelled (spelling ++ text) (c :: value) (count + spelling.length) := by
  obtain ⟨content, starts, rest, rfl⟩ := spelled
  refine ⟨spelling ++ content, ?_, .cons spells rest, ?_⟩
  · rwa [List.append_assoc, List.prefix_append_right_inj]
  · simp only [List.length_append]
    omega

theorem spelled_of_read? {text value : List Char} {count : Nat}
    (reads : read? text = some (value, count)) : Spelled text value count := by
  induction text using read?.induct generalizing value count with
  | case1 => cases reads
  | case2 rest =>
      cases reads
      exact ⟨[], ⟨rest, rfl⟩, .nil, rfl⟩
  | case3 first second third fourth rest ih =>
      cases code : codePoint? first second third fourth with
      | none => simp [read?, code] at reads
      | some c =>
          rw [read?_code code, Option.map_eq_some_iff] at reads
          obtain ⟨⟨inner, size⟩, readsRest, same⟩ := reads
          cases same
          exact (ih readsRest).cons (spells_code code)
  | case4 letter rest apart ih =>
      cases short : shortEscape? letter with
      | none => simp [read?, short] at reads
      | some c =>
          rw [read?_short short, Option.map_eq_some_iff] at reads
          obtain ⟨⟨inner, size⟩, readsRest, same⟩ := reads
          cases same
          exact (ih readsRest).cons (.short (mem_shortEscapes short))
  | case5 c rest _ _ _ raw ih =>
      rw [read?_raw raw, Option.map_eq_some_iff] at reads
      obtain ⟨⟨inner, size⟩, readsRest, same⟩ := reads
      cases same
      have allowed : c ∉ ['"', '\\', '\n', '\r'] := by simpa [isRaw, and_assoc] using raw
      exact (ih readsRest).cons (.raw allowed)
  | case6 c rest quote code short raw => simp [read?, raw] at reads

theorem read?_eq_some_iff {text value : List Char} {count : Nat} :
    read? text = some (value, count) ↔ Spelled text value count := by
  refine ⟨spelled_of_read?, ?_⟩
  rintro ⟨content, ⟨rest, rfl⟩, spelled, rfl⟩
  simpa using read?_content spelled rest

/-- Without a backslash every character stands for itself. -/
theorem eq_of_content {value content : List Char} (spelled : Content value content)
    (plain : '\\' ∉ content) : value = content := by
  induction spelled with
  | nil => rfl
  | @cons c cs spelling text first rest ih =>
      simp only [List.mem_append, not_or] at plain
      cases first with
      | raw => rw [ih plain.2, List.singleton_append]
      | short => exact absurd List.mem_cons_self plain.1
      | code => exact absurd List.mem_cons_self plain.1

end Quoted

/-! ## Pieces -/

namespace Lexer

/-- After a quote that starts no block string comes a quoted string. -/
theorem stringToken_quoted {text : List Char} (single : ¬['"', '"'] <+: text) :
    stringToken text =
      match Quoted.read? text with
      | some (value, count) => (.string (String.ofList value), count)
      | none => (.invalid, 0) := by
  rw [stringToken.eq_def]
  split
  next rest => exact absurd ⟨rest, rfl⟩ single
  next => rfl
  next => rfl

theorem pieces_quoted {text value : List Char} {count : Nat} (single : ¬['"', '"'] <+: text)
    (reads : Quoted.read? text = some (value, count)) :
    pieces ('"' :: text) =
      ⟨some (.string (String.ofList value)), '"' :: text.take count⟩ ::
        pieces (text.drop count) := by
  rw [pieces_quote, stringToken_quoted single, reads]

theorem pieces_unread {text : List Char} (unread : Quoted.read? text = none) :
    pieces ('"' :: text) = ⟨some .invalid, ['"']⟩ :: pieces text := by
  have single : ¬['"', '"'] <+: text := by
    rintro ⟨rest, rfl⟩
    cases unread
  rw [pieces_quote, stringToken_quoted single, unread]
  rfl

end Lexer

/-- What is read after the opening quote of a string. -/
structure ReadsQuoted (text : List Char) : Prop where
  /-- A value is read off some bytes exactly if these are a spelling of it and a closing quote. -/
  reads : ∀ value size,
    (∃ count, Quoted.read? text = some (value, count) ∧ Text.byteSize (text.take count) = size) ↔
      ∃ content rest, text = content ++ '"' :: rest ∧ Content value content ∧
        size = Text.byteSize (content ++ ['"'])
  /-- If none of these bytes is a backslash, the value is the text up to the closing quote. -/
  plain : ∀ value count, Quoted.read? text = some (value, count) → '\\' ∉ text.take count →
    text.take count = value ++ ['"']
  /-- What is read is cut off, unless a block string is read instead of it. -/
  consumes : ∀ value count, Quoted.read? text = some (value, count) → ¬['"', '"'] <+: text →
    Lexer.pieces ('"' :: text) =
      ⟨some (.string (String.ofList value)), '"' :: text.take count⟩ ::
        Lexer.pieces (text.drop count)
  /-- If no spelling and closing quote are there, nothing is read, and the opening quote alone is
  cut off. -/
  fails : (¬∃ value content rest, text = content ++ '"' :: rest ∧ Content value content) →
    Quoted.read? text = none ∧
      Lexer.pieces ('"' :: text) = ⟨some .invalid, ['"']⟩ :: Lexer.pieces text

/-- Quoted strings are read off their spellings, and off nothing else. -/
theorem quoted_strings (text : List Char) : ReadsQuoted text := by
  refine ⟨?_, ?_, fun _ _ reads single => Lexer.pieces_quoted single reads, ?_⟩
  · intro value size
    simp only [Quoted.read?_eq_some_iff, Quoted.Spelled]
    constructor
    · rintro ⟨_, ⟨content, ⟨rest, rfl⟩, spelled, rfl⟩, rfl⟩
      refine ⟨content, rest, by simp, spelled, ?_⟩
      rw [List.take_left]
    · rintro ⟨content, rest, rfl, spelled, rfl⟩
      refine ⟨_, ⟨content, ⟨rest, by simp⟩, spelled, rfl⟩, ?_⟩
      rw [List.append_cons content '"' rest, List.take_left]
  · intro value count reads plain
    obtain ⟨content, ⟨rest, rfl⟩, spelled, rfl⟩ := Quoted.read?_eq_some_iff.mp reads
    rw [List.take_left] at plain ⊢
    rw [Quoted.eq_of_content spelled fun inside => plain (List.mem_append_left _ inside)]
  · intro unspelled
    have unread : Quoted.read? text = none := by
      refine Option.eq_none_iff_forall_ne_some.mpr ?_
      rintro ⟨value, count⟩ reads
      obtain ⟨content, ⟨rest, same⟩, spelled, _⟩ := Quoted.read?_eq_some_iff.mp reads
      exact unspelled ⟨value, content, rest, by simp [← same], spelled⟩
    exact ⟨unread, Lexer.pieces_unread unread⟩

end QueryCheck
