import QueryCheck.Proofs.Token.BlockEnd
import QueryCheck.Proofs.Token.Words

/-!
# Reading block strings

A block string is read up to its closing quotes and no further, and gives the value that its
text stands for. In the other direction, every text that stands on lines of its own can be put
between the quotes of a block string and is read back from it.
-/

namespace QueryCheck

open Spelling

/-! ## The value of a text -/

namespace Text

theorem foldr_consFirst (line first : List Char) (rest : List (List Char)) :
    line.foldr consFirst (first :: rest) = (line ++ first) :: rest := by
  induction line with
  | nil => rfl
  | cons c line ih => rw [List.foldr_cons, ih, consFirst, List.cons_append]

/-- The characters of a line are put in front of the next line. -/
theorem blockLines_append {line : List Char} (whole : ∀ c ∈ line, c ≠ '\n' ∧ c ≠ '\r')
    (rest : List Char) : blockLines (line ++ rest) = line.foldr consFirst (blockLines rest) := by
  induction line with
  | nil => rfl
  | cons c line ih =>
      obtain ⟨here, later⟩ := List.forall_mem_cons.mp whole
      rw [List.cons_append, blockLines, if_neg (not_or.mpr here), ih later, List.foldr_cons]
      exact fun _ same => absurd same here.2

theorem blockLines_lineEnd {ending rest : List Char} (ended : LineEnd ending rest) :
    blockLines (ending ++ rest) = [] :: blockLines rest := by
  cases ended with
  | feed =>
      rw [List.singleton_append, blockLines, if_pos (.inl rfl)]
      exact fun _ differs => absurd differs (by decide)
  | both => rw [List.cons_append, List.singleton_append, blockLines]
  | carriageReturn alone =>
      rw [List.singleton_append, blockLines, if_pos (.inr rfl)]
      rintro cs _ rfl
      exact alone rfl

theorem blockLines_eq {text : List Char} {lines : List (List Char)} (given : Lines text lines) :
    blockLines text = lines := by
  induction given with
  | @last line whole =>
      have alone := blockLines_append whole []
      rw [List.append_nil] at alone
      rw [alone, blockLines, foldr_consFirst, List.append_nil]
  | cons whole ended _ ih =>
      rw [List.append_assoc, blockLines_append whole, blockLines_lineEnd ended, foldr_consFirst,
        List.append_nil, ih]

end Text

namespace Spelling

theorem Lines.ne_nil {text : List Char} {lines : List (List Char)} (given : Lines text lines) :
    lines ≠ [] := by
  cases given <;> exact List.cons_ne_nil _ _

theorem Lines.consFirst {c : Char} {text : List Char} {lines : List (List Char)}
    (given : Lines text lines) (inside : c ≠ '\n' ∧ c ≠ '\r') :
    Lines (c :: text) (Text.consFirst c lines) := by
  cases given with
  | last whole => exact .last (List.forall_mem_cons.mpr ⟨inside, whole⟩)
  | @cons line ending rest lines whole ended after =>
      exact @Lines.cons (c :: line) ending rest lines
        (List.forall_mem_cons.mpr ⟨inside, whole⟩) ended after

/-- A text may start with the end of a line. -/
theorem Lines.ended {ending rest : List Char} {lines : List (List Char)} (given : Lines rest lines)
    (ended : LineEnd ending rest) : Lines (ending ++ rest) ([] :: lines) :=
  @Lines.cons [] ending rest lines (List.forall_mem_nil _) ended given

theorem lines_blockLines (text : List Char) : Lines text (Text.blockLines text) := by
  induction text using Text.blockLines.induct with
  | case1 => exact .last (List.forall_mem_nil _)
  | case2 rest ih =>
      rw [Text.blockLines]
      exact ih.ended (.both rest)
  | case3 c rest alone ends ih =>
      rw [Text.blockLines, if_pos ends]
      · rcases ends with rfl | rfl
        · exact ih.ended (.feed rest)
        · refine ih.ended (.carriageReturn ?_)
          intro follows
          obtain ⟨after, rfl⟩ := List.head?_eq_some_iff.mp follows
          exact alone after rfl rfl
      · exact alone
  | case4 c rest alone inside ih =>
      rw [Text.blockLines, if_neg inside]
      · exact ih.consFirst (not_or.mp inside)
      · exact alone

end Spelling

namespace Block

theorem isIndent_iff {c : Char} : isIndent c = true ↔ Indents c := by
  simp [isIndent, Indents]

theorem isBlank_iff {line : List Char} : isBlank line = true ↔ Blank line := by
  simp only [isBlank, List.all_eq_true, isIndent_iff, Blank]

theorem indentOf_eq {line : List Char} {count : Nat} (indented : Indented count line) :
    indentOf line = count := by
  obtain ⟨blank, stop⟩ := indented
  rw [indentOf, takeWhile_append_of_stop (fun c member => isIndent_iff.mpr (blank c member))]
  intro c head
  exact Bool.eq_false_iff.mpr (mt isIndent_iff.mp (stop c head))

/-- What is left of a list after it was dropped from starts with an item that is kept. -/
theorem not_of_head?_dropWhile {α : Type} {p : α → Bool} {items : List α} {item : α}
    (head : item ∈ (items.dropWhile p).head?) : ¬p item = true := by
  have stop := List.head?_dropWhile_not p items
  rw [Option.mem_def.mp head] at stop
  exact Bool.eq_false_iff.mp stop

theorem indented_indentOf (line : List Char) : Indented (indentOf line) line := by
  have blank : Blank (line.takeWhile isIndent) := isBlank_iff.mp List.all_takeWhile
  have stop : ∀ c ∈ (line.dropWhile isIndent).head?, ¬Indents c := fun c head =>
    mt isIndent_iff.mpr (not_of_head?_dropWhile head)
  have indented := Indented.mk blank stop
  rwa [List.takeWhile_append_dropWhile] at indented

/-- The indentations of the lines that are not blank. -/
theorem mem_indents {lines : List (List Char)} {count : Nat} :
    count ∈ (lines.filter fun line => !isBlank line).map indentOf ↔
      ∃ line ∈ lines, ¬Blank line ∧ Indented count line := by
  simp only [List.mem_map, List.mem_filter, Bool.not_eq_true', ← Bool.not_eq_true, isBlank_iff,
    and_assoc]
  constructor
  · rintro ⟨line, member, solid, rfl⟩
    exact ⟨line, member, solid, indented_indentOf line⟩
  · rintro ⟨line, member, solid, indented⟩
    exact ⟨line, member, solid, indentOf_eq indented⟩

theorem leastIndent_commonIndent (lines : List (List Char)) :
    LeastIndent lines (commonIndent lines) := by
  rw [commonIndent]
  cases least : ((lines.filter fun line => !isBlank line).map indentOf).min? with
  | none =>
      refine .none fun line member => ?_
      rw [List.min?_eq_none_iff, List.map_eq_nil_iff, List.filter_eq_nil_iff] at least
      exact isBlank_iff.mp (by simpa using least line member)
  | some count =>
      obtain ⟨reached, bound⟩ := List.min?_eq_some_iff.mp least
      obtain ⟨line, member, solid, indented⟩ := mem_indents.mp reached
      refine .reached member solid indented fun other isOther otherSolid others given => ?_
      exact bound _ (mem_indents.mpr ⟨other, isOther, otherSolid, given⟩)

/-- Lines have one least indentation. -/
theorem leastIndent_unique {lines : List (List Char)} {first second : Nat}
    (left : LeastIndent lines first) (right : LeastIndent lines second) : first = second := by
  cases left with
  | none blank =>
      cases right with
      | none => rfl
      | reached member solid => exact absurd (blank _ member) solid
  | reached member solid indented bound =>
      cases right with
      | none blank => exact absurd (blank _ member) solid
      | reached otherMember otherSolid otherIndented otherBound =>
          exact Nat.le_antisymm (bound _ otherMember otherSolid _ otherIndented)
            (otherBound _ member solid _ indented)

theorem dropWhile_of_head? {lines : List (List Char)} (first : ∀ line ∈ lines.head?, ¬Blank line) :
    lines.dropWhile isBlank = lines := by
  cases lines with
  | nil => rfl
  | cons line lines => exact List.dropWhile_cons_of_neg (mt isBlank_iff.mp (first line rfl))

theorem blank_of_mem_takeWhile {lines : List (List Char)} {line : List Char}
    (member : line ∈ lines.takeWhile isBlank) : Blank line :=
  isBlank_iff.mp (List.all_eq_true.mp List.all_takeWhile line member)

theorem not_blank_of_head? {lines : List (List Char)} {line : List Char}
    (head : line ∈ (lines.dropWhile isBlank).head?) : ¬Blank line :=
  mt isBlank_iff.mpr (not_of_head?_dropWhile head)

theorem trimBlank_eq {lines kept : List (List Char)} (trimmed : Trimmed lines kept) :
    trimBlank lines = kept := by
  cases trimmed with
  | @mk leading kept trailing before after first last =>
      have leads : ∀ line ∈ leading, isBlank line = true := fun line member =>
        isBlank_iff.mpr (before line member)
      have trails : ∀ line ∈ trailing.reverse, isBlank line = true := fun line member =>
        isBlank_iff.mpr (after line (List.mem_reverse.mp member))
      rw [trimBlank, List.append_assoc, List.dropWhile_append_of_pos leads]
      cases kept with
      | nil =>
          have none : (trailing ++ []).dropWhile isBlank = [] :=
            List.dropWhile_append_of_pos fun line member =>
              trails line (List.mem_reverse.mpr member)
          rw [List.append_nil] at none
          rw [List.nil_append, none]
          rfl
      | cons line kept =>
          have solid : (line :: kept ++ trailing).dropWhile isBlank = line :: kept ++ trailing :=
            dropWhile_of_head? first
          rw [solid, List.reverse_append, List.dropWhile_append_of_pos trails, dropWhile_of_head?,
            List.reverse_reverse]
          rwa [List.head?_reverse]

theorem trimmed_trimBlank (lines : List (List Char)) : Trimmed lines (trimBlank lines) := by
  -- After the blank lines at the start come those that are kept, then the blank ones at the end.
  have parts : lines.dropWhile isBlank =
      trimBlank lines ++ ((lines.dropWhile isBlank).reverse.takeWhile isBlank).reverse := by
    rw [trimBlank, ← List.reverse_append, List.takeWhile_append_dropWhile, List.reverse_reverse]
  have before : ∀ line ∈ lines.takeWhile isBlank, Blank line := fun line =>
    blank_of_mem_takeWhile
  have after : ∀ line ∈ ((lines.dropWhile isBlank).reverse.takeWhile isBlank).reverse,
      Blank line := fun line member => blank_of_mem_takeWhile (List.mem_reverse.mp member)
  have first : ∀ line ∈ (trimBlank lines).head?, ¬Blank line := by
    intro line head
    have here : line ∈ (lines.dropWhile isBlank).head? := by
      rw [parts, List.head?_append, Option.mem_def.mp head]
      rfl
    exact not_blank_of_head? here
  have last : ∀ line ∈ (trimBlank lines).getLast?, ¬Blank line := by
    rw [trimBlank, List.getLast?_reverse]
    exact fun line => not_blank_of_head?
  have trimmed := Trimmed.mk before after first last
  rwa [List.append_assoc, ← parts, List.takeWhile_append_dropWhile] at trimmed

/-- The value that is read off a text is the one that the text stands for. -/
theorem blockValue_iff {raw value : List Char} :
    BlockValue raw value ↔ value = Block.value raw := by
  constructor
  · rintro ⟨lines, indent, trimmed⟩
    rw [Block.value, Text.blockLines_eq lines, outdent,
      leastIndent_unique (leastIndent_commonIndent _) indent, trimBlank_eq trimmed]
  · rintro rfl
    have lines := lines_blockLines raw
    obtain ⟨first, rest, same⟩ := List.exists_cons_of_ne_nil lines.ne_nil
    rw [same] at lines
    rw [Block.value, same, outdent]
    exact .mk lines (leastIndent_commonIndent rest) (trimmed_trimBlank _)

end Block

/-! ## Reading back -/

section Back

variable {content : List Char} {lines : List (List Char)}

namespace Spelling

/-- A line feed at the end of a text starts an empty line. -/
theorem Lines.feed (given : Lines content lines) (feeds : '\r' ∉ content) :
    Lines (content ++ ['\n']) (lines ++ [[]]) := by
  induction given with
  | @last line whole =>
      have empty : Lines [] [[]] := .last (List.forall_mem_nil _)
      have ended := Lines.cons whole (.feed []) empty
      rwa [List.append_nil] at ended
  | @cons line ending rest lines whole ended after ih =>
      simp only [List.mem_append, not_or] at feeds
      rw [List.append_assoc, List.cons_append]
      cases ended with
      | feed => exact .cons whole (.feed _) (ih feeds.2)
      | both => exact absurd List.mem_cons_self feeds.1.2
      | carriageReturn => exact absurd List.mem_cons_self feeds.1.2

theorem Lines.intercalate (given : Lines content lines) (feeds : '\r' ∉ content) :
    ['\n'].intercalate lines = content := by
  induction given with
  | last => simp [List.intercalate]
  | @cons line ending rest lines whole ended after ih =>
      simp only [List.mem_append, not_or] at feeds
      obtain ⟨next, others, rfl⟩ := List.exists_cons_of_ne_nil after.ne_nil
      rw [List.intercalate_cons_cons, ih feeds.2]
      cases ended with
      | feed => rfl
      | both => exact absurd List.mem_cons_self feeds.1.2
      | carriageReturn => exact absurd List.mem_cons_self feeds.1.2

/-- A text on lines of its own stands for itself. -/
theorem blockValue_of_lines (given : Lines content lines) (feeds : '\r' ∉ content)
    (first : ∀ line ∈ lines.head?, ¬Blank line) (last : ∀ line ∈ lines.getLast?, ¬Blank line)
    (flush : ∃ line ∈ lines, ¬Blank line ∧ Indented 0 line) :
    BlockValue ('\n' :: (content ++ ['\n'])) content := by
  obtain ⟨line, member, solid, indented⟩ := flush
  have all : Lines ('\n' :: (content ++ ['\n'])) ([] :: (lines ++ [[]])) :=
    (given.feed feeds).ended (.feed _)
  have least : LeastIndent (lines ++ [[]]) 0 :=
    .reached (List.mem_append_left _ member) solid indented fun _ _ _ _ _ => Nat.zero_le _
  have empty : ∀ line ∈ [[]], Blank line := by
    intro line member
    rw [List.mem_singleton.mp member]
    exact List.forall_mem_nil _
  have trimmed : Trimmed ([] :: (lines ++ [[]]).map (List.drop 0)) lines := by
    have same : (lines ++ [[]]).map (List.drop 0) = lines ++ [[]] := List.map_id _
    rw [same]
    exact Trimmed.mk empty empty first last
  have value := BlockValue.mk all least trimmed
  rwa [given.intercalate feeds] at value

end Spelling

/-- A block string that is read is cut off as one piece. -/
theorem pieces_block {text value : List Char} {count : Nat}
    (reads : Block.read? text = some (value, count)) :
    Lexer.pieces (quotes ++ text) =
      ⟨some (.string (String.ofList value)), quotes ++ text.take count⟩ ::
        Lexer.pieces (text.drop count) := by
  have token : Lexer.stringToken ('"' :: '"' :: text) =
      (.string (String.ofList value), count + 2) := by
    rw [Lexer.stringToken, reads]
  change Lexer.pieces ('"' :: '"' :: '"' :: text) = _
  rw [Lexer.pieces_quote, token]
  rfl

structure ReadsBlock (text : List Char) : Prop where
  /-- A string is read if there are closing quotes. -/
  succeeds : (Block.read? text).isSome = true ↔ ∃ raw plain, Closes text raw plain
  /-- The closing quotes are the end of what is read, and the value is that of the text before
  them, in which the quotes that were passed over have lost their backslashes. -/
  reads : ∀ value count, Block.read? text = some (value, count) ↔
    ∃ raw plain, Closes text raw plain ∧ BlockValue plain value ∧ count = (raw ++ quotes).length
  /-- The quotes that were passed over are all those in the text with a backslash before them. -/
  replaces : ∀ raw plain, Closes text raw plain → Replaces escapedQuotes quotes raw plain
  /-- What is read is cut off, from the opening quotes to the closing ones. -/
  consumes : ∀ raw plain value, Closes text raw plain → BlockValue plain value →
    ∃ rest, text = raw ++ quotes ++ rest ∧ Lexer.pieces (quotes ++ text) =
      ⟨some (.string (String.ofList value)), quotes ++ raw ++ quotes⟩ :: Lexer.pieces rest

theorem Block.read?_eq_some_iff {text value : List Char} {count : Nat} :
    read? text = some (value, count) ↔
      ∃ raw plain, Closes text raw plain ∧ BlockValue plain value ∧
        count = (raw ++ quotes).length := by
  have mapped : read? text = (raw? text).map fun found => (Block.value found.1, found.2) := by
    rw [read?]
    cases raw? text <;> rfl
  simp only [mapped, Option.map_eq_some_iff, Prod.exists, raw?_eq_some_iff, blockValue_iff]
  constructor
  · rintro ⟨plain, _, ⟨raw, closes, rfl⟩, same⟩
    cases same
    exact ⟨raw, plain, closes, rfl, rfl⟩
  · rintro ⟨raw, plain, closes, rfl, rfl⟩
    exact ⟨plain, _, ⟨raw, closes, rfl⟩, rfl⟩

theorem Block.readsBlock (text : List Char) : ReadsBlock text := by
  refine ⟨?_, fun _ _ => read?_eq_some_iff, fun raw plain => Closes.replaces, ?_⟩
  · rw [Option.isSome_iff_exists]
    constructor
    · rintro ⟨⟨value, count⟩, given⟩
      obtain ⟨raw, plain, closes, _⟩ := read?_eq_some_iff.mp given
      exact ⟨raw, plain, closes⟩
    · rintro ⟨raw, plain, closes⟩
      exact ⟨_, read?_eq_some_iff.mpr ⟨raw, plain, closes, blockValue_iff.mpr rfl, rfl⟩⟩
  · intro raw plain value closes stands
    obtain ⟨rest, same⟩ := closes.isPrefix
    have cut := pieces_block (read?_eq_some_iff.mpr ⟨raw, plain, closes, stands, rfl⟩)
    refine ⟨rest, same.symm, ?_⟩
    rwa [← same, List.take_left, List.drop_left, ← List.append_assoc quotes raw quotes, same] at cut

/-- Block strings are read up to their closing quotes and for their value, and what is put between
the quotes on lines of its own is read back. -/
theorem block_strings :
    (∀ text, ReadsBlock text) ∧
      ∀ content lines, Lines content lines → '\r' ∉ content →
        (∀ line ∈ lines.head?, ¬Blank line) → (∀ line ∈ lines.getLast?, ¬Blank line) →
        (∃ line ∈ lines, ¬Blank line ∧ Indented 0 line) →
        (∃ escaped, Replaces quotes escapedQuotes content escaped) ∧
          ∀ escaped, Replaces quotes escapedQuotes content escaped →
            lexemes (quotes ++ '\n' :: (escaped ++ '\n' :: quotes)) =
              [⟨.string (String.ofList content),
                ⟨0, Text.byteSize (quotes ++ '\n' :: (escaped ++ '\n' :: quotes))⟩⟩] := by
  refine ⟨Block.readsBlock, ?_⟩
  intro content lines given feeds first last flush
  refine ⟨exists_replaces (by decide) escapedQuotes content, ?_⟩
  intro escaped replaces
  have closes : Closes ('\n' :: (escaped ++ '\n' :: quotes)) ('\n' :: (escaped ++ ['\n']))
      ('\n' :: (content ++ ['\n'])) := by
    refine (closes_of_replaces replaces).cons ?_ ?_
    · exact fun here => absurd (List.cons_prefix_cons.mp here).1 (by decide)
    · exact fun here => absurd (List.cons_prefix_cons.mp here).1 (by decide)
  obtain ⟨rest, same, cut⟩ := (Block.readsBlock _).consumes _ _ _ closes
    (blockValue_of_lines given feeds first last flush)
  -- The closing quotes are the last three characters, so nothing is left to cut.
  have none : rest = [] := by
    have lengths := congrArg List.length same
    simp only [List.length_append, List.length_cons, List.length_nil] at lengths
    exact List.eq_nil_of_length_eq_zero (by omega)
  rw [lexemes, cut, none, Lexer.pieces, Lexer.place, Lexer.place, Nat.zero_add]
  simp

def sampleContent : List Char :=
  ['a', '"', '"', '"'] ++ ['\n'] ++ [' ', ' ', 'b', '\\']

def sampleEscaped : List Char :=
  ['a'] ++ escapedQuotes ++ ['\n', ' ', ' ', 'b', '\\']

theorem replaces_sampleContent : Replaces quotes escapedQuotes sampleContent sampleEscaped := by
  have found : FirstAfter quotes (quotes ++ ['\n', ' ', ' ', 'b', '\\']) [] :=
    ⟨List.prefix_append _ _, fun _ _ => Nat.zero_le _⟩
  exact @Replaces.first quotes escapedQuotes ['a'] ['\n', ' ', ' ', 'b', '\\'] _
    (found.cons (by decide)) (.absent (by decide))

theorem block_strings_sampleContent :
    Lines sampleContent [['a', '"', '"', '"'], [' ', ' ', 'b', '\\']] ∧ '\r' ∉ sampleContent ∧
      Replaces quotes escapedQuotes sampleContent sampleEscaped ∧
      lexemes (quotes ++ '\n' :: (sampleEscaped ++ '\n' :: quotes)) =
        [⟨.string "a\"\"\"\n  b\\", ⟨0, 18⟩⟩] := by
  have given : Lines sampleContent [['a', '"', '"', '"'], [' ', ' ', 'b', '\\']] :=
    .cons (by simp) (.feed _) (.last (by simp))
  have first : ∀ line ∈ [['a', '"', '"', '"'], [' ', ' ', 'b', '\\']].head?, ¬Blank line := by
    rintro line ⟨⟩
    decide
  have last : ∀ line ∈ [['a', '"', '"', '"'], [' ', ' ', 'b', '\\']].getLast?, ¬Blank line := by
    rintro line ⟨⟩
    decide
  have flush : Indented 0 ['a', '"', '"', '"'] :=
    @Indented.mk [] ['a', '"', '"', '"'] (List.forall_mem_nil _) (by rintro c ⟨⟩; decide)
  have reads := (block_strings.2 sampleContent _ given (by decide) first last
    ⟨_, List.mem_cons_self, by decide, flush⟩).2 sampleEscaped replaces_sampleContent
  exact ⟨given, by decide, replaces_sampleContent, reads⟩

end Back

end QueryCheck
