import QueryCheck.Proofs.Error.Offsets

/-!
# The line with the marked token

If the token where reading failed lies in one line, the snippet of the error ends with that line and
a line below it that marks the token. There is one exception. The last line of a text that is empty
or ends with a line feed is empty, and is left out of the snippet. If reading fails at the end of
such a text, the mark is below the line before.
-/

namespace QueryCheck

open Text

namespace Snippet

/-- A snippet ends with the line of a location, with its number, and a line that marks the bytes of
a span from the column of the location on. -/
def Underlines (source : List Char) (span : Span) (location : Location) (snippet : String) : Prop :=
  ∃ above width line, (rows source)[location.line - 1]? = some line ∧
    rows snippet.toList = above ++
      [(row width (toString location.line) (String.ofList line)).toList,
        (row width "" (String.ofList (List.replicate location.column ' ' ++
          List.replicate (max 1 (span.stop - span.start)) '^'))).toList]

/-- A place is the end of a text that is empty or ends with a line feed. -/
def EndsBlank (source : List Char) (place : Nat) : Prop :=
  place = byteSize source ∧ ∀ c ∈ source.getLast?, c = '\n'

/-! ## Lines of a snippet -/

theorem toList_row (width : Nat) (number text : String) :
    (row width number text).toList =
      List.replicate (width - number.length) ' ' ++ (number.toList ++ ([' ', '|', ' '] ++ text.toList)) := by
  simp [row, padLeft]

theorem toList_number (n : Nat) : (toString n).toList = Nat.toDigits 10 n := by
  rw [Nat.toString_eq_repr, Nat.toList_repr]

theorem row_plain {width : Nat} {number text : String} (unbroken : '\n' ∉ number.toList)
    (plain : '\n' ∉ text.toList) : '\n' ∉ (row width number text).toList := by
  simp [toList_row, unbroken, plain]

theorem number_plain (n : Nat) : '\n' ∉ (toString n).toList := by
  rw [toList_number]
  intro feed
  have digit := Nat.isDigit_of_mem_toDigits (by decide) (by decide) feed
  exact absurd digit (by decide)

/-- The digits of its number come first in a line, after blanks. -/
theorem digits_row (width n : Nat) (text : String) :
    ((row width (toString n) text).toList.dropWhile (· == ' ')).takeWhile Char.isDigit =
      Nat.toDigits 10 n := by
  have digits : ∀ c ∈ Nat.toDigits 10 n, c.isDigit = true := fun c member =>
    Nat.isDigit_of_mem_toDigits (by decide) (by decide) member
  obtain ⟨first, others, cut⟩ := List.exists_cons_of_ne_nil (@Nat.toDigits_ne_nil n 10)
  have blank : first ≠ ' ' := by
    rintro rfl
    exact absurd (digits ' ' (cut ▸ List.mem_cons_self)) (by decide)
  rw [toList_row, toList_number, List.dropWhile_append_of_pos (by simp), cut, List.cons_append,
    List.dropWhile_cons_of_neg (by simpa using blank), ← List.cons_append, ← cut]
  refine takeWhile_append_of_stop digits ?_
  rintro c ⟨⟩
  decide

theorem eq_of_row_eq {width other n m : Nat} {first second : String}
    (same : (row width (toString n) first).toList = (row other (toString m) second).toList) :
    n = m := by
  have digits := digits_row width n first
  rw [same, digits_row] at digits
  rw [← @Nat.ofDigitChars_ten_toDigits n, ← digits, Nat.ofDigitChars_ten_toDigits]

theorem rows_unlines {texts : List String} (plain : ∀ text ∈ texts, '\n' ∉ text.toList)
    (some : texts ≠ []) : rows (unlines texts).toList = texts.map String.toList := by
  rw [unlines, String.toList_intercalate]
  exact rows_intercalate (by simpa using plain) (by simpa using some)

theorem lines_plain {line : List Char} (plain : '\n' ∉ line) :
    lines line = if line.isEmpty then [] else [line] := by
  rw [lines, rows_of_not_mem plain, linesOfRows]

theorem lines_append {previous line : List Char} (alone : '\n' ∉ previous) (plain : '\n' ∉ line) :
    lines (previous ++ '\n' :: line) = stripReturn previous :: lines line := by
  rw [lines, rows_append_feed, rows_of_not_mem alone, lines, rows_of_not_mem plain]
  rfl

theorem numbered_lines {line : List Char} (plain : '\n' ∉ line) (width number : Nat) :
    numbered width number (lines line) =
      (lines line).map fun line => row width (toString number) (String.ofList line) := by
  rw [lines_plain plain]
  split <;> rfl

theorem eq_of_mem_lines {line shown : List Char} (plain : '\n' ∉ line) (member : shown ∈ lines line) :
    shown = line := by
  rw [lines_plain plain] at member
  split at member
  · exact absurd member List.not_mem_nil
  · exact List.mem_singleton.mp member

theorem stripReturn_plain {line : List Char} (plain : '\n' ∉ line) : '\n' ∉ stripReturn line := by
  rw [stripReturn]
  split
  · exact fun feed => plain (List.dropLast_subset line feed)
  · exact plain

theorem rest_eq_nil_iff {word after : List Char} (plain : '\n' ∉ word)
    (ended : word = [] → after = []) : (word ++ after).takeWhile (· ≠ '\n') = [] ↔ word = [] := by
  cases word with
  | nil => simp [ended rfl]
  | cons c cs =>
      have shown : c ≠ '\n' := fun feed => plain (feed ▸ List.mem_cons_self)
      simp [shown]

section Marked

variable {before word last : List Char} {above : List (List Char)}
  (given : LastRow before above last) (plain : '\n' ∉ word) (after : List Char)
include given plain

/-- A snippet of a token in one line shows that line and the one above it. -/
theorem shown_marked :
    shown (before ++ word ++ after) ⟨byteSize before, byteSize (before ++ word)⟩ =
      (['\n'].intercalate
        (above.getLast?.toList ++ [last ++ (word ++ after).takeWhile (· ≠ '\n')]),
          max 1 above.length) := by
  have inside : ∀ c ∈ word, decide (c ≠ '\n') = true := fun c member =>
    decide_eq_true fun feed => plain (feed ▸ member)
  rw [shown_eq, given.rows, List.takeWhile_append_of_pos inside]
  rcases List.eq_nil_or_concat above with rfl | ⟨others, previous, rfl⟩
  · simp
  · simp [List.intercalate]

/-- The line above is shown if there is one, the line of the token unless it is empty, and then the
marks. -/
theorem exists_ofSpan_marked :
    ∃ width, ofSpan (before ++ word ++ after) ⟨byteSize before, byteSize (before ++ word)⟩ =
      unlines (
        (above.getLast?.toList.map fun line =>
          row width (toString above.length) (String.ofList (stripReturn line))) ++
        ((lines (last ++ (word ++ after).takeWhile (· ≠ '\n'))).map fun line =>
          row width (toString (above.length + 1)) (String.ofList line)) ++
        [row width "" (String.ofList (List.replicate (byteSize last) ' ' ++
          List.replicate (max 1 (byteSize word)) '^'))]) := by
  have shown := shown_marked given plain after
  have alone := given.plain_above
  have inside := given.plain_line (word ++ after)
  generalize last ++ (word ++ after).takeWhile (· ≠ '\n') = line at *
  rw [ofSpan_eq before word after shown]
  simp only [if_neg plain, marker_eq before word after given]
  refine ⟨_, congrArg (fun texts => unlines (texts ++ _)) ?_⟩
  generalize (toString (max 1 above.length + ((lines _).length - 1))).length + 1 = width
  -- The numbers start at the line above if there is one, and else at the line of the token.
  rcases List.eq_nil_or_concat above with rfl | ⟨others, previous, rfl⟩
  · simpa using numbered_lines inside width 1
  · have joined : ['\n'].intercalate [previous, line] = previous ++ '\n' :: line := by
      simp [List.intercalate]
    have number : max 1 (others.concat previous).length = (others.concat previous).length := by
      simp
    rw [number, List.concat_eq_append, List.getLast?_concat, Option.toList_some,
      List.singleton_append, joined,
      lines_append (alone previous (by simp)) inside, numbered, numbered_lines inside]
    rfl

/-- The same, where the snippet is cut into its lines again. -/
theorem exists_rows_marked :
    ∃ width, rows (ofSpan (before ++ word ++ after)
        ⟨byteSize before, byteSize (before ++ word)⟩).toList =
      (above.getLast?.toList.map fun line =>
        (row width (toString above.length) (String.ofList (stripReturn line))).toList) ++
      ((lines (last ++ (word ++ after).takeWhile (· ≠ '\n'))).map fun line =>
        (row width (toString (above.length + 1)) (String.ofList line)).toList) ++
      [(row width "" (String.ofList (List.replicate (byteSize last) ' ' ++
        List.replicate (max 1 (byteSize word)) '^'))).toList] := by
  obtain ⟨width, shown⟩ := exists_ofSpan_marked given plain after
  refine ⟨width, ?_⟩
  rw [shown, rows_unlines ?_ (by simp)]
  · simp [Function.comp_def]
  · simp only [List.forall_mem_append, List.forall_mem_map]
    refine ⟨⟨?_, ?_⟩, ?_⟩
    · intro line member
      have shownAbove : line ∈ above := List.mem_of_getLast? (Option.mem_toList.mp member)
      have strip := stripReturn_plain (given.plain_above line shownAbove)
      exact row_plain (number_plain _) (by simpa using strip)
    · intro line member
      have same : line = last ++ (word ++ after).takeWhile (· ≠ '\n') :=
        eq_of_mem_lines (given.plain_line (word ++ after)) member
      have inside := given.plain_line (word ++ after)
      rw [← same] at inside
      exact row_plain (number_plain _) (by simpa using inside)
    · exact List.forall_mem_singleton.mpr (row_plain (by simp) (by simp))

theorem underlines_marked (visible : last ++ (word ++ after).takeWhile (· ≠ '\n') ≠ []) :
    Underlines (before ++ word ++ after) ⟨byteSize before, byteSize (before ++ word)⟩
      ⟨above.length + 1, byteSize last⟩
      (ofSpan (before ++ word ++ after) ⟨byteSize before, byteSize (before ++ word)⟩) := by
  obtain ⟨width, ends⟩ := exists_rows_marked given plain after
  obtain ⟨below, cut⟩ := given.exists_rows (word ++ after)
  rw [← List.append_assoc] at cut
  rw [lines_plain (given.plain_line _), if_neg (mt List.isEmpty_iff.mp visible)] at ends
  have inside : (rows (before ++ word ++ after))[above.length]? =
      some (last ++ (word ++ after).takeWhile (· ≠ '\n')) := by
    rw [cut]
    simp
  have size : byteSize (before ++ word) - byteSize before = byteSize word := by simp
  rw [List.map_singleton, List.append_assoc _ [_], List.singleton_append, ← size] at ends
  exact ⟨_, width, _, inside, ends⟩

/-- An empty line of a token at the end of the text is not shown. -/
theorem exists_rows_blank (ended : word = [] → after = [])
    (empty : last ++ (word ++ after).takeWhile (· ≠ '\n') = []) :
    ∃ width, rows (ofSpan (before ++ word ++ after)
        ⟨byteSize before, byteSize (before ++ word)⟩).toList =
      ((rows (before ++ word ++ after)).dropLast.getLast?.toList.map fun line =>
        (row width (toString above.length) (String.ofList (stripReturn line))).toList) ++
      [(row width "" "^").toList] := by
  obtain ⟨width, ends⟩ := exists_rows_marked given plain after
  refine ⟨width, ?_⟩
  rw [empty, lines_plain List.not_mem_nil] at ends
  obtain ⟨rfl, rest⟩ := List.append_eq_nil_iff.mp empty
  obtain rfl := (rest_eq_nil_iff plain ended).mp rest
  obtain rfl := ended rfl
  rw [ends, List.append_nil, List.append_nil, given.rows, List.dropLast_concat]
  simp

end Marked

/-! ## Blank ends -/

theorem last_eq_nil_iff {before last : List Char} {above : List (List Char)}
    (given : LastRow before above last) : last = [] ↔ ∀ c ∈ before.getLast?, c = '\n' := by
  constructor
  · rintro rfl
    cases given with
    | only => simp
    | after => simp
  · intro feed
    rcases List.eq_nil_or_concat' last with empty | ⟨others, c, rfl⟩
    · exact empty
    · have final : before.getLast? = some c := by
        cases given with
        | only => exact List.getLast?_concat
        | after head =>
            rw [← List.cons_append, ← List.append_assoc]
            exact List.getLast?_concat
      have plain := given.plain
      rw [feed c final] at plain
      simp at plain

/-- The line of a token that is empty only at the end of the text is empty only there. -/
theorem line_eq_nil_iff {before word after last : List Char} {above : List (List Char)}
    (given : LastRow before above last) (plain : '\n' ∉ word) (ended : word = [] → after = []) :
    last ++ (word ++ after).takeWhile (· ≠ '\n') = [] ↔
      EndsBlank (before ++ word ++ after) (byteSize before) := by
  rw [List.append_eq_nil_iff, last_eq_nil_iff given, rest_eq_nil_iff plain ended]
  cases word with
  | nil => simp [EndsBlank, ended rfl]
  | cons c cs =>
      have longer := c.utf8Size_pos
      refine iff_of_false (by simp) fun blank => ?_
      have size := blank.1
      simp only [byteSize_append, byteSize_cons] at size
      omega

/-- A snippet whose last line but one has another number does not end with the line of a
location. -/
theorem not_underlines {source : List Char} {span : Span} {location : Location} {snippet : String}
    {width number : Nat} {previous : Option (List Char)} {marks : List Char}
    (ends : rows snippet.toList =
      (previous.toList.map fun line =>
        (row width (toString number) (String.ofList (stripReturn line))).toList) ++ [marks])
    (other : number ≠ location.line) : ¬Underlines source span location snippet := by
  rintro ⟨above, wide, line, -, shown⟩
  rw [ends] at shown
  cases previous with
  | none =>
      have lengths := congrArg List.length shown
      simp at lengths
  | some text =>
      -- The snippet has two lines, so the first of them would be the line of the location.
      have lengths := congrArg List.length shown
      have alone : above = [] := by simpa using lengths
      rw [alone] at shown
      exact other (eq_of_row_eq (List.cons.inj shown).1)

/-- The snippet of an error ends with the line of the token where reading failed, and marks the
token below it, if the token lies in one line and is not the blank end of the text. At a blank end
the mark is below the line before. -/
theorem underlines_iff {text : String} {error : Error} {span : Span} (fails : FailsAt text error span)
    (plain : '\n' ∉ slice text.toList span) :
    ∃ location snippet, error.location? = some location ∧ error.context? = some snippet ∧
      (Underlines text.toList span location snippet ↔ ¬EndsBlank text.toList span.start) ∧
      (EndsBlank text.toList span.start →
        ∃ width, rows snippet.toList =
          ((rows text.toList).dropLast.getLast?.toList.map fun line =>
            (row width (toString (location.line - 1)) (String.ofList (stripReturn line))).toList) ++
          [(row width "" "^").toList]) := by
  obtain ⟨message, rfl⟩ := fails.exists_ofSpan
  have stretch := fails.stretch
  clear fails
  generalize text.toList = source at *
  refine ⟨_, _, rfl, rfl, ?_⟩
  cases stretch with
  | @mk before word after whole ended =>
      subst whole
      rw [slice_append] at plain
      obtain ⟨above, last, given⟩ := exists_lastRow before
      have located := Location.ofSpan_eq before word after given (byteSize (before ++ word))
      rw [← line_eq_nil_iff given plain ended, located]
      have blank := exists_rows_blank given plain after ended
      refine ⟨⟨fun shown empty => ?_, underlines_marked given plain after⟩, blank⟩
      obtain ⟨width, ends⟩ := blank empty
      exact not_underlines ends (by simp) shown

/-- A schema with a number where a colon should be, after a character of two bytes. -/
def sampleColonless : String :=
  "type A \x7b\r\n  \"é\" b 1\r\n\x7d"

theorem underlines_iff_sampleColonless :
    ∃ error snippet, FailsAt sampleColonless error ⟨19, 20⟩ ∧ error.location? = some ⟨2, 9⟩ ∧
      error.context? = some snippet ∧
      Underlines sampleColonless.toList ⟨19, 20⟩ ⟨2, 9⟩ snippet := by
  have failed : Definitions.read (tokens sampleColonless.toList) =
      .error ⟨.malformed (.expectedToken .colon), [.integer "1", .braceClose]⟩ := by
    decide +kernel
  have span : Source.spanOf sampleColonless.toList [.integer "1", .braceClose] = ⟨19, 20⟩ := by
    decide +kernel
  have reported : Schema.parse sampleColonless =
      .error (.ofSpan "Expected Colon, got Integer(\"1\")" sampleColonless.toList ⟨19, 20⟩) := by
    decide +kernel
  have place : Location.ofSpan sampleColonless.toList ⟨19, 20⟩ = ⟨2, 9⟩ := by
    decide +kernel
  have fails := FailsAt.schema failed reported rfl
  rw [span] at fails
  have plain : '\n' ∉ slice sampleColonless.toList ⟨19, 20⟩ := by
    decide +kernel
  have inside : ¬EndsBlank sampleColonless.toList 19 := fun blank =>
    absurd blank.1 (by decide +kernel)
  obtain ⟨location, snippet, located, shown, underlines, -⟩ := underlines_iff fails plain
  obtain rfl := Option.some.inj located
  rw [place] at underlines
  exact ⟨_, snippet, fails, congrArg some place, shown, underlines.mpr inside⟩

def sampleUnfinished : String :=
  "query \x7b\n"

theorem not_underlines_at_blank_end :
    ∃ error snippet, FailsAt sampleUnfinished error ⟨8, 8⟩ ∧
      '\n' ∉ slice sampleUnfinished.toList ⟨8, 8⟩ ∧ error.location? = some ⟨2, 0⟩ ∧
      error.context? = some snippet ∧ snippet = " 1 | query \x7b\n   | ^" ∧
      ¬Underlines sampleUnfinished.toList ⟨8, 8⟩ ⟨2, 0⟩ snippet := by
  have failed : Document.read (tokens sampleUnfinished.toList) = .error ⟨.selection, []⟩ := by
    decide +kernel
  have span : Source.spanOf sampleUnfinished.toList [] = ⟨8, 8⟩ := by
    decide +kernel
  have reported : Document.parse sampleUnfinished =
      .error ⟨.syntactic, "Invalid Selection", some ⟨2, 0⟩, some " 1 | query \x7b\n   | ^"⟩ := by
    decide +kernel
  have ends : rows " 1 | query \x7b\n   | ^".toList =
      ((some "query \x7b".toList).toList.map fun line =>
        (row 2 (toString 1) (String.ofList (stripReturn line))).toList) ++
      [(row 2 "" "^").toList] := by
    decide +kernel
  have fails := FailsAt.document failed reported
  rw [span] at fails
  exact ⟨_, _, fails, by decide, rfl, rfl, rfl, not_underlines ends (by decide)⟩

end Snippet

end QueryCheck
