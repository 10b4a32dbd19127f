import QueryCheck.Proofs.Error.Failures
import QueryCheck.Proofs.Text.Rows

/-!
# Places by offsets

The location of a token and the snippet that shows it can also be found with byte offsets: by
searching for line feeds and cutting the text before and after them. A cut is made only where no
character is divided, and one offset is taken from another only if it is not larger. At the token
where reading fails all of this can be done, and gives the same location and the same snippet.
-/

namespace QueryCheck

namespace Text

/-! ## Cuts -/

theorem boundary_iff {source : List Char} {place : Nat} :
    Boundary source place ↔ byteSize (takeBytes place source) = place := by
  constructor
  · rintro ⟨before, ⟨rest, rfl⟩, rfl⟩
    rw [takeBytes_byteSize_append]
  · intro size
    exact ⟨takeBytes place source, ⟨_, takeBytes_append_dropBytes place source⟩, size⟩

instance (source : List Char) (place : Nat) : Decidable (Boundary source place) :=
  decidable_of_iff _ boundary_iff.symm

/-- The part of a text between two offsets, if they are in order and neither divides a character. -/
def cut? (source : List Char) (start stop : Nat) : Option (List Char) :=
  if start ≤ stop ∧ Boundary source start ∧ Boundary source stop then
    some (slice source ⟨start, stop⟩)
  else none

def minus? (place other : Nat) : Option Nat :=
  if other ≤ place then some (place - other) else none

def find? (c : Char) : List Char → Option Nat
  | [] => none
  | d :: ds => if d = c then some 0 else (find? c ds).map (d.utf8Size + ·)

def findLast? (c : Char) : List Char → Option Nat
  | [] => none
  | d :: ds =>
      match findLast? c ds with
      | some place => some (d.utf8Size + place)
      | none => if d = c then some 0 else none

def lineStart (cs : List Char) : Nat :=
  match findLast? '\n' cs with
  | some place => place + 1
  | none => 0

end Text

open Text

/-- The location at which a span starts, found with offsets. -/
def Location.ofOffsets? (source : List Char) (span : Span) : Option Location := do
  let before ← cut? source 0 span.start
  let column ← minus? span.start (lineStart before)
  some ⟨before.count '\n' + 1, column⟩

def Snippet.ofOffsets? (source : List Char) (span : Span) : Option String := do
  let before ← cut? source 0 span.start
  let above ← cut? source 0 (lineStart before - 1)
  let start := lineStart above
  let after ← cut? source span.stop (byteSize source)
  let stop := (find? '\n' after).elim (byteSize source) (· + span.stop)
  let hidden ← cut? source 0 start
  let shown ← cut? source start stop
  let first := hidden.count '\n' + 1
  let lines := Text.lines shown
  let width := (toString (first + (lines.length - 1))).length + 1
  let spanned ← cut? source span.start span.stop
  if '\n' ∈ spanned then some (unlines (numbered width first lines))
  else
    let offset ← minus? span.start (lineStart before)
    let marks := List.replicate offset ' ' ++ List.replicate (max 1 (byteSize spanned)) '^'
    some (unlines (numbered width first lines ++ [row width "" (String.ofList marks)]))

namespace Text

theorem cut?_append (before part after : List Char) :
    cut? (before ++ part ++ after) (byteSize before) (byteSize (before ++ part)) = some part := by
  have start : Boundary (before ++ part ++ after) (byteSize before) := by
    rw [List.append_assoc]
    exact boundary_append _ _
  have stop : Boundary (before ++ part ++ after) (byteSize (before ++ part)) := boundary_append _ _
  rw [cut?, if_pos ⟨by simp, start, stop⟩, slice_append]

theorem cut?_first (before after : List Char) :
    cut? (before ++ after) 0 (byteSize before) = some before := by
  simpa using cut?_append [] before after

theorem cut?_last (before after : List Char) :
    cut? (before ++ after) (byteSize before) (byteSize (before ++ after)) = some after := by
  simpa using cut?_append before after []

theorem findLast?_of_not_mem {c : Char} {cs : List Char} (absent : c ∉ cs) :
    findLast? c cs = none := by
  induction cs with
  | nil => rfl
  | cons d ds ih =>
      rw [List.mem_cons, not_or] at absent
      rw [findLast?, ih absent.2, if_neg (Ne.symm absent.1)]

theorem findLast?_append {c : Char} (before : List Char) {after : List Char} (last : c ∉ after) :
    findLast? c (before ++ c :: after) = some (byteSize before) := by
  induction before with
  | nil =>
      rw [List.nil_append, findLast?, findLast?_of_not_mem last, if_pos rfl]
      rfl
  | cons d ds ih => rw [List.cons_append, findLast?, ih]; rfl

theorem lineStart_of_not_mem {cs : List Char} (plain : '\n' ∉ cs) : lineStart cs = 0 := by
  rw [lineStart, findLast?_of_not_mem plain]

theorem lineStart_append (before : List Char) {last : List Char} (plain : '\n' ∉ last) :
    lineStart (before ++ '\n' :: last) = byteSize before + 1 := by
  rw [lineStart, findLast?_append before plain]

theorem byteSize_feed : byteSize ['\n'] = 1 := by
  decide

/-- The last row takes the bytes from its start on. -/
theorem LastRow.lineStart_eq {cs last : List Char} {above : List (List Char)}
    (given : LastRow cs above last) : lineStart cs + byteSize last = byteSize cs := by
  cases given with
  | only plain => rw [lineStart_of_not_mem plain, Nat.zero_add]
  | after before plain =>
      rw [lineStart_append before plain, List.append_cons, byteSize_append, byteSize_append,
        byteSize_feed]

/-- A search for a character takes the bytes in front of it, or all. -/
theorem find?_elim (c : Char) (cs : List Char) (start : Nat) :
    (find? c cs).elim (start + byteSize cs) (· + start) =
      start + byteSize (cs.takeWhile (· ≠ c)) := by
  induction cs with
  | nil => rfl
  | cons d ds ih =>
      rw [find?]
      by_cases found : d = c
      · simp [found]
      · rw [if_neg found, List.takeWhile_cons_of_pos (by simpa using found)]
        cases place : find? c ds with
        | none => simp_all
        | some place => simp_all; omega

/-- The rows that a snippet shows up to a place, and what is above them. -/
structure ShownFrom (before top tail : List Char) : Prop where
  whole : before = top ++ tail
  first : max 1 ((rows before).length - 1) = top.count '\n' + 1
  joined : ['\n'].intercalate ((rows before).drop ((rows before).length - 2)) = tail

theorem exists_shownFrom (before rest : List Char) :
    ∃ above top tail, ShownFrom before top tail ∧
      cut? (before ++ rest) 0 (lineStart before - 1) = some above ∧
      lineStart above = byteSize top := by
  obtain ⟨rows, last, given⟩ := exists_lastRow before
  cases given with
  | only plain =>
      -- There is no row above, so nothing is left out.
      refine ⟨[], [], before, ⟨rfl, ?_, ?_⟩, ?_, rfl⟩
      · simp [rows_of_not_mem plain]
      · simp [rows_of_not_mem plain]
      · rw [lineStart_of_not_mem plain]
        exact cut?_first [] (before ++ rest)
  | @after head last plain =>
      have cut : cut? (head ++ '\n' :: last ++ rest) 0 (lineStart (head ++ '\n' :: last) - 1) =
          some head := by
        rw [lineStart_append head plain, Nat.add_sub_cancel, List.append_assoc]
        exact cut?_first head _
      have rows := rows_append_feed head last
      rw [rows_of_not_mem plain] at rows
      obtain ⟨above, previous, given⟩ := exists_lastRow head
      cases given with
      | only alone =>
          -- The row above is the first one.
          rw [rows_of_not_mem alone] at rows
          refine ⟨head, [], head ++ '\n' :: last, ⟨rfl, ?_, ?_⟩, cut, lineStart_of_not_mem alone⟩
          · simp [rows]
          · simp [rows, List.intercalate]
      | @after top previous alone =>
          rw [rows_append_feed top previous, rows_of_not_mem alone] at rows
          refine ⟨_, top ++ ['\n'], previous ++ '\n' :: last, ⟨?_, ?_, ?_⟩, cut, ?_⟩
          · simp
          · rw [rows]
            simp [length_rows]
          · rw [rows]
            simp [List.intercalate]
          · rw [lineStart_append top alone, byteSize_append, byteSize_feed]

end Text

/-! ## The same places -/

section Same

variable (before word after : List Char)

theorem Location.ofSpan_eq {above : List (List Char)} {last : List Char}
    (given : LastRow before above last) (stop : Nat) :
    ofSpan (before ++ word ++ after) ⟨byteSize before, stop⟩ =
      ⟨above.length + 1, byteSize last⟩ := by
  simp [ofSpan, given.rows]

theorem Location.ofOffsets?_eq :
    ofOffsets? (before ++ word ++ after) ⟨byteSize before, byteSize (before ++ word)⟩ =
      some (ofSpan (before ++ word ++ after) ⟨byteSize before, byteSize (before ++ word)⟩) := by
  obtain ⟨above, last, given⟩ := exists_lastRow before
  have start := given.lineStart_eq
  have cut := cut?_first before (word ++ after)
  rw [← List.append_assoc] at cut
  rw [ofSpan_eq _ _ _ given, ofOffsets?, cut, given.length_above]
  simp [minus?, ← start]

theorem Snippet.shown_eq :
    shown (before ++ word ++ after) ⟨byteSize before, byteSize (before ++ word)⟩ =
      (['\n'].intercalate ((rows before).drop ((rows before).length - 2)) ++ word ++
        after.takeWhile (· ≠ '\n'), max 1 ((rows before).length - 1)) := by
  have spanned := slice_append before word after
  rw [slice] at spanned
  have rest := dropBytes_byteSize_append (before ++ word) after
  have start := takeBytes_byteSize_append before (word ++ after)
  rw [← List.append_assoc] at start
  simp only [shown, start, rest, spanned]

theorem Snippet.ofSpan_eq {text : List Char} {first : Nat}
    (given : shown (before ++ word ++ after) ⟨byteSize before, byteSize (before ++ word)⟩ =
      (text, first)) :
    ofSpan (before ++ word ++ after) ⟨byteSize before, byteSize (before ++ word)⟩ =
      let lines := Text.lines text
      let width := (toString (first + (lines.length - 1))).length + 1
      let marks := if '\n' ∈ word then [] else
        [marker width (before ++ word ++ after) ⟨byteSize before, byteSize (before ++ word)⟩]
      unlines (numbered width first lines ++ marks) := by
  have spanned := slice_append before word after
  rw [slice] at spanned
  simp only [ofSpan, given, spanned, List.contains_iff_mem]

theorem Snippet.marker_eq {above : List (List Char)} {last : List Char}
    (given : LastRow before above last) (width : Nat) :
    marker width (before ++ word ++ after) ⟨byteSize before, byteSize (before ++ word)⟩ =
      row width "" (String.ofList
        (List.replicate (byteSize last) ' ' ++ List.replicate (max 1 (byteSize word)) '^')) := by
  rw [marker, Location.ofSpan_eq before word after given]
  simp

theorem Snippet.ofOffsets?_eq :
    ofOffsets? (before ++ word ++ after) ⟨byteSize before, byteSize (before ++ word)⟩ =
      some (ofSpan (before ++ word ++ after) ⟨byteSize before, byteSize (before ++ word)⟩) := by
  obtain ⟨above, top, tail, given, cutAbove, start⟩ := exists_shownFrom before (word ++ after)
  obtain ⟨rows, last, lastRow⟩ := exists_lastRow before
  have cutBefore := cut?_first before (word ++ after)
  have cutAfter := cut?_last (before ++ word) after
  have cutWord := cut?_append before word after
  rw [← List.append_assoc] at cutBefore cutAbove
  have stop := find?_elim '\n' after (byteSize (before ++ word))
  rw [← byteSize_append, ← byteSize_append] at stop
  have cutHidden : cut? (before ++ word ++ after) 0 (byteSize top) = some top := by
    rw [given.whole, List.append_assoc, List.append_assoc]
    exact cut?_first top _
  have cutShown : cut? (before ++ word ++ after) (byteSize top)
      (byteSize (before ++ word ++ after.takeWhile (· ≠ '\n'))) =
        some (tail ++ word ++ after.takeWhile (· ≠ '\n')) := by
    have cut := cut?_append top (tail ++ word ++ after.takeWhile (· ≠ '\n'))
      (after.dropWhile (· ≠ '\n'))
    simp only [← List.append_assoc, ← given.whole] at cut
    rwa [List.append_assoc (before ++ word), List.takeWhile_append_dropWhile] at cut
  have column : minus? (byteSize before) (lineStart before) = some (byteSize last) := by
    simp [minus?, ← lastRow.lineStart_eq]
  have shown := shown_eq before word after
  rw [given.first, given.joined] at shown
  simp only [ofSpan_eq before word after shown, marker_eq before word after lastRow, ofOffsets?,
    cutBefore, cutAbove, cutAfter, start, stop, cutHidden, cutShown, cutWord, column,
    Option.bind_eq_bind, Option.bind_some]
  by_cases feed : '\n' ∈ word
  · simp only [if_pos feed, List.append_nil]
  · simp only [if_neg feed]

end Same

/-! ## Safe and faithful places -/

/-- A location is that of a place: its line is a row of the text, and the bytes of the rows above that
one, each with its line feed, and the column in it make up the offset of the place. -/
structure Location.Locates (location : Location) (source : List Char) (place : Nat) : Prop where
  counted : 1 ≤ location.line
  inside : ∃ row, (rows source)[location.line - 1]? = some row ∧ location.column ≤ byteSize row
  offset : byteSize (((rows source).take (location.line - 1)).flatMap (· ++ ['\n'])) +
    location.column = place

theorem Location.locates_ofSpan (before word after : List Char) (stop : Nat) :
    (ofSpan (before ++ word ++ after) ⟨byteSize before, stop⟩).Locates (before ++ word ++ after)
      (byteSize before) := by
  obtain ⟨above, last, given⟩ := exists_lastRow before
  obtain ⟨below, cut⟩ := given.exists_rows (word ++ after)
  rw [← List.append_assoc] at cut
  rw [ofSpan_eq before word after given]
  refine ⟨Nat.le_add_left _ _, ⟨last ++ (word ++ after).takeWhile (· ≠ '\n'), ?_, ?_⟩, ?_⟩
  · rw [cut]
    simp
  · simp
  · rw [cut, Nat.add_sub_cancel, List.take_left, ← byteSize_append, given.flatMap_above]

/-- Every error about the form of a text is at the token where reading failed. The stretch of that
token is inside of the text and divides no character, so that the location and the snippet of the
error can be found with offsets, and the location is that of the start of the token. -/
theorem failures_are_placed (text : String) :
    (∀ {α : Type} {bound : List Token → Nat}
        {read : (tokens : List Token) → Reading NodeKind α (bound tokens)} {error : Error},
        Source.parse read text = .error error → ∃ span, FailsAt text error span) ∧
      (∀ error, Document.parse text = .error error → ∃ span, FailsAt text error span) ∧
      (∀ error, Schema.parse text = .error error → error.type = .syntactic →
        ∃ span, FailsAt text error span) ∧
      ∀ error span, FailsAt text error span →
        (span.start ≤ span.stop ∧ span.stop ≤ byteSize text.toList ∧
          Boundary text.toList span.start ∧ Boundary text.toList span.stop) ∧
        ∃ location snippet, error.location? = some location ∧ error.context? = some snippet ∧
          Location.ofOffsets? text.toList span = some location ∧
          Snippet.ofOffsets? text.toList span = some snippet ∧
          location.Locates text.toList span.start := by
  refine ⟨FailsAt.of_node, fun _ => FailsAt.of_document, fun _ => FailsAt.of_schema, ?_⟩
  intro error span fails
  obtain ⟨message, rfl⟩ := fails.exists_ofSpan
  have stretch := fails.stretch
  generalize text.toList = source at stretch
  cases stretch with
  | @mk before word after whole ended =>
      subst whole
      refine ⟨⟨?_, ?_, ?_, boundary_append _ _⟩, _, _, rfl, rfl, ?_, ?_, ?_⟩
      · simp
      · simp
      · rw [List.append_assoc]
        exact boundary_append _ _
      · exact Location.ofOffsets?_eq before word after
      · exact Snippet.ofOffsets?_eq before word after
      · exact Location.locates_ofSpan before word after _

/-- A query with a character of two bytes where a selection should be. -/
def sampleAccented : String :=
  "query \x7b\n  é\n\x7d"

theorem failures_are_placed_sampleAccented :
    ∃ error snippet, FailsAt sampleAccented error ⟨10, 12⟩ ∧ error.location? = some ⟨2, 2⟩ ∧
      error.context? = some snippet ∧
      Snippet.ofOffsets? sampleAccented.toList ⟨10, 12⟩ = some snippet ∧
      (Location.mk 2 2).Locates sampleAccented.toList 10 := by
  have failed : Document.read (tokens sampleAccented.toList) =
      .error ⟨.selection, [.invalid, .braceClose]⟩ := by
    decide +kernel
  have span : Source.spanOf sampleAccented.toList [.invalid, .braceClose] = ⟨10, 12⟩ := by
    decide +kernel
  have reported : Document.parse sampleAccented =
      .error (.ofSpan "Invalid Selection" sampleAccented.toList ⟨10, 12⟩) := by
    decide +kernel
  have place : Location.ofSpan sampleAccented.toList ⟨10, 12⟩ = ⟨2, 2⟩ := by
    decide +kernel
  have fails := FailsAt.document failed reported
  rw [span] at fails
  obtain ⟨-, -, -, placed⟩ := failures_are_placed sampleAccented
  obtain ⟨-, location, snippet, located, shown, -, offsets, locates⟩ := placed _ _ fails
  obtain rfl := Option.some.inj located
  rw [place] at locates
  exact ⟨_, snippet, fails, congrArg some place, shown, offsets, locates⟩

end QueryCheck
