import Mathlib.Data.List.Forall2
import QueryCheck.Path
import QueryCheck.Proofs.Token.CutTokens

/-!
# Paths as texts

A path is read back from what is written for it, as long as its indexes are below the bound. An
index may also be given with a plus sign or with zeros in front of it. No other text is read as a
path without being the one that is written for that path.
-/

namespace QueryCheck

open Spelling

/-! ## Numbers and their digits -/

/-- A number is written without superfluous zeros. -/
theorem natural_toDigits (number : Nat) : Natural (Nat.toDigits 10 number) := by
  induction number using Nat.strongRecOn with
  | ind number ih =>
      have digit : ∀ n < 10, IsDigit n.digitChar ∧ (n ≠ 0 → '1' ≤ n.digitChar) := by decide
      rw [Nat.toDigits_eq_if (by decide)]
      split
      next small =>
        by_cases zero : number = 0
        · rw [zero]
          exact .zero
        · exact .positive ⟨(digit number small).2 zero, (digit number small).1.2⟩ (by simp)
      next large =>
        -- The digits before the last are not a zero alone, as the number is at least ten.
        have value := Nat.ofDigitChars_ten_toDigits (n := number / 10)
        have before := ih (number / 10) (by omega)
        have last := (digit (number % 10) (Nat.mod_lt number (by decide))).1
        generalize Nat.toDigits 10 (number / 10) = digits at value before
        cases before with
        | zero =>
            have none : 0 = number / 10 := value
            omega
        | positive first rest =>
            exact .positive first (List.forall_mem_append.mpr ⟨rest, by simpa using last⟩)

theorem Spelling.IsDigit.toNat_bounds {c : Char} (digit : IsDigit c) :
    '0'.toNat ≤ c.toNat ∧ c.toNat ≤ '0'.toNat + 9 :=
  ⟨Char.le_def.mp digit.1, Char.le_def.mp digit.2⟩

theorem Spelling.IsDigit.digitChar {c : Char} (digit : IsDigit c) :
    (c.toNat - '0'.toNat).digitChar = c := by
  have bounds := digit.toNat_bounds
  apply Char.toNat_inj.mp
  rw [Nat.toNat_digitChar_of_lt_ten (by omega)]
  exact Nat.add_sub_cancel' bounds.1

/-- Digits behind a number are the last digits of the number they make up together. -/
theorem toDigits_ofDigitChars {before : Nat} (some : 0 < before) {digits : List Char}
    (inside : ∀ c ∈ digits, IsDigit c) :
    Nat.toDigits 10 (Nat.ofDigitChars 10 digits before) = Nat.toDigits 10 before ++ digits := by
  induction digits generalizing before with
  | nil => rw [Nat.ofDigitChars_nil, List.append_nil]
  | cons c digits ih =>
      rw [List.forall_mem_cons] at inside
      have bounds := inside.1.toNat_bounds
      have small : c.toNat - '0'.toNat < 10 := by omega
      rw [Nat.ofDigitChars_cons, ih (by omega) inside.2,
        ← Nat.toDigits_append_toDigits (by decide) some small, Nat.toDigits_of_lt_base small,
        inside.1.digitChar, List.append_assoc]
      rfl

theorem Spelling.Natural.toDigits {digits : List Char} (natural : Natural digits) :
    Nat.toDigits 10 (Nat.ofDigitChars 10 digits 0) = digits := by
  cases natural with
  | zero => rfl
  | @positive c cs first rest =>
      have digit : IsDigit c := Number.isDigit_iff.mp (Number.isDigit_of_nonzero first)
      have bounds := digit.toNat_bounds
      have low : '0'.toNat + 1 ≤ c.toNat := Char.le_def.mp first.1
      rw [Nat.ofDigitChars_cons, Nat.mul_zero, Nat.zero_add, toDigits_ofDigitChars (by omega) rest,
        Nat.toDigits_of_lt_base (by omega), digit.digitChar]
      rfl

theorem Spelling.Natural.digits {text : List Char} (natural : Natural text) : Digits text := by
  cases natural with
  | zero => exact ⟨by simp, by simp; decide⟩
  | positive first rest =>
      refine ⟨by simp, List.forall_mem_cons.mpr ⟨?_, rest⟩⟩
      exact Number.isDigit_iff.mp (Number.isDigit_of_nonzero first)

theorem digits_iff {text : List Char} : Digits text ↔ text ≠ [] ∧ ∀ c ∈ text, IsDigit c :=
  ⟨fun digits => ⟨digits.nonempty, digits.digits⟩, fun both => ⟨both.1, both.2⟩⟩

/-- Digits have no superfluous zero unless a zero is in front of others. -/
theorem Spelling.Digits.natural_iff {text : List Char} (digits : Digits text) :
    Natural text ↔ ¬∃ c cs, text = '0' :: c :: cs := by
  constructor
  · rintro natural ⟨c, cs, rfl⟩
    cases natural with
    | positive first => exact absurd first.1 (by decide)
  · intro plain
    obtain ⟨c, cs, rfl⟩ := List.exists_cons_of_ne_nil digits.nonempty
    have all := List.forall_mem_cons.mp digits.digits
    by_cases zero : c = '0'
    · subst zero
      cases cs with
      | nil => exact .zero
      | cons d ds => exact absurd ⟨d, ds, rfl⟩ plain
    · exact .positive (Number.nonzero_of_isDigit (Number.isDigit_iff.mpr all.1) zero) all.2

/-! ## Segments -/

namespace PathSegment

/-- A segment whose index, if it is one, is below the bound. -/
def Fits (segment : PathSegment) : Prop :=
  ∀ place, segment = index place → place < indexBound

def Signed (part : List Char) : Prop :=
  part.head? = some '+'

/-- A zero is in front of other digits. -/
def Padded (part : List Char) : Prop :=
  ∃ c cs, dropPlus part = '0' :: c :: cs

theorem decimal?_eq_some {cs : List Char} {number : Nat} :
    decimal? cs = some number ↔ Digits cs ∧ Nat.ofDigitChars 10 cs 0 = number := by
  have accepted : (cs.isEmpty || !cs.all Number.isDigit) = false ↔ Digits cs := by
    simp [digits_iff, Number.isDigit_iff]
  rw [decimal?, Nat.ofDigitChars_eq_foldl]
  by_cases digits : Digits cs
  · simp [accepted.mpr digits, digits, Nat.mul_comm 10]
  · simp [Bool.of_not_eq_false (mt accepted.mp digits), digits]

theorem dropPlus_of_not_signed {part : List Char} (unsigned : ¬Signed part) :
    dropPlus part = part := by
  rw [dropPlus.eq_def]
  split
  next => exact absurd rfl unsigned
  next => rfl

theorem parseIndex?_eq_some {part : List Char} {place : Nat} :
    parseIndex? part = some place ↔
      Digits (dropPlus part) ∧ Nat.ofDigitChars 10 (dropPlus part) 0 = place ∧
        place < indexBound := by
  rw [parseIndex?, Option.filter_eq_some_iff, decimal?_eq_some, decide_eq_true_eq, and_assoc]

theorem not_signed_of_digits {text : List Char} (digits : Digits text) : ¬Signed text := by
  intro signed
  have plus := digits.digits '+' (List.mem_of_mem_head? signed)
  exact absurd plus (by decide)

theorem parseIndex?_toDigits {place : Nat} (fits : place < indexBound) :
    parseIndex? (Nat.toDigits 10 place) = some place := by
  have digits := (natural_toDigits place).digits
  rw [parseIndex?_eq_some, dropPlus_of_not_signed (not_signed_of_digits digits)]
  exact ⟨digits, Nat.ofDigitChars_ten_toDigits, fits⟩

/-- An index is written as it is given unless that was with a plus sign or with zeros in front. -/
theorem toDigits_eq_iff {part : List Char} {place : Nat} (reads : parseIndex? part = some place) :
    Nat.toDigits 10 place = part ↔ ¬Signed part ∧ ¬Padded part := by
  obtain ⟨digits, rfl, -⟩ := parseIndex?_eq_some.mp reads
  constructor
  · intro same
    have natural := natural_toDigits (Nat.ofDigitChars 10 (dropPlus part) 0)
    rw [same] at natural
    have unsigned := not_signed_of_digits natural.digits
    refine ⟨unsigned, ?_⟩
    rw [Padded, dropPlus_of_not_signed unsigned]
    exact natural.digits.natural_iff.mp natural
  · rintro ⟨unsigned, plain⟩
    have natural := digits.natural_iff.mpr plain
    rw [natural.toDigits, dropPlus_of_not_signed unsigned]

theorem toList_print_index (place : Nat) : (index place).print.toList = Nat.toDigits 10 place := by
  rw [print, Nat.toString_eq_repr, Nat.toList_repr]

/-- A segment is read back from what is written for it. -/
theorem parse_print {segment : PathSegment} (fits : segment.Fits) :
    parse segment.print = .ok segment := by
  cases segment with
  | index place => rw [parse, toList_print_index, parseIndex?_toDigits (fits place rfl)]
  | arguments | directives | selectionSet | variableDefinitions => decide

/-- What is read as a segment is an index or the word for the segment. -/
theorem cases_of_parse {text : String} {segment : PathSegment} (reads : parse text = .ok segment) :
    (∃ place, segment = index place ∧ parseIndex? text.toList = some place) ∨
      segment.word? = some text := by
  rw [parse] at reads
  split at reads
  next place found =>
    cases reads
    exact .inl ⟨place, rfl, found⟩
  next =>
    split at reads
    next found =>
      cases reads
      have named := List.find?_some found
      exact .inr (of_decide_eq_true named)
    next => cases reads

theorem print_of_word? {segment : PathSegment} {text : String}
    (named : segment.word? = some text) : segment.print = text := by
  cases segment with
  | index => cases named
  | arguments | directives | selectionSet | variableDefinitions => exact Option.some.inj named

theorem fits_of_parse {text : String} {segment : PathSegment} (reads : parse text = .ok segment) :
    segment.Fits := by
  rintro place rfl
  rcases cases_of_parse reads with ⟨_, ⟨⟩, found⟩ | named
  · exact (parseIndex?_eq_some.mp found).2.2
  · cases named

/-- A segment is written as it is given unless it is an index with a plus sign or with zeros in
front. -/
theorem print_eq_iff {text : String} {segment : PathSegment} (reads : parse text = .ok segment) :
    segment.print = text ↔
      ∀ place, parse text = .ok (index place) → ¬Signed text.toList ∧ ¬Padded text.toList := by
  rw [reads]
  rcases cases_of_parse reads with ⟨place, rfl, found⟩ | named
  · rw [← String.toList_inj, toList_print_index, toDigits_eq_iff found]
    simp
  · have unindexed : ∀ place, segment ≠ index place := by
      rintro place rfl
      cases named
    simp [print_of_word? named, unindexed]

/-- No segment is written with a point, and none as nothing. -/
theorem print_pointless (segment : PathSegment) :
    '.' ∉ segment.print.toList ∧ segment.print.toList ≠ [] := by
  cases segment with
  | index place =>
      have digits := (natural_toDigits place).digits
      rw [toList_print_index]
      exact ⟨fun point => absurd (digits.digits '.' point) (by decide), digits.nonempty⟩
  | arguments | directives | selectionSet | variableDefinitions => decide

end PathSegment

/-! ## Paths -/

namespace Path

def Fits (path : Path) : Prop :=
  ∀ segment ∈ path.segments, segment.Fits

def parts (text : String) : List String :=
  (Text.split '.' text.toList).map String.ofList

theorem parseAll_eq_ok_iff {texts : List String} {segments : List PathSegment} :
    parseAll texts = .ok segments ↔
      List.Forall₂ (fun text segment => PathSegment.parse text = .ok segment) texts segments := by
  induction texts generalizing segments with
  | nil =>
      rw [parseAll, List.forall₂_nil_left_iff, Except.ok.injEq, eq_comm]
  | cons text texts ih =>
      simp only [parseAll, List.forall₂_cons_left_iff, Except.bind_eq_ok_iff, ih, Except.ok.injEq]
      constructor
      · rintro ⟨segment, first, others, rest, rfl⟩
        exact ⟨segment, others, first, rest, rfl⟩
      · rintro ⟨segment, others, first, rest, rfl⟩
        exact ⟨segment, first, others, rest, rfl⟩

theorem toList_print (path : Path) :
    path.print.toList = ['.'].intercalate (path.segments.map (·.print.toList)) := by
  rw [print, String.toList_intercalate, List.map_map]
  rfl

/-- A path that is not empty is cut into its segments where points are. -/
theorem parts_print {path : Path} (some : path.segments ≠ []) :
    parts path.print = path.segments.map PathSegment.print := by
  have pointless : ∀ part ∈ path.segments.map (·.print.toList), '.' ∉ part := by
    intro part member
    obtain ⟨segment, -, rfl⟩ := List.mem_map.mp member
    exact segment.print_pointless.1
  rw [parts, toList_print, Text.split_eq_splitOn,
    List.splitOn_intercalate '.' pointless (by simpa using some), List.map_map]
  simp

theorem eq_root_of_segments {path : Path} (none : path.segments = []) : path = root := by
  rw [← ofSegments_segments path, none]
  rfl

theorem print_ne_empty {path : Path} (some : path.segments ≠ []) : path.print ≠ "" := by
  intro empty
  obtain ⟨segment, segments, given⟩ := List.exists_cons_of_ne_nil some
  have parted := parts_print some
  rw [given, empty] at parted
  -- An empty text is cut into one empty part, but no segment is written as nothing.
  have first : "" = segment.print := List.head_eq_of_cons_eq parted
  exact segment.print_pointless.2 (by rw [← first]; rfl)

/-- A text is read as a path part by part. -/
theorem parse_eq_ok_iff {text : String} (some : text ≠ "") {path : Path} :
    parse text = .ok path ↔
      List.Forall₂ (fun part segment => PathSegment.parse part = .ok segment) (parts text)
        path.segments := by
  rw [← parseAll_eq_ok_iff, parse, if_neg (by simpa using some), ← parts, Except.bind_eq_ok_iff]
  constructor
  · rintro ⟨segments, read, ⟨⟩⟩
    rw [segments_ofSegments, read]
  · intro read
    exact ⟨path.segments, read, congrArg _ (ofSegments_segments path)⟩

/-- A path is read back from what is written for it. -/
theorem parse_print {path : Path} (fits : path.Fits) : parse path.print = .ok path := by
  by_cases none : path.segments = []
  · rw [eq_root_of_segments none]
    rfl
  · rw [parse_eq_ok_iff (print_ne_empty none), parts_print none, List.forall₂_map_left_iff,
      List.forall₂_same]
    exact fun segment member => PathSegment.parse_print (fits segment member)

/-- A text is what is put together of its parts. -/
theorem parts_injective {first second : String} (same : parts first = parts second) :
    first = second := by
  have joined (text : String) :
      ['.'].intercalate ((parts text).map String.toList) = text.toList := by
    rw [parts, Text.split_eq_splitOn, List.map_map]
    simp [Function.comp_def, List.intercalate_splitOn]
  rw [← String.toList_inj, ← joined first, same, joined second]

section Reads

variable {texts : List String} {segments : List PathSegment}
  (reads : List.Forall₂ (fun text segment => PathSegment.parse text = .ok segment) texts segments)
include reads

theorem forall_fits : ∀ segment ∈ segments, segment.Fits := by
  induction reads with
  | nil => exact List.forall_mem_nil _
  | cons head _ ih => exact List.forall_mem_cons.mpr ⟨PathSegment.fits_of_parse head, ih⟩

theorem map_print_eq_iff :
    segments.map PathSegment.print = texts ↔
      ∀ text ∈ texts, ∀ place, PathSegment.parse text = .ok (.index place) →
        ¬PathSegment.Signed text.toList ∧ ¬PathSegment.Padded text.toList := by
  induction reads with
  | nil => simp
  | cons head _ ih =>
      rw [List.map_cons, List.cons.injEq, PathSegment.print_eq_iff head, ih, List.forall_mem_cons]

end Reads

theorem fits_of_parse {text : String} {path : Path} (reads : parse text = .ok path) :
    path.Fits := by
  by_cases empty : text = ""
  · subst empty
    cases reads
    exact List.forall_mem_nil _
  · exact forall_fits ((parse_eq_ok_iff empty).mp reads)

theorem print_eq_iff {text : String} {path : Path} (reads : parse text = .ok path) :
    path.print = text ↔
      ∀ part ∈ parts text, ∀ place, PathSegment.parse part = .ok (.index place) →
        ¬PathSegment.Signed part.toList ∧ ¬PathSegment.Padded part.toList := by
  by_cases empty : text = ""
  · subst empty
    cases reads
    refine iff_of_true rfl fun part member place index => ?_
    rw [show parts "" = [""] from rfl, List.mem_singleton] at member
    rw [member, show PathSegment.parse "" = .error ⟨""⟩ by decide] at index
    cases index
  · rw [parse_eq_ok_iff empty] at reads
    have some : path.segments ≠ [] := by
      intro none
      rw [none, List.forall₂_nil_right_iff] at reads
      simp [parts, Text.split_eq_splitOn] at reads
    rw [← map_print_eq_iff reads, ← parts_print some]
    exact ⟨fun same => by rw [same], parts_injective⟩

/-- Paths survive printing. A path with indexes below the bound is read back from its written form,
so no two such paths are written alike. What is read as a path is written as it was given unless
some index of it has a plus sign or zeros in front, and is read again from what is written. -/
theorem survives_printing :
    (∀ path : Path, path.Fits → parse path.print = .ok path) ∧
      (∀ first second : Path, first.Fits → second.Fits → first ≠ second →
        first.print ≠ second.print) ∧
      ∀ (text : String) (path : Path), parse text = .ok path →
        path.Fits ∧ parse path.print = .ok path ∧
          (path.print = text ↔
            ∀ part ∈ parts text, ∀ place, PathSegment.parse part = .ok (.index place) →
              ¬PathSegment.Signed part.toList ∧ ¬PathSegment.Padded part.toList) := by
  refine ⟨fun _ => parse_print, ?_, ?_⟩
  · intro first second fitsFirst fitsSecond differ same
    have reads := parse_print fitsFirst
    rw [same, parse_print fitsSecond] at reads
    exact differ (Except.ok.inj reads).symm
  · intro text path reads
    have fits := fits_of_parse reads
    exact ⟨fits, parse_print fits, print_eq_iff reads⟩

def sampleDeep : Path :=
  .ofSegments [.index 0, .selectionSet, .index 18446744073709551615, .arguments]

theorem survives_printing_sampleDeep :
    sampleDeep.Fits ∧ sampleDeep.print = "0.selectionSet.18446744073709551615.arguments" ∧
      parse "0.selectionSet.18446744073709551615.arguments" = .ok sampleDeep ∧
      parse "+0.selectionSet.018446744073709551615.arguments" = .ok sampleDeep ∧
      ¬∀ part ∈ parts "+0.selectionSet.018446744073709551615.arguments",
        ∀ place, PathSegment.parse part = .ok (.index place) →
          ¬PathSegment.Signed part.toList ∧ ¬PathSegment.Padded part.toList := by
  have fits : sampleDeep.Fits := by
    simp [Fits, sampleDeep, PathSegment.Fits, PathSegment.indexBound, UInt64.size]
  have printed : sampleDeep.print = "0.selectionSet.18446744073709551615.arguments" := by
    decide +kernel
  have other : parse "+0.selectionSet.018446744073709551615.arguments" = .ok sampleDeep := by
    decide +kernel
  obtain ⟨reads, -, again⟩ := survives_printing
  have back := reads sampleDeep fits
  rw [printed] at back
  refine ⟨fits, printed, back, other, ?_⟩
  rw [← (again _ _ other).2.2, printed]
  decide

end Path

end QueryCheck
