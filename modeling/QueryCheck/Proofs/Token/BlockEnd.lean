import QueryCheck.Proofs.Token.BlockSpelling
import QueryCheck.Token.Block

/-!
# The end of a block string

A block string is read up to the first three quotes that have no backslash before them. The
backslashes of the quotes that are passed over on the way are left out. They are the same that
are left out if escaped quotes are replaced in the text that was read.
-/

namespace QueryCheck

open Spelling

/-! ## Patterns -/

namespace Spelling

section Patterns

variable {pattern text before : List Char} {c : Char}

theorem FirstAfter.cons (first : FirstAfter pattern text before) (other : ¬pattern <+: c :: text) :
    FirstAfter pattern (c :: text) (c :: before) := by
  refine ⟨List.cons_prefix_cons.mpr ⟨rfl, first.found⟩, ?_⟩
  intro shorter occurs
  cases shorter with
  | nil => exact absurd occurs other
  | cons d shorter =>
      have inside := (List.cons_prefix_cons.mp occurs).2
      exact Nat.succ_le_succ (first.first shorter inside)

theorem FirstAfter.tail (first : FirstAfter pattern (c :: text) (c :: before)) :
    FirstAfter pattern text before := by
  refine ⟨(List.cons_prefix_cons.mp first.found).2, ?_⟩
  intro shorter occurs
  have inside := first.first (c :: shorter) (List.cons_prefix_cons.mpr ⟨rfl, occurs⟩)
  exact Nat.le_of_succ_le_succ inside

theorem FirstAfter.not_prefix (first : FirstAfter pattern text (c :: before)) :
    ¬pattern <+: text := by
  intro occurs
  exact absurd (first.first [] occurs) (by simp)

/-- There is no pattern before the first one. -/
theorem FirstAfter.not_infix (first : FirstAfter pattern text before) (some : pattern ≠ []) :
    ¬pattern <:+: before := by
  rintro ⟨shorter, rest, rfl⟩
  have occurs : shorter ++ pattern <+: text :=
    ((List.prefix_append _ rest).trans (List.prefix_append _ pattern)).trans first.found
  have bound := first.first shorter occurs
  have := List.length_pos_iff.mpr some
  simp only [List.length_append] at bound
  omega

theorem exists_firstAfter (occurs : pattern <:+: text) :
    ∃ before rest, text = before ++ pattern ++ rest ∧ FirstAfter pattern text before := by
  induction text with
  | nil =>
      have none : pattern = [] := List.eq_nil_of_infix_nil occurs
      exact ⟨[], [], by simp [none], by simp [none], by simp⟩
  | cons c text ih =>
      by_cases here : pattern <+: c :: text
      · obtain ⟨rest, same⟩ := here
        exact ⟨[], rest, same.symm, ⟨rest, same⟩, fun _ _ => Nat.zero_le _⟩
      · have later : pattern <:+: text := (List.infix_cons_iff.mp occurs).resolve_left here
        obtain ⟨before, rest, same, first⟩ := ih later
        exact ⟨c :: before, rest, by simp [same], first.cons here⟩

/-- Every text has its patterns replaced in some way. -/
theorem exists_replaces (some : pattern ≠ []) (new text : List Char) :
    ∃ replaced, Replaces pattern new text replaced := by
  by_cases occurs : pattern <:+: text
  · obtain ⟨before, rest, rfl, first⟩ := exists_firstAfter occurs
    have shorter : rest.length < (before ++ pattern ++ rest).length := by
      have := List.length_pos_iff.mpr some
      simp only [List.length_append]
      omega
    obtain ⟨replaced, after⟩ := exists_replaces some new rest
    exact ⟨_, .first first after⟩
  · exact ⟨text, .absent occurs⟩
termination_by text.length

/-- A pattern that starts before a character that is none of its own also ends before it. -/
theorem prefix_of_foreign {shorter rest : List Char}
    (occurs : shorter ++ pattern <+: before ++ c :: rest) (foreign : c ∉ pattern)
    (early : shorter.length ≤ before.length) : shorter ++ pattern <+: before := by
  obtain ⟨inner, rfl⟩ : shorter <+: before :=
    List.prefix_of_prefix_length_le ((List.prefix_append shorter pattern).trans occurs)
      (List.prefix_append before _) early
  rw [List.append_assoc, List.prefix_append_right_inj] at occurs
  rw [List.prefix_append_right_inj]
  rcases List.prefix_or_prefix_of_prefix occurs (List.prefix_append inner _) with inside | beyond
  · exact inside
  · obtain ⟨tail, rfl⟩ := beyond
    rw [List.prefix_append_right_inj] at occurs
    cases tail with
    | nil => simp
    | cons d tail =>
        obtain ⟨rfl, _⟩ := List.cons_prefix_cons.mp occurs
        exact absurd (List.mem_append_right inner List.mem_cons_self) foreign

/-- If a pattern does not occur in a text, it occurs first after another character that follows. -/
theorem firstAfter_of_foreign (absent : ¬pattern <:+: before) (foreign : c ∉ pattern)
    (rest : List Char) : FirstAfter pattern (before ++ c :: pattern ++ rest) (before ++ [c]) := by
  refine ⟨⟨rest, by simp⟩, ?_⟩
  intro shorter occurs
  rw [List.append_assoc, List.cons_append] at occurs
  refine Nat.le_of_not_lt fun early => ?_
  have within : shorter.length ≤ before.length := by
    rw [List.length_append, List.length_singleton] at early
    exact Nat.le_of_lt_succ early
  exact absent ((List.suffix_append shorter pattern).isInfix.trans
    (prefix_of_foreign occurs foreign within).isInfix)

end Patterns

/-! ## Closing quotes -/

section Closing

variable {text raw plain rest : List Char} {c : Char}

/-- What is read up to its closing quotes is at the start of the text. -/
theorem Closes.isPrefix (closes : Closes text raw plain) : raw ++ quotes <+: text := by
  induction closes with
  | closing found => exact found.found
  | escaped _ _ ih => simpa only [List.append_assoc, List.prefix_append_right_inj] using ih

/-- Escaped quotes that are passed over are all those that there are. -/
theorem Closes.replaces (closes : Closes text raw plain) :
    Replaces escapedQuotes quotes raw plain := by
  induction closes with
  | @closing text raw found unescaped =>
      refine .absent ?_
      rintro ⟨shorter, rest, same⟩
      have occurs : shorter ++ ['\\'] ++ quotes <+: text := by
        refine .trans ⟨rest ++ quotes, ?_⟩ found.found
        simp [← same, escapedQuotes]
      have bound := found.first _ occurs
      simp only [← same, escapedQuotes, quotes, List.length_append, List.length_cons,
        List.length_nil] at bound
      omega
  | @escaped before rest raw plain found after ih =>
      refine .first ⟨List.prefix_append _ _, ?_⟩ ih
      intro shorter occurs
      have inText : shorter ++ ['\\'] ++ quotes <+: before ++ escapedQuotes ++ rest := by
        rw [List.append_assoc]
        refine occurs.trans ?_
        rw [List.prefix_append_right_inj]
        exact (List.prefix_append raw quotes).trans after.isPrefix
      have bound := found.first _ inText
      simpa using bound

/-- A character that takes part in no quotes is passed over. -/
theorem Closes.cons (closes : Closes rest raw plain) (closed : ¬quotes <+: c :: rest)
    (escaped : ¬escapedQuotes <+: c :: rest) : Closes (c :: rest) (c :: raw) (c :: plain) := by
  cases closes with
  | closing found unescaped =>
      refine .closing (found.cons closed) ?_
      cases raw with
      | nil =>
          rintro ⟨⟩
          exact escaped (List.cons_prefix_cons.mpr ⟨rfl, found.found⟩)
      | cons d raw =>
          rw [List.getLast?_cons_cons]
          exact unescaped
  | @escaped before rest raw plain found after =>
      exact @Closes.escaped (c :: before) rest raw plain (found.cons closed) after

/-- Quotes that were escaped are passed over up to those on a line of their own. -/
theorem closes_of_replaces {content escaped : List Char}
    (replaces : Replaces quotes escapedQuotes content escaped) :
    Closes (escaped ++ '\n' :: quotes) (escaped ++ ['\n']) (content ++ ['\n']) := by
  induction replaces with
  | @absent content absent =>
      refine .closing ?_ (by simp)
      simpa using firstAfter_of_foreign absent (by decide : '\n' ∉ quotes) []
  | @first before rest replaced found after ih =>
      have absent : ¬quotes <:+: before := found.not_infix (by decide)
      have first := firstAfter_of_foreign absent (by decide : '\\' ∉ quotes)
        (replaced ++ '\n' :: quotes)
      have closes := Closes.escaped first ih
      simpa only [escapedQuotes, List.append_assoc, List.cons_append] using closes

end Closing

end Spelling

/-! ## Reading up to the closing quotes -/

namespace Block

section Raw

variable {text raw plain rest : List Char} {c : Char}

theorem raw?_escapedQuotes (rest : List Char) :
    raw? (escapedQuotes ++ rest) =
      (raw? rest).map fun (plain, count) => (quotes ++ plain, count + 4) := by
  change raw? ('\\' :: '"' :: '"' :: '"' :: rest) = _
  rw [raw?]
  cases raw? rest <;> rfl

theorem raw?_cons (closed : ¬quotes <+: c :: rest) (escaped : ¬escapedQuotes <+: c :: rest) :
    raw? (c :: rest) = (raw? rest).map fun (plain, count) => (c :: plain, count + 1) := by
  rw [raw?.eq_def]
  split
  next same => cases same
  next same => exact absurd ⟨_, same.symm⟩ escaped
  next same => exact absurd ⟨_, same.symm⟩ closed
  next same =>
    cases same
    cases raw? rest <;> rfl

/-- A backslash is read as itself if the next quotes do not come right after it. -/
theorem not_escapedQuotes (found : FirstAfter quotes (c :: text) (c :: raw))
    (apart : raw = [] → c ≠ '\\') : ¬escapedQuotes <+: c :: text := by
  intro escaped
  obtain ⟨same, here⟩ := List.cons_prefix_cons.mp escaped
  have none : raw = [] := List.eq_nil_of_length_eq_zero (Nat.le_zero.mp (found.tail.first [] here))
  exact apart none same.symm

theorem raw?_closing (found : FirstAfter quotes text raw) (unescaped : raw.getLast? ≠ some '\\') :
    raw? text = some (raw, (raw ++ quotes).length) := by
  induction raw generalizing text with
  | nil =>
      obtain ⟨rest, rfl⟩ := found.found
      rfl
  | cons c raw ih =>
      obtain ⟨rest, rfl⟩ := found.found
      have inside : raw.getLast? ≠ some '\\' := by
        cases raw with
        | nil => simp
        | cons d raw => rwa [List.getLast?_cons_cons] at unescaped
      have apart : raw = [] → c ≠ '\\' := by
        rintro rfl rfl
        exact unescaped rfl
      rw [List.cons_append, List.cons_append] at found ⊢
      rw [raw?_cons found.not_prefix (not_escapedQuotes found apart), ih found.tail inside]
      rfl

theorem raw?_escaped {before : List Char}
    (found : FirstAfter quotes (before ++ escapedQuotes ++ rest) (before ++ ['\\'])) :
    raw? (before ++ escapedQuotes ++ rest) = (raw? rest).map fun (plain, count) =>
      (before ++ quotes ++ plain, count + (before ++ escapedQuotes).length) := by
  induction before with
  | nil => exact raw?_escapedQuotes rest
  | cons c before ih =>
      rw [List.cons_append, List.cons_append, List.cons_append] at found
      rw [List.cons_append, List.cons_append,
        raw?_cons found.not_prefix (not_escapedQuotes found (by simp)), ih found.tail,
        Option.map_map]
      rfl

theorem exists_closes {count : Nat} (reads : raw? text = some (plain, count)) :
    ∃ raw, Closes text raw plain ∧ count = (raw ++ quotes).length := by
  induction text using raw?.induct generalizing plain count with
  | case1 => cases reads
  | case2 rest ih =>
      change raw? (escapedQuotes ++ rest) = _ at reads
      rw [raw?_escapedQuotes, Option.map_eq_some_iff] at reads
      obtain ⟨⟨inner, size⟩, readsRest, same⟩ := reads
      cases same
      obtain ⟨raw, closes, rfl⟩ := ih readsRest
      have found : FirstAfter quotes ([] ++ escapedQuotes ++ rest) ([] ++ ['\\']) :=
        firstAfter_of_foreign (by decide) (by decide) rest
      exact ⟨_, .escaped found closes, by simp [escapedQuotes, quotes]⟩
  | case3 rest =>
      cases reads
      exact ⟨[], .closing ⟨⟨rest, rfl⟩, fun _ _ => Nat.zero_le _⟩ (by simp), rfl⟩
  | case4 c rest unescaped unclosed ih =>
      have closed : ¬quotes <+: c :: rest := by
        rintro ⟨after, same⟩
        cases same
        exact unclosed after rfl rfl
      have escaped : ¬escapedQuotes <+: c :: rest := by
        rintro ⟨after, same⟩
        cases same
        exact unescaped after rfl rfl
      rw [raw?_cons closed escaped, Option.map_eq_some_iff] at reads
      obtain ⟨⟨inner, size⟩, readsRest, same⟩ := reads
      cases same
      obtain ⟨raw, closes, rfl⟩ := ih readsRest
      exact ⟨_, closes.cons closed escaped, rfl⟩

/-- Reading goes up to the closing quotes if there are any, and fails otherwise. -/
theorem raw?_eq_some_iff {count : Nat} :
    raw? text = some (plain, count) ↔
      ∃ raw, Closes text raw plain ∧ count = (raw ++ quotes).length := by
  refine ⟨exists_closes, ?_⟩
  rintro ⟨raw, closes, rfl⟩
  induction closes with
  | closing found unescaped => exact raw?_closing found unescaped
  | escaped found _ ih =>
      rw [raw?_escaped found, ih]
      simp +arith

end Raw

end Block

end QueryCheck
