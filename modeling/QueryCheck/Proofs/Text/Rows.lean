import QueryCheck.Text.Bytes
import QueryCheck.Text.Lines

/-!
# Rows of a text

A text is cut into rows at its line feeds, and is its rows put together again with a line feed
between each two. A place in a text is in the row that goes back to the last line feed before the
place and on to the next one after it.
-/

namespace QueryCheck.Text

theorem rows_eq_splitOn (cs : List Char) : rows cs = cs.splitOn '\n' :=
  split_eq_splitOn '\n' cs

theorem rows_of_not_mem {cs : List Char} (plain : '\n' ∉ cs) : rows cs = [cs] := by
  rw [rows_eq_splitOn, List.splitOn_eq_singleton plain]

theorem rows_append_feed (before after : List Char) :
    rows (before ++ '\n' :: after) = rows before ++ rows after := by
  simp only [rows_eq_splitOn]
  exact List.splitOn_append_cons_self before after

theorem rows_intercalate {lines : List (List Char)} (plain : ∀ line ∈ lines, '\n' ∉ line)
    (some : lines ≠ []) : rows (['\n'].intercalate lines) = lines := by
  rw [rows_eq_splitOn]
  exact List.splitOn_intercalate '\n' plain some

/-- One more character in front of a text is a row of its own if it is a line feed, and else is put
in front of the first row. -/
theorem rows_cons_cases (c : Char) (cs : List Char) :
    ∃ first below, rows cs = first :: below ∧
      ((c = '\n' ∧ rows (c :: cs) = [] :: first :: below) ∨
        (c ≠ '\n' ∧ rows (c :: cs) = (c :: first) :: below)) := by
  have some : rows cs ≠ [] := by simp [rows_eq_splitOn]
  obtain ⟨first, below, cut⟩ := List.exists_cons_of_ne_nil some
  have step : rows (c :: cs) = if c = '\n' then [] :: rows cs else consFirst c (rows cs) := rfl
  refine ⟨first, below, cut, ?_⟩
  rw [step, cut]
  by_cases feed : c = '\n'
  · exact .inl ⟨feed, if_pos feed⟩
  · exact .inr ⟨feed, if_neg feed⟩

/-- The first row goes on to the first line feed. -/
theorem exists_rows_cons (cs : List Char) :
    ∃ below, rows cs = cs.takeWhile (· ≠ '\n') :: below := by
  induction cs with
  | nil => exact ⟨[], rfl⟩
  | cons c cs ih =>
      obtain ⟨first, below, cut, ⟨rfl, rest⟩ | ⟨plain, rest⟩⟩ := rows_cons_cases c cs
      · exact ⟨first :: below, by simp [rest]⟩
      · obtain ⟨others, whole⟩ := ih
        rw [cut, List.cons.injEq] at whole
        exact ⟨below, by simp [rest, plain, whole.1]⟩

theorem not_mem_of_mem_rows (cs : List Char) : ∀ line ∈ rows cs, '\n' ∉ line := by
  induction cs with
  | nil => simp [rows_of_not_mem]
  | cons c cs ih =>
      obtain ⟨first, below, cut, ⟨feed, rest⟩ | ⟨plain, rest⟩⟩ := rows_cons_cases c cs
      · rw [rest, ← cut, List.forall_mem_cons]
        exact ⟨List.not_mem_nil, ih⟩
      · rw [cut, List.forall_mem_cons] at ih
        rw [rest, List.forall_mem_cons]
        exact ⟨by simp [ih.1, Ne.symm plain], ih.2⟩

theorem length_rows (cs : List Char) : (rows cs).length = cs.count '\n' + 1 := by
  induction cs with
  | nil => rfl
  | cons c cs ih =>
      obtain ⟨first, below, cut, ⟨rfl, rest⟩ | ⟨plain, rest⟩⟩ := rows_cons_cases c cs
      · rw [rest, ← cut, List.length_cons, ih, List.count_cons_self]
      · rw [cut, List.length_cons] at ih
        rw [rest, List.length_cons, ih, List.count_cons_of_ne plain]

/-- The rows of a text, each with a line feed, make up the text and one line feed more, as none ends
the last row. -/
theorem flatMap_rows (cs : List Char) : (rows cs).flatMap (· ++ ['\n']) = cs ++ ['\n'] := by
  induction cs with
  | nil => rfl
  | cons c cs ih =>
      obtain ⟨first, below, cut, ⟨rfl, rest⟩ | ⟨plain, rest⟩⟩ := rows_cons_cases c cs
      · rw [rest, ← cut, List.flatMap_cons, ih, List.nil_append, List.singleton_append,
          List.cons_append]
      · rw [cut, List.flatMap_cons] at ih
        rw [rest, List.flatMap_cons, List.cons_append, List.cons_append, ih, List.cons_append]

/-! ## The last row -/

/-- The last row of a text, and the rows above it. -/
inductive LastRow : List Char → List (List Char) → List Char → Prop where
  | only {last : List Char} (plain : '\n' ∉ last) : LastRow last [] last
  | after (before : List Char) {last : List Char} (plain : '\n' ∉ last) :
      LastRow (before ++ '\n' :: last) (rows before) last

theorem exists_lastRow (cs : List Char) : ∃ above last, LastRow cs above last := by
  induction cs with
  | nil => exact ⟨[], [], .only List.not_mem_nil⟩
  | cons c cs ih =>
      obtain ⟨above, last, given⟩ := ih
      cases given with
      | only plain =>
          by_cases feed : c = '\n'
          · subst feed
            exact ⟨_, _, .after [] plain⟩
          · exact ⟨_, _, .only (by simp [plain, Ne.symm feed])⟩
      | after before plain => exact ⟨_, _, .after (c :: before) plain⟩

namespace LastRow

variable {cs last : List Char} {above : List (List Char)} (given : LastRow cs above last)
include given

theorem plain : '\n' ∉ last := by
  cases given <;> assumption

/-- What comes after a text goes on with its last row. -/
theorem rows_append (rest : List Char) : rows (cs ++ rest) = above ++ rows (last ++ rest) := by
  cases given with
  | only => rfl
  | after before => rw [List.append_assoc, List.cons_append, rows_append_feed]

theorem rows : Text.rows cs = above ++ [last] := by
  have whole := given.rows_append []
  rwa [List.append_nil, List.append_nil, rows_of_not_mem given.plain] at whole

/-- The row in which a place is has what is before the place up to the last line feed, and what is
after it up to the next. -/
theorem exists_rows (rest : List Char) :
    ∃ below, Text.rows (cs ++ rest) = above ++ (last ++ rest.takeWhile (· ≠ '\n')) :: below := by
  obtain ⟨below, cut⟩ := exists_rows_cons (last ++ rest)
  have inside : ∀ c ∈ last, decide (c ≠ '\n') = true := by
    intro c member
    exact decide_eq_true fun feed => given.plain (feed ▸ member)
  rw [List.takeWhile_append_of_pos inside] at cut
  exact ⟨below, by rw [given.rows_append, cut]⟩

theorem plain_above : ∀ line ∈ above, '\n' ∉ line := by
  have all : ∀ line ∈ Text.rows cs, '\n' ∉ line := not_mem_of_mem_rows cs
  rw [given.rows, List.forall_mem_append] at all
  exact all.1

theorem plain_line (rest : List Char) : '\n' ∉ last ++ rest.takeWhile (· ≠ '\n') := by
  obtain ⟨below, cut⟩ := given.exists_rows rest
  refine not_mem_of_mem_rows (cs ++ rest) _ ?_
  rw [cut]
  exact List.mem_append_right _ List.mem_cons_self

theorem length_above : above.length = cs.count '\n' := by
  have lengths := length_rows cs
  rw [given.rows, List.length_append] at lengths
  exact Nat.succ.inj lengths

/-- A text is the rows above its last one, each with its line feed, and the last row. -/
theorem flatMap_above : above.flatMap (· ++ ['\n']) ++ last = cs := by
  cases given with
  | only => rfl
  | after before => rw [flatMap_rows, List.append_assoc, List.singleton_append]

end LastRow

end QueryCheck.Text
