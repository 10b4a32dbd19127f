import QueryCheck.Proofs.Token.LongestMatch
import QueryCheck.Proofs.Token.Printing

/-!
# Where tokens stand

A source text is cut into tokens and text between them, and nothing of it is lost: each token has
a stretch of the text of its own, these follow one another, and all that is outside of them has
no meaning. A token is the longest that is written in its place, and names and numbers hold the
text that is there.
-/

namespace QueryCheck

open Spelling

/-! ## Stretches of a text -/

def Text.slice (source : List Char) (span : Span) : List Char :=
  takeBytes (span.stop - span.start) (dropBytes span.start source)

/-- A place between two characters of a text, or at one of its ends. -/
def Text.Boundary (source : List Char) (place : Nat) : Prop :=
  ∃ before, before <+: source ∧ byteSize before = place

/-- The stretches before tokens, each from the end of the token before. -/
def gapsBefore (start : Nat) : List Lexeme → List Span
  | [] => []
  | lexeme :: lexemes => ⟨start, lexeme.span.start⟩ :: gapsBefore lexeme.span.stop lexemes

def endOfLast (start : Nat) : List Lexeme → Nat
  | [] => start
  | lexeme :: lexemes => endOfLast lexeme.span.stop lexemes

/-- Text after the last token. A comment may go on to the end of it. -/
inductive Spelling.Trailing : List Char → Prop where
  | gap {text : List Char} (given : Gap text) : Trailing text
  | comment {gap text : List Char} (before : Gap gap) (inside : ∀ c ∈ text, c ≠ '\n' ∧ c ≠ '\r') :
      Trailing (gap ++ '#' :: text)

/-- The text of a name or a number, with the sign of a variable or a directive. -/
def Token.Carries : Token → List Char → Prop
  | .name payload, text | .integer payload, text | .float payload, text => text = payload.toList
  | .variableName payload, text => text = '$' :: payload.toList
  | .directiveName payload, text => text = '@' :: payload.toList
  | _, _ => True

structure Covers (source : List Char) (lexemes : List Lexeme) : Prop where
  /-- No token is empty. -/
  nonempty : ∀ lexeme ∈ lexemes, lexeme.span.start < lexeme.span.stop
  /-- All tokens are inside of the text. -/
  bounds : ∀ lexeme ∈ lexemes, lexeme.span.stop ≤ Text.byteSize source
  /-- No character is cut. -/
  boundaries : ∀ lexeme ∈ lexemes,
    Text.Boundary source lexeme.span.start ∧ Text.Boundary source lexeme.span.stop
  /-- Each token starts after all tokens before it end. -/
  increasing : lexemes.Pairwise fun first second =>
    first.span.start < second.span.start ∧ first.span.stop ≤ second.span.start
  /-- What is before a token has no meaning. -/
  before : ∀ gap ∈ gapsBefore 0 lexemes, Gap (Text.slice source gap)
  /-- Nor has what is after the last one. -/
  after : Trailing (Text.slice source ⟨endOfLast 0 lexemes, Text.byteSize source⟩)
  /-- Names and numbers hold their text. -/
  payloads : ∀ lexeme ∈ lexemes, lexeme.token.Carries (Text.slice source lexeme.span)
  /-- A token is written where it stands. -/
  stands : ∀ lexeme ∈ lexemes,
    Stands (Text.slice source ⟨lexeme.span.stop, Text.byteSize source⟩) lexeme.token
      (Text.slice source lexeme.span)
  /-- No longer one is written there. -/
  longest : ∀ lexeme ∈ lexemes,
    lexeme.token.Longest (Text.slice source lexeme.span)
      (Text.slice source ⟨lexeme.span.stop, Text.byteSize source⟩)

/-! ## Texts -/

namespace Spelling

theorem Gap.append {first second : List Char} (left : Gap first) (right : Gap second) :
    Gap (first ++ second) := by
  induction left with
  | nil => exact right
  | blank listed _ ih => exact .blank listed ih
  | comment inside ended _ ih =>
      rw [List.cons_append, List.append_assoc, List.cons_append]
      exact .comment inside ended ih

theorem Trailing.append {gap text : List Char} (trailing : Trailing text) (before : Gap gap) :
    Trailing (gap ++ text) := by
  cases trailing with
  | gap given => exact .gap (before.append given)
  | comment inner inside =>
      rw [← List.append_assoc]
      exact .comment (before.append inner) inside

end Spelling

theorem Spelling.Writes.carries {token : Token} {text : List Char} (written : Writes token text) :
    token.Carries text := by
  cases written with
  | ellipsis | string => trivial
  | punctuator listed =>
      have all : ∀ entry ∈ punctuators, entry.2.Carries [entry.1] := by
        simp [punctuators, Token.Carries]
      exact all _ listed
  | name | variableName | directiveName | integer | float =>
      rw [Token.Carries, String.toList_ofList]

theorem Spelling.Stands.carries {rest text : List Char} {token : Token}
    (stands : Stands rest token text) : token.Carries text := by
  cases stands with
  | written written => exact written.carries
  | block | invalid | unclosed => trivial

/-! ## Tokens one after the other -/

/-- Tokens from a place on, with the text before, between and after them. -/
inductive Tiled : Nat → List Char → List Lexeme → Prop where
  | last {start : Nat} {text : List Char} (trailing : Trailing text) : Tiled start text []
  | token {start : Nat} {gap text rest : List Char} {token : Token} {lexemes : List Lexeme}
      (between : Gap gap) (some : text ≠ []) (stands : Stands rest token text)
      (longest : token.Longest text rest)
      (after : Tiled (start + Text.byteSize (gap ++ text)) rest lexemes) :
      Tiled start (gap ++ text ++ rest)
        (⟨token, ⟨start + Text.byteSize gap, start + Text.byteSize (gap ++ text)⟩⟩ :: lexemes)

theorem Tiled.gap {start : Nat} {gap text : List Char} {lexemes : List Lexeme} (before : Gap gap)
    (tiled : Tiled (start + Text.byteSize gap) text lexemes) :
    Tiled start (gap ++ text) lexemes := by
  cases tiled with
  | last trailing => exact .last (trailing.append before)
  | token between some stands longest after =>
      rw [Nat.add_assoc, ← Text.byteSize_append, ← List.append_assoc] at after
      have longer := Tiled.token (before.append between) some stands longest after
      simpa only [List.append_assoc, Text.byteSize_append, Nat.add_assoc] using longer

namespace Lexer

theorem pieces_nil : pieces [] = [] := by
  rw [pieces]

theorem pieces_blank {c : Char} (listed : c ∈ blanks) (cs : List Char) :
    pieces (c :: cs) = ⟨none, [c]⟩ :: pieces cs := by
  rw [pieces, pieceAt, if_pos (isIgnored_iff.mpr listed)]
  rfl

theorem pieces_comment {text rest : List Char} (inside : ∀ c ∈ text, isComment c = true)
    (stop : ∀ c ∈ rest.head?, isComment c = false) :
    pieces ('#' :: (text ++ rest)) = ⟨none, '#' :: text⟩ :: pieces rest := by
  have taken : pieceAt '#' (text ++ rest) = (none, text.length) := by
    rw [pieceAt, takeWhile_append_of_stop inside stop]
    rfl
  rw [pieces, taken]
  dsimp only
  rw [List.take_left, List.drop_left]

theorem pieces_token {c : Char} (apart : c ∉ '#' :: blanks) {text rest : List Char}
    (size : text.length = (tokenAt c (text ++ rest)).2) :
    pieces (c :: (text ++ rest)) =
      ⟨some (tokenAt c (text ++ rest)).1, c :: text⟩ :: pieces rest := by
  rw [pieces, pieceAt_eq apart]
  dsimp only
  rw [← size, List.take_left, List.drop_left]

/-- A comment goes on to the end of its line or of the text. -/
theorem exists_comment (cs : List Char) :
    ∃ text rest, cs = text ++ rest ∧ (∀ c ∈ text, isComment c = true) ∧
      ∀ c ∈ rest.head?, isComment c = false := by
  refine ⟨cs.takeWhile isComment, cs.dropWhile isComment, ?_, ?_, ?_⟩
  · exact List.takeWhile_append_dropWhile.symm
  · intro c member
    exact List.all_eq_true.mp List.all_takeWhile c member
  · intro c first
    have stops := List.head?_dropWhile_not isComment cs
    rw [Option.mem_def.mp first] at stops
    exact stops

def Tiles (cs : List Char) : Prop :=
  ∀ start, Tiled start cs (place start (pieces cs))

theorem tiles_nil : Tiles [] := by
  intro start
  rw [pieces_nil]
  exact .last (.gap .nil)

theorem tiles_blank {c : Char} {cs : List Char} (listed : c ∈ blanks) (tiles : Tiles cs) :
    Tiles (c :: cs) := by
  intro start
  rw [pieces_blank listed]
  exact (tiles _).gap (.blank listed .nil)

/-- The end of a line is cut off along with the comment before it. -/
theorem tiles_comment {cs : List Char} (ih : ∀ tail, tail <:+ cs → Tiles tail) :
    Tiles ('#' :: cs) := by
  intro start
  obtain ⟨text, rest, rfl, inside, stop⟩ := exists_comment cs
  have plain : ∀ c ∈ text, c ≠ '\n' ∧ c ≠ '\r' := by
    intro c member
    simpa [isComment] using inside c member
  rw [pieces_comment inside stop]
  cases rest with
  | nil =>
      rw [pieces_nil, List.append_nil]
      exact .last (.comment .nil plain)
  | cons ending rest =>
      have ended : ending = '\n' ∨ ending = '\r' := by
        simpa [isComment, Decidable.or_iff_not_imp_left] using stop ending rfl
      have passed : ending ∈ blanks := by
        rcases ended with rfl | rfl <;> decide
      have tail := ih rest ⟨text ++ [ending], by simp⟩
        (start + Text.byteSize ('#' :: (text ++ [ending])))
      have whole := tail.gap (.comment plain ended .nil)
      rw [pieces_blank passed]
      simpa [place, Nat.add_assoc] using whole

theorem tiles_token {c : Char} {cs : List Char} (apart : c ∉ '#' :: blanks)
    (ih : ∀ tail, tail <:+ cs → Tiles tail) : Tiles (c :: cs) := by
  intro start
  obtain ⟨text, rest, rfl, size, stands, longest⟩ := exists_cut c cs
  rw [pieces_token apart size]
  exact .token .nil (List.cons_ne_nil c text) stands longest (ih rest (List.suffix_append _ _) _)

theorem tiles (cs : List Char) : Tiles cs := by
  -- After a comment or a token any later part of the text may come, so the induction is on length.
  induction size : cs.length using Nat.strongRecOn generalizing cs with
  | ind _ ih =>
      subst size
      cases cs with
      | nil => exact tiles_nil
      | cons c cs =>
          have after : ∀ tail, tail <:+ cs → Tiles tail := fun tail later =>
            ih tail.length (Nat.lt_succ_of_le later.length_le) tail rfl
          by_cases blank : c ∈ blanks
          · exact tiles_blank blank (after cs (List.suffix_refl cs))
          by_cases comment : c = '#'
          · subst comment
            exact tiles_comment after
          · exact tiles_token (by simp [comment, blank]) after

end Lexer

/-! ## Places -/

theorem Text.slice_append (before text rest : List Char) :
    slice (before ++ text ++ rest) ⟨byteSize before, byteSize (before ++ text)⟩ = text := by
  simp [slice]

theorem Text.slice_append_right (before rest : List Char) :
    slice (before ++ rest) ⟨byteSize before, byteSize (before ++ rest)⟩ = rest := by
  simpa using slice_append before rest []

theorem Text.boundary_append (before rest : List Char) :
    Boundary (before ++ rest) (byteSize before) :=
  ⟨before, List.prefix_append before rest, rfl⟩

theorem Text.byteSize_pos {text : List Char} (some : text ≠ []) : 0 < byteSize text := by
  obtain ⟨c, cs, rfl⟩ := List.exists_cons_of_ne_nil some
  exact Nat.lt_of_lt_of_le c.utf8Size_pos (Nat.le_add_right _ _)

inductive Placed (source : List Char) : Lexeme → Prop where
  | mk {before text rest : List Char} {token : Token} (whole : source = before ++ text ++ rest)
      (some : text ≠ []) (stands : Stands rest token text) (longest : token.Longest text rest) :
      Placed source ⟨token, ⟨Text.byteSize before, Text.byteSize (before ++ text)⟩⟩

namespace Placed

variable {source : List Char} {lexeme : Lexeme} (placed : Placed source lexeme)
include placed

theorem start_lt_stop : lexeme.span.start < lexeme.span.stop := by
  obtain ⟨-, some, -, -⟩ := placed
  rw [Text.byteSize_append]
  exact Nat.lt_add_of_pos_right (Text.byteSize_pos some)

theorem stop_le : lexeme.span.stop ≤ Text.byteSize source := by
  obtain ⟨rfl, -, -, -⟩ := placed
  simp only [Text.byteSize_append]
  exact Nat.le_add_right _ _

theorem boundaries :
    Text.Boundary source lexeme.span.start ∧ Text.Boundary source lexeme.span.stop := by
  obtain ⟨rfl, -, -, -⟩ := placed
  refine ⟨?_, Text.boundary_append _ _⟩
  rw [List.append_assoc]
  exact Text.boundary_append _ _

theorem stands :
    Stands (Text.slice source ⟨lexeme.span.stop, Text.byteSize source⟩) lexeme.token
      (Text.slice source lexeme.span) := by
  obtain ⟨rfl, -, stands, -⟩ := placed
  rwa [Text.slice_append, Text.slice_append_right]

theorem longest :
    lexeme.token.Longest (Text.slice source lexeme.span)
      (Text.slice source ⟨lexeme.span.stop, Text.byteSize source⟩) := by
  obtain ⟨rfl, -, -, longest⟩ := placed
  rwa [Text.slice_append, Text.slice_append_right]

end Placed

namespace Tiled

variable {start : Nat} {text : List Char} {lexemes : List Lexeme}

theorem start_le (tiled : Tiled start text lexemes) :
    ∀ lexeme ∈ lexemes, start ≤ lexeme.span.start := by
  induction tiled with
  | last => exact List.forall_mem_nil _
  | token _ _ _ _ _ ih =>
      rw [List.forall_mem_cons]
      refine ⟨Nat.le_add_right _ _, fun lexeme member => ?_⟩
      exact Nat.le_trans (Nat.le_add_right _ _) (ih lexeme member)

theorem increasing (tiled : Tiled start text lexemes) :
    lexemes.Pairwise fun first second =>
      first.span.start < second.span.start ∧ first.span.stop ≤ second.span.start := by
  induction tiled with
  | last => exact .nil
  | @token start gap text _ _ _ _ some _ _ after ih =>
      refine List.pairwise_cons.mpr ⟨fun later member => ?_, ih⟩
      have stop := after.start_le later member
      refine ⟨Nat.lt_of_lt_of_le ?_ stop, stop⟩
      rw [Text.byteSize_append, ← Nat.add_assoc]
      exact Nat.lt_add_of_pos_right (Text.byteSize_pos some)

section Before

variable (before : List Char) (place : Text.byteSize before = start)
include place

theorem placed (tiled : Tiled start text lexemes) :
    ∀ lexeme ∈ lexemes, Placed (before ++ text) lexeme := by
  induction tiled generalizing before with
  | last => exact List.forall_mem_nil _
  | @token _ gap text rest token _ _ some stands longest _ ih =>
      subst place
      simp only [← Text.byteSize_append, ← List.append_assoc] at ih ⊢
      rw [List.forall_mem_cons]
      exact ⟨.mk rfl some stands longest, ih (before ++ gap ++ text) rfl⟩

theorem gaps (tiled : Tiled start text lexemes) :
    ∀ gap ∈ gapsBefore start lexemes, Gap (Text.slice (before ++ text) gap) := by
  induction tiled generalizing before with
  | last => exact List.forall_mem_nil _
  | @token _ gap text rest token _ between _ _ _ _ ih =>
      subst place
      simp only [gapsBefore, ← Text.byteSize_append, ← List.append_assoc] at ih ⊢
      rw [List.forall_mem_cons]
      refine ⟨?_, ih (before ++ gap ++ text) rfl⟩
      rwa [List.append_assoc (before ++ gap), Text.slice_append]

theorem trailing (tiled : Tiled start text lexemes) :
    Trailing (Text.slice (before ++ text)
      ⟨endOfLast start lexemes, Text.byteSize (before ++ text)⟩) := by
  induction tiled generalizing before with
  | last trailing =>
      subst place
      rwa [endOfLast, Text.slice_append_right]
  | @token _ gap text rest token _ _ _ _ _ _ ih =>
      subst place
      simp only [endOfLast, ← Text.byteSize_append, ← List.append_assoc] at ih ⊢
      exact ih (before ++ gap ++ text) rfl

end Before

end Tiled

/-- No text is lost: tokens have stretches of the source text of their own, one after the other,
and what is outside of them has no meaning. -/
theorem lexemes_cover (source : List Char) : Covers source (lexemes source) := by
  have tiled : Tiled 0 source (lexemes source) := Lexer.tiles source 0
  have placed : ∀ lexeme ∈ lexemes source, Placed source lexeme := tiled.placed [] rfl
  exact {
    nonempty := fun lexeme member => (placed lexeme member).start_lt_stop
    bounds := fun lexeme member => (placed lexeme member).stop_le
    boundaries := fun lexeme member => (placed lexeme member).boundaries
    increasing := tiled.increasing
    before := tiled.gaps [] rfl
    after := tiled.trailing [] rfl
    payloads := fun lexeme member => (placed lexeme member).stands.carries
    stands := fun lexeme member => (placed lexeme member).stands
    longest := fun lexeme member => (placed lexeme member).longest }

end QueryCheck
