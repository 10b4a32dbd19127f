import QueryCheck.Proofs.Schema.Linking
import QueryCheck.Proofs.Token.Words

/-!
# Cutting what was written

A text that is written from tokens is cut into these tokens, whatever stands between them and
however strings are spelled. Documents and schemas are read from tokens alone. So two texts of
the same tokens are read as the same document and as the same schema.
-/

namespace QueryCheck

open Spelling

/-! ## What can be written -/

/-- A token whose text is of the form that its kind requires. Strings may hold any text. -/
def Token.Lexical : Token → Prop
  | .name text | .variableName text | .directiveName text => Name text.toList
  | .integer text => Integer text.toList
  | .float text => Decimal text.toList
  | .invalid => False
  | _ => True

namespace Spelling

theorem exists_spells (c : Char) : ∃ spelling, Spells c spelling := by
  by_cases allowed : c ∈ ['"', '\\', '\n', '\r']
  · simp only [List.mem_cons, List.not_mem_nil, or_false] at allowed
    rcases allowed with rfl | rfl | rfl | rfl
    · exact ⟨['\\', '"'], .short (by decide)⟩
    · exact ⟨['\\', '\\'], .short (by decide)⟩
    · exact ⟨['\\', 'n'], .short (by decide)⟩
    · exact ⟨['\\', 'r'], .short (by decide)⟩
  · exact ⟨[c], .raw allowed⟩

theorem exists_content (value : List Char) : ∃ text, Content value text := by
  induction value with
  | nil => exact ⟨[], .nil⟩
  | cons c value ih =>
      obtain ⟨spelling, spells⟩ := exists_spells c
      obtain ⟨text, content⟩ := ih
      exact ⟨spelling ++ text, .cons spells content⟩

theorem exists_writes_iff {token : Token} : (∃ text, Writes token text) ↔ token.Lexical := by
  constructor
  · rintro ⟨text, written⟩
    cases written with
    | ellipsis | string => trivial
    | punctuator listed =>
        have all : ∀ entry ∈ punctuators, entry.2.Lexical := by simp [punctuators, Token.Lexical]
        exact all _ listed
    | name given | variableName given | directiveName given | integer given | float given =>
        rwa [Token.Lexical, String.toList_ofList]
  · intro lexical
    have kept {kind : String → Token} {text : String} {spelled : List Char}
        (written : Writes (kind (String.ofList text.toList)) spelled) :
        ∃ spelled, Writes (kind text) spelled := by
      rw [String.ofList_toList] at written
      exact ⟨spelled, written⟩
    cases token with
    | invalid => cases lexical
    | ellipsis => exact ⟨_, .ellipsis⟩
    | name text => exact kept (.name lexical)
    | variableName text => exact kept (.variableName lexical)
    | directiveName text => exact kept (.directiveName lexical)
    | integer text => exact kept (.integer lexical)
    | float text => exact kept (.float lexical)
    | string value =>
        obtain ⟨text, content⟩ := exists_content value.toList
        exact kept (.string content)
    | _ =>
        exact Exists.elim (by simp [punctuators]) fun c listed => ⟨[c], .punctuator listed⟩

/-- Tokens can be written one after the other if each can be. -/
theorem exists_sequence {tokens : List Token} (lexical : ∀ token ∈ tokens, token.Lexical) :
    ∃ text, Sequence tokens text := by
  induction tokens with
  | nil => exact ⟨[], .nil⟩
  | cons token tokens ih =>
      rw [List.forall_mem_cons] at lexical
      obtain ⟨text, written⟩ := exists_writes_iff.mpr lexical.1
      obtain ⟨rest, after⟩ := ih lexical.2
      exact ⟨text ++ [' '] ++ rest, .cons written (.blank (by decide) .nil) (by simp) after⟩

theorem Sequence.lexical {tokens : List Token} {text : List Char} (sequence : Sequence tokens text) :
    ∀ token ∈ tokens, token.Lexical := by
  induction sequence with
  | nil => simp
  | cons written _ _ _ ih => exact List.forall_mem_cons.mpr ⟨exists_writes_iff.mp ⟨_, written⟩, ih⟩

/-- Exactly the tokens of the forms that their kinds require can be written. -/
theorem exists_prints_iff {tokens : List Token} :
    (∃ source, Prints tokens source) ↔ ∀ token ∈ tokens, token.Lexical := by
  constructor
  · rintro ⟨_, ⟨_, sequence⟩⟩
    exact sequence.lexical
  · intro lexical
    obtain ⟨text, sequence⟩ := exists_sequence lexical
    exact ⟨[] ++ text, .mk .nil sequence⟩

theorem Gap.ends {gap : List Char} (between : Gap gap) (rest : List Char) (some : gap ≠ []) :
    Ends (gap ++ rest) := by
  cases between with
  | nil => exact absurd rfl some
  | blank listed =>
      rintro c ⟨⟩
      exact List.mem_cons_of_mem _ listed
  | comment =>
      rintro c ⟨⟩
      exact List.mem_cons_self

/-- Every token of a sequence has an end. -/
theorem Sequence.ends {tokens : List Token} {gap rest : List Char} (between : Gap gap)
    (apart : tokens ≠ [] → gap ≠ []) (after : Sequence tokens rest) : Ends (gap ++ rest) := by
  by_cases some : gap = []
  · cases after with
    | nil =>
        rw [some]
        rintro c ⟨⟩
    | cons => exact absurd some (apart (List.cons_ne_nil _ _))
  · exact between.ends rest some

end Spelling

/-! ## Cutting -/

namespace Lexer

theorem map_token_place (start : Nat) (pieces : List Piece) :
    (place start pieces).map Lexeme.token = pieces.filterMap Piece.token? := by
  induction pieces generalizing start with
  | nil => rfl
  | cons piece pieces ih =>
      rw [place, List.filterMap_cons]
      cases piece.token? with
      | none => exact ih _
      | some token => exact congrArg (token :: ·) (ih _)

theorem isIgnored_iff {c : Char} : isIgnored c = true ↔ c ∈ blanks := by
  simp [isIgnored, blanks, or_assoc]

theorem pieceAt_eq {c : Char} (apart : c ∉ '#' :: blanks) (cs : List Char) :
    pieceAt c cs = (some (tokenAt c cs).1, (tokenAt c cs).2) := by
  rw [List.mem_cons, not_or, ← isIgnored_iff] at apart
  rw [pieceAt, if_neg apart.2, if_neg apart.1]

end Lexer

theorem tokens_nil : tokens [] = [] := by
  rw [tokens, lexemes, Lexer.pieces]
  rfl

/-- The first piece of a text is cut off. -/
theorem tokens_cons (c : Char) (cs : List Char) :
    tokens (c :: cs) =
      (Lexer.pieceAt c cs).1.toList ++ tokens (cs.drop (Lexer.pieceAt c cs).2) := by
  rw [tokens, lexemes, Lexer.map_token_place, Lexer.pieces, List.filterMap_cons, tokens, lexemes,
    Lexer.map_token_place]
  cases (Lexer.pieceAt c cs).1 <;> rfl

theorem tokens_blank {c : Char} (listed : c ∈ blanks) (rest : List Char) :
    tokens (c :: rest) = tokens rest := by
  rw [tokens_cons, Lexer.pieceAt, if_pos (Lexer.isIgnored_iff.mpr listed)]
  rfl

/-- Text between tokens is passed over. -/
theorem tokens_gap {gap : List Char} (between : Gap gap) (rest : List Char) :
    tokens (gap ++ rest) = tokens rest := by
  induction between with
  | nil => rfl
  | blank listed _ ih => rw [List.cons_append, tokens_blank listed, ih]
  | @comment text after stop inside ended _ ih =>
      -- The comment is a piece up to the end of its line, which is then passed over as a blank.
      have within : ∀ c ∈ text, Lexer.isComment c = true := by
        intro c member
        simpa [Lexer.isComment] using inside c member
      have breaks : stop ∈ blanks ∧ Lexer.isComment stop = false := by
        rcases ended with rfl | rfl <;> decide
      have taken : (text ++ stop :: (after ++ rest)).takeWhile Lexer.isComment = text := by
        refine takeWhile_append_of_stop within ?_
        rintro c ⟨⟩
        exact breaks.2
      have skipped : Lexer.pieceAt '#' (text ++ stop :: (after ++ rest)) = (none, text.length) := by
        rw [Lexer.pieceAt, taken]
        rfl
      rw [List.cons_append, List.append_assoc, List.cons_append, tokens_cons, skipped,
        List.drop_left, tokens_blank breaks.1, ih]
      rfl

/-- A written token is the first that is cut off. -/
theorem tokens_writes {token : Token} {text rest : List Char} (written : Writes token text)
    (ends : Ends rest) : tokens (text ++ rest) = token :: tokens rest := by
  obtain ⟨c, cs, rfl, apart, taken⟩ := Lexer.exists_tokenAt written ends
  rw [List.cons_append, tokens_cons, Lexer.pieceAt_eq apart, taken, List.drop_left]
  rfl

theorem tokens_sequence {words : List Token} {text : List Char} (sequence : Sequence words text) :
    tokens text = words := by
  induction sequence with
  | nil => exact tokens_nil
  | cons written between apart after ih =>
      -- The token ends where the text after it begins, as there is some unless it is the last.
      rw [List.append_assoc, tokens_writes written (Sequence.ends between apart after),
        tokens_gap between, ih]

theorem tokens_prints {words : List Token} {source : List Char} (prints : Prints words source) :
    tokens source = words := by
  obtain ⟨before, sequence⟩ := prints
  rw [tokens_gap before, tokens_sequence sequence]

/-! ## Reading -/

theorem Document.parse_eq_ok_iff {text : String} {document : Document} :
    parse text = .ok document ↔ read (tokens text.toList) = .ok document := by
  rw [parse]
  cases read (tokens text.toList) <;> simp

theorem Document.parse_congr {first second : String}
    (same : tokens first.toList = tokens second.toList) (document : Document) :
    parse first = .ok document ↔ parse second = .ok document := by
  rw [parse_eq_ok_iff, parse_eq_ok_iff, same]

theorem Schema.parse_congr {first second : String}
    (same : tokens first.toList = tokens second.toList) (schema : Schema) :
    parse first = .ok schema ↔ parse second = .ok schema := by
  rw [parse_eq_ok_iff, parse_eq_ok_iff, same]

/-- Cutting a text into tokens undoes writing it, and what is read from it depends on the tokens
alone. -/
theorem cutting_undoes_writing (words : List Token) :
    ((∃ source, Prints words source) ↔ ∀ word ∈ words, word.Lexical) ∧
      (∀ source, Prints words source → tokens source = words ∧ .invalid ∉ tokens source) ∧
      ∀ first second : String, Prints words first.toList → Prints words second.toList →
        (∀ document, Document.parse first = .ok document ↔ Document.parse second = .ok document) ∧
          ∀ schema, Schema.parse first = .ok schema ↔ Schema.parse second = .ok schema := by
  refine ⟨exists_prints_iff, ?_, ?_⟩
  · intro source prints
    rw [tokens_prints prints]
    refine ⟨rfl, fun invalid => ?_⟩
    exact exists_prints_iff.mp ⟨source, prints⟩ .invalid invalid
  · intro first second printsFirst printsSecond
    have same : tokens first.toList = tokens second.toList := by
      rw [tokens_prints printsFirst, tokens_prints printsSecond]
    exact ⟨Document.parse_congr same, Schema.parse_congr same⟩

def sampleWords : List Token :=
  [.braceOpen, .name "a", .parenOpen, .name "b", .colon, .string "é\n", .parenClose, .braceClose]

/-- The sample tokens with the same text around each, and the string spelled as given. -/
def sampleSource (gap content : List Char) : List Char :=
  gap ++ (['{'] ++ gap ++ (['a'] ++ gap ++ (['('] ++ gap ++ (['b'] ++ gap ++ ([':'] ++ gap ++
    ('"' :: (content ++ ['"']) ++ gap ++ ([')'] ++ gap ++ (['}'] ++ gap ++ []))))))))

theorem prints_sampleSource {gap content : List Char} (between : Gap gap) (some : gap ≠ [])
    (spelled : Content ['é', '\n'] content) : Prints sampleWords (sampleSource gap content) :=
  .mk between <|
    .cons (.punctuator (by decide)) between (fun _ => some) <|
    .cons (.name (.mk (by decide) (by simp))) between (fun _ => some) <|
    .cons (.punctuator (by decide)) between (fun _ => some) <|
    .cons (.name (.mk (by decide) (by simp))) between (fun _ => some) <|
    .cons (.punctuator (by decide)) between (fun _ => some) <|
    .cons (.string spelled) between (fun _ => some) <|
    .cons (.punctuator (by decide)) between (fun _ => some) <|
    .cons (.punctuator (by decide)) between (fun _ => some) .nil

def sampleSpaced : String :=
  String.ofList (sampleSource [' '] ['\\', 'u', '0', '0', 'E', '9', '\\', 'n'])

def sampleCommented : String :=
  String.ofList (sampleSource [',', '#', ' ', '"', '\r', '\ufeff']
    ['é', '\\', 'u', '+', '0', '0', 'a'])

theorem cutting_undoes_writing_sampleWords :
    Prints sampleWords sampleSpaced.toList ∧ Prints sampleWords sampleCommented.toList ∧
      tokens sampleCommented.toList = sampleWords ∧
      ∃ document, Document.parse sampleSpaced = .ok document ∧
        Document.parse sampleCommented = .ok document := by
  have spaced : Prints sampleWords sampleSpaced.toList := by
    rw [sampleSpaced, String.toList_ofList]
    exact prints_sampleSource (.blank (by decide) .nil) (by decide)
      (.cons (.code (x := 0) (y := 0) (z := 14) (w := 9) (by decide) (by decide) (by decide)
        (by decide) (by decide)) (.cons (.short (by decide)) .nil))
  have commented : Prints sampleWords sampleCommented.toList := by
    rw [sampleCommented, String.toList_ofList]
    have comment : Gap ('#' :: ([' ', '"'] ++ '\r' :: ['\ufeff'])) :=
      .comment (by simp) (.inr rfl) (.blank (by decide) .nil)
    exact prints_sampleSource (.blank (by decide) comment) (by decide)
      (.cons (.raw (by decide)) (.cons (.code (x := 0) (y := 0) (z := 0) (w := 10) (by decide)
        (by decide) (by decide) (by decide) (by decide)) .nil))
  have parsed : Document.parse sampleSpaced = .ok ⟨[.operation ⟨.query, none, [], [],
      [.field ⟨none, "a", [⟨"b", .string "é\n"⟩], [], []⟩]⟩]⟩ := by
    decide +kernel
  obtain ⟨_, cuts, reads⟩ := cutting_undoes_writing sampleWords
  obtain ⟨documents, _⟩ := reads _ _ spaced commented
  exact ⟨spaced, commented, (cuts _ commented).1, _, parsed, (documents _).mp parsed⟩

end QueryCheck
