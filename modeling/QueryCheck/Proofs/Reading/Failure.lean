import QueryCheck.Proofs.Reading.Documents
import QueryCheck.Reading.Source

/-!
# The first impossible token

A reader sees the tokens of a text one by one, and then its end. The first impossible token
is the one up to which the text could still have gone on to a document. Reading fails there.
It has not looked any further, and the error is placed there.
-/

namespace QueryCheck

/-- What a reader sees of a text: its tokens, and that it ends. -/
def stream (tokens : List Token) : List (Option Token) :=
  tokens.map some ++ [none]

/-- The token after so many others, or the end after all of them, is the first at which no accepted
text goes on. -/
structure FirstImpossible (accepts : List Token → Prop) (tokens : List Token) (count : Nat) :
    Prop where
  within : count ≤ tokens.length
  possible : ∃ other, accepts other ∧ (stream tokens).take count <+: stream other
  impossible : ∀ other, accepts other → ¬(stream tokens).take (count + 1) <+: stream other

theorem take_stream (word rest : List Token) :
    (stream (word ++ rest)).take word.length = word.map some := by
  rw [stream, List.map_append, List.append_assoc]
  exact List.take_left' (List.length_map _)

theorem map_some_isPrefix_stream (word more : List Token) :
    word.map some <+: stream (word ++ more) := by
  rw [stream, List.map_append, List.append_assoc]
  exact List.prefix_append _ _

/-- Texts that agree up to a token, and in that token, differ only behind it. -/
theorem eq_append_of_take_isPrefix {word rest other : List Token}
    (agree : (stream (word ++ rest)).take (word.length + 1) <+: stream other) :
    ∃ left, other = word ++ left ∧ left.head? = rest.head? := by
  induction word generalizing other with
  | nil =>
      refine ⟨other, rfl, ?_⟩
      cases rest <;> cases other <;> simp_all [stream]
  | cons token word ih =>
      cases other with
      | nil => simp [stream] at agree
      | cons next other =>
          simp only [stream, List.cons_append, List.map_cons, List.length_cons,
            List.take_succ_cons, List.cons_prefix_cons, Option.some.injEq] at agree
          obtain ⟨rfl, agree⟩ := agree
          obtain ⟨left, rfl, same⟩ := ih agree
          exact ⟨left, rfl, same⟩

namespace Source

def spans (source : List Char) : List Span :=
  (lexemes source).map Lexeme.span ++ [⟨Text.byteSize source, Text.byteSize source⟩]

theorem spans_getElem? (source : List Char) {count : Nat}
    (within : count ≤ (tokens source).length) :
    (spans source)[count]? = some (spanOf source ((tokens source).drop count)) := by
  rw [tokens, List.length_map] at within
  have left : (lexemes source).length - ((tokens source).drop count).length = count := by
    rw [tokens, List.length_drop, List.length_map]
    omega
  rw [spans, spanOf, left]
  cases dropped : (lexemes source).drop count with
  | nil =>
      have all : count = (lexemes source).length :=
        Nat.le_antisymm within (List.drop_eq_nil_iff.mp dropped)
      simp [all]
  | cons word words =>
      have here : (lexemes source)[count]? = some word := by
        rw [← Nat.add_zero count, ← List.getElem?_drop, dropped]
        rfl
      rw [List.getElem?_append_left, List.getElem?_map, here]
      · rfl
      · rw [List.length_map]
        exact (List.getElem?_eq_some_iff.mp here).1

end Source

namespace Document

theorem parse_eq_error {text : String} {failure : Failure NodeKind}
    (rejected : read (tokens text.toList) = .error failure) :
    parse text = .error (.ofSpan failure.cause.invalidMessage text.toList
      (Source.spanOf text.toList failure.rest)) := by
  rw [parse, rejected]
  rfl

/-- Reading fails at the first impossible token. It fails there in the same way whatever comes
after that token, and an error about a text is placed at that token. -/
theorem fails_at_first_impossible {tokens : List Token} {failure : Failure NodeKind}
    (rejected : read tokens = .error failure) :
    ∃ count, FirstImpossible (fun other => ∃ document, read other = .ok document) tokens count ∧
      failure.rest = tokens.drop count ∧
      (∀ other, (stream tokens).take (count + 1) <+: stream other →
        read other = .error ⟨failure.cause, other.drop count⟩) ∧
      ∀ text, QueryCheck.tokens text.toList = tokens →
        ∃ span, (Source.spans text.toList)[count]? = some span ∧
          parse text = .error (.ofSpan failure.cause.invalidMessage text.toList span) := by
  obtain ⟨word, split, ⟨more, document, ok⟩, same⟩ := prompt_read rejected
  -- Agreement up to and with the failing token is agreement on the word and on what is next.
  have steady (other : List Token)
      (agree : (stream tokens).take (word.length + 1) <+: stream other) :
      read other = .error ⟨failure.cause, other.drop word.length⟩ := by
    rw [split] at agree
    obtain ⟨left, rfl, head⟩ := eq_append_of_take_isPrefix agree
    rw [same left head, List.drop_left]
  have rest : failure.rest = tokens.drop word.length := by
    rw [split, List.drop_left]
  refine ⟨word.length, ⟨?_, ?_, ?_⟩, rest, steady, ?_⟩
  · rw [split, List.length_append]
    exact Nat.le_add_right _ _
  · refine ⟨word ++ more, ⟨document, ok⟩, ?_⟩
    rw [split, take_stream]
    exact map_some_isPrefix_stream word more
  · rintro other ⟨document, ok⟩ agree
    rw [steady other agree] at ok
    cases ok
  · rintro text rfl
    have within : word.length ≤ (QueryCheck.tokens text.toList).length := by
      rw [split, List.length_append]
      exact Nat.le_add_right _ _
    refine ⟨_, Source.spans_getElem? text.toList within, ?_⟩
    rw [← rest]
    exact parse_eq_error rejected

def sampleTokens : List Token :=
  [.name "query", .parenOpen, .parenClose]

theorem fails_at_first_impossible_sampleTokens :
    read sampleTokens = .error ⟨.variableDefinitions, [.parenClose]⟩ ∧
      ∃ count, FirstImpossible (fun other => ∃ document, read other = .ok document)
          sampleTokens count ∧
        [.parenClose] = sampleTokens.drop count ∧
        ∃ span, (Source.spans "query ()".toList)[count]? = some span ∧
          parse "query ()" = .error (.ofSpan NodeKind.variableDefinitions.invalidMessage
            "query ()".toList span) := by
  have rejected : read sampleTokens = .error ⟨.variableDefinitions, [.parenClose]⟩ := by
    cbv
  have lexed : tokens "query ()".toList = sampleTokens := by
    decide +kernel
  obtain ⟨count, first, rest, _, placed⟩ := fails_at_first_impossible rejected
  exact ⟨rejected, count, first, rest, placed "query ()" lexed⟩

end Document

end QueryCheck
