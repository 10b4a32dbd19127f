import QueryCheck.Proofs.Reading.Recognition

/-!
# Prediction

A predictive scan recognizes a language and decides by the next token alone. What it reads
depends on nothing behind that token. Where it fails, the tokens before the failure begin a
word of the language, so the failure comes neither late nor from looking too far.

Prediction is kept by sequence, by choice and by repetition.
-/

namespace QueryCheck

variable {ε α β : Type}

/-- A reader decides by the next token alone. What it reads and where it fails depends on nothing
behind that token, and where it fails a word can still be completed. -/
structure Predictive (bound : Nat) (read : Scan ε α) (language : Language α)
    (starts follows : Option Token → Prop) : Prop
    extends Recognizes bound read language starts follows where
  inhabited : ∃ word value, language word value
  steady : ∀ {word value rest other}, (word ++ rest).length < bound →
    read (word ++ rest) = .ok (value, rest) → other.head? = rest.head? →
    read (word ++ other) = .ok (value, other)
  prompt : ∀ {tokens failure}, tokens.length < bound → read tokens = .error failure →
    ∃ word, tokens = word ++ failure.rest ∧ (∃ more value, language (word ++ more) value) ∧
      ∀ other, other.head? = failure.rest.head? →
        read (word ++ other) = .error ⟨failure.cause, other⟩

namespace Predictive

variable {bound : Nat} {read : Scan ε α} {language : Language α}
  {starts follows : Option Token → Prop}

theorem of_le {less : Nat} (predictive : Predictive bound read language starts follows)
    (le : less ≤ bound) : Predictive less read language starts follows where
  toRecognizes := predictive.toRecognizes.of_le le
  inhabited := predictive.inhabited
  steady lt := predictive.steady (Nat.lt_of_lt_of_le lt le)
  prompt lt := predictive.prompt (Nat.lt_of_lt_of_le lt le)

/-- The same words, where they are said to start with more or to be followed by less. -/
theorem congr {same : Language α} {starts' follows' : Option Token → Prop}
    (predictive : Predictive bound read language starts follows)
    (words : ∀ word value, language word value ↔ same word value)
    (wider : ∀ next, starts next → starts' next)
    (narrower : ∀ next, follows' next → follows next) :
    Predictive bound read same starts' follows' where
  toRecognizes := predictive.toRecognizes.congr words wider narrower
  inhabited := by
    obtain ⟨word, value, derived⟩ := predictive.inhabited
    exact ⟨word, value, (words _ _).mp derived⟩
  steady := predictive.steady
  prompt lt error := by
    obtain ⟨word, split, ⟨more, value, derived⟩, steady⟩ := predictive.prompt lt error
    exact ⟨word, split, ⟨more, value, (words _ _).mp derived⟩, steady⟩

theorem narrow (follows' : Option Token → Prop)
    (predictive : Predictive bound read language starts follows)
    (narrower : ∀ next, follows' next → follows next) :
    Predictive bound read language starts follows' :=
  predictive.congr (fun _ _ => Iff.rfl) (fun _ => id) narrower

theorem pure (value : α) :
    Predictive bound (Pure.pure value : Scan ε α) (.only value) (· = none) follows where
  toRecognizes := .pure value
  inhabited := ⟨[], value, Language.only_nil value⟩
  steady {word value rest other} _ ok _ := by
    have same : (_, word ++ rest) = (value, rest) := Except.ok.inj ok
    rw [Prod.mk.injEq, List.append_left_eq_self] at same
    rw [same.1, same.2]
    rfl
  prompt _ error := by cases error

theorem take (value? : Token → Option α) (cause : Option Token → ε) (token : Token) {value : α}
    (taken : value? token = some value) :
    Predictive bound (Scan.take value? cause) (.token value?)
      (fun next => ∃ token value, next = some token ∧ value? token = some value)
      fun _ => True where
  toRecognizes := .take value? cause
  inhabited := ⟨[token], value, Language.token_singleton taken⟩
  steady _ ok _ := by
    obtain ⟨next, split, taken⟩ := Scan.take_eq_ok.mp ok
    rw [show _ = [next] from List.append_cancel_right split]
    exact Scan.take_eq_ok.mpr ⟨next, rfl, taken⟩
  prompt _ error := by
    obtain ⟨rfl, none⟩ := Scan.take_eq_error.mp error
    refine ⟨[], rfl, ⟨[token], value, Language.token_singleton taken⟩, ?_⟩
    intro other same
    exact Scan.take_eq_error.mpr ⟨by rw [List.nil_append, same], by rwa [List.nil_append, same]⟩

/-- Tokens that go on alike after a common word start alike. -/
theorem head?_append {word rest other : List Token} (same : other.head? = rest.head?) :
    (word ++ other).head? = (word ++ rest).head? := by
  cases word with
  | nil => exact same
  | cons => rfl

theorem bindOf {less : Nat} {next : α → Scan ε β} {second : α → Language β}
    {starts' follows' : Option Token → Prop}
    (first : Predictive bound read language starts follows)
    (others : ∀ value, Predictive less (next value) (second value) starts' follows')
    (fits : ∀ {left right value}, language left value → (left ++ right).length < bound →
      right.length < less)
    (ahead : ∀ token, Ahead starts' follows' token → follows token) :
    Predictive bound (read >>= next) (.seq language second) (Ahead starts starts') follows' where
  toRecognizes := first.toRecognizes.bindOf (fun value => (others value).toRecognizes) fits ahead
  inhabited := by
    obtain ⟨left, middle, before⟩ := first.inhabited
    obtain ⟨right, value, after⟩ := (others middle).inhabited
    exact ⟨left ++ right, value, Language.seq_append before after⟩
  steady {word value rest other} lt ok same := by
    obtain ⟨middle, left, before, after⟩ := Scan.bind_eq_ok ok
    obtain ⟨left', split, derived⟩ := first.sound lt before
    rw [split] at lt before
    obtain ⟨right, rfl, _⟩ := (others middle).sound (fits derived lt) after
    rw [← List.append_assoc] at split
    rw [List.append_cancel_right split, List.append_assoc]
    rw [Scan.bind_ok (first.steady lt before (head?_append same))]
    exact (others middle).steady (fits derived lt) after same
  prompt {tokens failure} lt error := by
    cases before : read tokens with
    | error failure' =>
        -- What completes the first part is followed by a word of the second, which has one.
        rw [Scan.bind_error before] at error
        cases error
        obtain ⟨word, split, ⟨more, middle, derived⟩, steady⟩ := first.prompt lt before
        obtain ⟨right, value, after⟩ := (others middle).inhabited
        refine ⟨word, split, ⟨more ++ right, value, ?_⟩, ?_⟩
        · rw [← List.append_assoc]
          exact Language.seq_append derived after
        · intro other same
          exact Scan.bind_error (steady other same)
    | ok outcome =>
        -- The first part ends where it did, whatever comes after the token that fails.
        obtain ⟨middle, left⟩ := outcome
        rw [Scan.bind_ok before] at error
        obtain ⟨word, rfl, derived⟩ := first.sound lt before
        obtain ⟨word', rfl, ⟨more, value, derived'⟩, steady⟩ :=
          (others middle).prompt (fits derived lt) error
        refine ⟨word ++ word', by simp, ⟨more, value, ?_⟩, ?_⟩
        · rw [List.append_assoc]
          exact Language.seq_append derived derived'
        · intro other same
          rw [List.append_assoc, Scan.bind_ok (first.steady lt before (head?_append same))]
          exact steady other same

theorem bind {next : α → Scan ε β} {second : α → Language β}
    {starts' follows' : Option Token → Prop}
    (first : Predictive bound read language starts follows)
    (others : ∀ value, Predictive bound (next value) (second value) starts' follows')
    (ahead : ∀ token, Ahead starts' follows' token → follows token) :
    Predictive bound (read >>= next) (.seq language second) (Ahead starts starts') follows' :=
  first.bindOf others (fun _ lt => by rw [List.length_append] at lt; omega) ahead

/-- After a word that is not empty, fewer tokens are left. -/
theorem bindLess {next : α → Scan ε β} {second : α → Language β}
    {starts' follows' : Option Token → Prop}
    (first : Predictive (bound + 1) read language starts follows)
    (nonempty : ¬starts none)
    (others : ∀ value, Predictive bound (next value) (second value) starts' follows')
    (ahead : ∀ token, Ahead starts' follows' token → follows token) :
    Predictive (bound + 1) (read >>= next) (.seq language second) (Ahead starts starts')
      follows' :=
  first.bindOf others (first.toRecognizes.length_lt nonempty) ahead

theorem map (f : α → β) (predictive : Predictive bound read language starts follows) :
    Predictive bound (read >>= fun value => Pure.pure (f value))
      (fun word value => ∃ given, language word given ∧ value = f given) starts follows :=
  (predictive.bind (fun value => pure (f value)) fun _ => Ahead.of_none).congr
    (Language.seq_only f) Ahead.left fun _ => id

theorem choose {test : Option Token → Bool} {yes no : Scan ε α} {first second : Language α}
    {starts' : Option Token → Prop}
    (taken : Predictive bound yes first starts follows)
    (other : Predictive bound no second starts' follows)
    (passes : ∀ next, Ahead starts follows next → test next = true)
    (fails : ∀ next, Ahead starts' follows next → test next = false) :
    Predictive bound (Scan.choose test yes no)
      (fun word value => first word value ∨ second word value)
      (fun next => starts next ∨ starts' next) follows where
  toRecognizes := taken.toRecognizes.choose other.toRecognizes passes fails
  inhabited := by
    obtain ⟨word, value, derived⟩ := taken.inhabited
    exact ⟨word, value, .inl derived⟩
  steady lt ok same := by
    rw [Scan.choose] at ok ⊢
    rw [head?_append same]
    split at ok
    next passed =>
      rw [if_pos passed]
      exact taken.steady lt ok same
    next failed =>
      rw [if_neg failed]
      exact other.steady lt ok same
  prompt {tokens failure} lt error := by
    rw [Scan.choose] at error
    split at error
    next passed =>
      obtain ⟨word, split, ⟨more, value, derived⟩, steady⟩ := taken.prompt lt error
      refine ⟨word, split, ⟨more, value, .inl derived⟩, fun after same => ?_⟩
      rw [Scan.choose, head?_append same, ← split, if_pos passed]
      exact steady after same
    next failed =>
      obtain ⟨word, split, ⟨more, value, derived⟩, steady⟩ := other.prompt lt error
      refine ⟨word, split, ⟨more, value, .inr derived⟩, fun after same => ?_⟩
      rw [Scan.choose, head?_append same, ← split, if_neg failed]
      exact steady after same

theorem refuse {test : Option Token → Bool} (cause : ε)
    (predictive : Predictive bound read language starts follows)
    (fails : ∀ next, Ahead starts follows next → test next = false) :
    Predictive bound (Scan.refuse test cause read) language starts follows where
  toRecognizes := predictive.toRecognizes.refuse cause fails
  inhabited := predictive.inhabited
  steady lt ok same := by
    rw [Scan.refuse] at ok ⊢
    rw [head?_append same]
    split at ok
    · cases ok
    next failed =>
      rw [if_neg failed]
      exact predictive.steady lt ok same
  prompt {tokens failure} lt error := by
    rw [Scan.refuse] at error
    split at error
    next passed =>
      cases error
      -- Any word at all goes on from here, since nothing has been read.
      refine ⟨[], rfl, predictive.inhabited, fun after same => ?_⟩
      rw [List.nil_append, Scan.refuse, same, if_pos passed]
    next failed =>
      obtain ⟨word, split, completed, steady⟩ := predictive.prompt lt error
      refine ⟨word, split, completed, fun after same => ?_⟩
      rw [Scan.refuse, head?_append same, ← split, if_neg failed]
      exact steady after same

/-- From no tokens at all nothing is read. -/
theorem zero (start : ∀ {word value}, language word value → starts word.head?)
    (inhabited : ∃ word value, language word value) :
    Predictive 0 read language starts follows where
  toRecognizes := .zero start
  inhabited := inhabited
  steady lt := absurd lt (Nat.not_lt_zero _)
  prompt lt := absurd lt (Nat.not_lt_zero _)

theorem exactly (token : Token) (cause : ε) :
    Predictive bound (Scan.exactly token cause) (fun word _ => word = [token]) (· = some token)
      fun _ => True :=
  (take _ _ token (if_pos rfl)).congr (by simp [Language.token]) (by simp) fun _ => id

/-- A token and then a word. -/
theorem after (token : Token) (cause : ε)
    (predictive : Predictive bound read language starts follows) :
    Predictive bound (do Scan.exactly token cause; read) (.after token language)
      (· = some token) follows :=
  ((exactly token cause).bind (fun _ => predictive) fun _ _ => trivial).congr
    Language.seq_exactly (fun _ => Ahead.of_some) fun _ => id

theorem afterLess (token : Token) (cause : ε)
    (predictive : Predictive bound read language starts follows) :
    Predictive (bound + 1) (do Scan.exactly token cause; read) (.after token language)
      (· = some token) follows :=
  ((exactly token cause).bindLess (by simp) (fun _ => predictive) fun _ _ => trivial).congr
    Language.seq_exactly (fun _ => Ahead.of_some) fun _ => id

/-- A token and then a word, or nothing. -/
theorem optional (follows' : Option Token → Prop) (token : Token) (cause : ε) (default : α)
    (predictive : Predictive bound read language starts follows)
    (narrower : ∀ next, follows' next → next ≠ some token ∧ follows next) :
    Predictive bound (Scan.optional token cause read default)
      (fun word value =>
        Language.after token language word value ∨ Language.only default word value)
      (fun next => next = some token ∨ next = none) follows' := by
  have present := (predictive.after token cause).narrow follows' fun next follow =>
    (narrower next follow).2
  refine present.choose (.pure default) ?passes ?fails
  case passes => grind [Ahead]
  case fails => grind [Ahead]

/-- A token that has a value if it is the spelling of it. -/
theorem spelled {value? : Token → Option α} {spell : α → Token} (cause : ε)
    (exact : ∀ {token value}, value? token = some value ↔ token = spell value) (value : α) :
    Predictive bound (Scan.take value? fun _ => cause) (fun word value => word = [spell value])
      (fun next => ∃ value, next = some (spell value)) fun _ => True :=
  (take value? _ (spell value) (exact.mpr rfl)).congr (by simp [Language.token, exact])
    (by simp_all) fun _ => id

theorem name (cause : ε) :
    Predictive bound (Scan.name cause) (fun word text => word = [.name text])
      (fun next => ∃ text, next = some (.name text)) fun _ => True :=
  spelled cause Token.name?_eq_some ""

/-- Items as long as the next token starts one. -/
theorem many {test : Option Token → Bool} {loop : Scan ε (List α)}
    {follows' : Option Token → Prop}
    (equation : loop = Scan.choose test (do
      let first ← read
      let others ← loop
      Pure.pure (first :: others)) (Pure.pure []))
    (item : Predictive bound read language starts follows) (nonempty : ¬starts none)
    (passes : ∀ next, starts next → test next = true)
    (fails : ∀ next, follows' next → test next = false)
    (ahead : ∀ next, starts next ∨ follows' next → follows next) :
    Predictive bound loop language.Many (fun next => next = none ∨ starts next) follows' := by
  have start {word : List Token} {values : List α} (many : language.Many word values) :
      word.head? = none ∨ starts word.head? :=
    many.start fun derived => ⟨item.start derived, nonempty⟩
  induction bound with
  | zero => exact zero start ⟨[], [], .nil⟩
  | succ bound ih =>
      have others := ih (item.of_le (Nat.le_succ bound))
      rw [equation]
      refine ((item.bindLess nonempty (fun first => others.map (first :: ·)) ?afterItem).choose
        (pure []) ?passes ?fails).congr ?words ?starts fun _ => id
      case afterItem => grind [Ahead]
      case passes => grind [Ahead]
      case fails => grind [Ahead]
      case words => exact Language.many_unfold
      case starts => grind [Ahead]

/-- Items up to a closing token. -/
theorem manyUntil {item : (left : List Token) → Reading ε α left.length} {close : Token}
    (cause : ε) (predictive : Predictive bound (Scan.of item) language starts follows)
    (nonempty : ¬starts none) (apart : ¬starts (some close))
    (ahead : ∀ next, starts next ∨ next = some close → follows next) :
    Predictive bound (Scan.manyUntil close item) (language.closedBy close)
      (fun next => starts next ∨ next = some close) fun _ => True := by
  induction bound with
  | zero =>
      refine zero ?_ ⟨[close], [], [], rfl, .nil⟩
      rintro _ values ⟨body, rfl, many⟩
      have start := many.start fun derived => ⟨predictive.start derived, nonempty⟩
      have next : Ahead (fun next => next = none ∨ starts next) (· = some close)
          (body ++ [close]).head? := ahead_append start rfl
      grind [Ahead]
  | succ bound ih =>
      have others := ih (predictive.of_le (Nat.le_succ bound))
      rw [Scan.manyUntil_eq close cause item]
      refine (((exactly close cause).map fun _ => []).choose
        (predictive.bindLess nonempty (fun first => others.map (first :: ·)) ?afterItem)
          ?passes ?fails).congr ?words ?starts fun _ => id
      case afterItem => grind [Ahead]
      case passes => grind [Ahead]
      case fails => grind [Ahead]
      case words => exact Language.closedBy_unfold
      case starts => grind [Ahead]

/-- At least one item up to a closing token. -/
theorem someUntil {item : (left : List Token) → Reading ε α left.length} {close : Token}
    (cause : ε) (predictive : Predictive bound (Scan.of item) language starts follows)
    (nonempty : ¬starts none) (apart : ¬starts (some close))
    (ahead : ∀ next, starts next ∨ next = some close → follows next) :
    Predictive bound (Scan.refuse (· = some close) cause (Scan.manyUntil close item))
      (fun word values => language.closedBy close word values ∧ values ≠ []) starts
      fun _ => True := by
  have others := predictive.manyUntil cause nonempty apart ahead
  rw [Scan.manyUntil_eq close cause item, Scan.refuse_choose]
  refine ((predictive.bind (fun first => others.map (first :: ·)) ?afterItem).refuse
    cause ?admits).congr ?words ?starts fun _ => id
  case afterItem => grind [Ahead]
  case admits => grind [Ahead]
  case words =>
    intro word values
    constructor
    · rintro ⟨_, _, _, rfl, head, _, ⟨body, rfl, tail⟩, rfl⟩
      exact ⟨⟨_, (List.append_assoc _ body [close]).symm, .cons head tail⟩, by simp⟩
    · rintro ⟨⟨_, rfl, _ | ⟨head, tail⟩⟩, some⟩
      · exact absurd rfl some
      · exact ⟨_, _, _, List.append_assoc _ _ _, head, _, ⟨_, rfl, tail⟩, rfl⟩
  case starts => grind [Ahead]

/-- Where a reader that leaves no tokens fails, the tokens before that place begin a sequence that
it reads, and it fails in the same way however the sequence goes on after the next token. -/
theorem whole_error {read : List Token → Except (Failure ε) α}
    (predictive : ∀ bound, Predictive bound (Scan.whole read) language starts (· = none))
    {tokens : List Token} {failure : Failure ε} (error : read tokens = .error failure) :
    ∃ word, tokens = word ++ failure.rest ∧ (∃ more value, read (word ++ more) = .ok value) ∧
      ∀ other, other.head? = failure.rest.head? →
        read (word ++ other) = .error ⟨failure.cause, other⟩ := by
  obtain ⟨word, split, ⟨more, value, derived⟩, steady⟩ :=
    (predictive (tokens.length + 1)).prompt (Nat.lt_succ_self _) (Scan.whole_eq_error.mpr error)
  refine ⟨word, split, ⟨more, value, ?_⟩, fun other same => ?_⟩
  · exact (Recognizes.whole_iff fun bound => (predictive bound).toRecognizes).mpr derived
  · exact Scan.whole_eq_error.mp (steady other same)

end Predictive

end QueryCheck
