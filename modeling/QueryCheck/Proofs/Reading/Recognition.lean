import QueryCheck.Proofs.Reading.Scan

/-!
# Recognition

A scan recognizes a language if it reads exactly the words of it, where the token after a
word shows that the word is over. This is said up to a bound on the number of tokens, so
that it can be shown of recursive readers by induction on the bound.

Recognition is kept by sequence and by choice, as long as the next token decides what to
do.
-/

namespace QueryCheck

variable {ε α β : Type}

/-- What may come next where a word is read: what the word starts with or, if the word may be
empty, what may follow it. -/
def Ahead (starts follows : Option Token → Prop) (next : Option Token) : Prop :=
  (starts next ∧ next ≠ none) ∨ (starts none ∧ follows next)

theorem ahead_append {starts follows : Option Token → Prop} {word rest : List Token}
    (start : starts word.head?) (follow : follows rest.head?) :
    Ahead starts follows (word ++ rest).head? := by
  cases word with
  | nil => exact .inr ⟨start, follow⟩
  | cons token word => exact .inl ⟨start, by simp⟩

namespace Ahead

variable {starts follows : Option Token → Prop} {next : Option Token}

/-- Where only the empty word is read, what may follow comes next. -/
theorem of_none (ahead : Ahead (· = none) follows next) : follows next := by
  rcases ahead with ⟨none, some⟩ | ⟨_, follow⟩
  · exact absurd none some
  · exact follow

/-- Where words start with one token, that token comes next. -/
theorem of_some {token : Token} (ahead : Ahead (· = some token) follows next) :
    next = some token := by
  rcases ahead with ⟨start, _⟩ | ⟨start, _⟩
  · exact start
  · cases start

theorem left (next : Option Token) (ahead : Ahead starts (· = none) next) : starts next := by
  rcases ahead with ⟨start, _⟩ | ⟨start, rfl⟩
  · exact start
  · exact start

end Ahead

/-- A reader reads exactly the words of a language, from fewer tokens than a bound. Words start as
given. A word is read if what comes after it is among what may follow. -/
structure Recognizes (bound : Nat) (read : Scan ε α) (language : Language α)
    (starts follows : Option Token → Prop) : Prop where
  start : ∀ {word value}, language word value → starts word.head?
  sound : ∀ {tokens value rest}, tokens.length < bound → read tokens = .ok (value, rest) →
    ∃ word, tokens = word ++ rest ∧ language word value
  complete : ∀ {word value rest}, (word ++ rest).length < bound → language word value →
    follows rest.head? → read (word ++ rest) = .ok (value, rest)

namespace Recognizes

variable {bound : Nat} {read : Scan ε α} {language : Language α}
  {starts follows : Option Token → Prop}

theorem of_le {less : Nat} (recognizes : Recognizes bound read language starts follows)
    (le : less ≤ bound) : Recognizes less read language starts follows where
  start := recognizes.start
  sound lt := recognizes.sound (Nat.lt_of_lt_of_le lt le)
  complete lt := recognizes.complete (Nat.lt_of_lt_of_le lt le)

/-- The same words, where they are said to start with more or to be followed by less. -/
theorem congr {same : Language α} {starts' follows' : Option Token → Prop}
    (recognizes : Recognizes bound read language starts follows)
    (words : ∀ word value, language word value ↔ same word value)
    (wider : ∀ next, starts next → starts' next)
    (narrower : ∀ next, follows' next → follows next) :
    Recognizes bound read same starts' follows' where
  start derived := wider _ (recognizes.start ((words _ _).mpr derived))
  sound lt ok := by
    obtain ⟨word, split, derived⟩ := recognizes.sound lt ok
    exact ⟨word, split, (words _ _).mp derived⟩
  complete lt derived follow :=
    recognizes.complete lt ((words _ _).mpr derived) (narrower _ follow)

/-- From no tokens at all nothing is read. -/
theorem zero (start : ∀ {word value}, language word value → starts word.head?) :
    Recognizes 0 read language starts follows where
  start := start
  sound lt := absurd lt (Nat.not_lt_zero _)
  complete lt := absurd lt (Nat.not_lt_zero _)

theorem narrow (follows' : Option Token → Prop)
    (recognizes : Recognizes bound read language starts follows)
    (narrower : ∀ next, follows' next → follows next) :
    Recognizes bound read language starts follows' :=
  recognizes.congr (fun _ _ => Iff.rfl) (fun _ => id) narrower

theorem pure (value : α) :
    Recognizes bound (Pure.pure value : Scan ε α) (.only value) (· = none) follows where
  start derived := by rw [derived.1]; rfl
  sound _ ok := by
    cases ok
    exact ⟨[], rfl, Language.only_nil value⟩
  complete _ derived _ := by
    obtain ⟨rfl, rfl⟩ := derived
    rfl

theorem take (value? : Token → Option α) (cause : Option Token → ε) :
    Recognizes bound (Scan.take value? cause) (.token value?)
      (fun next => ∃ token value, next = some token ∧ value? token = some value)
      fun _ => True where
  start derived := by
    obtain ⟨token, rfl, taken⟩ := derived
    exact ⟨token, _, rfl, taken⟩
  sound _ ok := by
    obtain ⟨token, rfl, taken⟩ := Scan.take_eq_ok.mp ok
    exact ⟨[token], rfl, Language.token_singleton taken⟩
  complete _ derived _ := by
    obtain ⟨token, rfl, taken⟩ := derived
    exact Scan.take_eq_ok.mpr ⟨token, rfl, taken⟩

/-- One reader after another, where the second has to cope with the tokens that the first leaves,
and what may come next for the second may follow the first. -/
theorem bindOf {less : Nat} {next : α → Scan ε β} {second : α → Language β}
    {starts' follows' : Option Token → Prop}
    (first : Recognizes bound read language starts follows)
    (others : ∀ value, Recognizes less (next value) (second value) starts' follows')
    (fits : ∀ {left right value}, language left value → (left ++ right).length < bound →
      right.length < less)
    (ahead : ∀ token, Ahead starts' follows' token → follows token) :
    Recognizes bound (read >>= next) (.seq language second) (Ahead starts starts') follows' where
  start derived := by
    obtain ⟨left, right, middle, rfl, before, after⟩ := derived
    exact ahead_append (first.start before) ((others middle).start after)
  sound lt ok := by
    obtain ⟨middle, left, before, after⟩ := Scan.bind_eq_ok ok
    obtain ⟨word, rfl, derived⟩ := first.sound lt before
    obtain ⟨more, rfl, derived'⟩ := (others middle).sound (fits derived lt) after
    exact ⟨word ++ more, by simp, Language.seq_append derived derived'⟩
  complete {_ _ rest} lt derived follow := by
    obtain ⟨left, right, middle, rfl, before, after⟩ := derived
    rw [List.append_assoc] at lt ⊢
    have follow' := ahead _ (ahead_append ((others middle).start after) follow)
    rw [Scan.bind_ok (first.complete lt before follow')]
    exact (others middle).complete (fits before lt) after follow

theorem bind {next : α → Scan ε β} {second : α → Language β}
    {starts' follows' : Option Token → Prop}
    (first : Recognizes bound read language starts follows)
    (others : ∀ value, Recognizes bound (next value) (second value) starts' follows')
    (ahead : ∀ token, Ahead starts' follows' token → follows token) :
    Recognizes bound (read >>= next) (.seq language second) (Ahead starts starts') follows' :=
  first.bindOf others (fun _ lt => by rw [List.length_append] at lt; omega) ahead

/-- After a word that is not empty, fewer tokens are left. -/
theorem length_lt (recognizes : Recognizes (bound + 1) read language starts follows)
    (nonempty : ¬starts none) {left right : List Token} {value : α} (derived : language left value)
    (lt : (left ++ right).length < bound + 1) : right.length < bound := by
  cases left with
  | nil => exact absurd (recognizes.start derived) nonempty
  | cons token left =>
      rw [List.cons_append, List.length_cons, List.length_append] at lt
      omega

theorem bindLess {next : α → Scan ε β} {second : α → Language β}
    {starts' follows' : Option Token → Prop}
    (first : Recognizes (bound + 1) read language starts follows)
    (nonempty : ¬starts none)
    (others : ∀ value, Recognizes bound (next value) (second value) starts' follows')
    (ahead : ∀ token, Ahead starts' follows' token → follows token) :
    Recognizes (bound + 1) (read >>= next) (.seq language second) (Ahead starts starts')
      follows' :=
  first.bindOf others (first.length_lt nonempty) ahead

theorem map (f : α → β) (recognizes : Recognizes bound read language starts follows) :
    Recognizes bound (read >>= fun value => Pure.pure (f value))
      (fun word value => ∃ given, language word given ∧ value = f given) starts follows :=
  (recognizes.bind (fun value => pure (f value)) fun _ => Ahead.of_none).congr
    (Language.seq_only f) Ahead.left fun _ => id

theorem choose {test : Option Token → Bool} {yes no : Scan ε α} {first second : Language α}
    {starts' : Option Token → Prop}
    (taken : Recognizes bound yes first starts follows)
    (other : Recognizes bound no second starts' follows)
    (passes : ∀ next, Ahead starts follows next → test next = true)
    (fails : ∀ next, Ahead starts' follows next → test next = false) :
    Recognizes bound (Scan.choose test yes no)
      (fun word value => first word value ∨ second word value)
      (fun next => starts next ∨ starts' next) follows where
  start derived := derived.imp taken.start other.start
  sound {tokens _ _} lt ok := by
    rw [Scan.choose] at ok
    split at ok
    · obtain ⟨word, split, derived⟩ := taken.sound lt ok
      exact ⟨word, split, .inl derived⟩
    · obtain ⟨word, split, derived⟩ := other.sound lt ok
      exact ⟨word, split, .inr derived⟩
  complete lt derived follow := by
    rw [Scan.choose]
    rcases derived with derived | derived
    · rw [if_pos (passes _ (ahead_append (taken.start derived) follow))]
      exact taken.complete lt derived follow
    · rw [fails _ (ahead_append (other.start derived) follow)]
      exact other.complete lt derived follow

theorem refuse {test : Option Token → Bool} (cause : ε)
    (recognizes : Recognizes bound read language starts follows)
    (fails : ∀ next, Ahead starts follows next → test next = false) :
    Recognizes bound (Scan.refuse test cause read) language starts follows where
  start := recognizes.start
  sound lt ok := by
    rw [Scan.refuse] at ok
    split at ok
    · cases ok
    · exact recognizes.sound lt ok
  complete lt derived follow := by
    rw [Scan.refuse, fails _ (ahead_append (recognizes.start derived) follow)]
    exact recognizes.complete lt derived follow

theorem failIf (condition : Bool) (cause : ε)
    (recognizes : Recognizes bound read language starts follows) :
    Recognizes bound (Scan.failIf condition cause read)
      (fun word value => language word value ∧ condition = false) starts follows where
  start derived := recognizes.start derived.1
  sound lt ok := by
    rw [Scan.failIf] at ok
    split at ok
    · cases ok
    next holds =>
      obtain ⟨word, split, derived⟩ := recognizes.sound lt ok
      exact ⟨word, split, derived, Bool.eq_false_iff.mpr holds⟩
  complete lt derived follow := by
    rw [Scan.failIf, derived.2]
    exact recognizes.complete lt derived.1 follow

/-- Readers that give the same values recognize the same words, whatever they say on failure. -/
theorem of_same {ε' : Type} {other : Scan ε' α}
    (recognizes : Recognizes bound read language starts follows)
    (same : ∀ {tokens value rest}, other tokens = .ok (value, rest) ↔
      read tokens = .ok (value, rest)) :
    Recognizes bound other language starts follows where
  start := recognizes.start
  sound lt ok := recognizes.sound lt (same.mp ok)
  complete lt derived follow := same.mpr (recognizes.complete lt derived follow)

theorem exactly (token : Token) (cause : ε) :
    Recognizes bound (Scan.exactly token cause) (fun word _ => word = [token]) (· = some token)
      fun _ => True :=
  (take _ _).congr (by simp [Language.token]) (by simp) fun _ => id

/-- A token and then a word. -/
theorem after (token : Token) (cause : ε)
    (recognizes : Recognizes bound read language starts follows) :
    Recognizes bound (do Scan.exactly token cause; read) (.after token language)
      (· = some token) follows :=
  ((exactly token cause).bind (fun _ => recognizes) fun _ _ => trivial).congr
    Language.seq_exactly (fun _ => Ahead.of_some) fun _ => id

/-- A token and then a word, or nothing. -/
theorem optional (follows' : Option Token → Prop) (token : Token) (cause : ε) (default : α)
    (recognizes : Recognizes bound read language starts follows)
    (narrower : ∀ next, follows' next → next ≠ some token ∧ follows next) :
    Recognizes bound (Scan.optional token cause read default)
      (fun word value =>
        Language.after token language word value ∨ Language.only default word value)
      (fun next => next = some token ∨ next = none) follows' := by
  have present := (recognizes.after token cause).narrow follows' fun next follow =>
    (narrower next follow).2
  refine present.choose (.pure default) ?passes ?fails
  case passes => grind [Ahead]
  case fails => grind [Ahead]

/-- A reader that leaves no tokens gives a value exactly if all tokens stand for it. -/
theorem whole_iff {read : List Token → Except (Failure ε) α}
    (recognizes : ∀ bound, Recognizes bound (Scan.whole read) language starts (· = none))
    {tokens : List Token} {value : α} : read tokens = .ok value ↔ language tokens value := by
  have recognizes := recognizes (tokens.length + 1)
  constructor
  · intro ok
    obtain ⟨word, split, derived⟩ :=
      recognizes.sound (Nat.lt_succ_self _) (Scan.whole_eq_ok.mpr ⟨ok, rfl⟩)
    rwa [split, List.append_nil]
  · intro derived
    have ok := recognizes.complete (by simp) derived (rfl : [].head? = none)
    rw [List.append_nil] at ok
    exact (Scan.whole_eq_ok.mp ok).1

end Recognizes

end QueryCheck
