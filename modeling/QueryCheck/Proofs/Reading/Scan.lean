import QueryCheck.Error
import QueryCheck.Reading.Basic

/-!
# Words and scans

A language says which words stand for which values. Words are lists of tokens.

A scan is a reader that says nothing about how many tokens it leaves. Scans can be put
together like any computation with a state, so the way a reader works can be written down
as an equation between scans.
-/

namespace QueryCheck

/-- Which words stand for which values. -/
abbrev Language (α : Type) : Type :=
  List Token → α → Prop

/-- A reader that says nothing about how many tokens it leaves. -/
abbrev Scan (ε : Type) : Type → Type :=
  StateT (List Token) (Except (Failure ε))

namespace Token

def name? : Token → Option String
  | name text => some text
  | _ => none

theorem name?_eq_some {token : Token} {text : String} :
    token.name? = some text ↔ token = .name text := by
  cases token <;> simp [name?]

def directiveName? : Token → Option String
  | directiveName text => some text
  | _ => none

def variableName? : Token → Option String
  | variableName text => some text
  | _ => none

theorem directiveName?_eq_some {token : Token} {text : String} :
    token.directiveName? = some text ↔ token = .directiveName text := by
  cases token <;> simp [directiveName?]

theorem variableName?_eq_some {token : Token} {text : String} :
    token.variableName? = some text ↔ token = .variableName text := by
  cases token <;> simp [variableName?]

def word? {κ : Type} (ofWord? : String → Option κ) (token : Token) : Option κ :=
  token.name?.bind ofWord?

theorem word?_eq_some {κ : Type} {ofWord? : String → Option κ} {spelling : κ → String}
    (exact : ∀ {text value}, ofWord? text = some value ↔ text = spelling value) {token : Token}
    {value : κ} : token.word? ofWord? = some value ↔ token = .name (spelling value) := by
  rw [word?, Option.bind_eq_some_iff]
  constructor
  · rintro ⟨text, name, found⟩
    rw [name?_eq_some.mp name, exact.mp found]
  · rintro rfl
    exact ⟨spelling value, rfl, exact.mpr rfl⟩

end Token

/-- A word is found among spellings, all of which are found, exactly if it is the spelling. -/
theorem find?_spelling {κ : Type} {all : List κ} {spelling : κ → String}
    (each : ∀ value, (all.find? fun other => spelling other = spelling value) = some value)
    {text : String} {value : κ} :
    (all.find? fun other => spelling other = text) = some value ↔ text = spelling value := by
  constructor
  · intro found
    have same := List.find?_some found
    exact (of_decide_eq_true same).symm
  · rintro rfl
    exact each value

variable {ε α β : Type}

namespace Language

def only (value : α) : Language α :=
  fun word given => word = [] ∧ given = value

def token (value? : Token → Option α) : Language α :=
  fun word value => ∃ token, word = [token] ∧ value? token = some value

def after (token : Token) (language : Language α) : Language α :=
  fun word value => ∃ rest, word = token :: rest ∧ language rest value

/-- Words of one language, each followed by a word of another. -/
def seq (first : Language α) (second : α → Language β) : Language β :=
  fun word value => ∃ left right middle,
    word = left ++ right ∧ first left middle ∧ second middle right value

inductive Many (item : Language α) : Language (List α)
  | nil : Many item [] []
  | cons {first others : List Token} {value : α} {values : List α} :
      item first value → Many item others values → Many item (first ++ others) (value :: values)

/-- Any number of words of a language and then a closing token. -/
def closedBy (item : Language α) (close : Token) : Language (List α) :=
  fun word values => ∃ body, word = body ++ [close] ∧ Many item body values

theorem only_nil (value : α) : only value [] value :=
  ⟨rfl, rfl⟩

theorem token_singleton {value? : Token → Option α} {token : Token} {value : α}
    (taken : value? token = some value) : Language.token value? [token] value :=
  ⟨token, rfl, taken⟩

theorem seq_append {first : Language α} {second : α → Language β} {left right : List Token}
    {middle : α} {value : β} (before : first left middle) (after : second middle right value) :
    seq first second (left ++ right) value :=
  ⟨left, right, middle, rfl, before, after⟩

theorem seq_only (f : α → β) {language : Language α} (word : List Token) (value : β) :
    seq language (fun given => only (f given)) word value ↔
      ∃ given, language word given ∧ value = f given := by
  constructor
  · rintro ⟨left, _, given, rfl, derived, rfl, rfl⟩
    exact ⟨given, by rwa [List.append_nil], rfl⟩
  · rintro ⟨given, derived, rfl⟩
    exact ⟨word, [], given, (List.append_nil word).symm, derived, rfl, rfl⟩

theorem seq_exactly {token : Token} {language : Language α} (word : List Token) (value : α) :
    seq (fun word (_ : Unit) => word = [token]) (fun _ => language) word value ↔
      after token language word value := by
  constructor
  · rintro ⟨_, rest, _, rfl, rfl, derived⟩
    exact ⟨rest, rfl, derived⟩
  · rintro ⟨rest, rfl, derived⟩
    exact ⟨[token], rest, (), rfl, rfl, derived⟩

namespace Many

variable {item : Language α}

theorem and_iff {p : α → Prop} {word : List Token} {values : List α} :
    Many (fun word value => item word value ∧ p value) word values ↔
      Many item word values ∧ ∀ value ∈ values, p value := by
  constructor
  · intro many
    induction many with
    | nil => exact ⟨nil, by simp⟩
    | cons head _ ih =>
        exact ⟨cons head.1 ih.1, List.forall_mem_cons.mpr ⟨head.2, ih.2⟩⟩
  · rintro ⟨many, all⟩
    induction many with
    | nil => exact nil
    | cons head _ ih =>
        rw [List.forall_mem_cons] at all
        exact cons ⟨head, all.1⟩ (ih all.2)

/-- What comes next where words of a language without the empty word are read. -/
theorem start {starts : Option Token → Prop}
    (start : ∀ {word value}, item word value → starts word.head? ∧ ¬starts none)
    {word : List Token} {values : List α} (many : Many item word values) :
    word.head? = none ∨ starts word.head? := by
  cases many with
  | nil => exact .inl rfl
  | @cons first others _ _ head _ =>
      cases first with
      | nil => exact absurd (start head).1 (start head).2
      | cons token first => exact .inr (start head).1

end Many

theorem many_unfold {item : Language α} (word : List Token) (values : List α) :
    seq item (fun first word values => ∃ others, Many item word others ∧ values = first :: others)
        word values ∨ only [] word values ↔ Many item word values := by
  constructor
  · rintro (⟨_, _, _, rfl, head, _, tail, rfl⟩ | ⟨rfl, rfl⟩)
    · exact .cons head tail
    · exact .nil
  · rintro (_ | ⟨head, tail⟩)
    · exact .inr ⟨rfl, rfl⟩
    · exact .inl ⟨_, _, _, rfl, head, _, tail, rfl⟩

theorem closedBy_unfold {item : Language α} {close : Token} (word : List Token)
    (values : List α) :
    (∃ _ : Unit, word = [close] ∧ values = []) ∨
      seq item (fun first word values => ∃ others, closedBy item close word others ∧
        values = first :: others) word values ↔
      closedBy item close word values := by
  constructor
  · rintro (⟨_, rfl, rfl⟩ | ⟨_, _, _, rfl, head, _, ⟨body, rfl, tail⟩, rfl⟩)
    · exact ⟨[], rfl, .nil⟩
    · exact ⟨_, (List.append_assoc _ body [close]).symm, .cons head tail⟩
  · rintro ⟨_, rfl, _ | ⟨head, tail⟩⟩
    · exact .inl ⟨(), rfl, rfl⟩
    · exact .inr ⟨_, _, _, List.append_assoc _ _ _, head, _, ⟨_, rfl, tail⟩, rfl⟩

end Language

/-! ## Readers without bounds -/

def Reading.plain {bound : Nat} : Reading ε α bound → Except (Failure ε) (α × List Token)
  | .ok parsed => .ok (parsed.value, parsed.rest)
  | .error failure => .error failure

namespace Scan

/-- A reader without its bound. -/
def of {bound : List Token → Nat} (read : (tokens : List Token) → Reading ε α (bound tokens)) :
    Scan ε α :=
  fun tokens => (read tokens).plain

def whole (read : List Token → Except (Failure ε) α) : Scan ε α :=
  fun tokens => (read tokens).map (·, [])

def take (value? : Token → Option α) (cause : Option Token → ε) : Scan ε α
  | [] => .error ⟨cause none, []⟩
  | token :: rest =>
      match value? token with
      | some value => .ok (value, rest)
      | none => .error ⟨cause (some token), token :: rest⟩

def choose (test : Option Token → Bool) (yes no : Scan ε α) : Scan ε α :=
  fun tokens => if test tokens.head? then yes tokens else no tokens

def refuse (test : Option Token → Bool) (cause : ε) (read : Scan ε α) : Scan ε α :=
  fun tokens => if test tokens.head? then .error ⟨cause, tokens⟩ else read tokens

def failIf (condition : Bool) (cause : ε) (read : Scan ε α) : Scan ε α :=
  fun tokens => if condition then .error ⟨cause, tokens⟩ else read tokens

def manyUntil (close : Token) (item : (left : List Token) → Reading ε α left.length) :
    Scan ε (List α) :=
  fun tokens => (Reading.manyUntil close (fun left _ => item left) tokens (Nat.le_refl _)).plain

def exactly (token : Token) (cause : ε) : Scan ε Unit :=
  take (fun next => if next = token then some () else none) fun _ => cause

def optional (token : Token) (cause : ε) (read : Scan ε α) (default : α) : Scan ε α :=
  choose (· = some token) (do exactly token cause; read) (pure default)

def name (cause : ε) : Scan ε String :=
  take Token.name? fun _ => cause

theorem bind_ok {read : Scan ε α} {next : α → Scan ε β} {tokens rest : List Token} {value : α}
    (ok : read tokens = .ok (value, rest)) : (read >>= next) tokens = next value rest := by
  show (read tokens >>= fun outcome => next outcome.1 outcome.2) = _
  rw [ok]
  rfl

theorem bind_error {read : Scan ε α} {next : α → Scan ε β} {tokens : List Token}
    {failure : Failure ε} (error : read tokens = .error failure) :
    (read >>= next) tokens = .error failure := by
  show (read tokens >>= fun outcome => next outcome.1 outcome.2) = _
  rw [error]
  rfl

theorem bind_eq_ok {read : Scan ε α} {next : α → Scan ε β} {tokens rest : List Token} {value : β}
    (ok : (read >>= next) tokens = .ok (value, rest)) :
    ∃ middle left, read tokens = .ok (middle, left) ∧ next middle left = .ok (value, rest) := by
  obtain ⟨outcome, first, after⟩ := Except.bind_eq_ok_iff.mp ok
  exact ⟨outcome.1, outcome.2, first, after⟩

theorem take_eq_ok {value? : Token → Option α} {cause : Option Token → ε} {tokens rest : List Token}
    {value : α} :
    take value? cause tokens = .ok (value, rest) ↔
      ∃ token, tokens = token :: rest ∧ value? token = some value := by
  cases tokens with
  | nil => simp [take]
  | cons token left =>
      simp only [take, List.cons.injEq]
      constructor
      · intro ok
        split at ok
        next taken =>
          cases ok
          exact ⟨token, ⟨rfl, rfl⟩, taken⟩
        next => cases ok
      · rintro ⟨_, ⟨rfl, rfl⟩, taken⟩
        rw [taken]

theorem take_eq_error {value? : Token → Option α} {cause : Option Token → ε}
    {tokens : List Token} {failure : Failure ε} :
    take value? cause tokens = .error failure ↔
      failure = ⟨cause tokens.head?, tokens⟩ ∧ tokens.head?.bind value? = none := by
  cases tokens with
  | nil => simp [take, eq_comm]
  | cons token left => cases taken : value? token <;> simp [take, taken, eq_comm]

theorem plain_bind {bound other : Nat} {reading : Reading ε α bound}
    {next : Parsed α bound → Reading ε β other} {tokens : List Token} {read : Scan ε α}
    {after : α → Scan ε β} (first : reading.plain = read tokens)
    (second : ∀ parsed, (next parsed).plain = after parsed.value parsed.rest) :
    Reading.plain (reading >>= next) = (read >>= after) tokens := by
  cases reading with
  | error failure => exact (bind_error first.symm).symm
  | ok parsed => exact (second parsed).trans (bind_ok first.symm).symm

theorem map_bind {bound : Nat} {reading : Reading ε α bound}
    {next : Parsed α bound → Except (Failure ε) β} {tokens : List Token} {read : Scan ε α}
    {after : α → Scan ε β} (first : reading.plain = read tokens)
    (second : ∀ parsed, (next parsed).map (·, []) = after parsed.value parsed.rest) :
    Except.map (·, []) (reading >>= next) = (read >>= after) tokens := by
  cases reading with
  | error failure => exact (bind_error first.symm).symm
  | ok parsed => exact (second parsed).trans (bind_ok first.symm).symm

theorem map_whole (read : List Token → Except (Failure ε) α) (f : α → β) (tokens : List Token) :
    Except.map (·, []) (do
      let value ← read tokens
      .ok (f value)) = (do
      let value ← whole read
      pure (f value)) tokens := by
  show _ = (whole read tokens >>= fun outcome => .ok (f outcome.1, outcome.2))
  rw [whole]
  cases read tokens with
  | error failure => rfl
  | ok value => rfl

theorem whole_eq_ok {read : List Token → Except (Failure ε) α} {tokens rest : List Token}
    {value : α} :
    whole read tokens = .ok (value, rest) ↔ read tokens = .ok value ∧ rest = [] := by
  rw [whole]
  cases read tokens with
  | error failure => simp [Except.map]
  | ok given => simp [Except.map, eq_comm]

theorem whole_eq_error {read : List Token → Except (Failure ε) α} {tokens : List Token}
    {failure : Failure ε} :
    whole read tokens = .error failure ↔ read tokens = .error failure := by
  rw [whole]
  cases read tokens with
  | error given => simp [Except.map]
  | ok value => simp [Except.map]

theorem plain_weaken {bound other : Nat} (reading : Reading ε α bound) (le : bound ≤ other) :
    Reading.plain (do
      let parsed ← reading
      (.ok (parsed.weaken le) : Reading ε α other)) = reading.plain := by
  cases reading with
  | error failure => rfl
  | ok parsed => rfl

theorem plain_expect (token : Token) (cause : ε) (tokens : List Token) :
    (Reading.expect token cause tokens).plain = exactly token cause tokens := by
  cases tokens with
  | nil => rfl
  | cons next rest =>
      by_cases same : next = token
      · simp [Reading.expect, Reading.accept?, Reading.plain, exactly, take, same]
      · simp [Reading.expect, Reading.accept?, Reading.fail, Reading.plain, exactly, take, same]

theorem plain_name (cause : ε) (tokens : List Token) :
    (Reading.name cause tokens).plain = name cause tokens := by
  rcases tokens with _ | ⟨next, rest⟩
  · rfl
  · cases next <;> rfl

theorem choose_exactly (token : Token) (cause : ε) (after other : Scan ε α)
    (rest : List Token) :
    choose (· = some token) (do exactly token cause; after) other (token :: rest) = after rest := by
  have ahead : exactly token cause (token :: rest) = .ok ((), rest) := by simp [exactly, take]
  rw [choose, if_pos (by simp), bind_ok ahead]

theorem choose_other {token : Token} {tokens : List Token} (yes other : Scan ε α)
    (differ : tokens.head? ≠ some token) :
    choose (· = some token) yes other tokens = other tokens := by
  rw [choose, if_neg (by simpa using differ)]

theorem eq_cons_of_accept? {token : Token} {tokens : List Token}
    {parsed : Parsed Unit tokens.length} (accepted : Reading.accept? token tokens = some parsed) :
    tokens = token :: parsed.rest := by
  cases tokens with
  | nil => cases accepted
  | cons next rest =>
      simp only [Reading.accept?] at accepted
      split at accepted
      next same =>
        cases accepted
        rw [same]
      next => cases accepted

theorem exactly_accepted {token : Token} {tokens : List Token}
    {parsed : Parsed Unit tokens.length} (accepted : Reading.accept? token tokens = some parsed)
    (cause : ε) : exactly token cause tokens = .ok ((), parsed.rest) := by
  have split := eq_cons_of_accept? accepted
  exact take_eq_ok.mpr ⟨token, split, if_pos rfl⟩

theorem choose_present {token : Token} {tokens : List Token} {parsed : Parsed Unit tokens.length}
    (accepted : Reading.accept? token tokens = some parsed) (yes other : Scan ε α) :
    choose (· = some token) yes other tokens = yes tokens := by
  have next : tokens.head? = some token := by
    rw [eq_cons_of_accept? accepted, List.head?_cons]
  rw [choose, if_pos (by simpa using next)]

theorem choose_accepted {token : Token} {tokens : List Token} {parsed : Parsed Unit tokens.length}
    (accepted : Reading.accept? token tokens = some parsed) (cause : ε) (after other : Scan ε α) :
    choose (· = some token) (do exactly token cause; after) other tokens = after parsed.rest := by
  rw [choose_present accepted, bind_ok (exactly_accepted accepted cause)]

theorem choose_refused {token : Token} {tokens : List Token}
    (refused : Reading.accept? token tokens = none) (yes other : Scan ε α) :
    choose (· = some token) yes other tokens = other tokens := by
  cases tokens with
  | nil => rfl
  | cons next rest =>
      have differ : next ≠ token := by simpa [Reading.accept?] using refused
      exact choose_other yes other (by simpa using differ)

/-- How many tokens the item reader may be used on does not matter. -/
theorem plain_manyUntil (close : Token) (item : (left : List Token) → Reading ε α left.length)
    {limit : Nat} (tokens : List Token) (le : tokens.length ≤ limit) :
    (Reading.manyUntil close (fun left _ => item left) tokens le).plain =
      manyUntil close item tokens := by
  rw [manyUntil, Reading.manyUntil, Reading.manyUntil]
  cases Reading.accept? close tokens with
  | some closed => rfl
  | none =>
      cases item tokens with
      | error failure => rfl
      | ok first =>
          have rest_lt := first.rest_lt
          have step {limit : Nat} (le : first.rest.length ≤ limit) :
              Reading.plain (do
                let others ← Reading.manyUntil close (fun left _ => item left) first.rest le
                .ok ⟨first.value :: others.value, others.rest, first.after others⟩) =
                (do
                  let others ← manyUntil close item
                  pure (first.value :: others)) first.rest :=
            plain_bind (plain_manyUntil close item first.rest le) fun _ => rfl
          exact (step _).trans (step _).symm
termination_by tokens.length

/-- Either the closing token comes next, or an item and then more of them. -/
theorem manyUntil_eq (close : Token) (cause : ε)
    (item : (left : List Token) → Reading ε α left.length) :
    manyUntil close item =
      choose (· = some close) (do exactly close cause; pure []) (do
        let first ← of item
        let others ← manyUntil close item
        pure (first :: others)) := by
  funext tokens
  rw [manyUntil, Reading.manyUntil]
  split
  next closed accepted =>
    rw [choose_accepted accepted]
    rfl
  next refused =>
    rw [choose_refused refused]
    refine plain_bind rfl fun first => ?_
    exact plain_bind (plain_manyUntil close item first.rest _) fun _ => rfl

theorem refuse_choose (test : Option Token → Bool) (cause : ε) (yes no : Scan ε α) :
    refuse test cause (choose test yes no) = refuse test cause no := by
  funext tokens
  unfold refuse choose
  split
  · rfl
  · rfl

end Scan

end QueryCheck
