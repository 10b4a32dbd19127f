import QueryCheck.Reading.TypeRef
import QueryCheck.Reading.Value
import QueryCheck.Syntax.Selection

/-!
# Reading selections

A selection set may be left out after a field. Where it is written it is not
empty. Arguments and directives may be left out everywhere.
-/

namespace QueryCheck

open Reading (accept? eat fail left_le_self manyUntil nothing rest_le_cons_succ)

namespace Argument

def read (tokens : List Token) : Reading NodeKind Argument tokens.length := do
  let named ← Value.readNamed .argument false tokens
  .ok (named.map fun (name, value) => ⟨name, value⟩)

def readAll (tokens : List Token) : Reading NodeKind (List Argument) (tokens.length + 1) :=
  match tokens with
  | .parenOpen :: rest => do
      let arguments ← manyUntil .parenClose (fun left _ => read left) rest (left_le_self rest)
      .ok (arguments.weaken (rest_le_cons_succ .parenOpen rest))
  | other => .ok (nothing [] other)

end Argument

namespace Directive

def read (tokens : List Token) : Reading NodeKind Directive tokens.length :=
  match tokens with
  | .directiveName name :: rest => do
      let arguments ← Argument.readAll rest
      .ok (arguments.map (⟨name, ·⟩))
  | _ => fail .directive tokens

def readAll (tokens : List Token) : Reading NodeKind (List Directive) (tokens.length + 1) :=
  match tokens with
  | .directiveName name :: rest => do
      let first ← read (.directiveName name :: rest)
      let others ← readAll first.rest
      .ok ⟨first.value :: others.value, others.rest,
        Nat.lt_succ_of_lt (first.afterOptional others)⟩
  | other => .ok (nothing [] other)
termination_by tokens.length
decreasing_by exact first.rest_lt

end Directive

namespace FragmentSpread

/-- Reads the name and the directives of a spread. The dots may come before them. -/
def read (tokens : List Token) : Reading NodeKind FragmentSpread tokens.length := do
  let dots := eat .ellipsis tokens
  let name ← Reading.name .fragmentSpread dots.rest
  if name.value = "on" then fail .fragmentSpread dots.rest
  else
    let directives ← Directive.readAll name.rest
    .ok ⟨⟨name.value, directives.value⟩, directives.rest,
      Nat.lt_of_lt_of_le (name.afterOptional directives) (Nat.le_of_lt_succ dots.rest_lt)⟩

end FragmentSpread

namespace Field

def readName (tokens : List Token) :
    Reading NodeKind (Option String × String) tokens.length := do
  let first ← Reading.name .field tokens
  match accept? .colon first.rest with
  | some colon => do
      let name ← Reading.name .field colon.rest
      .ok ⟨(some first.value, name.value), name.rest, by
        have := first.after colon
        have := name.rest_lt
        omega⟩
  | none => .ok (first.map (none, ·))

def readHead (tokens : List Token) : Reading NodeKind Field tokens.length := do
  let name ← readName tokens
  let arguments ← Argument.readAll name.rest
  let directives ← Directive.readAll arguments.rest
  .ok ⟨⟨name.value.1, name.value.2, arguments.value, directives.value, []⟩, directives.rest, by
    have := name.afterOptional arguments
    have := directives.rest_lt
    omega⟩

end Field

namespace InlineFragment

def readCondition (tokens : List Token) :
    Reading NodeKind (Option String) (tokens.length + 1) :=
  match accept? (.name "on") tokens with
  | some on => do
      let type ← TypeRef.readName on.rest
      .ok ⟨some type.value, type.rest, Nat.lt_succ_of_lt (on.after type)⟩
  | none => .ok (nothing none tokens)

/-- Reads an inline fragment up to its selection set. The dots may come before it. -/
def readHead (tokens : List Token) :
    Reading NodeKind InlineFragment (tokens.length + 1) := do
  let dots := eat .ellipsis tokens
  let condition ← readCondition dots.rest
  let directives ← Directive.readAll condition.rest
  .ok ⟨⟨condition.value, directives.value, []⟩, directives.rest, by
    have := dots.rest_lt
    have := condition.rest_lt
    have := directives.rest_lt
    omega⟩

end InlineFragment

mutual

def Field.read (tokens : List Token) : Reading NodeKind Field tokens.length := do
  let head ← Field.readHead tokens
  let selections ← Selection.readOptional head.rest
  .ok ⟨⟨head.value.alias?, head.value.name, head.value.arguments, head.value.directives,
    selections.value⟩, selections.rest, head.afterOptional selections⟩
termination_by 3 * tokens.length + 1
decreasing_by
  have := head.rest_lt
  omega

def InlineFragment.read (tokens : List Token) : Reading NodeKind InlineFragment tokens.length := do
  let head ← InlineFragment.readHead tokens
  let selections ← Selection.readRequired .inlineFragment head.rest
  .ok ⟨⟨head.value.typeCondition?, head.value.directives, selections.value⟩, selections.rest,
    Nat.lt_of_lt_of_le selections.rest_lt (Nat.le_of_lt_succ head.rest_lt)⟩
termination_by 3 * tokens.length + 2
decreasing_by
  have := head.rest_lt
  omega

def Selection.read (tokens : List Token) : Reading NodeKind Selection tokens.length :=
  match tokens with
  | .name text :: rest => do
      let field ← Field.read (.name text :: rest)
      .ok (field.map .field)
  | .ellipsis :: rest =>
      match rest with
      | .name text :: after =>
          if text = "on" then do
            let fragment ← InlineFragment.read (.name text :: after)
            .ok ((fragment.map .inline).weaken (by simp))
          else do
            let spread ← FragmentSpread.read (.name text :: after)
            .ok ((spread.map .spread).weaken (by simp))
      | .directiveName name :: after => do
          let fragment ← InlineFragment.read (.directiveName name :: after)
          .ok ((fragment.map .inline).weaken (by simp))
      | .braceOpen :: after => do
          let fragment ← InlineFragment.read (.braceOpen :: after)
          .ok ((fragment.map .inline).weaken (by simp))
      | _ => fail .selection rest
  | _ => fail .selection tokens
termination_by 3 * tokens.length + 2
decreasing_by all_goals simp only [List.length_cons]; omega

def Selection.readRequired (kind : NodeKind) (tokens : List Token) :
    Reading NodeKind (List Selection) tokens.length :=
  match tokens with
  | .braceOpen :: .braceClose :: rest => fail .selectionSet (.braceClose :: rest)
  | .braceOpen :: rest => do
      let selections ← manyUntil .braceClose (fun left _ => Selection.read left) rest (Nat.le_refl _)
      .ok (selections.weaken (by simp))
  | _ => fail kind tokens
termination_by 3 * tokens.length
decreasing_by simp only [List.length_cons]; omega

def Selection.readOptional (tokens : List Token) :
    Reading NodeKind (List Selection) (tokens.length + 1) :=
  match tokens with
  | .braceOpen :: rest => do
      let selections ← Selection.readRequired .selectionSet (.braceOpen :: rest)
      .ok (selections.weaken (Nat.le_succ _))
  | other => .ok (nothing [] other)
termination_by 3 * tokens.length + 1
decreasing_by omega

end

end QueryCheck
