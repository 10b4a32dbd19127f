import QueryCheck.Reading.Basic
import QueryCheck.Syntax.Kind
import QueryCheck.Syntax.Value

/-!
# Reading values

A constant value has no variables at any depth.
-/

namespace QueryCheck.Value

open Reading (fail manyUntil)

def ofName (text : String) : Value :=
  if text = "null" then .null
  else if text = "true" then .boolean true
  else if text = "false" then .boolean false
  else .enum text

mutual

def read (constant : Bool) (tokens : List Token) : Reading NodeKind Value tokens.length :=
  match tokens with
  | .name text :: rest => .ok ⟨ofName text, rest, by simp⟩
  | .variableName name :: rest =>
      if constant then fail .variableDefinition (.variableName name :: rest)
      else .ok ⟨.var name, rest, by simp⟩
  | .float text :: rest => .ok ⟨.float text, rest, by simp⟩
  | .integer text :: rest => .ok ⟨.int text, rest, by simp⟩
  | .string value :: rest => .ok ⟨.string value, rest, by simp⟩
  | .bracketOpen :: rest => do
      let items ← manyUntil .bracketClose (fun left _ => read constant left) rest (Nat.le_refl _)
      .ok ((items.map .list).weaken (by simp))
  | .braceOpen :: rest => do
      let fields ← manyUntil .braceClose (fun left _ => readNamed .objectField constant left) rest
        (Nat.le_refl _)
      .ok ((fields.map .object).weaken (by simp))
  | _ => fail .value tokens
termination_by tokens.length
decreasing_by all_goals simp only [List.length_cons]; omega

/-- Reads a name, a colon and a value. The kind is that of the node they make up. -/
def readNamed (kind : NodeKind) (constant : Bool) (tokens : List Token) :
    Reading NodeKind (String × Value) tokens.length :=
  match tokens with
  | .name name :: .colon :: rest => do
      let value ← read constant rest
      .ok ((value.map (name, ·)).weaken (by simp only [List.length_cons]; omega))
  | .name _ :: rest => fail kind rest
  | _ => fail kind tokens
termination_by tokens.length
decreasing_by simp only [List.length_cons]; omega

end

def readList (tokens : List Token) : Reading NodeKind Value tokens.length :=
  match tokens with
  | .bracketOpen :: rest => read false (.bracketOpen :: rest)
  | _ => fail .list tokens

def readObject (tokens : List Token) : Reading NodeKind Value tokens.length :=
  match tokens with
  | .braceOpen :: rest => read false (.braceOpen :: rest)
  | _ => fail .object tokens

def readBoolean (tokens : List Token) : Reading NodeKind Value tokens.length :=
  match tokens with
  | .name text :: rest =>
      match ofName text with
      | .boolean value => .ok ⟨.boolean value, rest, by simp⟩
      | _ => fail .boolean tokens
  | _ => fail .boolean tokens

def readEnum (tokens : List Token) : Reading NodeKind Value tokens.length :=
  match tokens with
  | .name text :: rest =>
      match ofName text with
      | .enum name => .ok ⟨.enum name, rest, by simp⟩
      | _ => fail .enum tokens
  | _ => fail .enum tokens

def readFloat (tokens : List Token) : Reading NodeKind Value tokens.length :=
  match tokens with
  | .float text :: rest => .ok ⟨.float text, rest, by simp⟩
  | _ => fail .float tokens

def readInt (tokens : List Token) : Reading NodeKind Value tokens.length :=
  match tokens with
  | .integer text :: rest => .ok ⟨.int text, rest, by simp⟩
  | _ => fail .int tokens

def readString (tokens : List Token) : Reading NodeKind Value tokens.length :=
  match tokens with
  | .string value :: rest => .ok ⟨.string value, rest, by simp⟩
  | _ => fail .string tokens

def readVariable (tokens : List Token) : Reading NodeKind String tokens.length :=
  match tokens with
  | .variableName name :: rest => .ok ⟨name, rest, by simp⟩
  | _ => fail .variableUse tokens

end QueryCheck.Value
