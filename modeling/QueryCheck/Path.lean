import QueryCheck.Error
import QueryCheck.Text.Split
import QueryCheck.Token.Number

/-!
# Paths

A path leads from a node to one below it. Each segment names a list of children
or gives a place in such a list. Paths are written with a point between their
segments.
-/

namespace QueryCheck

/-- One step down from a node. -/
inductive PathSegment where
  | index (place : Nat)
  | arguments
  | directives
  | selectionSet
  | variableDefinitions
deriving DecidableEq, Repr

/-- The way from a node to one below it. The last step comes first, so that paths share the steps
to the nodes above. -/
structure Path where
  steps : List PathSegment
deriving DecidableEq, Repr

structure InvalidSegment where
  text : String
deriving DecidableEq, Repr

namespace InvalidSegment

def toError (segment : InvalidSegment) : Error :=
  .ofMessage ("Invalid path segment " ++ segment.text) .graphQL

end InvalidSegment

namespace PathSegment

def named : List PathSegment := [arguments, directives, selectionSet, variableDefinitions]

def word? : PathSegment → Option String
  | index _ => none
  | arguments => some "arguments"
  | directives => some "directives"
  | selectionSet => some "selectionSet"
  | variableDefinitions => some "variableDefinitions"

def print : PathSegment → String
  | index place => toString place
  | segment => segment.word?.getD ""

/-- The number of indexes that can be written. -/
def indexBound : Nat := UInt64.size

def decimal? (cs : List Char) : Option Nat :=
  if cs.isEmpty || !cs.all Number.isDigit then none
  else some (cs.foldl (fun number c => number * 10 + (c.toNat - '0'.toNat)) 0)

def dropPlus : List Char → List Char
  | '+' :: cs => cs
  | cs => cs

/-- Reads an index, which may have a plus sign and leading zeros. -/
def parseIndex? (cs : List Char) : Option Nat :=
  (decimal? (dropPlus cs)).filter (· < indexBound)

def parse (text : String) : Except InvalidSegment PathSegment :=
  match parseIndex? text.toList with
  | some place => .ok (index place)
  | none =>
      match named.find? fun segment => segment.word? = some text with
      | some segment => .ok segment
      | none => .error ⟨text⟩

end PathSegment

namespace Path

def root : Path := ⟨[]⟩

/-- The path with the given segments from the first step to the last. -/
def ofSegments (segments : List PathSegment) : Path :=
  ⟨segments.reverse⟩

def segments (path : Path) : List PathSegment :=
  path.steps.reverse

def push (path : Path) (segment : PathSegment) : Path :=
  ⟨segment :: path.steps⟩

def parent (path : Path) : Path :=
  ⟨path.steps.tail⟩

@[simp]
theorem segments_ofSegments (segments : List PathSegment) :
    (ofSegments segments).segments = segments :=
  List.reverse_reverse segments

@[simp]
theorem ofSegments_segments (path : Path) : ofSegments path.segments = path :=
  congrArg Path.mk (List.reverse_reverse path.steps)

@[simp]
theorem segments_root : root.segments = [] := rfl

@[simp]
theorem segments_push (path : Path) (segment : PathSegment) :
    (path.push segment).segments = path.segments ++ [segment] :=
  List.reverse_cons

@[simp]
theorem segments_parent (path : Path) : path.parent.segments = path.segments.dropLast :=
  List.dropLast_reverse.symm

def print (path : Path) : String :=
  ".".intercalate (path.segments.map PathSegment.print)

def parseAll : List String → Except InvalidSegment (List PathSegment)
  | [] => .ok []
  | text :: texts => do
      let segment ← PathSegment.parse text
      let segments ← parseAll texts
      .ok (segment :: segments)

def parse (text : String) : Except InvalidSegment Path :=
  if text.isEmpty then .ok root
  else do
    let segments ← parseAll ((Text.split '.' text.toList).map String.ofList)
    .ok (.ofSegments segments)

end Path

end QueryCheck
