import QueryCheck.Reading.Source
import QueryCheck.Schema.Link

/-!
# Reading a schema from a text
-/

namespace QueryCheck.Schema

def readError (source : List Char) (failure : Failure SchemaFault) : Error :=
  match failure.cause with
  | .malformed malformation =>
      .ofSpan (malformation.message failure.rest) source (Source.spanOf source failure.rest)
  | .conflicting conflict => .ofMessage (Conflict.titled conflict.message) .graphQL

def parse (text : String) : Except Error Schema :=
  match Definitions.read (tokens text.toList) with
  | .error failure => .error (readError text.toList failure)
  | .ok definitions =>
      match definitions.link with
      | .error conflict => .error (.ofMessage (Conflict.titled conflict.message) .graphQL)
      | .ok schema => .ok schema

end QueryCheck.Schema
