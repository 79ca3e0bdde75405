/-!
# What can be wrong with JSON

The reasons why a text is not JSON, and why a value is not the record that was asked for.
-/

namespace ApiSurface.Json

inductive Fault
  /-- The text ends inside a value. -/
  | unfinished
  /-- A character that cannot stand where it does. -/
  | unexpected (c : Char)
  /-- More text after the value. -/
  | trailing
  /-- A number, text or nesting outside what can be held. -/
  | unreadable
  /-- Another kind of value was asked for. -/
  | expected (what : String)
  | missing (key : String)
  | repeated (key : String)
  | unknownTag (tag : String)
  deriving DecidableEq

def Fault.message : Fault → String
  | .unfinished => "the text ends inside a value"
  | .unexpected c => "unexpected character " ++ c.quote
  | .trailing => "trailing characters"
  | .unreadable => "value out of range"
  | .expected what => "expected " ++ what
  | .missing key => "missing field " ++ key
  | .repeated key => "duplicate field " ++ key
  | .unknownTag tag => "unknown variant " ++ tag

end ApiSurface.Json
