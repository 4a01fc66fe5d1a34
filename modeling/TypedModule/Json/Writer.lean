import TypedModule.Json.Value
import TypedModule.Json.Quoted

/-!
# Writing data files

A value is written on one line, with a blank after every comma and colon.
-/

namespace TypedModule

/-- The words for the binary numbers that have no digits. -/
def Binary64.written : Binary64 → String
  | .nan => "NaN"
  | .infinite negative => (if negative then "-" else "") ++ "Infinity"
  | x => x.text

def Scalar.written : Scalar → String
  | .null => "null"
  | .bool true => "true"
  | .bool false => "false"
  | .int n => toString n
  | .real x => x.written

namespace Json

mutual

def written (style : Style) : Json → String
  | .scalar v => v.written
  | .text s => quoted style s
  | .array items => "[" ++ ", ".intercalate (writtenItems style items) ++ "]"
  | .object fields => "\x7b" ++ ", ".intercalate (writtenFields style fields) ++ "\x7d"

def writtenItems (style : Style) : List Json → List String
  | [] => []
  | item :: rest => written style item :: writtenItems style rest

def writtenFields (style : Style) : List (String × Json) → List String
  | [] => []
  | (key, value) :: rest =>
    (quoted style key ++ ": " ++ written style value) :: writtenFields style rest

end

end Json

end TypedModule
