import TypedModule.Number.Shortest
import TypedModule.Text.Shown

/-!
# Values of a data file

A value is a scalar (nothing, a truth value, a whole number of any size, a binary number), a
text, a list or an object. The fields of an object keep the order in which their keys first
came; a key that comes again replaces the value in its first place. Messages show values in a
notation of their own.
-/

namespace TypedModule

inductive Scalar
  | null
  | bool (value : Bool)
  | int (value : Int)
  | real (value : Binary64)
deriving DecidableEq

inductive Json
  | scalar (value : Scalar)
  | text (value : String)
  | array (items : List Json)
  | object (fields : List (String × Json))

instance : Inhabited Json := ⟨.scalar .null⟩

def Scalar.kind : Scalar → String
  | null => "NoneType"
  | bool _ => "bool"
  | int _ => "int"
  | real _ => "float"

def Scalar.shown : Scalar → String
  | null => "None"
  | bool true => "True"
  | bool false => "False"
  | int n => toString n
  | real x => x.text

namespace Json

abbrev null : Json := .scalar .null

/-- Sets a field: in place if the key is there, at the end otherwise. -/
def setField (key : String) (value : Json) : List (String × Json) → List (String × Json)
  | [] => [(key, value)]
  | (k, v) :: rest => if k = key then (key, value) :: rest else (k, v) :: setField key value rest

def field? (key : String) : List (String × Json) → Option Json
  | [] => none
  | (k, v) :: rest => if k = key then some v else field? key rest

def kind : Json → String
  | .scalar v => v.kind
  | .text _ => "str"
  | .array _ => "list"
  | .object _ => "dict"

/-- Nothing, false, zero and whatever is empty. -/
def isEmpty : Json → Bool
  | .scalar .null => true
  | .scalar (.bool b) => !b
  | .scalar (.int n) => n == 0
  | .scalar (.real x) => x.isZero
  | .text s => s.isEmpty
  | .array items => items.isEmpty
  | .object fields => fields.isEmpty

mutual

def shown : Json → String
  | .scalar v => v.shown
  | .text s => shownText s
  | .array items => "[" ++ ", ".intercalate (shownItems items) ++ "]"
  | .object fields => "\x7b" ++ ", ".intercalate (shownFields fields) ++ "\x7d"

def shownItems : List Json → List String
  | [] => []
  | item :: rest => shown item :: shownItems rest

def shownFields : List (String × Json) → List String
  | [] => []
  | (key, value) :: rest => (shownText key ++ ": " ++ shown value) :: shownFields rest

end

end Json

end TypedModule
