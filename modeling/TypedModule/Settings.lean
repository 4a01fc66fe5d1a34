import TypedModule.Json.Value

/-!
# Settings

The settings are a header text, the name of the error class and the tracer flag. They are read
from loosely typed fields, where nothing means absent: an empty header is no header, and an
empty or absent name is the default name. In a data file the flag stands at the top, and the
header and the name stand in an inner object. Later settings override earlier ones field by
field.
-/

namespace TypedModule

def defaultErrorName : String := "PeggySyntaxError"

structure Settings where
  header : Option String := none
  errorName : Option String := some defaultErrorName
  trace : Bool := false
deriving DecidableEq

/-- Settings as they are given, before their types are known. -/
structure Fields where
  header : Json := .null
  errorName : Json := .null
  trace : Json := .null

inductive SettingsFault
  | notObject (kind : String)
  | innerNotObject
  | wrongKind (key : String) (wanted : String) (value : Json)
  | unreadable (path reason : String)
  | malformed (path reason : String)
  | twoHeaders

namespace Settings

def innerKey : String := "tspegjs"

end Settings

def SettingsFault.message : SettingsFault → String
  | notObject kind => "Options must be a mapping; got " ++ kind ++ "."
  | innerNotObject => "The " ++ shownText Settings.innerKey ++ " options must be a mapping."
  | wrongKind key wanted value =>
    "Option " ++ shownText key ++ " should be " ++ wanted ++ "; got " ++ value.shown ++ "."
  | unreadable path reason => "Could not read options file " ++ path ++ ": " ++ reason
  | malformed path reason => "Options file " ++ path ++ " is not valid JSON: " ++ reason
  | twoHeaders => "Give either --header or --header-file, not both."

namespace Settings

def textField (key : String) : Json → Except SettingsFault (Option String)
  | .scalar .null => .ok none
  | .text s => .ok (some s)
  | value => .error (.wrongKind key "str" value)

def flagField (key : String) : Json → Except SettingsFault (Option Bool)
  | .scalar .null => .ok none
  | .scalar (.bool b) => .ok (some b)
  | value => .error (.wrongKind key "bool" value)

/-- An empty text counts as none. -/
def nonempty : Option String → Option String
  | some "" => none
  | s => s

def nameOrDefault (name : Option String) : String := (nonempty name).getD defaultErrorName

/-- The name in force. -/
def effectiveName (s : Settings) : String := nameOrDefault s.errorName

/-- The header in force. -/
def effectiveHeader (s : Settings) : Option String := nonempty s.header

def ofFields (f : Fields) : Except SettingsFault Settings :=
  match textField "customHeader" f.header with
  | .error e => .error e
  | .ok header =>
    match textField "errorName" f.errorName with
    | .error e => .error e
    | .ok name =>
      match flagField "trace" f.trace with
      | .error e => .error e
      | .ok trace => .ok ⟨nonempty header, some (nameOrDefault name), trace.getD false⟩

def ofOption : Option String → Json
  | none => .null
  | some s => .text s

/-- The second value unless it is nothing. -/
def override (old new : Json) : Json :=
  match new with
  | .scalar .null => old
  | value => value

def overridden (s : Settings) (f : Fields) : Except SettingsFault Settings :=
  ofFields {
    header := override (ofOption s.header) f.header
    errorName := override (ofOption s.errorName) f.errorName
    trace := override (.scalar (.bool s.trace)) f.trace }

/-- Settings from the shape of a data file. An inner value that is empty in any way counts as
an empty object. -/
def ofJson : Json → Except SettingsFault Settings
  | .object fields =>
    let field (key : String) (fs : List (String × Json)) : Json := (Json.field? key fs).getD .null
    let inner := field innerKey fields
    match if inner.isEmpty then .object [] else inner with
    | .object plugin =>
      ofFields {
        header := field "customHeader" plugin
        errorName := field "errorName" plugin
        trace := field "trace" fields }
    | _ => .error .innerNotObject
  | value => .error (.notObject value.kind)

end Settings

end TypedModule
