import TypedModule.Json.Quoted
import TypedModule.Picture

/-!
# Names of the error class

The name of the error class is spliced into the module as it is, so it must come back unchanged
from being quoted: it has no quote, no backslash and no control character. The strict check
also wants a plain identifier, made of ASCII letters, digits, `_` and `$` and not beginning
with a digit. A rejected name comes with a picture of its first bad character.
-/

namespace TypedModule

def isIdentifierStart (c : Char) : Bool := c.isAlpha || c == '_' || c == '$'

def isIdentifierPart (c : Char) : Bool := isIdentifierStart c || c.isDigit

/-- The longest plain identifier that a text begins with, if any. -/
def identifierPart : List Char → List Char
  | [] => []
  | c :: rest => if isIdentifierStart c then c :: rest.takeWhile isIdentifierPart else []

def isPlainIdentifier (cs : List Char) : Bool := !cs.isEmpty && identifierPart cs == cs

inductive NameFault
  | unquotable (name : String)
  | irregular (name : String)
deriving DecidableEq

namespace NameFault

def name : NameFault → String
  | unquotable name => name
  | irregular name => name

def quotedName (f : NameFault) : String := Json.quoted .plain f.name

def message (f : NameFault) : String :=
  "The errorName " ++ f.quotedName ++ match f with
    | unquotable _ => " is not a valid Javascript identifier"
    | irregular _ => " is not a plain Javascript identifier"

/-- The place of the first bad character between the quotes. -/
def place : NameFault → Nat
  | unquotable name => firstDifference (Json.escaped .plain name.toList) name.toList
  | irregular name => (identifierPart name.toList).length

def caption : NameFault → String
  | unquotable _ => "does not survive quoting"
  | irregular _ => "not allowed in an identifier"

def picture (f : NameFault) : Picture where
  line := f.quotedName
  start := f.place + 1
  width := 0
  lead := "\t"
  caption := f.caption

end NameFault

def checkErrorName (strict : Bool) (name : String) : Except NameFault String :=
  let cs := name.toList
  if Json.escaped .plain cs ≠ cs then .error (.unquotable name)
  else if strict && !isPlainIdentifier cs then .error (.irregular name)
  else .ok name

theorem eq_of_checkErrorName {strict : Bool} {name accepted : String}
    (h : checkErrorName strict name = .ok accepted) : accepted = name := by
  rw [checkErrorName] at h
  split at h
  · cases h
  · split at h
    · cases h
    · exact (Except.ok.inj h).symm

end TypedModule
