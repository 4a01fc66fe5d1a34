import TypedModule.Json.Value
import TypedModule.Json.Quoted

/-!
# Reading data files

A reader takes a value off the front of a text and returns it with the rest. A fault keeps the
text from the place of the complaint on, so its position follows from how much is left. Numbers
with a fraction or an exponent are binary numbers, all others are whole numbers. The words for
not-a-number and for the infinities are accepted.
-/

namespace TypedModule.Json

inductive Problem
  | noValue
  | noKey
  | noColon
  | noComma
  | moreText
  | openText
  | controlChar
  | badEscape
  | badUnit
  | byteOrderMark
deriving DecidableEq

structure Fault where
  problem : Problem
  rest : List Char
deriving DecidableEq

def Problem.text : Problem → String
  | .noValue => "Expecting value"
  | .noKey => "Expecting property name enclosed in double quotes"
  | .noColon => "Expecting ':' delimiter"
  | .noComma => "Expecting ',' delimiter"
  | .moreText => "Extra data"
  | .openText => "Unterminated string starting at"
  | .controlChar => "Invalid control character at"
  | .badEscape => "Invalid \\escape"
  | .badUnit => "Invalid \\uXXXX escape"
  | .byteOrderMark => "Unexpected UTF-8 BOM (decode using utf-8-sig)"

/-- The complaint and its place in the whole text: line and column from one, characters from
zero. -/
def Fault.message (whole : List Char) (f : Fault) : String :=
  let before := whole.take (whole.length - f.rest.length)
  let line := before.count '\n' + 1
  let column := (before.reverse.takeWhile (· != '\n')).length + 1
  f.problem.text ++ ": line " ++ toString line ++ " column " ++ toString column ++
    " (char " ++ toString before.length ++ ")"

def isSpace (c : Char) : Bool := c == ' ' || c == '\t' || c == '\n' || c == '\r'

def skipSpace (cs : List Char) : List Char := cs.dropWhile isSpace

/-- What stands inside quotes: a character, or a unit of 16 bits. -/
inductive Piece
  | char (c : Char)
  | unit (n : Nat)

def hexValue? (c : Char) : Option Nat :=
  if '0' ≤ c ∧ c ≤ '9' then some (c.toNat - 48)
  else if 'a' ≤ c ∧ c ≤ 'f' then some (c.toNat - 87)
  else if 'A' ≤ c ∧ c ≤ 'F' then some (c.toNat - 55)
  else none

def unitValue? (a b c d : Char) : Option Nat :=
  match hexValue? a, hexValue? b, hexValue? c, hexValue? d with
  | some a, some b, some c, some d => some (a * 4096 + b * 256 + c * 16 + d)
  | _, _, _, _ => none

/-- What a character after a backslash stands for. The slash may be escaped too. -/
def escapeValue? (c : Char) : Option Char :=
  if c = '/' then some '/' else (letters.find? fun p => p.2 == c).map Prod.fst

def consPiece (p : Piece) (r : List Piece × List Char) : List Piece × List Char :=
  (p :: r.1, r.2)

/-- The pieces up to the closing quote. A unit needs its four digits and one more character;
`start` is the text from the opening quote on. -/
def readPieces (start : List Char) : List Char → Except Fault (List Piece × List Char)
  | [] => .error ⟨.openText, start⟩
  | '\\' :: 'u' :: a :: b :: c :: d :: rest =>
    match unitValue? a b c d with
    | some n =>
      if rest.isEmpty then .error ⟨.badUnit, 'u' :: a :: b :: c :: d :: rest⟩
      else (readPieces start rest).map (consPiece (.unit n))
    | none => .error ⟨.badUnit, 'u' :: a :: b :: c :: d :: rest⟩
  | '\\' :: 'u' :: rest => .error ⟨.badUnit, 'u' :: rest⟩
  | '\\' :: c :: rest =>
    match escapeValue? c with
    | some e => (readPieces start rest).map (consPiece (.char e))
    | none => .error ⟨.badEscape, '\\' :: c :: rest⟩
  | c :: rest =>
    if c = '\x22' then .ok ([], rest)
    else if c = '\\' then .error ⟨.openText, start⟩
    else if c.toNat < 0x20 then .error ⟨.controlChar, c :: rest⟩
    else (readPieces start rest).map (consPiece (.char c))

/-- Joins a high and a low surrogate. A lone surrogate is no character and becomes the
replacement character. -/
def joinUnits : List Piece → List Char
  | [] => []
  | .char c :: rest => c :: joinUnits rest
  | .unit high :: .unit low :: rest =>
    if 0xD800 ≤ high ∧ high < 0xDC00 ∧ 0xDC00 ≤ low ∧ low < 0xE000 then
      Char.ofNat (0x10000 + (high - 0xD800) * 1024 + (low - 0xDC00)) :: joinUnits rest
    else loneUnit high :: joinUnits (.unit low :: rest)
  | .unit n :: rest => loneUnit n :: joinUnits rest
where
  loneUnit (n : Nat) : Char := if 0xD800 ≤ n ∧ n < 0xE000 then '\uFFFD' else Char.ofNat n

/-- Reads on after an opening quote. -/
def readText (cs : List Char) : Except Fault (String × List Char) :=
  (readPieces ('\x22' :: cs) cs).map fun r => (String.ofList (joinUnits r.1), r.2)

def natOf (digits : List Char) : Nat :=
  digits.foldl (fun n c => 10 * n + (c.toNat - 48)) 0

/-- Takes a point and the digits after it; without a digit nothing is taken. -/
def takeFraction : List Char → List Char × List Char
  | '.' :: rest =>
    if (rest.takeWhile Char.isDigit).isEmpty then ([], '.' :: rest)
    else (rest.takeWhile Char.isDigit, rest.dropWhile Char.isDigit)
  | cs => ([], cs)

/-- Takes a sign. -/
def takeSign : List Char → Bool × List Char
  | '-' :: rest => (true, rest)
  | '+' :: rest => (false, rest)
  | cs => (false, cs)

/-- Takes an exponent; without a digit nothing is taken. -/
def takeExponent : List Char → Option Int × List Char
  | [] => (none, [])
  | c :: rest =>
    if c = 'e' ∨ c = 'E' then
      let (negative, body) := takeSign rest
      let digits := body.takeWhile Char.isDigit
      if digits.isEmpty then (none, c :: rest)
      else
        let n : Int := natOf digits
        (some (if negative then -n else n), body.dropWhile Char.isDigit)
    else (none, c :: rest)

/-- The whole part: a zero, or digits that do not begin with zero. -/
def takeWhole : List Char → Option (List Char × List Char)
  | [] => none
  | c :: rest =>
    if c = '0' then some (['0'], rest)
    else if c.isDigit then some (c :: rest.takeWhile Char.isDigit, rest.dropWhile Char.isDigit)
    else none

def readNumber (cs : List Char) : Option (Scalar × List Char) :=
  let (negative, body) := match cs with
    | '-' :: rest => (true, rest)
    | _ => (false, cs)
  (takeWhole body).map fun (whole, afterWhole) =>
    let (fraction, afterFraction) := takeFraction afterWhole
    let (exponent, rest) := takeExponent afterFraction
    if fraction.isEmpty && exponent.isNone then
      let n : Int := natOf whole
      (.int (if negative then -n else n), rest)
    else
      (.real (Binary64.ofDecimal negative (natOf (whole ++ fraction))
        (exponent.getD 0 - fraction.length)), rest)

def words : List (List Char × Scalar) := [
  ("null".toList, .null),
  ("true".toList, .bool true),
  ("false".toList, .bool false),
  ("NaN".toList, .real .nan),
  ("Infinity".toList, .real (.infinite false)),
  ("-Infinity".toList, .real (.infinite true))]

def readWord (cs : List Char) : Option (Scalar × List Char) :=
  words.findSome? fun (word, value) => (word.isPrefixOf? cs).map fun rest => (value, rest)

def readScalar (cs : List Char) : Except Fault (Json × List Char) :=
  match (readWord cs).or (readNumber cs) with
  | some (value, rest) => .ok (.scalar value, rest)
  | none => .error ⟨.noValue, cs⟩

mutual

/-- Reads a value. Each call takes one unit of fuel and two calls take a character, so twice
the length of the text is enough. -/
def readValue : Nat → List Char → Except Fault (Json × List Char)
  | 0, cs => .error ⟨.noValue, cs⟩
  | _ + 1, [] => .error ⟨.noValue, []⟩
  | fuel + 1, c :: rest =>
    if c = '\x22' then (readText rest).map fun r => (.text r.1, r.2)
    else if c = '[' then
      match skipSpace rest with
      | ']' :: rest => .ok (.array [], rest)
      | rest => (readItems fuel rest).map fun r => (.array r.1, r.2)
    else if c = '\x7b' then
      match skipSpace rest with
      | '\x7d' :: rest => .ok (.object [], rest)
      | rest => (readFields fuel [] rest).map fun r => (.object r.1, r.2)
    else readScalar (c :: rest)

/-- Reads the values of a list up to its closing bracket. -/
def readItems : Nat → List Char → Except Fault (List Json × List Char)
  | 0, cs => .error ⟨.noValue, cs⟩
  | fuel + 1, cs =>
    match readValue fuel cs with
    | .error f => .error f
    | .ok (item, rest) =>
      match skipSpace rest with
      | ']' :: rest => .ok ([item], rest)
      | ',' :: rest => (readItems fuel (skipSpace rest)).map fun r => (item :: r.1, r.2)
      | rest => .error ⟨.noComma, rest⟩

/-- Reads the fields of an object up to its closing brace. -/
def readFields : Nat → List (String × Json) → List Char →
    Except Fault (List (String × Json) × List Char)
  | 0, _, cs => .error ⟨.noKey, cs⟩
  | fuel + 1, fields, cs =>
    match cs with
    | '\x22' :: rest =>
      match readText rest with
      | .error f => .error f
      | .ok (key, rest) =>
        match skipSpace rest with
        | ':' :: rest =>
          match readValue fuel (skipSpace rest) with
          | .error f => .error f
          | .ok (value, rest) =>
            match skipSpace rest with
            | '\x7d' :: rest => .ok (setField key value fields, rest)
            | ',' :: rest => readFields fuel (setField key value fields) (skipSpace rest)
            | rest => .error ⟨.noComma, rest⟩
        | rest => .error ⟨.noColon, rest⟩
    | cs => .error ⟨.noKey, cs⟩

end

/-- Reads a whole text as one value. -/
def read (cs : List Char) : Except Fault Json :=
  if cs.head? = some '\uFEFF' then .error ⟨.byteOrderMark, cs⟩
  else
    match readValue (2 * cs.length + 2) (skipSpace cs) with
    | .error f => .error f
    | .ok (value, rest) =>
      match skipSpace rest with
      | [] => .ok value
      | rest => .error ⟨.moreText, rest⟩

end TypedModule.Json
