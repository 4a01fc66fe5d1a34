import TypedModule.Json.Value
import TypedModule.Text.Digit

/-!
# Command line arguments

Each word of a command line is first classed by itself: an option, a plain word, or a word that
looks like an option and is none. A long option may be cut short as long as it stays the only
one. An equals sign behind the name of an option sets off the text attached to it; a short
option also takes the text that follows it at once. An option that wants a value takes the
attached text, or else the next word; a short flag reads its attached text as further short
options. Two hyphens end the options. The words are then taken from left to right; the first
plain word that is no value is the source path.
-/

namespace TypedModule.Command

inductive Key
  | help
  | force
  | output
  | config
  | header
  | headerFile
  | errorName
  | trace
  | strictName
  | pretty
  | verbose
deriving DecidableEq

namespace Key

def all : List Key :=
  [help, force, output, config, header, headerFile, errorName, trace, strictName, pretty, verbose]

def short? : Key → Option Char
  | help => some 'h'
  | force => some 'f'
  | output => some 'o'
  | config => some 'c'
  | verbose => some 'v'
  | _ => none

def long : Key → String
  | help => "--help"
  | force => "--force"
  | output => "--output"
  | config => "--config"
  | header => "--header"
  | headerFile => "--header-file"
  | errorName => "--error-name"
  | trace => "--trace"
  | strictName => "--strict-name"
  | pretty => "--pretty"
  | verbose => "--verbose"

def wantsValue : Key → Bool
  | output | config | header | headerFile | errorName => true
  | _ => false

/-- How messages call an option. -/
def title (k : Key) : String :=
  match k.short? with
  | some c => String.ofList ['-', c] ++ "/" ++ k.long
  | none => k.long

def ofShort? (c : Char) : Option Key := all.find? fun k => k.short? == some c

def ofLong? (cs : List Char) : Option Key := all.find? fun k => k.long.toList == cs

/-- The options that a long option cut short may stand for. -/
def startingWith (cs : List Char) : List Key := all.filter fun k => cs.isPrefixOf k.long.toList

end Key

/-- Why a command line is refused. -/
inductive Misuse
  | ambiguous (word : String) (keys : List Key)
  | unwantedValue (key : Key) (value : String)
  | missingValue (key : Key)
  | missingSource
  | unrecognized (words : List String)

def Misuse.message : Misuse → String
  | ambiguous word keys =>
    "ambiguous option: " ++ word ++ " could match " ++ ", ".intercalate (keys.map Key.long)
  | unwantedValue key value =>
    "argument " ++ key.title ++ ": ignored explicit argument " ++ shownText value
  | missingValue key => "argument " ++ key.title ++ ": expected one argument"
  | missingSource => "the following arguments are required: source_path"
  | unrecognized words => "unrecognized arguments: " ++ " ".intercalate words

/-- An option with the text attached to it, if there is any. -/
inductive Mention
  | short (key : Key) (attached : Option (List Char))
  | long (key : Key) (attached : Option String)

inductive Word
  | plain (word : String)
  | separator
  | option (mention : Mention)
  | unknown (word : String)

/-- A minus sign and a number in plain notation; one line feed may follow. -/
def isNegativeNumber : List Char → Bool
  | '-' :: cs =>
    let body := if cs.getLast? = some '\n' then cs.dropLast else cs
    match body.dropWhile isDecimalDigit with
    | [] => !body.isEmpty
    | '.' :: fraction => !fraction.isEmpty && fraction.all isDecimalDigit
    | _ => false
  | _ => false

/-- A word with a hyphen in front that is no option. -/
def unmatched (word : String) : Word :=
  if isNegativeNumber word.toList || word.toList.contains ' ' then .plain word else .unknown word

/-- The name before the first equals sign and the value behind it. -/
def splitValue (cs : List Char) : List Char × Option String :=
  match cs.dropWhile (· != '=') with
  | [] => (cs, none)
  | _ :: value => (cs.takeWhile (· != '='), some (String.ofList value))

def classLong (word : String) : Except Misuse Word :=
  let (name, value) := splitValue word.toList
  match Key.ofLong? word.toList, Key.ofLong? name with
  | some key, _ => .ok (.option (.long key none))
  | none, some key => .ok (.option (.long key value))
  | none, none =>
    match Key.startingWith name with
    | [] => .ok (unmatched word)
    | [key] => .ok (.option (.long key value))
    | keys => .error (.ambiguous word keys)

/-- The text attached to a short option. An equals sign counts only right behind the option. -/
def attachedText : List Char → Option (List Char)
  | [] => none
  | '=' :: text => some text
  | text => some text

def classWord (word : String) : Except Misuse Word :=
  match word.toList with
  | '-' :: '-' :: _ => classLong word
  | '-' :: c :: tail =>
    match Key.ofShort? c with
    | some key => .ok (.option (.short key (attachedText tail)))
    | none => .ok (unmatched word)
  | _ => .ok (.plain word)

/-- Everything behind the first pair of hyphens is plain. -/
def classWords : List String → Except Misuse (List Word)
  | [] => .ok []
  | word :: rest =>
    if word = "--" then .ok (.separator :: rest.map .plain)
    else
      match classWord word with
      | .error e => .error e
      | .ok w => (classWords rest).map (w :: ·)

/-- What an option was given. -/
inductive Value
  | text (text : String)
  | nothing
deriving DecidableEq

namespace Value

/-- A pair of hyphens ends the options wherever it stands, so it is no text: the option was
given, but given nothing. -/
def ofString (word : String) : Value := if word = "--" then nothing else text word

def text? : Value → Option String
  | text s => some s
  | nothing => none

/-- A value as a field of the settings; nothing is a list without items. -/
def toJson : Value → Json
  | text s => .text s
  | nothing => .array []

end Value

structure Arguments where
  source : String
  force : Bool := false
  output : Option Value := none
  config : Option Value := none
  header : Option Value := none
  headerFile : Option Value := none
  errorName : Option Value := none
  trace : Bool := false
  strictName : Bool := false
  pretty : Bool := false
  verbose : Bool := false
deriving DecidableEq

/-- What has been taken so far. -/
structure Draft where
  found : Bool := false
  arguments : Arguments := { source := "" }
  extras : List String := []

def Draft.addExtra (d : Draft) (word : String) : Draft := { d with extras := d.extras ++ [word] }

def Draft.setSource (d : Draft) (word : String) : Draft :=
  { d with found := true, arguments := { d.arguments with source := word } }

inductive Stop
  | help
  | misuse (fault : Misuse)

/-- What an option word comes to after its flags: no more, an option with its value, or an
option that wants the next word. -/
inductive Ending
  | nothing
  | value (key : Key) (value : String)
  | wants (key : Key)

/-- An option with no text attached. -/
def Key.bare (k : Key) : List Key × Ending :=
  if k.wantsValue then ([], .wants k) else ([k], .nothing)

/-- Takes the text attached to a short option apart. -/
def bundle : Key → List Char → Except Misuse (List Key × Ending)
  | key, [] => if key.wantsValue then .ok ([], .value key "") else .error (.unwantedValue key "")
  | key, c :: rest =>
    if key.wantsValue then .ok ([], .value key (String.ofList (c :: rest)))
    else
      match Key.ofShort? c with
      | none => .error (.unwantedValue key (String.ofList (c :: rest)))
      | some next =>
        (if rest.isEmpty then .ok next.bare else bundle next rest).map fun r => (key :: r.1, r.2)

def Draft.setFlag (d : Draft) (key : Key) : Draft :=
  let a := d.arguments
  { d with arguments := match key with
      | .force => { a with force := true }
      | .trace => { a with trace := true }
      | .strictName => { a with strictName := true }
      | .pretty => { a with pretty := true }
      | .verbose => { a with verbose := true }
      | _ => a }

def Draft.setValue (d : Draft) (key : Key) (value : Value) : Draft :=
  let a := d.arguments
  { d with arguments := match key with
      | .output => { a with output := some value }
      | .config => { a with config := some value }
      | .header => { a with header := some value }
      | .headerFile => { a with headerFile := some value }
      | .errorName => { a with errorName := some value }
      | _ => a }

/-- Sets flags in order; asking for help ends the reading. -/
def Draft.setFlags (d : Draft) : List Key → Except Stop Draft
  | [] => .ok d
  | .help :: _ => .error .help
  | key :: rest => (d.setFlag key).setFlags rest

/-- A long option with the text attached to it. -/
def Key.assigned (k : Key) (text : String) : Except Misuse (List Key × Ending) :=
  if k.wantsValue then .ok ([], .value k text) else .error (.unwantedValue k text)

def Mention.parts : Mention → Except Misuse (List Key × Ending)
  | .short key none | .long key none => .ok key.bare
  | .short key (some text) => bundle key text
  | .long key (some text) => key.assigned text

/-- Takes the words in turn. The pair of hyphens vanishes next to the source path and is a word
too many elsewhere; `fresh` tells that the source path has just been taken. The word of an option
is taken apart as a whole before its flags are set. -/
def take : Bool → List Word → Draft → Except Stop Draft
  | _, [], d => .ok d
  | _, .plain word :: rest, d =>
    if d.found then take false rest (d.addExtra word) else take true rest (d.setSource word)
  | fresh, .separator :: rest, d =>
    if fresh || !d.found then take false rest d else take false rest (d.addExtra "--")
  | _, .unknown word :: rest, d => take false rest (d.addExtra word)
  | _, .option mention :: rest, d =>
    match mention.parts with
    | .error e => .error (.misuse e)
    | .ok (flags, ending) =>
      match ending, rest with
      | .wants key, .plain word :: rest =>
        match d.setFlags flags with
        | .error e => .error e
        | .ok d => take false rest (d.setValue key (.ofString word))
      | .wants key, _ => .error (.misuse (.missingValue key))
      | .nothing, rest =>
        match d.setFlags flags with
        | .error e => .error e
        | .ok d => take false rest d
      | .value key word, rest =>
        match d.setFlags flags with
        | .error e => .error e
        | .ok d => take false rest (d.setValue key (.ofString word))

def parse (words : List String) : Except Stop Arguments :=
  match classWords words with
  | .error e => .error (.misuse e)
  | .ok ws =>
    match take false ws {} with
    | .error e => .error e
    | .ok d =>
      if !d.found then .error (.misuse .missingSource)
      else if !d.extras.isEmpty then .error (.misuse (.unrecognized d.extras))
      else .ok d.arguments

end TypedModule.Command
