import TypedModule.Assembly
import TypedModule.Command.Arguments
import TypedModule.Files
import TypedModule.Outline
import TypedModule.Tree.OfText

/-!
# Running the command

A run reads a script and writes the typed module beside it. All checks and all reading come
before the one write, so a run that fails before it leaves the disk as it was. What a run wants
to do is a plan that depends only on the files; carrying it out is a separate step, on a disk
or in the real world. A run ends with a report, unless it comes to open a path with a zero
character: no system takes such a path, so the run breaks off there.
-/

namespace TypedModule.Command

/-- What a run leaves for its caller to see. -/
structure Report where
  status : Nat
  out : String
  err : String
deriving DecidableEq

inductive RunResult
  | reported (report : Report)
  | brokenOff (path : String)
deriving DecidableEq

inductive RunFault
  | targetExists
  | settings (fault : SettingsFault)
  | name (fault : NameFault)
  | read (fault : ReadFault)

def RunFault.message : RunFault → String
  | targetExists =>
    "Target file already exists and --force command-line argument was not given.\n"
  | settings fault => fault.message ++ "\n"
  | name fault => fault.message ++ "\n" ++ fault.picture.render ++ "\n"
  | read (.path path fault) => "Could not read " ++ path ++ ": " ++ fault.text ++ "\n"
  | read (.undecodable fault) => "Could not decode input as utf-8: " ++ fault.reason.text ++ "\n"

def RunFault.result : RunFault → RunResult
  | read (.path path .zeroChar) => .brokenOff path
  | fault => .reported ⟨1, "", fault.message⟩

/-- What a run comes to: an early end, or a text to be written after some output. -/
inductive Plan
  | stop (fault : RunFault)
  | save (out path text : String)

namespace Arguments

variable (a : Arguments)

/-- The path in a value; an empty text names no file, nor does a value that is no text. -/
def path? (value : Option Value) : Option String := Settings.nonempty (value.bind Value.text?)

/-- The output path, or else the source path with its extension replaced. -/
def target : String := (path? a.output).getD (stem a.source ++ ".ts")

/-- The settings file, if one is named. -/
def configSettings (files : Files) : Except RunFault Settings :=
  match path? a.config with
  | none => .ok {}
  | some path =>
    match Settings.load files path with
    | .ok s => .ok s
    | .error (.settings e) => .error (.settings e)
    | .error (.undecodable e) => .error (.read (.undecodable e))
    | .error .zeroChar => .error (.read (.path path .zeroChar))

/-- A value as a field of the settings. -/
def field (value : Option Value) : Json := (value.map Value.toJson).getD .null

/-- The header that the arguments give: the text of the header file without the newlines at its
end, or the value given directly. -/
def headerField (files : Files) : Except RunFault Json :=
  match path? a.headerFile with
  | none => .ok (field a.header)
  | some path =>
    match files.readText path with
    | .error e => .error (.read e)
    | .ok cs => .ok (.text (String.ofList (dropEndWhile (· == '\n') cs)))

def fields (header : Json) : Fields where
  header := header
  errorName := field a.errorName
  trace := if a.trace then .scalar (.bool true) else .null

def settings (files : Files) : Except RunFault Settings :=
  if a.header.isSome && a.headerFile.isSome then .error (.settings .twoHeaders)
  else
    match a.configSettings files with
    | .error e => .error e
    | .ok config =>
      match a.headerField files with
      | .error e => .error e
      | .ok header =>
        match config.overridden (a.fields header) with
        | .error e => .error (.settings e)
        | .ok s => .ok s

/-- What is told about a module before it is written. -/
def display (s : Settings) (code wrapped : Tree) : String :=
  (if a.verbose then s.report code else "") ++
    (if a.pretty then wrapped.drawOutline else "")

def plan (files : Files) : Plan :=
  if files.present a.target && !a.force then .stop .targetExists
  else
    match a.settings files with
    | .error e => .stop e
    | .ok s =>
      match files.readText a.source with
      | .error e => .stop (.read e)
      | .ok cs =>
        let code := Tree.ofText (String.ofList cs) (some (baseName a.source))
        match s.wrap a.strictName code with
        | .error e => .stop (.name e)
        | .ok wrapped => .save (a.display s code wrapped) a.target wrapped.render

end Arguments

namespace Plan

/-- How a run ends once the writing has gone through or failed. -/
def finish : Plan → Except PathFault Unit → RunResult
  | stop fault, _ => fault.result
  | save _ path _, .error .zeroChar => .brokenOff path
  | save out path _, .error e =>
    .reported ⟨1, out, "Could not write " ++ path ++ ": " ++ e.text ++ "\n"⟩
  | save out path _, .ok _ =>
    .reported ⟨0, out ++ "Wrote typed module to:\n\t" ++ path ++ "\n", ""⟩

end Plan

def programName : String := "py -m typewrap"

def usage : String :=
  "usage: " ++ programName ++ " [-h] [-f] [-o OUTPUT] [-c CONFIG] [--header HEADER]\n" ++
    "       [--header-file HEADER_FILE] [--error-name ERROR_NAME] [--trace]\n" ++
    "       [--strict-name] [--pretty] [-v]\n" ++
    "       source_path\n"

/-- The report on a command line that names nothing to do. -/
def Stop.report : Stop → Report
  | help => ⟨0, usage, ""⟩
  | misuse fault => ⟨2, "", usage ++ programName ++ ": error: " ++ fault.message ++ "\n"⟩

end TypedModule.Command

namespace TypedModule.Disk

open Command

/-- Carries out a run on a disk. -/
def runArguments (d : Disk) (a : Arguments) : RunResult × Disk :=
  match a.plan d.files with
  | .stop fault => ((Plan.stop fault).finish (.ok ()), d)
  | .save out path text =>
    match d.write path (Utf8.encode text.toList) with
    | .error e => ((Plan.save out path text).finish (.error e), d)
    | .ok written => ((Plan.save out path text).finish (.ok ()), written)

def run (d : Disk) (words : List String) : RunResult × Disk :=
  match Command.parse words with
  | .error stop => (.reported stop.report, d)
  | .ok a => d.runArguments a

/-- Runs one after another, each with the disk that it leaves. -/
def runAll : Disk → List (List String) → List (RunResult × Disk)
  | _, [] => []
  | d, words :: rest => d.run words :: runAll (d.run words).2 rest

end TypedModule.Disk
