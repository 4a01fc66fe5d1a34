import TypedModule.Disk.Basic
import TypedModule.Json.Reader
import TypedModule.Settings
import TypedModule.Text.Lines
import TypedModule.Text.Utf8

/-!
# Files as a program reads them

A program sees the disk through two questions: is there anything at a path, and what are the
octets of the file there. Texts are read as UTF-8 with every line end folded into a line feed.
A settings file holds settings as a data file; one that cannot be opened, is no data or does
not fit is a fault of the settings, while octets that are no text are a fault of their own.
-/

namespace TypedModule

structure Files where
  present : String → Bool
  read : String → Except PathFault (List UInt8)

def Disk.files (d : Disk) : Files := ⟨d.present, d.read⟩

inductive ReadFault
  | path (path : String) (fault : PathFault)
  | undecodable (fault : Utf8.Fault)

/-- The text of the octets of a file. -/
def fileText (octets : List UInt8) : Except Utf8.Fault (List Char) :=
  (Utf8.decode octets).map foldNewlines

namespace Files

def readText (files : Files) (path : String) : Except ReadFault (List Char) :=
  match files.read path with
  | .error e => .error (.path path e)
  | .ok octets =>
    match fileText octets with
    | .error e => .error (.undecodable e)
    | .ok cs => .ok cs

end Files

inductive LoadFault
  | settings (fault : SettingsFault)
  | zeroChar
  | undecodable (fault : Utf8.Fault)

/-- Reads a settings file. -/
def Settings.load (files : Files) (path : String) : Except LoadFault Settings :=
  match files.readText path with
  | .error (.path _ .zeroChar) => .error .zeroChar
  | .error (.path path e) => .error (.settings (.unreadable path e.text))
  | .error (.undecodable e) => .error (.undecodable e)
  | .ok cs =>
    match Json.read cs with
    | .error e => .error (.settings (.malformed path (e.message cs)))
    | .ok value =>
      match ofJson value with
      | .error e => .error (.settings e)
      | .ok s => .ok s

end TypedModule
