import TypedModule.Disk.Path

/-!
# Disks

A disk maps places to files and directories. A place is the list of names from the root down,
and the root is a directory. Paths are walked name by name from the root or from the working
directory: every name but the last must lead to a directory, one dot stays and two dots go up.
Writing replaces what a place holds and leaves every other place as it was.
-/

namespace TypedModule

abbrev Place := List String

inductive Entry
  | file (content : List UInt8)
  | directory
deriving DecidableEq

structure Disk where
  entries : List (Place × Entry) := []
  here : Place := []

/-- Why a path cannot be used. -/
inductive PathFault
  | missing
  | isDirectory
  | notDirectory
  | nameTooLong
  | zeroChar
  | refused (reason : String)
deriving DecidableEq

def PathFault.text : PathFault → String
  | missing => "No such file or directory"
  | isDirectory => "Is a directory"
  | notDirectory => "Not a directory"
  | nameTooLong => "File name too long"
  | zeroChar => "embedded null byte"
  | refused reason => reason

namespace Disk

def longestName : Nat := 255

def longestPath : Nat := 4095

def lookUp (place : Place) : List (Place × Entry) → Option Entry
  | [] => none
  | (p, e) :: rest => if p = place then some e else lookUp place rest

def setEntry (place : Place) (entry : Entry) : List (Place × Entry) → List (Place × Entry)
  | [] => [(place, entry)]
  | (p, e) :: rest =>
    if p = place then (place, entry) :: rest else (p, e) :: setEntry place entry rest

@[simp] theorem lookUp_setEntry_self (place : Place) (entry : Entry)
    (entries : List (Place × Entry)) :
    lookUp place (setEntry place entry entries) = some entry := by
  induction entries with
  | nil => simp [setEntry, lookUp]
  | cons f rest ih =>
    by_cases h : f.1 = place
    · simp [setEntry, lookUp, h]
    · simp [setEntry, lookUp, h, ih]

theorem lookUp_setEntry_of_ne {place other : Place} (h : other ≠ place) (entry : Entry)
    (entries : List (Place × Entry)) :
    lookUp other (setEntry place entry entries) = lookUp other entries := by
  induction entries with
  | nil => simp [setEntry, lookUp, h.symm]
  | cons f rest ih =>
    by_cases hp : f.1 = place
    · simp [setEntry, lookUp, hp, h.symm]
    · simp [setEntry, lookUp, hp, ih]

variable (d : Disk)

def entry? (place : Place) : Option Entry :=
  if place = [] then some .directory else lookUp place d.entries

/-- One name further from a place, which must be a directory. -/
def step (place : Place) (name : String) : Except PathFault Place :=
  match d.entry? place with
  | none => .error .missing
  | some (.file _) => .error .notDirectory
  | some .directory =>
    if name = "." then .ok place
    else if name = ".." then .ok place.dropLast
    else if longestName < name.utf8ByteSize then .error .nameTooLong
    else .ok (place ++ [name])

def walk (place : Place) (names : List String) : Except PathFault Place :=
  names.foldlM d.step place

/-- The parts of a path and the place where its walk begins. -/
def begin (path : String) : Except PathFault (Path × Place) :=
  if path.toList.contains '\x00' then .error .zeroChar
  else if path.isEmpty then .error .missing
  else if longestPath < path.utf8ByteSize then .error .nameTooLong
  else
    let p := Path.ofString path
    .ok (p, if p.absolute then [] else d.here)

/-- What an existing path leads to. -/
def find (path : String) : Except PathFault Entry :=
  match d.begin path with
  | .error e => .error e
  | .ok (p, start) =>
    match d.walk start p.names with
    | .error e => .error e
    | .ok place =>
      match d.entry? place with
      | none => .error .missing
      | some .directory => .ok .directory
      | some (.file content) => if p.slashed then .error .notDirectory else .ok (.file content)

def present (path : String) : Bool :=
  match d.find path with
  | .ok _ => true
  | .error _ => false

def read (path : String) : Except PathFault (List UInt8) :=
  match d.find path with
  | .error e => .error e
  | .ok .directory => .error .isDirectory
  | .ok (.file content) => .ok content

/-- The place that opening a path for writing creates or empties. -/
def writable (path : String) : Except PathFault Place :=
  match d.begin path with
  | .error e => .error e
  | .ok (p, start) =>
    match p.names.getLast? with
    | none => .error .isDirectory
    | some last =>
      match d.walk start p.names.dropLast with
      | .error e => .error e
      | .ok parent =>
        match d.step parent last with
        | .error .nameTooLong => .error (if p.slashed then .isDirectory else .nameTooLong)
        | .error e => .error e
        | .ok place =>
          if p.slashed then .error .isDirectory
          else match d.entry? place with
            | some .directory => .error .isDirectory
            | _ => .ok place

def put (place : Place) (content : List UInt8) : Disk :=
  { d with entries := setEntry place (.file content) d.entries }

def write (path : String) (content : List UInt8) : Except PathFault Disk :=
  (d.writable path).map fun place => d.put place content

end Disk

end TypedModule
