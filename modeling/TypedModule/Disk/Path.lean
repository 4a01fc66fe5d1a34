/-!
# Paths

A path is a row of names between slashes. It is absolute if it begins with a slash, and it asks
for a directory if it ends with one. The stem of a path is the path without the extension of
its last name; dots at the beginning of a name do not begin an extension.
-/

namespace TypedModule

structure Path where
  absolute : Bool
  names : List String
  slashed : Bool
deriving DecidableEq

/-- Cuts a text at every slash. -/
def segments : List Char → List (List Char)
  | [] => [[]]
  | c :: cs =>
    if c = '/' then [] :: segments cs
    else match segments cs with
      | [] => [[c]]
      | s :: rest => (c :: s) :: rest

def Path.ofString (s : String) : Path where
  absolute := s.toList.head? == some '/'
  names := ((segments s.toList).filter fun cs => !cs.isEmpty).map String.ofList
  slashed := s.toList.getLast? == some '/'

/-- The characters after the last slash. -/
def lastName (cs : List Char) : List Char := (cs.reverse.takeWhile (· != '/')).reverse

/-- The characters up to the last slash, with it. -/
def beforeLastName (cs : List Char) : List Char := (cs.reverse.dropWhile (· != '/')).reverse

theorem beforeLastName_append_lastName (cs : List Char) :
    beforeLastName cs ++ lastName cs = cs := by
  rw [beforeLastName, lastName, ← List.reverse_append, List.takeWhile_append_dropWhile,
    List.reverse_reverse]

/-- A name without its extension, the extension being the last dot and what follows it. -/
def nameStem (cs : List Char) : List Char :=
  let dots := cs.takeWhile (· == '.')
  let body := cs.dropWhile (· == '.')
  if body.contains '.' then dots ++ ((body.reverse.dropWhile (· != '.')).drop 1).reverse else cs

def stem (path : String) : String :=
  String.ofList (beforeLastName path.toList ++ nameStem (lastName path.toList))

def baseName (path : String) : String := String.ofList (lastName path.toList)

end TypedModule
