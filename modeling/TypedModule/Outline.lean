import TypedModule.Grid
import TypedModule.Picture
import TypedModule.Tree.Basic

/-!
# Outlines of trees

An outline has one row for every node and every fragment of a tree, depth first, and a header
row on top. A node row tells its depth, its place in the source and how many children it has; a
fragment row shows an excerpt of its text on one line.
-/

namespace TypedModule

def usualWidth : Int := 48

/-- A text on one line: no newlines at its end, those inside as arrows, tabs as blanks. -/
def oneLine (cs : List Char) : List Char :=
  (dropEndWhile (· == '\n') cs).map fun c => if c = '\n' then '↵' else if c = '\t' then ' ' else c

/-- A text on one line, cut off with an ellipsis if it is longer than `width`. -/
def excerpt (width : Int) (s : String) : String :=
  let line := oneLine s.toList
  if (line.length : Int) ≤ width then String.ofList line
  else String.ofList (takeTo (width - 1) line ++ ['…'])

inductive OutlineRow
  | header
  | node (depth : Int) (place : String) (width : Nat)
  | text (depth : Int) (shown : String)
deriving DecidableEq

def OutlineRow.cells : OutlineRow → List Cell
  | header => [.text "depth", .text "kind", .text "where", .text "text"]
  | node depth place width =>
    [.scalar (.int depth), .text "node", .text place, .text (toString width ++ " children")]
  | text depth shown => [.scalar (.int depth), .text "text", .text "", .text shown]

/-- The source and the line, if the line is known. -/
def Tag.place (tag : Tag) : String :=
  match tag.line with
  | none => ""
  | some line => tag.source.getD "" ++ ":" ++ toString line

/-- The rows of a node itself. The header stands above every node of depth zero. -/
def nodeRows (depth : Int) (tag : Tag) (width : Nat) : List OutlineRow :=
  (if depth = 0 then [.header] else []) ++ [.node depth tag.place width]

/-- The rows of children at a depth. -/
def Forest.outline (depth : Int) : Forest → List OutlineRow
  | .nil => []
  | .text s rest => .text depth (excerpt usualWidth s) :: rest.outline depth
  | .node tag inner rest =>
    nodeRows depth tag inner.width ++ inner.outline (depth + 1) ++ rest.outline depth

namespace Tree

def outline (depth : Int) (t : Tree) : List OutlineRow :=
  nodeRows depth t.tag t.children.width ++ t.children.outline (depth + 1)

/-- The outline as a grid. Its rows all have four cells. -/
def drawOutline (t : Tree) : String :=
  Grid.picture ((t.outline 0).map OutlineRow.cells)

end Tree

end TypedModule
