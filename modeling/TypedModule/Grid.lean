import TypedModule.Json.Value

/-!
# Grids

A grid is drawn with aligned columns between rules, and with a rule below its first row. Every
column is as wide as its widest cell. The rows must all have one length, and there must be a
row.
-/

namespace TypedModule

inductive Cell
  | text (value : String)
  | scalar (value : Scalar)

def Cell.shown : Cell → String
  | text s => s
  | scalar v => v.shown

namespace Grid

/-- The row lengths, if they do not fit together. -/
def misfit? {α : Type} (rows : List (List α)) : Option (List Nat) :=
  match rows.map List.length with
  | [] => some []
  | n :: rest => if rest.all (· == n) then none else some (n :: rest)

def columnWidths : List (List String) → List Nat
  | [] => []
  | [row] => row.map String.length
  | row :: rest => List.zipWith max (row.map String.length) (columnWidths rest)

def padded (width : Nat) (s : String) : String :=
  s ++ String.ofList (List.replicate (width - s.length) ' ')

def rule (widths : List Nat) (crossing : String) : String :=
  crossing.intercalate (widths.map fun w => String.ofList (List.replicate w '─'))

def upperRule (widths : List Nat) : String := rule widths "─┬─"

def innerRule (widths : List Nat) : String := rule widths "─┼─"

def lowerRule (widths : List Nat) : String := rule widths "─┴─"

def row (widths : List Nat) (cells : List String) : String :=
  " │ ".intercalate (List.zipWith padded widths cells)

/-- The drawn lines of rows that fit together. -/
def drawing (rows : List (List String)) : List String :=
  let widths := columnWidths rows
  let body := match rows.map (row widths) with
    | first :: second :: rest => first :: innerRule widths :: second :: rest
    | lines => lines
  upperRule widths :: body ++ [lowerRule widths]

/-- The text of the drawing, each line with its end. -/
def picture (rows : List (List Cell)) : String :=
  String.join ((drawing (rows.map (·.map Cell.shown))).map (· ++ "\n"))

def draw (rows : List (List Cell)) : Except (List Nat) String :=
  match misfit? rows with
  | some lengths => .error lengths
  | none => .ok (picture rows)

/-- The complaint about rows that do not fit together. -/
def misfitMessage (lengths : List Nat) : String :=
  "[" ++ ", ".intercalate (lengths.map toString) ++ "]"

end Grid

end TypedModule
