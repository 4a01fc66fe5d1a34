import TypedModule.Tree.Basic

/-!
# The tree of a text

A text becomes a node with one child for each of its lines. A child holds its line with the
line end, and remembers the number of the line. Rendering gives the text back.
-/

namespace TypedModule

/-- One node for each line, numbered from `row`. -/
def Forest.ofLines (source : Option String) (row : Int) : List (List Char) → Forest
  | [] => .nil
  | line :: lines =>
    .node { line := some row, column := some 0, source := source }
      (.text (String.ofList line) .nil) (ofLines source (row + 1) lines)

theorem Forest.fragments_ofLines (source : Option String) (row : Int) (ls : List (List Char)) :
    (Forest.ofLines source row ls).fragments = ls.map String.ofList := by
  induction ls generalizing row with
  | nil => rfl
  | cons line lines ih =>
    rw [Forest.ofLines, Forest.fragments, Forest.fragments, Forest.fragments, ih]
    rfl

def Tree.ofText (text : String) (source : Option String) : Tree :=
  ⟨{ source := source }, Forest.ofLines source 1 (splitLines text.toList)⟩

theorem Tree.render_ofText (text : String) (source : Option String) :
    (Tree.ofText text source).render = text := by
  apply String.toList_inj.1
  rw [Tree.render, Tree.fragments, Tree.ofText, Forest.fragments_ofLines, String.toList_join,
    List.flatMap_map]
  simpa [List.flatMap, Function.comp_def] using flatten_splitLines text.toList

end TypedModule
