import TypedModule.Text.Blank

/-!
# Suppression markers

A marker is a comment line that keeps the type checker from looking at the next line. A line
needs one if, once trimmed, it is no comment and has an ASCII letter: empty lines and lines of
mere punctuation never upset the checker. A marker is itself a comment, so it needs none.
-/

namespace TypedModule

def marker : String := "// @ts-ignore\n"

def isComment : List Char → Bool
  | '/' :: '/' :: _ => true
  | _ => false

def needsMarker (line : String) : Bool :=
  let body := trim line.toList
  !isComment body && body.any Char.isAlpha

/-- Blank characters behind a line do not count. -/
theorem needsMarker_append_of_blank {ends : List Char} (h : ∀ c ∈ ends, isBlank c = true)
    (cs : List Char) :
    needsMarker (String.ofList (cs ++ ends)) = needsMarker (String.ofList cs) := by
  rw [needsMarker, needsMarker, String.toList_ofList, String.toList_ofList,
    trim_append_of_blank h]

theorem needsMarker_marker : needsMarker marker = false := by
  decide +kernel

end TypedModule
