import Mathlib.Data.List.DropRight
import TypedModule.Proofs.Graph.Module
import TypedModule.Proofs.Text.MarkedLines
import TypedModule.Tree.OfText

/-!
# The lines of a module

The module of a text has the lines of the front matter, then those of the text with their
markers, then those of the declarations. The text can be read off it by one who knows the
settings.
-/

namespace TypedModule

def Declarations.text (d : Declarations) : String := String.join d.chunks

/-- The declarations begin with a line feed. -/
theorem Declarations.toList_text (d : Declarations) : ∃ cs, d.text.toList = '\n' :: cs := by
  have hfeed : "\n".toList = ['\n'] := rfl
  rw [Declarations.text, Declarations.chunks, String.toList_join, List.cons_append,
    List.flatMap_cons, String.append_assoc, String.toList_append, hfeed, List.append_assoc,
    List.singleton_append]
  exact ⟨_, rfl⟩

theorem drop_rdrop_append {α : Type} (front middle back : List α) :
    ((front ++ middle ++ back).rdrop back.length).drop front.length = middle := by
  rw [List.rdrop, List.length_append, Nat.add_sub_cancel, List.take_left, List.drop_left]

namespace Settings

variable (s : Settings) (name : String)

def frontText : String := String.join (frontMatter s.effectiveHeader)

/-- Takes the code out of a module and the markers out of the code. -/
def recover (text : String) : String :=
  let front := s.frontText.toList ++ holderLead.toList
  let back := (s.declarations s.effectiveName).text.toList
  let code := (text.toList.rdrop back.length).drop front.length
  String.ofList (unmark (splitLines code)).flatten

/-- The front matter ends a line. -/
theorem getLast?_frontText : s.frontText.toList.getLast? = some '\n' := by
  rw [frontText, String.toList_join]
  cases s.effectiveHeader with
  | none => rfl
  | some text => simp [frontMatter]

theorem toList_render_assemble (t : String) (source : Option String) :
    (s.assemble name (.ofText t source)).render.toList =
      s.frontText.toList ++ holderLead.toList ++ (markedLines (splitLines t.toList)).flatten ++
        (s.declarations name).text.toList := by
  have hcode : (Tree.ofText t source).fragments = (splitLines t.toList).map String.ofList :=
    Forest.fragments_ofLines source 1 _
  rw [Tree.render, fragments_assemble, ← frontMatter_effectiveHeader, hcode]
  simp only [String.toList_join, frontText, Declarations.text, List.flatMap_append,
    List.flatMap_cons, List.append_assoc, ← map_toList_marked, ← List.flatMap_def]

/-- The lines of the module of a text. -/
theorem splitLines_render_assemble (t : String) (source : Option String) :
    ∃ rest, splitLines (s.declarations name).text.toList = ['\n'] :: rest ∧
      splitLines (s.assemble name (.ofText t source)).render.toList =
        splitLines s.frontText.toList ++
          closeLast (leadFirst (markedLines (splitLines t.toList))) ++ rest := by
  obtain ⟨cs, hcs⟩ := (s.declarations name).toList_text
  let code := closeLast (leadFirst (markedLines (splitLines t.toList)))
  have hcode : Lines code := (lines_splitLines t.toList).markedLines.leadFirst.closeLast
  have hflat : code.flatten =
      holderLead.toList ++ (markedLines (splitLines t.toList)).flatten ++ ['\n'] := by
    rw [flatten_closeLast, flatten_leadFirst]
  have hall : Lines (splitLines s.frontText.toList ++ code ++ splitLines cs) := by
    refine Lines.append (Lines.append (lines_splitLines _) hcode ?_) (lines_splitLines cs) ?_
    · rw [flatten_splitLines]
      exact s.getLast?_frontText
    · rw [List.flatten_append, hflat, ← List.append_assoc, List.getLast?_concat]
  have hfeed : splitLines ('\n' :: cs) = ['\n'] :: splitLines cs :=
    splitLines_lineEnd (e := ['\n']) (by simp [lineEnds]) (not_cutsPair_of_not_mem (by decide))
  refine ⟨splitLines cs, by rw [hcs, hfeed], ?_⟩
  rw [toList_render_assemble, hcs, ← hall.splitLines_flatten]
  congr 1
  simp only [List.flatten_append, flatten_splitLines, hflat, List.append_assoc,
    List.singleton_append]

/-- The text comes back from its module. -/
theorem recover_render_assemble (t : String) (source : Option String) :
    s.recover (s.assemble s.effectiveName (.ofText t source)).render = t := by
  have hcode : Lines (markedLines (splitLines t.toList)) := (lines_splitLines _).markedLines
  rw [recover, toList_render_assemble]
  simp only [drop_rdrop_append]
  rw [hcode.splitLines_flatten, unmark_markedLines, flatten_splitLines, String.ofList_toList]

end Settings

namespace Graph

variable {g : Graph} {s : Settings} {strict : Bool} {name : String}

/-- The marker in the text is its own, and its last line ends in a carriage return. -/
def seamText : String := "\r// @ts-ignore\nf();\u2028);\n\rg();\r"

end Graph

end TypedModule
