import TypedModule.Declarations
import TypedModule.ErrorName
import TypedModule.Settings
import TypedModule.Tree.Basic

/-!
# Assembling the module

The typed module has the directive and the header in front, then a holder that binds the
annotated code, then the declarations. The code is never altered: its fragments come through in
order, with markers between them. The error name is checked before anything is built.
-/

namespace TypedModule

def disableDirective : String := "/* eslint-disable */\n\n"

/-- What stands in front of the holder. -/
def frontMatter (header : Option String) : List String :=
  match header with
  | none => [disableDirective]
  | some h => [disableDirective, h ++ "\n\n"]

namespace Tree

/-- The node that binds the code to its name. -/
def holder (code : Tree) : Tree := ⟨{}, .text holderLead (.ofTree code)⟩

def enclose (header : Option String) (code : Tree) : Tree :=
  ⟨{}, .ofTexts (frontMatter header) ++ .ofTree code.holder⟩

def addTexts (t : Tree) (ss : List String) : Tree := ⟨t.tag, t.children ++ .ofTexts ss⟩

theorem fragments_enclose (header : Option String) (code : Tree) :
    (code.enclose header).fragments = frontMatter header ++ holderLead :: code.fragments := by
  simp [enclose, holder, fragments, Forest.ofTree, Forest.fragments]

theorem fragments_addTexts (t : Tree) (ss : List String) :
    (t.addTexts ss).fragments = t.fragments ++ ss := by
  simp [addTexts, fragments]

end Tree

/-- What the pass tells about its work: the fragments and markers of the annotated code, and
the declared slots and exported names. -/
def Declarations.report (d : Declarations) (fragments : List String) : String :=
  "Wrapped " ++ toString fragments.length ++ " fragments of generated code; " ++
    toString (fragments.count marker) ++ " of those are suppression markers.\n" ++
    "Declared " ++ toString d.slots.length ++ " slots, exporting: " ++
    ", ".intercalate d.exportedNames ++ "\n"

namespace Settings

def declarations (s : Settings) (name : String) : Declarations := ⟨name, s.trace⟩

/-- The name in force, checked. -/
def checkedName (s : Settings) (strict : Bool) : Except NameFault String :=
  checkErrorName strict s.effectiveName

/-- The module around a tree of code, for a name that has been checked. -/
def assemble (s : Settings) (name : String) (code : Tree) : Tree :=
  (code.annotate.enclose s.effectiveHeader).addTexts (s.declarations name).chunks

def wrap (s : Settings) (strict : Bool) (code : Tree) : Except NameFault Tree :=
  (s.checkedName strict).map fun name => s.assemble name code

/-- What the pass tells about its work on a tree of code. -/
def report (s : Settings) (code : Tree) : String :=
  (s.declarations s.effectiveName).report code.annotate.fragments

end Settings

end TypedModule
