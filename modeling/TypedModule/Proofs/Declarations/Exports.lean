import TypedModule.Proofs.Declarations.ErrorClass
import TypedModule.Proofs.Text.OneLine

/-!
# What the text of the declarations exports

A line of the text exports a name if it begins with one of the keywords for an export. The exports
of a text are those of its parts, wherever a line feed parts it, so each slot can be read by itself.
What comes out is the list of names that the declarations say they export.
-/

namespace TypedModule

variable {name : String} {s : Slot}

/-- The text has identifier characters only. -/
def OneWord (text : String) : Prop := ∀ d ∈ text.toList, isIdentifierPart d = true

theorem oneWord_ofList {cs : List Char} (h : cs.all isIdentifierPart = true) :
    OneWord (String.ofList cs) := by
  rwa [OneWord, String.toList_ofList, ← List.all_eq_true]

theorem OneWord.oneLine (h : OneWord name) : OneLine name :=
  fun hfeed => absurd (h '\n' hfeed) (by decide)

theorem PlainName.oneWord (h : PlainName name) : OneWord name :=
  fun d hd => isIdentifierPart_iff.2 (h.namePart d hd)

def exportKeywords : List String := ["export interface ", "export type ", "export const "]

/-- All the identifier characters that follow the keyword, if the line begins with one. -/
def exportOf? (line : List Char) : Option String :=
  exportKeywords.findSome? fun keyword => (keyword.toList.isPrefixOf? line).map fun rest =>
    String.ofList (rest.takeWhile isIdentifierPart)

/-- The names that the lines of the text export, in order. -/
def exportsOf (text : List Char) : List String := (text.splitOn '\n').filterMap exportOf?

theorem exportOf?_keyword {keyword : String} (hkeyword : keyword ∈ exportKeywords)
    (hname : OneWord name) {tail : List Char} (htail : tail.head? = some ' ') :
    exportOf? (keyword.toList ++ (name.toList ++ tail)) = some name := by
  have hread : ∀ rest : List Char, exportOf? (keyword.toList ++ rest) =
      some (String.ofList (rest.takeWhile isIdentifierPart)) := by
    simp only [exportKeywords, List.mem_cons, List.not_mem_nil, or_false] at hkeyword
    rcases hkeyword with rfl | rfl | rfl <;> exact fun _ => rfl
  obtain ⟨rest, rfl⟩ := List.head?_eq_some_iff.1 htail
  rw [hread, List.takeWhile_append_of_pos hname, List.takeWhile_cons_of_neg (by decide),
    List.append_nil, String.ofList_toList]

/-- All keywords begin with the same letter. -/
theorem exportOf?_eq_none {line : List Char} (h : line.head? ≠ some 'e') :
    exportOf? line = none := by
  have hkeywords : ∀ keyword ∈ exportKeywords, ∃ rest, keyword.toList = 'e' :: rest := by
    simp only [exportKeywords, List.forall_mem_cons]
    exact ⟨⟨_, rfl⟩, ⟨_, rfl⟩, ⟨_, rfl⟩, by simp⟩
  rw [exportOf?, List.findSome?_eq_none_iff]
  intro keyword hkeyword
  obtain ⟨more, hmore⟩ := hkeywords keyword hkeyword
  rw [hmore, Option.map_eq_none_iff]
  cases line with
  | nil => rfl
  | cons d line =>
    have hd : ('e' == d) = false := by
      rw [beq_eq_false_iff_ne]
      rintro rfl
      exact h rfl
    simp [List.isPrefixOf?, hd]

theorem exportsOf_append_feed (a b : List Char) :
    exportsOf (a ++ '\n' :: b) = exportsOf a ++ exportsOf b := by
  rw [exportsOf, List.splitOn_append_cons_self, List.filterMap_append]
  rfl

theorem exportsOf_feeds (n : Nat) (b : List Char) :
    exportsOf (List.replicate n '\n' ++ b) = exportsOf b := by
  induction n with
  | zero => rfl
  | succ n ih =>
    rw [List.replicate_succ, List.cons_append, ← ih]
    exact exportsOf_append_feed [] _

theorem exportsOf_intercalate {lines : List (List Char)} (h : ∀ l ∈ lines, '\n' ∉ l) :
    exportsOf (['\n'].intercalate lines) = lines.filterMap exportOf? := by
  cases lines with
  | nil => rfl
  | cons line lines => rw [exportsOf, List.splitOn_intercalate '\n' h (List.cons_ne_nil _ _)]

/-- What stands between the line feeds can be read block by block. -/
theorem Spaced.exports {blocks : List (List Char)} {text : List Char} (h : Spaced blocks text) :
    exportsOf text = blocks.flatMap exportsOf := by
  induction h with
  | nil n => exact (congrArg exportsOf (List.append_nil _)).symm.trans (exportsOf_feeds _ [])
  | cons n block hrest ih =>
    -- the rest has a line feed in front, which ends the last line of the block
    obtain ⟨rest, rfl⟩ := hrest.eq_feed
    rw [List.append_assoc, exportsOf_feeds, exportsOf_append_feed, List.flatMap_cons, ← ih]
    exact congrArg _ (exportsOf_append_feed [] rest).symm

theorem Slot.exportsOf_render (hlines : ∀ line ∈ s.lines, OneLine line) :
    exportsOf s.render.toList = (s.lines.map String.toList).filterMap exportOf? := by
  have hfeed : "\n".toList = ['\n'] := rfl
  rw [Slot.render, String.toList_intercalate, hfeed, exportsOf_intercalate]
  exact List.forall_mem_map.2 hlines

/-- The text of the slot exports what the slot says that it exports. -/
def Slot.Truthful (s : Slot) : Prop := exportsOf s.render.toList = s.exported.toList

theorem Slot.truthful_of_line {line : String} (hlines : s.lines = [line]) (hline : OneLine line)
    (hexport : exportOf? line.toList = s.exported) : s.Truthful := by
  have hall : ∀ l ∈ s.lines, OneLine l := by
    rw [hlines, List.forall_mem_singleton]
    exact hline
  rw [Slot.Truthful, Slot.exportsOf_render hall, hlines, List.map_singleton,
    List.filterMap_eq_flatMap_toList, List.flatMap_singleton, hexport]

/-- A line with a keyword, a name and a blank behind the name exports the name. -/
theorem Slot.truthful_of_keyword {keyword tail : String} (hkeyword : keyword ∈ exportKeywords)
    (hname : OneWord name) (htail : OneLine tail) (hblank : tail.toList.head? = some ' ')
    (hlines : s.lines = [keyword ++ (name ++ tail)]) (hexported : s.exported = some name) :
    s.Truthful := by
  have hkeywords : ∀ k ∈ exportKeywords, OneLine k := by decide +kernel
  refine truthful_of_line hlines ?_ ?_
  · rw [oneLine_append, oneLine_append]
    exact ⟨hkeywords keyword hkeyword, hname.oneLine, htail⟩
  · rw [String.toList_append, String.toList_append, hexported]
    exact exportOf?_keyword hkeyword hname hblank

/-- The members and the closing brace export nothing. -/
theorem Slot.truthful_of_block {head : String} {members : List String}
    (hlines : s.lines = block head members) (hhead : OneLine head)
    (hmembers : ∀ m ∈ members, OneLine m)
    (hexport : exportOf? (head ++ " \x7b").toList = s.exported) : s.Truthful := by
  have hall : ∀ l ∈ s.lines, OneLine l := by
    rw [hlines, block, List.cons_append, List.forall_mem_cons, List.forall_mem_append,
      List.forall_mem_map, List.forall_mem_singleton]
    exact ⟨oneLine_append.2 ⟨hhead, oneLine_ofList rfl⟩,
      fun m hm => oneLine_append.2 ⟨oneLine_ofList rfl, hmembers m hm⟩,
      oneLine_ofList rfl⟩
  have hinner : ((members.map ("  " ++ ·) ++ ["\x7d"]).map String.toList).filterMap exportOf? =
      [] := by
    rw [List.filterMap_eq_nil_iff, List.forall_mem_map, List.forall_mem_append,
      List.forall_mem_map, List.forall_mem_singleton]
    refine ⟨fun m _ => exportOf?_eq_none ?_, rfl⟩
    have hindented : ("  " ++ m).toList = ' ' :: ' ' :: m.toList := String.toList_append
    rw [hindented]
    nofun
  rw [Slot.Truthful, Slot.exportsOf_render hall, hlines, block, List.cons_append, List.map_cons,
    List.filterMap_eq_flatMap_toList, List.flatMap_cons, ← List.filterMap_eq_flatMap_toList,
    hinner, hexport, List.append_nil]

theorem truthful_interfaceSlot {members : List String} (hname : OneWord name)
    (hmembers : ∀ m ∈ members, OneLine m) : (interfaceSlot name members).Truthful := by
  have hhead : OneLine ("export interface " ++ name) :=
    oneLine_append.2 ⟨oneLine_ofList rfl, hname.oneLine⟩
  refine Slot.truthful_of_block rfl hhead hmembers ?_
  rw [String.toList_append, String.toList_append, List.append_assoc]
  exact exportOf?_keyword (by simp [exportKeywords]) hname rfl

theorem truthful_aliasSlot {type : String} (hname : OneWord name) (htype : OneLine type) :
    (aliasSlot name type).Truthful := by
  have hline : "export type " ++ name ++ " = " ++ type ++ ";" =
      "export type " ++ (name ++ (" = " ++ (type ++ ";"))) := by
    simp only [String.append_assoc]
  have htail : OneLine (" = " ++ (type ++ ";")) :=
    oneLine_append.2 ⟨oneLine_ofList rfl, oneLine_append.2
      ⟨htype, oneLine_ofList rfl⟩⟩
  have hblank : (" = " ++ (type ++ ";")).toList.head? = some ' ' := by
    rw [String.toList_append]
    rfl
  exact Slot.truthful_of_keyword (by simp [exportKeywords]) hname htail hblank
    (congrArg (fun line => [line]) hline) rfl

theorem truthful_fixedSlots : ∀ s ∈ librarySlots ++ signatureSlots, s.Truthful := by
  have hvariants : OneLine (" | ".intercalate expectationVariants) := by decide +kernel
  simp only [librarySlots, signatureSlots, List.cons_append, List.nil_append, List.forall_mem_cons]
  refine ⟨truthful_interfaceSlot ?_ ?_, truthful_interfaceSlot ?_ ?_, truthful_interfaceSlot ?_ ?_,
    Slot.truthful_of_line rfl ?_ (by decide +kernel), truthful_interfaceSlot ?_ ?_,
    truthful_interfaceSlot ?_ ?_, truthful_interfaceSlot ?_ ?_, truthful_interfaceSlot ?_ ?_,
    truthful_aliasSlot ?_ hvariants,
    Slot.truthful_of_block rfl ?_ ?_ (exportOf?_eq_none (by decide +kernel)),
    truthful_interfaceSlot ?_ ?_, truthful_interfaceSlot ?_ ?_,
    Slot.truthful_of_block rfl ?_ ?_ (exportOf?_eq_none (by decide +kernel)),
    truthful_interfaceSlot ?_ ?_, truthful_aliasSlot ?_ ?_,
    Slot.truthful_of_line rfl ?_ (by decide +kernel), List.forall_mem_nil _⟩
  -- the words and the lines of the tables are left
  all_goals first
    | exact oneWord_ofList rfl
    | simp only [List.forall_mem_cons, List.not_mem_nil, false_imp_iff, implies_true, and_true,
        oneLine_append]
      and_intros
      all_goals exact oneLine_ofList rfl
    | exact oneLine_ofList rfl

namespace Declarations

variable (d : Declarations)

theorem truthful_renameSlot : d.renameSlot.Truthful := by
  have hquoted : OneLine (Json.quoted .ascii d.errorName) :=
    fun hfeed => absurd (Json.printable_quoted d.errorName '\n' hfeed) (by decide)
  have hhead : parserBinding.toList.head? = some 'p' := rfl
  refine Slot.truthful_of_line rfl ?_ (exportOf?_eq_none ?_)
  · rw [oneLine_append, oneLine_append, oneLine_append]
    exact ⟨⟨⟨oneLine_ofList rfl, oneLine_ofList rfl⟩, hquoted⟩,
      oneLine_ofList rfl⟩
  · rw [String.toList_append, String.toList_append, String.toList_append, List.append_assoc,
      List.append_assoc, List.head?_append, hhead]
    nofun

theorem truthful_errorSlot (hname : OneWord d.errorName) : d.errorSlot.Truthful :=
  Slot.truthful_of_keyword (by simp [exportKeywords]) hname (oneLine_ofList rfl) rfl
    d.lines_errorSlot rfl

theorem truthful_tracerSlot : tracerSlot.Truthful := by
  refine Slot.truthful_of_line rfl ?_ (by decide +kernel)
  rw [oneLine_append, oneLine_append]
  exact ⟨⟨oneLine_ofList rfl, oneLine_ofList rfl⟩, oneLine_ofList rfl⟩

theorem truthful_slots (hname : OneWord d.errorName) : ∀ s ∈ d.slots, s.Truthful := by
  have hfixed := List.forall_mem_append.1 truthful_fixedSlots
  rw [slots, List.forall_mem_append, List.forall_mem_append, List.forall_mem_cons,
    List.forall_mem_cons]
  refine ⟨⟨hfixed.1, d.truthful_renameSlot, hfixed.2⟩, d.truthful_errorSlot hname, ?_⟩
  split
  · exact List.forall_mem_singleton.2 truthful_tracerSlot
  · exact List.forall_mem_nil _

theorem exportsOf_text (hname : OneWord d.errorName) :
    exportsOf d.text.toList = d.exportedNames := by
  rw [d.spaced_text.exports, List.map_map, List.flatMap_map, exportedNames,
    List.filterMap_eq_flatMap_toList]
  exact List.flatMap_congr (d.truthful_slots hname)

/-- The library exports its slots apart from those whose names begin with an underscore. -/
theorem exportedNames_eq : d.exportedNames =
    (librarySlots.map Slot.name).filter (fun s => s.toList.head? != some '_') ++
      ["ParseOptions", "ParseFunction", "parse", d.errorName] ++
        (if d.trace then ["DefaultTracer"] else []) := by
  have hlibrary : librarySlots.filterMap Slot.exported =
      (librarySlots.map Slot.name).filter (fun s => s.toList.head? != some '_') := by
    decide +kernel
  have hsignature : signatureSlots.filterMap Slot.exported =
      ["ParseOptions", "ParseFunction", "parse"] := rfl
  have hdynamic : (d.errorSlot :: if d.trace then [tracerSlot] else []).filterMap Slot.exported =
      d.errorName :: if d.trace then ["DefaultTracer"] else [] := by
    split <;> rfl
  rw [exportedNames, slots, List.filterMap_append, List.filterMap_append, hlibrary,
    List.filterMap_cons_none rfl, hsignature, hdynamic]
  simp only [List.append_assoc, List.cons_append, List.nil_append]

end Declarations

/-- The lines of the text that begin with a keyword for an export have the exported names behind
it, in order and as often as they are exported. -/
theorem exports_as_told (h : checkErrorName true name = .ok name) (trace : Bool) :
    exportsOf (Declarations.mk name trace).text.toList =
      (Declarations.mk name trace).exportedNames := by
  have hplain : PlainName name := ((checkErrorName_eq_ok_iff true name).1 h).2 rfl
  exact Declarations.exportsOf_text _ hplain.oneWord

/-- The name is that of a type in the library, which is then exported twice. -/
theorem exports_as_told_expectation :
    checkErrorName true "Expectation" = .ok "Expectation" ∧
      exportsOf (Declarations.mk "Expectation" true).text.toList = ["FilePosition", "FileRange",
        "LiteralExpectation", "ClassParts", "ClassExpectation", "AnyExpectation", "EndExpectation",
        "OtherExpectation", "Expectation", "TraceEvent", "ParserTracer", "ParseOptions",
        "ParseFunction", "parse", "Expectation", "DefaultTracer"] := by
  have h : checkErrorName true "Expectation" = .ok "Expectation" := by decide +kernel
  exact ⟨h, exports_as_told h true⟩

end TypedModule
