import TypedModule.Proofs.Graph.Module

/-!
# The statistics of a run

The report of a run counts the fragments of the annotated code and the markers among them. Both
numbers grow by one for every fragment that needs a marker, so their difference stays what it was.
The module has no more markers than the code in it: no text that the pass adds is one, whatever
the header and the name.
-/

namespace TypedModule

theorem length_marked (s : String) :
    (marked s).length = 1 + if needsMarker s then 1 else 0 := by
  by_cases h : needsMarker s <;> simp [marked, h]

theorem count_marked (s : String) :
    (marked s).count marker = [s].count marker + if needsMarker s then 1 else 0 := by
  by_cases h : needsMarker s
  · rw [marked, if_pos h, if_pos h, List.count_cons_self]
  · rw [marked, if_neg h, if_neg h, Nat.add_zero]

theorem length_flatMap_marked (ss : List String) :
    (ss.flatMap marked).length = ss.length + ss.countP needsMarker := by
  induction ss with
  | nil => rfl
  | cons s ss ih =>
    rw [List.flatMap_cons, List.length_append, length_marked, ih, List.countP_cons,
      List.length_cons]
    omega

theorem count_flatMap_marked (ss : List String) :
    (ss.flatMap marked).count marker = ss.count marker + ss.countP needsMarker := by
  induction ss with
  | nil => rfl
  | cons s ss ih =>
    have hcons : (s :: ss).count marker = [s].count marker + ss.count marker := by
      rw [← List.singleton_append, List.count_append]
    rw [List.flatMap_cons, List.count_append, count_marked, ih, List.countP_cons, hcons]
    omega

theorem length_eq_count_add (ss : List String) :
    ss.length = ss.count marker + ss.countP (· ≠ marker) := by
  rw [List.count, List.length_eq_countP_add_countP (· == marker)]
  simp only [beq_iff_eq]

/-- Tells the number of fragments and how many of them are markers. -/
def countsLine (fragments markers : Nat) : String :=
  "Wrapped " ++ toString fragments ++ " fragments of generated code; " ++ toString markers ++
    " of those are suppression markers.\n"

/-- Tells the number of slots and the names that they export. -/
def Declarations.namesLine (d : Declarations) : String :=
  "Declared " ++ toString d.slots.length ++ " slots, exporting: " ++
    ", ".intercalate d.exportedNames ++ "\n"

theorem Declarations.report_eq (d : Declarations) (ss : List String) :
    d.report ss = countsLine ss.length (ss.count marker) ++ d.namesLine := by
  unfold Declarations.report countsLine Declarations.namesLine
  simp only [String.append_assoc]

/-- A header ends with an empty line, which a marker does not. -/
theorem append_blankLine_ne_marker (text : String) : text ++ "\n\n" ≠ marker := by
  intro h
  have hchars : (text.toList ++ ['\n']) ++ ['\n'] = "// @ts-ignore".toList ++ ['\n'] := by
    rw [List.append_assoc]
    exact String.toList_append.symm.trans (congrArg String.toList h)
  have hlast := congrArg List.getLast? (List.append_inj_left' hchars rfl)
  rw [List.getLast?_append_of_ne_nil _ (List.cons_ne_nil _ _)] at hlast
  cases hlast

theorem append_ne_marker {s : String} {c : Char} (hs : s.toList.head? = some c) (hc : c ≠ '/')
    (rest : String) : s ++ rest ≠ marker := by
  intro h
  have hhead : (s ++ rest).toList.head? = some '/' := by
    rw [h]
    rfl
  rw [String.toList_append, List.head?_append, hs] at hhead
  exact hc (Option.some.inj hhead)

theorem marker_notMem_headerTexts (s : Settings) : marker ∉ s.headerTexts := by
  rw [Settings.headerTexts]
  split
  · exact List.not_mem_nil
  · split
    · exact List.not_mem_nil
    · intro h
      exact append_blankLine_ne_marker _ (List.mem_singleton.1 h).symm

/-- The rename statement begins with the name of the binding, all other chunks with a line feed. -/
theorem marker_notMem_chunks (d : Declarations) : marker ∉ d.chunks := by
  have hfeed (text rest : String) : "\n" ++ text ++ rest ≠ marker := by
    rw [String.append_assoc]
    exact append_ne_marker rfl (by decide) (text ++ rest)
  have hrename : d.renameSlot.render ++ "\n" ≠ marker := by
    rw [Declarations.renameSlot, Slot.render, String.intercalate_singleton, String.append_assoc,
      String.append_assoc, String.append_assoc]
    exact append_ne_marker rfl (by decide) _
  rw [Declarations.chunks, List.mem_append, List.mem_cons, List.mem_cons, List.mem_cons,
    List.mem_singleton]
  rintro ((h | h | h | h) | h)
  · exact hfeed _ _ h.symm
  · exact hrename h.symm
  · exact hfeed _ _ h.symm
  · exact hfeed _ _ h.symm
  · split at h
    · exact hfeed _ _ (List.mem_singleton.1 h).symm
    · cases h

/-- The texts that the pass puts in front of the code. -/
def Settings.textsBefore (s : Settings) : List String :=
  disableDirective :: s.headerTexts ++ [holderLead]

theorem marker_notMem_textsBefore (s : Settings) : marker ∉ s.textsBefore := by
  rw [Settings.textsBefore, List.mem_append, List.mem_cons, List.mem_singleton]
  rintro ((h | h) | h)
  · revert h
    decide
  · exact marker_notMem_headerTexts s h
  · revert h
    decide

theorem fragments_assemble_around (s : Settings) (name : String) (t : Tree) :
    (s.assemble name t).fragments =
      s.textsBefore ++ t.fragments.flatMap marked ++ (s.declarations name).chunks := by
  rw [fragments_assemble, Settings.textsBefore, List.append_assoc (disableDirective :: _) [_],
    List.singleton_append]

theorem countMarkers_assemble (s : Settings) (name : String) (t : Tree) :
    (s.assemble name t).countMarkers = t.countMarkers + t.fragments.countP needsMarker := by
  have hbefore : s.textsBefore.count marker = 0 :=
    List.count_eq_zero.2 (marker_notMem_textsBefore s)
  have hchunks : (s.declarations name).chunks.count marker = 0 :=
    List.count_eq_zero.2 (marker_notMem_chunks _)
  rw [Tree.countMarkers, fragments_assemble_around, List.count_append, List.count_append,
    hbefore, hchunks, count_flatMap_marked, Nat.zero_add, Nat.add_zero, Tree.countMarkers]

namespace Graph

variable {g : Graph} {i : NodeId} {t : Tree}

theorem countMarkers_of_unfold (ht : g.unfold i = .ok t) :
    g.countMarkers i = .ok t.countMarkers := by
  rw [countMarkers, walk, ht]
  rfl

/-- The module has the markers of the code and one for every fragment of it that needs one. None
of the texts around the code is a marker. The report tells the number of fragments of the
annotated code and that of the markers, which differ by the fragments of the code that are none. -/
theorem wrap_statistics (hg : g.WellFormed) (hi : i < g.size) (ht : g.Textual i) (s : Settings)
    (strict : Bool) {name : String} (hname : checkErrorName strict s.effectiveName = .ok name) :
    ∃ out fragments before after t, g.wrap s strict (some i) = .ok out ∧
      g.fragments i = .ok fragments ∧ g.countMarkers i = .ok (fragments.count marker) ∧
      out.graph.fragments out.root = .ok (before ++ fragments.flatMap marked ++ after) ∧
      marker ∉ before ∧ marker ∉ after ∧
      out.graph.countMarkers out.root =
        .ok (fragments.count marker + fragments.countP needsMarker) ∧
      out.report = countsLine (fragments.length + fragments.countP needsMarker)
        (fragments.count marker + fragments.countP needsMarker) ++ out.declarations.namesLine ∧
      g.unfold i = .ok t ∧ s.report t = out.report ∧
      fragments.length + fragments.countP needsMarker =
        fragments.count marker + fragments.countP needsMarker +
          fragments.countP (· ≠ marker) := by
  obtain ⟨t, hunfold⟩ := hg.exists_unfold hi ht
  obtain ⟨out, hout, hw⟩ := wrap_eq_ok hg hi hname hunfold
  have hmodule := fragments_of_unfold hw.sprouted.unfold
  have hmarkers := countMarkers_of_unfold hw.sprouted.unfold
  obtain rfl := eq_of_checkErrorName hname
  have hmarked : t.annotate.fragments = t.fragments.flatMap marked :=
    Forest.fragments_annotate t.children
  have hreport : s.report t = out.report := by
    rw [Outcome.report, fragments_of_unfold hw.code, hw.declarations]
    rfl
  rw [fragments_assemble_around] at hmodule
  rw [countMarkers_assemble] at hmarkers
  refine ⟨out, t.fragments, s.textsBefore, _, t, hout, fragments_of_unfold hunfold,
    countMarkers_of_unfold hunfold, hmodule, marker_notMem_textsBefore s,
    marker_notMem_chunks _, hmarkers, ?_, hunfold, hreport, ?_⟩
  · rw [← hreport, Settings.report, Declarations.report_eq, hmarked, length_flatMap_marked,
      count_flatMap_marked, hw.declarations]
  · rw [length_eq_count_add]
    omega

/-- A node with a marker of its own is a child twice, and there is a marker between them. -/
def sharedMarkers : Graph := ⟨#[
  ⟨{}, [.node 1, .text marker, .node 1]⟩,
  ⟨{ line := some 1 }, [.text marker, .text "f(\n"]⟩]⟩

theorem sharedMarkers_wellFormed : sharedMarkers.WellFormed :=
  WellFormed.of_later (by decide)

theorem sharedMarkers_textual : sharedMarkers.Textual 0 := by
  intro n hn v
  have hlt : n < 2 :=
    sharedMarkers_wellFormed.lt_of_reaches (show 0 < sharedMarkers.size by decide) hn
  match n, hlt with
  | 0, _ => simp [sharedMarkers, children, node]
  | 1, _ => simp [sharedMarkers, children, node]

/-- The header would be a marker if the pass ended it with one line feed less. -/
theorem wrap_sharedMarkers :
    ∃ out, sharedMarkers.wrap { header := some "// @ts-ignore", trace := true } true (some 0) =
        .ok out ∧
      out.graph.countMarkers out.root = .ok 5 ∧
      out.report = "Wrapped 7 fragments of generated code; " ++
        "5 of those are suppression markers.\n" ++ out.declarations.namesLine := by
  have hname : checkErrorName true defaultErrorName = .ok defaultErrorName := by decide +kernel
  have hcode : sharedMarkers.fragments 0 = .ok [marker, "f(\n", marker, marker, "f(\n"] := rfl
  have hneed : [marker, "f(\n", marker, marker, "f(\n"].countP needsMarker = 2 := by
    decide +kernel
  obtain ⟨out, fragments, -, -, -, hout, hfragments, -, -, -, -, hmarkers, hreport, -⟩ :=
    wrap_statistics sharedMarkers_wellFormed (show 0 < sharedMarkers.size by decide)
      sharedMarkers_textual { header := some "// @ts-ignore", trace := true } true hname
  obtain rfl := Except.ok.inj (hcode.symm.trans hfragments)
  rw [hneed] at hmarkers hreport
  exact ⟨out, hout, hmarkers, hreport⟩

end Graph

end TypedModule
