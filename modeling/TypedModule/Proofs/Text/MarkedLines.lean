import TypedModule.Declarations
import TypedModule.Proofs.Text.Lines
import TypedModule.Tree.Basic

/-!
# Marked lines

The lines of the code stand in the module with markers between them. The opening of the holder
stands in front of the first line, and the line feed that begins the declarations ends the last
one if it can. None of this joins two lines or cuts one, and the markers can be taken out again.
-/

namespace TypedModule

variable {l m : List Char} {ls ms : List (List Char)}

def markerLine : List Char := marker.toList

/-- The lines, each with the marker it needs in front. -/
def markedLines (ls : List (List Char)) : List (List Char) :=
  ls.flatMap fun l => (marked (String.ofList l)).map String.toList

/-- The lines with the opening of the holder in front of the first one. -/
def leadFirst : List (List Char) → List (List Char)
  | [] => [holderLead.toList]
  | l :: ls => (holderLead.toList ++ l) :: ls

/-- A line without an end, or with one that a line feed makes longer. -/
def endsOpen (l : List Char) : Bool :=
  match l.getLast? with
  | none => true
  | some c => !isTerminator c || c == '\r'

/-- The lines with a line feed behind them, in the last one if that is open. -/
def closeLast : List (List Char) → List (List Char)
  | [] => [['\n']]
  | [l] => if endsOpen l then [l ++ ['\n']] else [l, ['\n']]
  | l :: m :: ls => l :: closeLast (m :: ls)

/-- The lines without the markers that stand before lines that need one. -/
def unmark : List (List Char) → List (List Char)
  | [] => []
  | [l] => [l]
  | l :: m :: ls =>
    if l = markerLine ∧ needsMarker (String.ofList m) then unmark (m :: ls)
    else l :: unmark (m :: ls)

theorem markedLines_cons (l : List Char) (ls : List (List Char)) :
    markedLines (l :: ls) =
      if needsMarker (String.ofList l) then markerLine :: l :: markedLines ls
      else l :: markedLines ls := by
  rw [markedLines, List.flatMap_cons, marked]
  split <;> simp [markedLines, markerLine]

theorem map_toList_marked (ls : List (List Char)) :
    ((ls.map String.ofList).flatMap marked).map String.toList = markedLines ls := by
  rw [markedLines, List.map_flatMap, List.flatMap_map]

theorem markedLines_append (ls ms : List (List Char)) :
    markedLines (ls ++ ms) = markedLines ls ++ markedLines ms :=
  List.flatMap_append

theorem eq_nil_of_markedLines_eq_nil (h : markedLines ls = []) : ls = [] := by
  cases ls with
  | nil => rfl
  | cons l ls =>
    rw [markedLines_cons] at h
    split at h
    · cases h
    · cases h

theorem needsMarker_markerLine : needsMarker (String.ofList markerLine) = false := by
  rw [markerLine, String.ofList_toList]
  exact needsMarker_marker

theorem isTerminator_of_all (h : (l.all fun c => !isTerminator c) = true) :
    ∀ c ∈ l, isTerminator c = false := by
  intro c hc
  simpa using List.all_eq_true.1 h c hc

theorem ended_markerLine : Ended markerLine :=
  ⟨"// @ts-ignore".toList, ['\n'], by simp [lineEnds], rfl, isTerminator_of_all (by decide)⟩

theorem not_cutsPair_of_not_mem {rest : List Char} (h : '\r' ∉ l) : ¬ CutsPair l rest :=
  fun hpair => h (List.mem_of_getLast? hpair.1)

theorem head?_flatten_markedLines (hls : Lines ls)
    (hhead : (markedLines ls).flatten.head? = some '\n') : ls.flatten.head? = some '\n' := by
  cases ls with
  | nil => exact hhead
  | cons l ls =>
    have hl : l ≠ [] := hls.ne_nil_of_mem List.mem_cons_self
    rw [markedLines_cons] at hhead
    split at hhead
    · cases hhead
    · rw [List.flatten_cons, List.head?_append_of_ne_nil _ hl] at hhead
      rw [hls.head?_flatten, hhead]

theorem Lines.markedLines (hls : Lines ls) : Lines (markedLines ls) := by
  have hmarker {ms : List (List Char)} (hms : Lines ms) : Lines (markerLine :: ms) :=
    Lines.cons ended_markerLine (not_cutsPair_of_not_mem (by decide)) hms
  induction hls with
  | nil => exact Lines.nil
  | @last l h =>
    rw [markedLines_cons]
    split
    · exact hmarker (Lines.last h)
    · exact Lines.last h
  | @cons l ls h hcut hls ih =>
    have hcut' : ¬ CutsPair l (TypedModule.markedLines ls).flatten := fun hpair =>
      hcut ⟨hpair.1, head?_flatten_markedLines hls hpair.2⟩
    rw [markedLines_cons]
    split
    · exact hmarker (Lines.cons h hcut' ih)
    · exact Lines.cons h hcut' ih

/-- What stands first among marked lines is a marker or needs none. -/
theorem needsMarker_head_markedLines (h : (markedLines ls).head? = some m) :
    needsMarker (String.ofList m) = false := by
  cases ls with
  | nil => cases h
  | cons l ls =>
    rw [markedLines_cons] at h
    split at h
    · obtain rfl := Option.some.inj h
      exact needsMarker_markerLine
    · next hl =>
      obtain rfl := Option.some.inj h
      simpa using hl

theorem unmark_cons
    (h : l = markerLine → ∀ m, ms.head? = some m → needsMarker (String.ofList m) = false) :
    unmark (l :: ms) = l :: unmark ms := by
  cases ms with
  | nil => rfl
  | cons m ms =>
    rw [unmark, if_neg]
    rintro ⟨hl, hm⟩
    rw [h hl m rfl] at hm
    cases hm

theorem unmark_markedLines (ls : List (List Char)) : unmark (markedLines ls) = ls := by
  induction ls with
  | nil => rfl
  | cons l ls ih =>
    have hkeep : unmark (l :: markedLines ls) = l :: ls := by
      rw [unmark_cons fun _ m hm => needsMarker_head_markedLines hm, ih]
    rw [markedLines_cons]
    split
    · next hl => rw [unmark, if_pos ⟨rfl, hl⟩, hkeep]
    · exact hkeep

theorem isTerminator_holderLead : ∀ c ∈ holderLead.toList, isTerminator c = false :=
  isTerminator_of_all (by decide +kernel)

theorem flatten_leadFirst (ls : List (List Char)) :
    (leadFirst ls).flatten = holderLead.toList ++ ls.flatten := by
  cases ls with
  | nil => simp [leadFirst]
  | cons l ls => simp [leadFirst]

theorem Lines.leadFirst (hls : Lines ls) : Lines (leadFirst ls) := by
  cases hls with
  | nil => exact Lines.last ⟨by decide, isTerminator_holderLead⟩
  | @last l h =>
    refine Lines.last ⟨List.append_ne_nil_of_right_ne_nil _ h.1, fun c hc => ?_⟩
    rcases List.mem_append.1 hc with hc | hc
    · exact isTerminator_holderLead c hc
    · exact h.2 c hc
  | @cons l ls h hcut hls =>
    refine Lines.cons (h.append isTerminator_holderLead) (fun hpair => hcut ⟨?_, hpair.2⟩) hls
    rw [← List.getLast?_append_of_ne_nil holderLead.toList h.ne_nil]
    exact hpair.1

theorem leadFirst_append_cons (ls ms : List (List Char)) (l : List Char) :
    ∃ before lead, leadFirst (ls ++ l :: ms) = before ++ (lead ++ l) :: ms ∧
      before.length = ls.length ∧
      (∀ m, ls.getLast? = some m → ∃ m', before.getLast? = some m' ∧ m <:+ m') ∧
      (lead = [] ∨ ls = [] ∧ lead = holderLead.toList) := by
  cases ls with
  | nil =>
    refine ⟨[], holderLead.toList, rfl, rfl, fun m hm => ?_, Or.inr ⟨rfl, rfl⟩⟩
    cases hm
  | cons k ls =>
    refine ⟨(holderLead.toList ++ k) :: ls, [], rfl, rfl, fun m hm => ?_, Or.inl rfl⟩
    cases ls with
    | nil =>
      obtain rfl := Option.some.inj hm
      exact ⟨_, rfl, List.suffix_append _ _⟩
    | cons k' ls => exact ⟨m, hm, List.suffix_refl m⟩

theorem flatten_closeLast (ls : List (List Char)) :
    (closeLast ls).flatten = ls.flatten ++ ['\n'] := by
  fun_induction closeLast ls with
  | case1 => rfl
  | case2 l h => simp
  | case3 l h => simp
  | case4 l m ls ih => simp [ih]

theorem not_return_of_closed (hopen : endsOpen l = false) : l.getLast? ≠ some '\r' := by
  intro hlast
  rw [endsOpen, hlast] at hopen
  cases hopen

theorem Ended.open (hl : Ended l) (hopen : endsOpen l = true) : Ended (l ++ ['\n']) := by
  obtain ⟨body, e, he, rfl, hbody⟩ := hl
  have hlast : e = ['\r'] := by
    rw [endsOpen, List.getLast?_append_of_ne_nil _ (ne_nil_of_mem_lineEnds he)] at hopen
    simp only [lineEnds, List.mem_cons, List.not_mem_nil, or_false] at he
    rcases he with rfl | rfl | rfl | rfl | rfl
    · cases hopen
    · rfl
    · cases hopen
    · cases hopen
    · cases hopen
  subst hlast
  exact ⟨body, ['\r', '\n'], by simp [lineEnds], by simp, hbody⟩

theorem Unended.endsOpen (hl : Unended l) : endsOpen l = true := by
  cases hlast : l.getLast? with
  | none => rw [TypedModule.endsOpen, hlast]
  | some c =>
    rw [TypedModule.endsOpen, hlast]
    simp [hl.2 c (List.mem_of_getLast? hlast)]

theorem Lines.closeLast (hls : Lines ls) : Lines (closeLast ls) := by
  have hfeed : Lines [['\n']] :=
    Lines.cons (ended_of_mem_lineEnds (by simp [lineEnds])) (fun hpair => by cases hpair.2)
      Lines.nil
  induction hls with
  | nil => exact hfeed
  | @last l h =>
    rw [TypedModule.closeLast, if_pos h.endsOpen]
    refine Lines.cons ⟨l, ['\n'], by simp [lineEnds], rfl, h.2⟩ (fun hpair => ?_) Lines.nil
    cases hpair.2
  | @cons l ls h hcut hls ih =>
    cases ls with
    | nil =>
      rw [TypedModule.closeLast]
      split
      · next hopen => exact Lines.cons (h.open hopen) (fun hpair => by cases hpair.2) Lines.nil
      · next hopen =>
        refine Lines.cons h (fun hpair => ?_) hfeed
        exact not_return_of_closed (by simpa using hopen) hpair.1
    | cons m ls =>
      have hm : m ≠ [] := hls.ne_nil_of_mem List.mem_cons_self
      rw [TypedModule.closeLast]
      refine Lines.cons h (fun hpair => hcut ⟨hpair.1, ?_⟩) ih
      have hne : (m :: ls).flatten ≠ [] := List.append_ne_nil_of_left_ne_nil hm _
      rw [← List.head?_append_of_ne_nil _ hne, ← flatten_closeLast]
      exact hpair.2

example : closeLast (leadFirst (markedLines [])) = [holderLead.toList ++ ['\n']] := by
  decide +kernel

theorem closeLast_append_cons (ls ms : List (List Char)) (l : List Char) :
    ∃ feed after, closeLast (ls ++ l :: ms) = ls ++ (l ++ feed) :: after ∧
      (feed = [] ∨ ms = [] ∧ endsOpen l = true ∧ feed = ['\n']) := by
  induction ls with
  | nil =>
    cases ms with
    | nil =>
      by_cases h : endsOpen l
      · exact ⟨['\n'], [], by simp [closeLast, h], Or.inr ⟨rfl, h, rfl⟩⟩
      · exact ⟨[], [['\n']], by simp [closeLast, h], Or.inl rfl⟩
    | cons m ms => exact ⟨[], closeLast (m :: ms), by simp [closeLast], Or.inl rfl⟩
  | cons k ls ih =>
    obtain ⟨feed, after, hclose, hfeed⟩ := ih
    refine ⟨feed, after, ?_, hfeed⟩
    have hstep : closeLast (k :: (ls ++ l :: ms)) = k :: closeLast (ls ++ l :: ms) := by
      cases ls with
      | nil => rfl
      | cons k' ls => rfl
    rw [List.cons_append, hstep, hclose]
    rfl

/-- A line of the code among lines of which the first ones, so many, are not of the code. It
stands alone but for the opening of the holder in front of the first line and a line feed behind
the last one, and if it needs a marker then the line before it ends with one. -/
def Placed (lines : List (List Char)) (offset : Nat) (before : List (List Char)) (l : List Char)
    (after : List (List Char)) : Prop :=
  ∃ pre lead feed post, lines = pre ++ (lead ++ l ++ feed) :: post ∧
    pre.length + 1 = offset + (markedLines (before ++ [l])).length ∧
    (needsMarker (String.ofList l) = true → ∃ m, pre.getLast? = some m ∧ markerLine <:+ m) ∧
    (lead = [] ∨ before = [] ∧ needsMarker (String.ofList l) = false ∧
      lead = holderLead.toList) ∧
    (feed = [] ∨ after = [] ∧ endsOpen l = true ∧ feed = ['\n'])

theorem placed_closeLast (before after : List (List Char)) (hl : l ≠ []) :
    Placed (closeLast (leadFirst (markedLines (before ++ l :: after)))) 0 before l after := by
  let own : List (List Char) := if needsMarker (String.ofList l) then [markerLine] else []
  have hmarked (after : List (List Char)) : markedLines (before ++ l :: after) =
      (markedLines before ++ own) ++ l :: markedLines after := by
    rw [markedLines_append, markedLines_cons, List.append_assoc]
    simp only [own]
    split <;> rfl
  obtain ⟨pre, lead, hlead, hlength, hlast, hfirst⟩ :=
    leadFirst_append_cons (markedLines before ++ own) (markedLines after) l
  obtain ⟨feed, post, hclose, hfeed⟩ := closeLast_append_cons pre (markedLines after) (lead ++ l)
  refine ⟨pre, lead, feed, post, ?_, ?_, fun hneeds => ?_, ?_, ?_⟩
  · rw [hmarked, hlead, hclose]
  · rw [hmarked, List.length_append, hlength, Nat.zero_add]
    rfl
  · refine hlast markerLine ?_
    simp [own, hneeds]
  · refine hfirst.imp_right fun ⟨hnil, hlead⟩ => ?_
    obtain ⟨hbefore, hown⟩ := List.append_eq_nil_iff.1 hnil
    refine ⟨eq_nil_of_markedLines_eq_nil hbefore, ?_, hlead⟩
    by_contra hneeds
    rw [Bool.not_eq_false] at hneeds
    simp [own, hneeds] at hown
  · refine hfeed.imp_right fun ⟨hnil, hopen, hfeed⟩ => ?_
    refine ⟨eq_nil_of_markedLines_eq_nil hnil, ?_, hfeed⟩
    rwa [endsOpen, List.getLast?_append_of_ne_nil _ hl] at hopen

theorem Placed.between {before after : List (List Char)} (h : Placed ls 0 before l after)
    (front rest : List (List Char)) :
    Placed (front ++ ls ++ rest) front.length before l after := by
  obtain ⟨pre, lead, feed, post, rfl, hlength, hmarker, hlead, hfeed⟩ := h
  refine ⟨front ++ pre, lead, feed, post ++ rest, ?_, ?_, fun hneeds => ?_, hlead, hfeed⟩
  · simp only [List.append_assoc, List.cons_append]
  · rw [List.length_append]
    omega
  · obtain ⟨m, hm, hsuffix⟩ := hmarker hneeds
    exact ⟨m, List.mem_getLast?_append_of_mem_getLast? hm, hsuffix⟩

end TypedModule
