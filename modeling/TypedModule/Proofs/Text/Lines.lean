import Mathlib.Data.List.Basic
import TypedModule.Text.Lines

/-!
# What splitting into lines finds

`Lines` says of a list of texts, without splitting anything, that its members are lines one after
another: each has a terminator at its end and nowhere else, but for the last, which may have none,
and no terminator is cut in two. Splitting a text finds the one such list that joins to the text.
Folding the line ends of a text folds each of its lines, and leaves no other text as it is but one
without carriage returns.
-/

namespace TypedModule

variable {c : Char} {l m rest text cs : List Char} {ls ms : List (List Char)}

def lineEnds : List (List Char) := [['\n'], ['\r'], ['\r', '\n'], ['\u2028'], ['\u2029']]

def Ended (l : List Char) : Prop :=
  ∃ body, ∃ e ∈ lineEnds, l = body ++ e ∧ ∀ c ∈ body, isTerminator c = false

def Unended (l : List Char) : Prop := l ≠ [] ∧ ∀ c ∈ l, isTerminator c = false

/-- The end of a line before a text would be taken for a part of a longer end. -/
def CutsPair (l rest : List Char) : Prop := l.getLast? = some '\r' ∧ rest.head? = some '\n'

inductive Lines : List (List Char) → Prop
  | nil : Lines []
  | last {l : List Char} : Unended l → Lines [l]
  | cons {l : List Char} {ls : List (List Char)} :
    Ended l → ¬ CutsPair l ls.flatten → Lines ls → Lines (l :: ls)

theorem Ended.cons (hc : isTerminator c = false) (hl : Ended l) : Ended (c :: l) := by
  obtain ⟨body, e, he, rfl, hbody⟩ := hl
  refine ⟨c :: body, e, he, rfl, fun d hd => ?_⟩
  rcases List.mem_cons.1 hd with rfl | hd
  · exact hc
  · exact hbody d hd

theorem Ended.append {body : List Char} (hbody : ∀ c ∈ body, isTerminator c = false)
    (hl : Ended l) : Ended (body ++ l) := by
  induction body with
  | nil => exact hl
  | cons c body ih =>
    exact (ih fun d hd => hbody d (by simp [hd])).cons (hbody c (by simp))

theorem ended_of_mem_lineEnds (hl : l ∈ lineEnds) : Ended l :=
  ⟨[], l, hl, rfl, fun _ hd => by cases hd⟩

theorem ne_nil_of_mem_lineEnds (hl : l ∈ lineEnds) : l ≠ [] := by
  rintro rfl
  simp [lineEnds] at hl

theorem Ended.ne_nil (hl : Ended l) : l ≠ [] := by
  obtain ⟨body, e, he, rfl, -⟩ := hl
  exact List.append_ne_nil_of_right_ne_nil body (ne_nil_of_mem_lineEnds he)

theorem Ended.closed (hl : Ended l) : ∃ c, l.getLast? = some c ∧ isTerminator c = true := by
  have hall : ∀ e ∈ lineEnds, ∃ c, e.getLast? = some c ∧ isTerminator c = true := by
    simp [lineEnds, isTerminator]
  obtain ⟨body, e, he, rfl, -⟩ := hl
  obtain ⟨c, hc, hterminator⟩ := hall e he
  refine ⟨c, ?_, hterminator⟩
  rw [List.getLast?_append_of_ne_nil body (ne_nil_of_mem_lineEnds he), hc]

theorem cutsPair_append_iff (hm : m ≠ []) (rest : List Char) :
    CutsPair l (m ++ rest) ↔ CutsPair l m := by
  rw [CutsPair, CutsPair, List.head?_append_of_ne_nil m hm]

theorem Lines.ne_nil_of_mem (hls : Lines ls) (hl : l ∈ ls) : l ≠ [] := by
  induction hls with
  | nil => cases hl
  | last h =>
    obtain rfl := List.mem_singleton.1 hl
    exact h.1
  | cons h _ _ ih =>
    rcases List.mem_cons.1 hl with rfl | hl
    · exact h.ne_nil
    · exact ih hl

theorem lines_consLine (hc : isTerminator c = false) (hls : Lines ls) :
    Lines (consLine c ls) := by
  cases hls with
  | nil => exact Lines.last ⟨List.cons_ne_nil c [], by simpa using hc⟩
  | last h =>
    refine Lines.last ⟨List.cons_ne_nil c _, fun d hd => ?_⟩
    rcases List.mem_cons.1 hd with rfl | hd
    · exact hc
    · exact h.2 d hd
  | cons h hcut hls =>
    refine Lines.cons (h.cons hc) (fun hpair => hcut ⟨?_, hpair.2⟩) hls
    have hlast := hpair.1
    rwa [List.getLast?_cons_of_ne_nil h.ne_nil] at hlast

theorem lines_splitLines (cs : List Char) : Lines (splitLines cs) := by
  fun_induction splitLines cs with
  | case1 => exact Lines.nil
  | case2 rest ih =>
    refine Lines.cons (ended_of_mem_lineEnds (by simp [lineEnds])) ?_ ih
    rintro ⟨hlast, -⟩
    simp at hlast
  | case3 c rest hpair hc ih =>
    have hend : Ended [c] := by
      simp only [isTerminator, Bool.or_eq_true, beq_iff_eq] at hc
      refine ended_of_mem_lineEnds ?_
      rcases hc with ((rfl | rfl) | rfl) | rfl <;> simp [lineEnds]
    refine Lines.cons hend ?_ ih
    rintro ⟨hlast, hhead⟩
    rw [flatten_splitLines] at hhead
    obtain ⟨tail, rfl⟩ := List.head?_eq_some_iff.1 hhead
    exact hpair tail (Option.some.inj hlast) rfl
  | case4 c rest _ hc ih => exact lines_consLine (by simpa using hc) ih

theorem splitLines_eq_nil_iff : splitLines text = [] ↔ text = [] := by
  constructor
  · intro h
    rw [← flatten_splitLines text, h]
    rfl
  · intro h
    rw [h]
    rfl

theorem splitLines_cons_of_not_terminator (hc : isTerminator c = false) (cs : List Char) :
    splitLines (c :: cs) = consLine c (splitLines cs) := by
  have hreturn : c ≠ '\r' := by
    rintro rfl
    simp [isTerminator] at hc
  rw [splitLines]
  · simp [hc]
  · exact fun _ h _ => hreturn h

theorem splitLines_cons_of_terminator (hc : isTerminator c = true)
    (hpair : ∀ tail, c = '\r' → cs = '\n' :: tail → False) :
    splitLines (c :: cs) = [c] :: splitLines cs := by
  rw [splitLines]
  · rw [if_pos hc]
  · exact hpair

theorem splitLines_lineEnd {e : List Char} (he : e ∈ lineEnds) (hcut : ¬ CutsPair e rest) :
    splitLines (e ++ rest) = e :: splitLines rest := by
  simp only [lineEnds, List.mem_cons, List.not_mem_nil, or_false] at he
  have hsingle {c : Char} (hc : isTerminator c = true) (hpair : ¬ CutsPair [c] rest) :
      splitLines (c :: rest) = [c] :: splitLines rest := by
    refine splitLines_cons_of_terminator hc ?_
    rintro tail rfl rfl
    exact hpair ⟨rfl, rfl⟩
  rcases he with rfl | rfl | rfl | rfl | rfl
  · exact hsingle (by decide) hcut
  · exact hsingle (by decide) hcut
  · rfl
  · exact hsingle (by decide) hcut
  · exact hsingle (by decide) hcut

theorem splitLines_ended (hl : Ended l) (hcut : ¬ CutsPair l rest) :
    splitLines (l ++ rest) = l :: splitLines rest := by
  obtain ⟨body, e, he, rfl, hbody⟩ := hl
  induction body with
  | nil => exact splitLines_lineEnd he hcut
  | cons c body ih =>
    have hne : body ++ e ≠ [] :=
      List.append_ne_nil_of_right_ne_nil body (ne_nil_of_mem_lineEnds he)
    have hcut' : ¬ CutsPair (body ++ e) rest := fun hpair =>
      hcut ⟨by rw [List.cons_append, List.getLast?_cons_of_ne_nil hne]; exact hpair.1, hpair.2⟩
    have hrest := ih (fun d hd => hbody d (by simp [hd])) hcut'
    rw [List.cons_append, List.cons_append,
      splitLines_cons_of_not_terminator (hbody c (by simp)), hrest]
    rfl

theorem splitLines_unended (hl : Unended l) : splitLines l = [l] := by
  obtain ⟨hne, hl⟩ := hl
  induction l with
  | nil => exact absurd rfl hne
  | cons c l ih =>
    rw [splitLines_cons_of_not_terminator (hl c (by simp))]
    cases l with
    | nil => rfl
    | cons d l =>
      rw [ih (List.cons_ne_nil d l) fun x hx => hl x (by simp [hx])]
      rfl

theorem Lines.splitLines_flatten (hls : Lines ls) : splitLines ls.flatten = ls := by
  induction hls with
  | nil => rfl
  | last h => simpa using splitLines_unended h
  | cons h hcut _ ih => rw [List.flatten_cons, splitLines_ended h hcut, ih]

theorem Lines.head?_flatten (hls : Lines (l :: ls)) : (l :: ls).flatten.head? = l.head? := by
  have hl : l ≠ [] := hls.ne_nil_of_mem List.mem_cons_self
  rw [List.flatten_cons, List.head?_append_of_ne_nil _ hl]

/-- Lines in a row, where the first ones end a line and no end is cut in two behind them. -/
theorem Lines.append_of_closed (hls : Lines ls) (hms : Lines ms)
    (hlast : ls.flatten.getLast? = some c) (hc : isTerminator c = true)
    (hcut : ¬ CutsPair ls.flatten ms.flatten) : Lines (ls ++ ms) := by
  induction hls with
  | nil => exact hms
  | @last l h =>
    rw [List.flatten_singleton] at hlast
    have hend := h.2 c (List.mem_of_getLast? hlast)
    cases hc.symm.trans hend
  | @cons l ls h hpair hls ih =>
    cases ls with
    | nil =>
      rw [List.flatten_singleton] at hcut
      exact Lines.cons h hcut hms
    | cons m ls =>
      have hm : m ≠ [] := hls.ne_nil_of_mem List.mem_cons_self
      have htail : (m :: ls).flatten ≠ [] := List.append_ne_nil_of_left_ne_nil hm _
      have hsame : (l :: m :: ls).flatten.getLast? = (m :: ls).flatten.getLast? := by
        rw [List.flatten_cons, List.getLast?_append_of_ne_nil _ htail]
      have hrest : Lines (m :: ls ++ ms) := by
        apply ih (hsame.symm.trans hlast)
        exact fun h => hcut ⟨hsame.trans h.1, h.2⟩
      refine Lines.cons h (fun h => hpair ⟨h.1, ?_⟩) hrest
      rw [hls.head?_flatten, ← hrest.head?_flatten]
      exact h.2

theorem Lines.append (hls : Lines ls) (hms : Lines ms)
    (hlast : ls.flatten.getLast? = some '\n') : Lines (ls ++ ms) := by
  apply hls.append_of_closed hms hlast (by decide)
  intro hpair
  cases hlast.symm.trans hpair.1

theorem foldNewlines_cons (hpair : ∀ rest, c = '\r' → cs = '\n' :: rest → False) :
    foldNewlines (c :: cs) = (if c = '\r' then '\n' else c) :: foldNewlines cs := by
  rw [foldNewlines]
  exact hpair

theorem foldNewlines_append (hreturn : '\r' ∉ cs) (ds : List Char) :
    foldNewlines (cs ++ ds) = cs ++ foldNewlines ds := by
  induction cs with
  | nil => rfl
  | cons c cs ih =>
    rw [List.mem_cons, not_or] at hreturn
    have hpair (rest : List Char) : c = '\r' → cs ++ ds = '\n' :: rest → False :=
      fun h _ => hreturn.1 h.symm
    rw [List.cons_append, foldNewlines_cons hpair, if_neg (Ne.symm hreturn.1), ih hreturn.2,
      List.cons_append]

theorem map_foldNewlines_consLine (hc : c ≠ '\r') :
    (consLine c ls).map foldNewlines = consLine c (ls.map foldNewlines) := by
  have hcons (cs : List Char) : foldNewlines (c :: cs) = c :: foldNewlines cs := by
    rw [foldNewlines_cons fun _ h _ => hc h, if_neg hc]
  cases ls with
  | nil => simp [consLine, hcons, foldNewlines]
  | cons line lines => simp [consLine, hcons]

theorem splitLines_feed (cs : List Char) : splitLines ('\n' :: cs) = ['\n'] :: splitLines cs := rfl

/-- Folding keeps the lines apart: each is folded by itself. -/
theorem splitLines_foldNewlines (cs : List Char) :
    splitLines (foldNewlines cs) = (splitLines cs).map foldNewlines := by
  fun_induction splitLines cs with
  | case1 => rfl
  | case2 rest ih =>
    have hfold : foldNewlines ('\r' :: '\n' :: rest) = '\n' :: foldNewlines rest := rfl
    rw [hfold, splitLines_feed, ih]
    rfl
  | case3 c rest hpair hc ih =>
    rw [foldNewlines_cons hpair]
    by_cases hreturn : c = '\r'
    · subst hreturn
      rw [if_pos rfl, splitLines_feed, ih]
      rfl
    · have hsingle {cs : List Char} (rest : List Char) : c = '\r' → cs = '\n' :: rest → False :=
        fun h _ => hreturn h
      rw [if_neg hreturn, splitLines_cons_of_terminator hc hsingle, ih, List.map_cons,
        foldNewlines_cons hsingle, if_neg hreturn]
      rfl
  | case4 c rest hpair hc ih =>
    have hreturn : c ≠ '\r' := by
      rintro rfl
      exact hc (by decide)
    rw [foldNewlines_cons hpair, if_neg hreturn,
      splitLines_cons_of_not_terminator (by simpa using hc), ih, map_foldNewlines_consLine hreturn]

theorem foldNewlines_eq_self_iff : foldNewlines cs = cs ↔ '\r' ∉ cs := by
  constructor
  · intro h
    rw [← h]
    exact carriageReturn_notMem_foldNewlines cs
  · intro h
    fun_induction foldNewlines cs with
    | case1 => rfl
    | case2 rest ih => simp at h
    | case3 c rest _ ih =>
      rw [List.mem_cons, not_or] at h
      rw [if_neg (Ne.symm h.1), ih h.2]

end TypedModule
