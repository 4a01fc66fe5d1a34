import TypedModule.Proofs.Text.MarkedLines

/-!
# Line ends

Every character that ends a line is blank, so what a line ends with has no bearing on whether it
needs a marker. `Endings` says which ends may stand behind given bodies, so that each body and its
end make up one line. Two texts put together have the lines of both, unless the first text leaves
its last line open or the pair of a carriage return and a line feed comes to stand across the seam:
then the last line of the first text and the first of the second are one line.
-/

namespace TypedModule

variable {body e l m a b : List Char} {bodies ends ls ms : List (List Char)}

theorem isBlank_of_isTerminator {c : Char} (hc : isTerminator c = true) : isBlank c = true := by
  simp only [isTerminator, Bool.or_eq_true, beq_iff_eq] at hc
  rcases hc with ((rfl | rfl) | rfl) | rfl
  all_goals decide

theorem isTerminator_of_mem_lineEnd (he : e ∈ lineEnds) : ∀ c ∈ e, isTerminator c = true := by
  simp only [lineEnds, List.mem_cons, List.not_mem_nil, or_false] at he
  rcases he with rfl | rfl | rfl | rfl | rfl
  all_goals exact List.all_eq_true.1 rfl

theorem needsMarker_append_lineEnd (he : e ∈ lineEnds) (body : List Char) :
    needsMarker (String.ofList (body ++ e)) = needsMarker (String.ofList body) := by
  apply needsMarker_append_of_blank
  intro c hc
  exact isBlank_of_isTerminator (isTerminator_of_mem_lineEnd he c hc)

theorem eq_return_of_getLast? (he : e ∈ lineEnds)
    (hlast : (body ++ e).getLast? = some '\r') : e = ['\r'] := by
  rw [List.getLast?_append_of_ne_nil body (ne_nil_of_mem_lineEnds he)] at hlast
  simp only [lineEnds, List.mem_cons, List.not_mem_nil, or_false] at he
  rcases he with rfl | rfl | rfl | rfl | rfl
  · cases hlast
  · rfl
  · cases hlast
  · cases hlast
  · cases hlast

theorem eq_feed_of_head? (he : e ∈ lineEnds) (hhead : e.head? = some '\n') : e = ['\n'] := by
  simp only [lineEnds, List.mem_cons, List.not_mem_nil, or_false] at he
  rcases he with rfl | rfl | rfl | rfl | rfl
  · rfl
  · cases hhead
  · cases hhead
  · cases hhead
  · cases hhead

/-- Bodies without line ends in them. -/
def Unbroken (bodies : List (List Char)) : Prop := ∀ b ∈ bodies, ∀ c ∈ b, isTerminator c = false

theorem Unbroken.of_all (h : bodies.all (fun b => b.all fun c => !isTerminator c) = true) :
    Unbroken bodies :=
  fun b hb => isTerminator_of_all (List.all_eq_true.1 h b hb)

/-- Ends for lines with these bodies: one of any kind for each, which only the last line may lack,
and only if it has a body. No carriage return comes directly before a line that is nothing but a
line feed. -/
inductive Endings : List (List Char) → List (List Char) → Prop
  | nil : Endings [] []
  | last {body : List Char} : body ≠ [] → Endings [body] [[]]
  | cons {body e : List Char} {bodies ends : List (List Char)} :
    e ∈ lineEnds → ¬ (e = ['\r'] ∧ bodies.head? = some [] ∧ ends.head? = some ['\n']) →
      Endings bodies ends → Endings (body :: bodies) (e :: ends)

/-- The lines with these bodies and ends. -/
def linesOf (bodies ends : List (List Char)) : List (List Char) :=
  bodies.zipWith (fun b e => b ++ e) ends

theorem linesOf_cons (body e : List Char) (bodies ends : List (List Char)) :
    linesOf (body :: bodies) (e :: ends) = (body ++ e) :: linesOf bodies ends := rfl

theorem Unbroken.tail (h : Unbroken (body :: bodies)) : Unbroken bodies :=
  fun b hb => h b (List.mem_cons_of_mem body hb)

namespace Endings

theorem length_eq (h : Endings bodies ends) : ends.length = bodies.length := by
  induction h with
  | nil => rfl
  | last _ => rfl
  | cons _ _ _ ih => rw [List.length_cons, List.length_cons, ih]

/-- Only a line that is nothing but a line feed begins with one. -/
theorem head_of_feed (h : Endings bodies ends) (hbodies : Unbroken bodies)
    (hhead : (linesOf bodies ends).flatten.head? = some '\n') :
    bodies.head? = some [] ∧ ends.head? = some ['\n'] := by
  have hbody {body rest : List Char} (hbody : ∀ c ∈ body, isTerminator c = false)
      (hhead : (body ++ rest).head? = some '\n') : body = [] := by
    cases body with
    | nil => rfl
    | cons c body =>
      obtain rfl := Option.some.inj hhead
      cases hbody '\n' List.mem_cons_self
  cases h with
  | nil => cases hhead
  | last hne =>
    rw [linesOf_cons, List.flatten_cons, List.append_assoc] at hhead
    exact absurd (hbody (hbodies _ List.mem_cons_self) hhead) hne
  | cons he _ _ =>
    rw [linesOf_cons, List.flatten_cons, List.append_assoc] at hhead
    obtain rfl := hbody (hbodies _ List.mem_cons_self) hhead
    rw [List.nil_append, List.head?_append_of_ne_nil _ (ne_nil_of_mem_lineEnds he)] at hhead
    rw [eq_feed_of_head? he hhead]
    exact ⟨rfl, rfl⟩

theorem lines (h : Endings bodies ends) (hbodies : Unbroken bodies) :
    Lines (linesOf bodies ends) := by
  induction h with
  | nil => exact Lines.nil
  | @last body hne =>
    rw [linesOf_cons, List.append_nil]
    exact Lines.last ⟨hne, hbodies body List.mem_cons_self⟩
  | @cons body e bodies ends he hpair hends ih =>
    have hcut : ¬ CutsPair (body ++ e) (linesOf bodies ends).flatten := by
      intro hcut
      exact hpair ⟨eq_return_of_getLast? he hcut.1, hends.head_of_feed hbodies.tail hcut.2⟩
    exact Lines.cons ⟨body, e, he, rfl, hbodies body List.mem_cons_self⟩ hcut (ih hbodies.tail)

/-- Whether a line needs a marker is up to its body. -/
theorem map_needsMarker (h : Endings bodies ends) :
    (linesOf bodies ends).map (fun l => needsMarker (String.ofList l)) =
      bodies.map fun b => needsMarker (String.ofList b) := by
  induction h with
  | nil => rfl
  | @last body _ =>
    rw [linesOf_cons, List.append_nil]
    rfl
  | @cons body e bodies ends he _ _ ih =>
    rw [linesOf_cons, List.map_cons, List.map_cons, needsMarker_append_lineEnd he, ih]

end Endings

/-- No line goes on from one text into the other. -/
def Parted (a b : List Char) : Prop :=
  a = [] ∨ b = [] ∨ (∃ c, a.getLast? = some c ∧ isTerminator c = true) ∧ ¬ CutsPair a b

theorem parted_append_iff (ha : a ≠ []) (c : List Char) : Parted (c ++ a) b ↔ Parted a b := by
  have hne : c ++ a ≠ [] := List.append_ne_nil_of_right_ne_nil c ha
  rw [Parted, Parted, CutsPair, CutsPair, List.getLast?_append_of_ne_nil c ha]
  simp only [ha, hne, false_or]

theorem Lines.eq_nil_of_flatten (hls : Lines ls) (h : ls.flatten = []) : ls = [] := by
  rw [← hls.splitLines_flatten, h]
  rfl

theorem Lines.append_of_parted (hls : Lines ls) (hms : Lines ms)
    (h : Parted ls.flatten ms.flatten) : Lines (ls ++ ms) := by
  rcases h with h | h | ⟨⟨c, hlast, hc⟩, hcut⟩
  · rw [hls.eq_nil_of_flatten h]
    exact hms
  · rw [hms.eq_nil_of_flatten h, List.append_nil]
    exact hls
  · exact hls.append_of_closed hms hlast hc hcut

theorem Lines.tail (h : Lines (l :: ls)) : Lines ls := by
  cases h with
  | last _ => exact Lines.nil
  | cons _ _ hls => exact hls

theorem Lines.ended (h : Lines (l :: ls)) (hne : ls ≠ []) :
    Ended l ∧ ¬ CutsPair l ls.flatten := by
  cases h with
  | last _ => exact absurd rfl hne
  | cons hl hcut _ => exact ⟨hl, hcut⟩

/-- A line that begins with a line feed is nothing else. -/
theorem Lines.eq_feed (hms : Lines (m :: ms)) (hhead : m.head? = some '\n') : m = ['\n'] := by
  cases hms with
  | last h =>
    have hend := h.2 '\n' (List.mem_of_head? hhead)
    cases hend
  | cons h _ _ =>
    obtain ⟨body, e, he, rfl, hbody⟩ := h
    cases body with
    | nil => exact eq_feed_of_head? he hhead
    | cons c body =>
      obtain rfl := Option.some.inj hhead
      cases hbody '\n' List.mem_cons_self

/-- What makes a line longer ends it as it ended before. -/
theorem append_cutsPair_iff (hm : m ≠ []) {rest : List Char} :
    CutsPair (l ++ m) rest ↔ CutsPair m rest := by
  rw [CutsPair, CutsPair, List.getLast?_append_of_ne_nil l hm]

theorem Lines.join_line (hl : Lines [l]) (hms : Lines (m :: ms))
    (h : ¬ Parted l (m :: ms).flatten) : Lines ((l ++ m) :: ms) := by
  have hm : m ≠ [] := hms.ne_nil_of_mem List.mem_cons_self
  cases hl with
  | last hl =>
    cases hms with
    | last hm =>
      refine Lines.last ⟨List.append_ne_nil_of_left_ne_nil hl.1 m, fun c hc => ?_⟩
      rcases List.mem_append.1 hc with hc | hc
      · exact hl.2 c hc
      · exact hm.2 c hc
    | cons hended hcut hms =>
      apply Lines.cons (hended.append hl.2) _ hms
      rwa [append_cutsPair_iff hm]
  | cons hl _ _ =>
    -- The line has an end, so it is cut in two.
    have hcut : CutsPair l (m :: ms).flatten := by
      by_contra hcut
      exact h (Or.inr (Or.inr ⟨hl.closed, hcut⟩))
    have hfeed : m = ['\n'] := hms.eq_feed (hms.head?_flatten ▸ hcut.2)
    subst hfeed
    have hopen : endsOpen l = true := by
      rw [endsOpen, hcut.1]
      rfl
    apply Lines.cons (hl.open hopen) _ hms.tail
    rw [append_cutsPair_iff hm]
    intro hpair
    cases hpair.1

theorem flatten_join (ls : List (List Char)) (l m : List Char) (ms : List (List Char)) :
    (ls ++ (l ++ m) :: ms).flatten = (ls ++ [l]).flatten ++ (m :: ms).flatten := by
  simp

theorem Lines.join (hls : Lines (ls ++ [l])) (hms : Lines (m :: ms))
    (h : ¬ Parted (ls ++ [l]).flatten (m :: ms).flatten) : Lines (ls ++ (l ++ m) :: ms) := by
  induction ls with
  | nil =>
    rw [List.nil_append, List.flatten_singleton] at h
    exact hls.join_line hms h
  | cons k ls ih =>
    have hne : (ls ++ [l]).flatten ≠ [] := by
      intro hnil
      have hlast : ls ++ [l] = [] := hls.tail.eq_nil_of_flatten hnil
      simp at hlast
    obtain ⟨hk, hcut⟩ := hls.ended (by simp)
    have hrest : Lines (ls ++ (l ++ m) :: ms) := by
      apply ih hls.tail
      rwa [List.cons_append, List.flatten_cons, parted_append_iff hne] at h
    apply Lines.cons hk _ hrest
    rwa [flatten_join, cutsPair_append_iff hne]

/-- Two texts with no line across the seam are split each by itself. -/
theorem splitLines_append (h : Parted a b) :
    splitLines (a ++ b) = splitLines a ++ splitLines b := by
  have hlines : Lines (splitLines a ++ splitLines b) := by
    apply (lines_splitLines a).append_of_parted (lines_splitLines b)
    rwa [flatten_splitLines, flatten_splitLines]
  rw [← hlines.splitLines_flatten, List.flatten_append, flatten_splitLines, flatten_splitLines]

/-- Otherwise the last line of the one goes on in the first line of the other. -/
theorem splitLines_append_of_not_parted (h : ¬ Parted a b) :
    ∃ ls l m ms, splitLines a = ls ++ [l] ∧ splitLines b = m :: ms ∧
      splitLines (a ++ b) = ls ++ (l ++ m) :: ms := by
  have ha : splitLines a ≠ [] := fun hnil => h (Or.inl (splitLines_eq_nil_iff.1 hnil))
  have hb : splitLines b ≠ [] := fun hnil => h (Or.inr (Or.inl (splitLines_eq_nil_iff.1 hnil)))
  obtain ⟨ls, l, hls⟩ := (List.eq_nil_or_concat' _).resolve_left ha
  obtain ⟨m, ms, hms⟩ := List.exists_cons_of_ne_nil hb
  have hjoin : Lines (ls ++ (l ++ m) :: ms) := by
    apply Lines.join (hls ▸ lines_splitLines a) (hms ▸ lines_splitLines b)
    rwa [← hls, ← hms, flatten_splitLines, flatten_splitLines]
  refine ⟨ls, l, m, ms, hls, hms, ?_⟩
  rw [← hjoin.splitLines_flatten, flatten_join, ← hls, ← hms, flatten_splitLines,
    flatten_splitLines]

end TypedModule
