import TypedModule.Proofs.Graph.Sprouting
import TypedModule.Proofs.Text.LineEnds
import TypedModule.Tree.OfText

/-!
# The rows of a text

The node of a text has one child node, a row, for each line. Annotating it leaves the rows as they
are but for the markers in front of the lines that need one. So the markers do not depend on how
the lines end, and two texts that are put together are split and annotated each by itself, unless
a line goes on from the one into the other.
-/

namespace TypedModule

namespace Forest

/-- One node for each row of fragments, numbered from `row`. -/
def ofRows (source : Option String) (row : Int) : List (List String) → Forest
  | [] => nil
  | fragments :: rows =>
    node { line := some row, column := some 0, source := source } (ofTexts fragments)
      (ofRows source (row + 1) rows)

/-- The fragments of each node among the children. -/
def rows : Forest → List (List String)
  | nil => []
  | text _ rest => rest.rows
  | node _ inner rest => inner.fragments :: rest.rows

variable (source : Option String) (row : Int) (rs : List (List String)) (ls : List (List Char))

theorem rows_ofRows : (ofRows source row rs).rows = rs := by
  induction rs generalizing row with
  | nil => rfl
  | cons r rs ih => rw [ofRows, rows, fragments_ofTexts, ih]

theorem fragments_ofRows : (ofRows source row rs).fragments = rs.flatten := by
  induction rs generalizing row with
  | nil => rfl
  | cons r rs ih => rw [ofRows, fragments, fragments_ofTexts, ih, List.flatten_cons]

theorem annotate_ofTexts (ss : List String) :
    (ofTexts ss).annotate = ofTexts (ss.flatMap marked) := by
  induction ss with
  | nil => rfl
  | cons s ss ih =>
    rw [ofTexts, annotate, ih, List.flatMap_cons, marked]
    split
    · rfl
    · rfl

theorem annotate_ofRows :
    (ofRows source row rs).annotate = ofRows source row (rs.map fun r => r.flatMap marked) := by
  induction rs generalizing row with
  | nil => rfl
  | cons r rs ih => rw [ofRows, annotate, annotate_ofTexts, ih, List.map_cons, ofRows]

theorem ofLines_eq_ofRows :
    ofLines source row ls = ofRows source row (ls.map fun l => [String.ofList l]) := by
  induction ls generalizing row with
  | nil => rfl
  | cons l ls ih =>
    rw [ofLines, ih]
    rfl

end Forest

namespace Tree

/-- The tree with these rows, numbered from one. -/
def ofRows (source : Option String) (rs : List (List String)) : Tree :=
  ⟨{ source := source }, Forest.ofRows source 1 rs⟩

variable (source : Option String)

theorem annotate_ofRows (rs : List (List String)) :
    (ofRows source rs).annotate = ofRows source (rs.map fun r => r.flatMap marked) := by
  rw [annotate, ofRows, Forest.annotate_ofRows]
  rfl

theorem ofText_eq_ofRows (text : String) : ofText text source =
    ofRows source ((splitLines text.toList).map fun l => [String.ofList l]) := by
  rw [ofText, Forest.ofLines_eq_ofRows]
  rfl

end Tree

namespace Graph

variable {g g' : Graph} {root : NodeId} {source : Option String}
  {bodies ends others : List (List Char)}

/-- Below a node there is one node for each of these rows, numbered from one, and nothing else. -/
def HasRows (g : Graph) (root : NodeId) (source : Option String) (rs : List (List String)) :
    Prop :=
  g.unfold root = .ok (Tree.ofRows source rs)

/-- In the row in this place there is a line with a marker in front of it. -/
def MarksLine (g : Graph) (root : NodeId) (i : Nat) : Prop :=
  ∃ t line, g.unfold root = .ok t ∧ t.children.rows[i]? = some [marker, line]

theorem HasRows.inj {rs rs' : List (List String)} (h : g.HasRows root source rs)
    (h' : g.HasRows root source rs') : rs = rs' := by
  have htree := congrArg Tree.children (Except.ok.inj (h.symm.trans h'))
  rw [← Forest.rows_ofRows source 1 rs, ← Forest.rows_ofRows source 1 rs']
  exact congrArg Forest.rows htree

theorem HasRows.marksLine_iff {rs : List (List String)}
    (h : g.HasRows root source rs) (i : Nat) :
    g.MarksLine root i ↔ ∃ line, rs[i]? = some [marker, line] := by
  have hrows : (Tree.ofRows source rs).children.rows = rs := Forest.rows_ofRows source 1 rs
  constructor
  · rintro ⟨t, line, ht, hline⟩
    obtain rfl := Except.ok.inj (ht.symm.trans h)
    exact ⟨line, hrows ▸ hline⟩
  · rintro ⟨line, hline⟩
    exact ⟨_, line, h, hrows.symm ▸ hline⟩

theorem hasRows_plant_ofText (hg : g.WellFormed) (text : String) (source : Option String) :
    (plant (.ofText text source) g).1.HasRows (plant (.ofText text source) g).2 source
      ((splitLines text.toList).map fun l => [String.ofList l]) := by
  have hs := sprouted_plant hg (Tree.ofText text source)
  rw [HasRows, ← Tree.ofText_eq_ofRows]
  exact hs.unfold

theorem hasRows_annotate_ofText (hg : g.WellFormed) (text : String) (source : Option String) :
    ((plant (.ofText text source) g).1.annotate (plant (.ofText text source) g).2).HasRows
      (plant (.ofText text source) g).2 source
      ((splitLines text.toList).map fun l => marked (String.ofList l)) := by
  have hs := (sprouted_plant hg (Tree.ofText text source)).annotate
  have hrows : (Tree.ofText text source).annotate =
      Tree.ofRows source ((splitLines text.toList).map fun l => marked (String.ofList l)) := by
    rw [Tree.ofText_eq_ofRows, Tree.annotate_ofRows, List.map_map]
    congr 1
    apply List.map_congr_left
    intro l _
    exact List.flatMap_singleton marked (String.ofList l)
  rw [HasRows, ← hrows]
  exact hs.unfold

theorem marksLine_annotate_ofText (hg : g.WellFormed) (text : String) (source : Option String)
    (i : Nat) :
    ((plant (.ofText text source) g).1.annotate (plant (.ofText text source) g).2).MarksLine
        (plant (.ofText text source) g).2 i ↔
      ((splitLines text.toList).map fun l => needsMarker (String.ofList l))[i]? = some true := by
  rw [(hasRows_annotate_ofText hg text source).marksLine_iff, List.getElem?_map, List.getElem?_map]
  cases (splitLines text.toList)[i]? with
  | none => simp
  | some l => by_cases h : needsMarker (String.ofList l) <;> simp [marked, h]

/-- The node `root` of `h` is made of the text with these bodies and ends: its rows are the lines,
and annotating it puts a marker in front of those whose bodies need one. -/
structure LineByLine (g : Graph) (source : Option String) (bodies ends : List (List Char))
    (h : Graph) (root : NodeId) : Prop where
  planted : plant (.ofText (String.ofList (linesOf bodies ends).flatten) source) g = (h, root)
  length : (linesOf bodies ends).length = bodies.length
  lines : h.HasRows root source ((linesOf bodies ends).map fun l => [String.ofList l])
  annotated : (h.annotate root).HasRows root source
    ((linesOf bodies ends).map fun l => marked (String.ofList l))
  marks : ∀ i, (h.annotate root).MarksLine root i ↔
    ∃ b, bodies[i]? = some b ∧ needsMarker (String.ofList b) = true

theorem lineByLine (hg : g.WellFormed) (source : Option String) (hbodies : Unbroken bodies)
    (hends : Endings bodies ends) : ∃ h root, LineByLine g source bodies ends h root := by
  let text := String.ofList (linesOf bodies ends).flatten
  have hsplit : splitLines text.toList = linesOf bodies ends := by
    rw [String.toList_ofList, (hends.lines hbodies).splitLines_flatten]
  have hlines := hasRows_plant_ofText hg text source
  have hmarked := hasRows_annotate_ofText hg text source
  have hmarks := marksLine_annotate_ofText hg text source
  rw [hsplit] at hlines hmarked
  rw [hsplit, hends.map_needsMarker] at hmarks
  refine ⟨(plant (.ofText text source) g).1, (plant (.ofText text source) g).2, rfl, ?_, hlines,
    hmarked, fun i => ?_⟩
  · rw [linesOf, List.length_zipWith, hends.length_eq, Nat.min_self]
  · rw [hmarks, List.getElem?_map, Option.map_eq_some_iff]

/-- Two texts whose lines have the same bodies and ends of any kind are split into these lines, and
annotating their nodes marks the same lines of both: those whose bodies need a marker. -/
theorem annotate_whatever_ends (hg : g.WellFormed) (hg' : g'.WellFormed)
    (source : Option String) (hbodies : Unbroken bodies) (hends : Endings bodies ends)
    (hothers : Endings bodies others) :
    ∃ h root k top, LineByLine g source bodies ends h root ∧
      LineByLine g' source bodies others k top ∧
      ∀ i, (h.annotate root).MarksLine root i ↔ (k.annotate top).MarksLine top i := by
  obtain ⟨h, root, hlines⟩ := lineByLine hg source hbodies hends
  obtain ⟨k, top, hothers⟩ := lineByLine hg' source hbodies hothers
  refine ⟨h, root, k, top, hlines, hothers, fun i => ?_⟩
  rw [hlines.marks, hothers.marks]

/-- Bodies with blanks around them and in them, a comment, and an empty one. -/
def mixedBodies : List (List Char) :=
  ["\x0cf(\u0085".toList, "// g".toList, [], " );".toList, "h\x1c".toList]

theorem unbroken_mixedBodies : Unbroken mixedBodies := Unbroken.of_all (by decide +kernel)

def mixedEnds : List (List Char) := [['\r', '\n'], ['\r'], ['\u2028'], ['\n'], []]

def otherEnds : List (List Char) := [['\u2029'], ['\n'], ['\n'], ['\r'], ['\r']]

theorem endings_mixedEnds : Endings mixedBodies mixedEnds := by
  refine .cons ?_ ?_ (.cons ?_ ?_ (.cons ?_ ?_ (.cons ?_ ?_ (.last ?_))))
  all_goals decide

theorem endings_otherEnds : Endings mixedBodies otherEnds := by
  refine .cons ?_ ?_ (.cons ?_ ?_ (.cons ?_ ?_ (.cons ?_ ?_ (.cons ?_ ?_ .nil))))
  all_goals decide

theorem annotate_mixedEnds :
    WellFormed {} ∧ Unbroken mixedBodies ∧ Endings mixedBodies mixedEnds ∧
      Endings mixedBodies otherEnds ∧
      ∃ h root k top, LineByLine {} (some "p.js") mixedBodies mixedEnds h root ∧
        LineByLine {} (some "p.js") mixedBodies otherEnds k top ∧
        (k.annotate top).MarksLine top 0 ∧ ¬ (k.annotate top).MarksLine top 1 ∧
        (k.annotate top).MarksLine top 4 := by
  have hg : WellFormed {} := WellFormed.of_later (by decide)
  obtain ⟨h, root, k, top, hlines, hothers, hsame⟩ := annotate_whatever_ends hg hg
    (some "p.js") unbroken_mixedBodies endings_mixedEnds endings_otherEnds
  have hfirst : (h.annotate root).MarksLine root 0 :=
    (hlines.marks 0).2 ⟨_, rfl, by decide +kernel⟩
  have hcomment : ¬ (h.annotate root).MarksLine root 1 := by
    rw [hlines.marks]
    rintro ⟨b, hb, hneeds⟩
    obtain rfl := Option.some.inj hb
    revert hneeds
    decide +kernel
  have hlast : (h.annotate root).MarksLine root 4 :=
    (hlines.marks 4).2 ⟨_, rfl, by decide +kernel⟩
  exact ⟨hg, unbroken_mixedBodies, endings_mixedEnds, endings_otherEnds, h, root, k, top, hlines,
    hothers, (hsame 0).1 hfirst, fun hmark => hcomment ((hsame 1).2 hmark), (hsame 4).1 hlast⟩

theorem HasRows.render {rs : List (List String)} (h : g.HasRows root source rs) :
    g.render root = .ok (String.join rs.flatten) := by
  rw [Graph.render, walk, h]
  exact congrArg (fun ss => Except.ok (String.join ss)) (Forest.fragments_ofRows source 1 rs)

/-- The node of a text has these lines. -/
def TextLines (g : Graph) (source : Option String) (text : String) (ls : List String) : Prop :=
  (plant (.ofText text source) g).1.HasRows (plant (.ofText text source) g).2 source
    (ls.map fun l => [l])

/-- The node of a text renders to this once it is annotated. -/
def Annotated (g : Graph) (source : Option String) (text shown : String) : Prop :=
  ((plant (.ofText text source) g).1.annotate (plant (.ofText text source) g).2).render
    (plant (.ofText text source) g).2 = .ok shown

theorem textLines (hg : g.WellFormed) (source : Option String) (text : String) :
    g.TextLines source text ((splitLines text.toList).map String.ofList) := by
  have hrows := hasRows_plant_ofText hg text source
  rwa [TextLines, List.map_map]

theorem TextLines.inj {text : String} {ls ms : List String} (h : g.TextLines source text ls)
    (h' : g.TextLines source text ms) : ls = ms :=
  (List.map_inj_right fun _ _ => List.singleton_inj.1).1 (HasRows.inj h h')

/-- The lines of a text, each behind the marker that it needs. -/
def markedText (text : List Char) : String :=
  String.join ((splitLines text).map fun l => marked (String.ofList l)).flatten

theorem annotated (hg : g.WellFormed) (source : Option String) (text : String) :
    g.Annotated source text (markedText text.toList) :=
  (hasRows_annotate_ofText hg text source).render

theorem Annotated.inj {text shown other : String} (h : g.Annotated source text shown)
    (h' : g.Annotated source text other) : shown = other :=
  Except.ok.inj (h.symm.trans h')

theorem markedText_append {a b : List Char} (h : Parted a b) :
    markedText (a ++ b) = markedText a ++ markedText b := by
  rw [markedText, splitLines_append h, List.map_append, List.flatten_append, String.join_append,
    ← markedText, ← markedText]

/-- Two texts that are put together have the lines of both, and annotated they render to what
each of them renders to, if no line goes on from the one into the other. If one does, it is the
last line of the one with the first of the other behind it, and all others are as they were. -/
theorem textLines_append (hg : g.WellFormed) (source : Option String) (a b : String) :
    ∃ la lb lines x y z,
      g.TextLines source a la ∧ g.TextLines source b lb ∧ g.TextLines source (a ++ b) lines ∧
      g.Annotated source a x ∧ g.Annotated source b y ∧ g.Annotated source (a ++ b) z ∧
      (Parted a.toList b.toList → lines = la ++ lb ∧ z = x ++ y) ∧
      (¬ Parted a.toList b.toList → ∃ front last head rest,
        la = front ++ [last] ∧ lb = head :: rest ∧ lines = front ++ (last ++ head) :: rest) := by
  refine ⟨_, _, _, _, _, _, textLines hg source a, textLines hg source b,
    textLines hg source (a ++ b), annotated hg source a, annotated hg source b,
    annotated hg source (a ++ b), fun h => ?_, fun h => ?_⟩
  · rw [String.toList_append, splitLines_append h, List.map_append]
    exact ⟨rfl, markedText_append h⟩
  · obtain ⟨ls, l, m, ms, ha, hb, hab⟩ := splitLines_append_of_not_parted h
    refine ⟨ls.map String.ofList, String.ofList l, String.ofList m, ms.map String.ofList, ?_⟩
    rw [String.toList_append, ha, hb, hab, ← String.ofList_append]
    simp

theorem textLines_append_seams :
    WellFormed {} ∧ Parted "f(\n".toList "\x7d".toList ∧
      TextLines {} none ("f(\n" ++ "\x7d") ["f(\n", "\x7d"] ∧
      Annotated {} none "f(\n" "// @ts-ignore\nf(\n" ∧ Annotated {} none "\x7d" "\x7d" ∧
      Annotated {} none ("f(\n" ++ "\x7d") ("// @ts-ignore\nf(\n" ++ "\x7d") ∧
      ¬ Parted "x\r".toList "\ny".toList ∧
      TextLines {} none "x\r" ["x\r"] ∧ TextLines {} none "\ny" ["\n", "y"] ∧
      TextLines {} none ("x\r" ++ "\ny") ["x\r\n", "y"] := by
  have hg : WellFormed {} := WellFormed.of_later (by decide)
  have hparted : Parted "f(\n".toList "\x7d".toList := by
    refine Or.inr (Or.inr ⟨⟨'\n', rfl, by decide⟩, ?_⟩)
    rintro ⟨hreturn, -⟩
    cases hreturn
  have hseam : ¬ Parted "x\r".toList "\ny".toList := by
    rintro (h | h | ⟨-, hcut⟩)
    · cases h
    · cases h
    · exact hcut ⟨rfl, rfl⟩
  have hf : TextLines {} none "f(\n" ["f(\n"] := textLines hg none "f(\n"
  have hbrace : TextLines {} none "\x7d" ["\x7d"] := textLines hg none "\x7d"
  have hx : TextLines {} none "x\r" ["x\r"] := textLines hg none "x\r"
  have hy : TextLines {} none "\ny" ["\n", "y"] := textLines hg none "\ny"
  have hmarked : markedText "f(\n".toList = "// @ts-ignore\nf(\n" := by decide +kernel
  have hplain : markedText "\x7d".toList = "\x7d" := by decide +kernel
  have hf' := annotated hg none "f(\n"
  have hbrace' := annotated hg none "\x7d"
  rw [hmarked] at hf'
  rw [hplain] at hbrace'
  obtain ⟨la, lb, lines, x, y, z, ha, hb, hlines, hax, hby, habz, hwhole, -⟩ :=
    textLines_append hg none "f(\n" "\x7d"
  obtain ⟨rfl, rfl⟩ := hwhole hparted
  rw [ha.inj hf, hb.inj hbrace] at hlines
  rw [hax.inj hf', hby.inj hbrace'] at habz
  refine ⟨hg, hparted, hlines, hf', hbrace', habz, hseam, hx, hy, ?_⟩
  obtain ⟨la, lb, lines, -, -, -, ha, hb, hlines, -, -, -, -, hjoin⟩ :=
    textLines_append hg none "x\r" "\ny"
  obtain ⟨front, last, head, rest, rfl, rfl, rfl⟩ := hjoin hseam
  obtain ⟨hfront, hlast⟩ := List.append_inj' ((ha.inj hx).trans (List.nil_append _).symm) rfl
  obtain ⟨hhead, hrest⟩ := List.cons.inj (hb.inj hy)
  rwa [hfront, List.singleton_inj.1 hlast, hhead, hrest] at hlines

end Graph

end TypedModule
