import TypedModule.Proofs.Grid.Alignment
import TypedModule.Proofs.Outline.Listing

/-!
# Drawn outlines

All rows of an outline have four cells, and no cell has a line feed unless the source of a node has
one, since of a fragment an excerpt is shown. So the outline of a node can always be drawn: on one
line for the header and each node and fragment, and three for the rules, all of one length.
-/

namespace TypedModule

open OutlineRow

/-- How a character looks on one line. -/
def inLine (c : Char) : Char := if c = '\n' then '↵' else if c = '\t' then ' ' else c

/-- What is shown of a text: all of it but the line feeds at its end, those inside as arrows and
tabs as blanks, if these are no more than 48 characters, and otherwise the first 47 of them and an
ellipsis. -/
structure Excerpted (s shown : String) : Prop where
  length_le : shown.length ≤ 48
  feed_notMem : '\n' ∉ shown.toList
  tab_notMem : '\t' ∉ shown.toList
  shown_eq : ∃ body feeds, s.toList = body ++ List.replicate feeds '\n' ∧
    body.getLast? ≠ some '\n' ∧
    shown.toList = if body.length ≤ 48 then body.map inLine
      else (body.map inLine).take 47 ++ ['…']

theorem inLine_ne (c : Char) : inLine c ≠ '\n' ∧ inLine c ≠ '\t' := by
  rw [inLine]
  split
  · decide
  · next hfeed =>
    split
    · decide
    · next htab => exact ⟨hfeed, htab⟩

/-- What is left without the line feeds at the end, and how many there were. -/
theorem exists_feeds (cs : List Char) :
    ∃ feeds, cs = dropEndWhile (· == '\n') cs ++ List.replicate feeds '\n' ∧
      (dropEndWhile (· == '\n') cs).getLast? ≠ some '\n' := by
  induction cs using List.reverseRecOn with
  | nil => exact ⟨0, rfl, nofun⟩
  | append_singleton cs c ih =>
    rw [dropEndWhile_append_singleton]
    by_cases hc : c = '\n'
    · obtain ⟨feeds, hcs, hlast⟩ := ih
      rw [if_pos (beq_iff_eq.2 hc)]
      refine ⟨feeds + 1, ?_, hlast⟩
      rw [List.replicate_succ', ← List.append_assoc, ← hcs, hc]
    · rw [if_neg (mt beq_iff_eq.1 hc)]
      refine ⟨0, (List.append_nil _).symm, ?_⟩
      rw [List.getLast?_concat]
      exact mt Option.some.inj hc

theorem toList_excerpt (s : String) :
    (excerpt usualWidth s).toList = if (oneLine s.toList).length ≤ 48 then oneLine s.toList
      else (oneLine s.toList).take 47 ++ ['…'] := by
  have hwidth : ((oneLine s.toList).length : Int) ≤ usualWidth ↔
      (oneLine s.toList).length ≤ 48 := by
    rw [usualWidth]
    omega
  rw [excerpt]
  by_cases hshort : (oneLine s.toList).length ≤ 48
  · rw [if_pos hshort, if_pos (hwidth.2 hshort), String.toList_ofList]
  · rw [if_neg hshort, if_neg (mt hwidth.1 hshort), String.toList_ofList]
    rfl

theorem ne_of_mem_excerpt {s : String} {c : Char} (h : c ∈ (excerpt usualWidth s).toList) :
    c ≠ '\n' ∧ c ≠ '\t' := by
  have hline (h : c ∈ oneLine s.toList) : c ≠ '\n' ∧ c ≠ '\t' := by
    obtain ⟨d, -, rfl⟩ := List.mem_map.1 h
    exact inLine_ne d
  rw [toList_excerpt] at h
  split at h
  · exact hline h
  · rcases List.mem_append.1 h with h | h
    · exact hline (List.mem_of_mem_take h)
    · obtain rfl := List.mem_singleton.1 h
      decide

theorem excerpted_excerpt (s : String) : Excerpted s (excerpt usualWidth s) := by
  obtain ⟨feeds, hsplit, hlast⟩ := exists_feeds s.toList
  refine ⟨?_, fun h => (ne_of_mem_excerpt h).1 rfl, fun h => (ne_of_mem_excerpt h).2 rfl, _, feeds,
    hsplit, hlast, ?_⟩
  · rw [← String.length_toList, toList_excerpt]
    split
    · next hshort => exact hshort
    · rw [List.length_append, List.length_take, List.length_singleton]
      omega
  · rw [toList_excerpt, oneLine, List.length_map]
    rfl

namespace OutlineRow

/-- What the row shows of a fragment. -/
def shownText? : OutlineRow → Option String
  | text _ shown => some shown
  | _ => none

theorem length_cells (row : OutlineRow) : row.cells.length = 4 := by
  cases row <;> rfl

theorem oneLine_header : ∀ cell ∈ header.cells, OneLine cell.shown := by
  simp only [cells, List.forall_mem_cons, Cell.shown]
  decide

theorem oneLine_node {place : String} (h : OneLine place) (depth : Int) (width : Nat) :
    ∀ cell ∈ (node depth place width).cells, OneLine cell.shown := by
  have hwidth : OneLine (toString width ++ " children") :=
    oneLine_append.2 ⟨oneLine_natDigits width, by decide⟩
  simp only [cells, List.forall_mem_cons, Cell.shown, Scalar.shown]
  exact ⟨oneLine_digits depth, by decide, h, hwidth, List.forall_mem_nil _⟩

theorem oneLine_text {shown : String} (h : OneLine shown) (depth : Int) :
    ∀ cell ∈ (text depth shown).cells, OneLine cell.shown := by
  simp only [cells, List.forall_mem_cons, Cell.shown, Scalar.shown]
  exact ⟨oneLine_digits depth, by decide, by decide, h, List.forall_mem_nil _⟩

end OutlineRow

theorem Tag.oneLine_place {tag : Tag} (h : ∀ source, tag.source = some source → OneLine source) :
    OneLine tag.place := by
  have hsource : OneLine (tag.source.getD "") := by
    cases hsource : tag.source with
    | none => exact oneLine_empty
    | some source => exact h source hsource
  rw [place]
  split
  · exact oneLine_empty
  · next line _ =>
    exact oneLine_append.2 ⟨oneLine_append.2 ⟨hsource, by decide⟩, oneLine_digits line⟩

/-- How many nodes there are. -/
def Forest.nodeCount : Forest → Nat
  | .nil => 0
  | .text _ rest => rest.nodeCount
  | .node _ inner rest => inner.nodeCount + 1 + rest.nodeCount

def Tree.nodeCount (t : Tree) : Nat := t.children.nodeCount + 1

namespace Forest

variable {e : Int}

theorem length_outline (he : 0 ≤ e) (f : Forest) :
    (f.outline (e + 1)).length = f.nodeCount + f.fragments.length := by
  induction f generalizing e with
  | nil => rfl
  | text s rest ih =>
    rw [outline, List.length_cons, ih he, nodeCount, fragments, List.length_cons]
    omega
  | node tag inner rest ihInner ihRest =>
    rw [outline_node (by omega), List.length_cons, List.length_append, ihInner (by omega),
      ihRest he, nodeCount, fragments, List.length_append]
    omega

theorem shownTexts_outline (he : 0 ≤ e) (f : Forest) :
    (f.outline (e + 1)).filterMap shownText? = f.fragments.map (excerpt usualWidth) := by
  induction f generalizing e with
  | nil => rfl
  | text s rest ih =>
    rw [fragments, List.map_cons, ← ih he]
    rfl
  | node tag inner rest ihInner ihRest =>
    rw [outline_node (by omega), List.filterMap_cons_none rfl, List.filterMap_append,
      ihInner (by omega), ihRest he, fragments, List.map_append]

end Forest

namespace Tree

theorem length_rows (t : Tree) : t.rows.length = t.nodeCount + t.fragments.length := by
  have hchildren := Forest.length_outline (e := 0) (by omega) t.children
  rw [Int.zero_add] at hchildren
  rw [rows, List.length_cons, hchildren, nodeCount, fragments]
  omega

theorem shownTexts_rows (t : Tree) :
    t.rows.filterMap shownText? = t.fragments.map (excerpt usualWidth) := by
  rw [rows, List.filterMap_cons_none rfl]
  exact Forest.shownTexts_outline (e := 0) (by omega) t.children

/-- The fragments are shown in order, each by an excerpt. -/
theorem forall_excerpted (t : Tree) :
    List.Forall₂ Excerpted t.fragments (t.rows.filterMap shownText?) := by
  rw [shownTexts_rows, List.forall₂_map_right_iff, List.forall₂_same]
  exact fun s _ => excerpted_excerpt s

end Tree

namespace Graph

variable {g : Graph} {i : NodeId} {rows : List OutlineRow}

theorem Lists.oneLine_cells (h : g.Lists i rows)
    (hsource : ∀ n, g.Reaches i n → ∀ source, (g.node n).tag.source = some source →
      OneLine source) :
    ∀ row ∈ rows, ∀ cell ∈ row.cells, OneLine cell.shown := by
  obtain ⟨entries, rfl, -, hentries⟩ := h
  intro row hrow
  obtain ⟨⟨place, row⟩, hentry, rfl⟩ := List.mem_map.1 hrow
  obtain ⟨c, hc, hof⟩ := Option.bind_eq_some_iff.1 ((hentries place row).1 hentry)
  cases c with
  | text s =>
    obtain rfl := Option.some.inj hof
    exact oneLine_text (excerpted_excerpt s).feed_notMem _
  | node k =>
    obtain rfl := Option.some.inj hof
    exact oneLine_node (Tag.oneLine_place (hsource k (reaches_of_childAt hc))) _ _
  | foreign v => cases hof

theorem drawOutline_of_unfold {t : Tree} (ht : g.unfold i = .ok t) :
    g.drawOutline i = .ok t.drawOutline := by
  rw [drawOutline, walk, ht]
  rfl

/-- A long text, one with feeds and a tab in it, and one with nothing in it. -/
def longSheet : Graph := ⟨#[
  ⟨{ line := some 1, source := some "a.js" },
    [.text "const alphabet = \"abcdefghijklmnopqrstuvwxyz\".split(\"\");\n", .node 1, .text ""]⟩,
  ⟨{ line := some 12 }, [.text "\tif (x)\n\t\ty();\n\n"]⟩]⟩

end Graph

end TypedModule
