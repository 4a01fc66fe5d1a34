import Mathlib.Data.List.Forall2
import TypedModule.Grid
import TypedModule.Proofs.Text.OneLine

/-!
# Alignment of grids

A grid can be drawn if it has a row and all its rows have one length. Every cell then fits the width
of its column, so all lines of the drawing have one length, and in the line of each row a separator
stands where it stands in the lines of all others. If no cell has a line feed, the drawing is
printed on just these lines.
-/

namespace TypedModule.Grid

variable {α : Type} {n : Nat} {widths : List Nat} {cells : List String}
  {rows : List (List String)}

/-- There is a row, and all rows have the length. -/
def Rectangular (n : Nat) (rows : List (List α)) : Prop :=
  rows ≠ [] ∧ ∀ row ∈ rows, row.length = n

/-- No cell is longer than its column is wide. -/
def Fits (widths : List Nat) (cells : List String) : Prop :=
  List.Forall₂ (fun cell width => cell.length ≤ width) cells widths

/-- The length of columns of these widths with three characters between each two of them. -/
def lineLength : List Nat → Nat
  | [] => 0
  | [width] => width
  | width :: next :: rest => width + 3 + lineLength (next :: rest)

/-- Where the separator behind a column begins. The first column has number zero. -/
def separatorAt (widths : List Nat) (column : Nat) : Nat := lineLength (widths.take (column + 1))

/-- The line shows the cells in columns of these widths, each with blanks behind it, and behind each
column but the last the separator stands where the widths have it. -/
def ShowsRow (widths : List Nat) (cells : List String) (line : String) : Prop :=
  ∃ columns : List String, columns.map String.length = widths ∧
    List.Forall₂ (fun cell column => ∃ blanks, column = cell ++ String.ofList
      (List.replicate blanks ' ')) cells columns ∧
    line = " │ ".intercalate columns ∧
    ∀ j, j + 1 < widths.length → ∃ before after, line = before ++ " │ " ++ after ∧
      before = " │ ".intercalate (columns.take (j + 1)) ∧
      before.length = separatorAt widths j

/-- Puts a rule below the first line if more lines follow. -/
def underFirst (rule : String) : List String → List String
  | first :: second :: rest => first :: rule :: second :: rest
  | lines => lines

/-- Lines of one length show the rows between rules for columns of these widths. -/
structure Aligned (widths : List Nat) (rows : List (List String)) (lines : List String) :
    Prop where
  length_eq : ∀ line ∈ lines, line.length = lineLength widths
  layout : ∃ body, List.Forall₂ (ShowsRow widths) rows body ∧
    lines = upperRule widths :: underFirst (innerRule widths) body ++ [lowerRule widths]

/-- The text consists of the lines, each with a line feed at its end and none inside. -/
def Printed (text : String) (lines : List String) : Prop :=
  text = String.join (lines.map (· ++ "\n")) ∧ ∀ line ∈ lines, OneLine line

/-- The grid can be drawn, and the text of the drawing is printed on the lines, with columns that
are wide enough for the cells as they are shown. -/
structure Drawn (grid : List (List Cell)) (text : String) (lines : List String) : Prop where
  draw_eq : draw grid = .ok text
  printed : Printed text lines
  aligned : ∃ widths, Aligned widths (grid.map (·.map Cell.shown)) lines

theorem misfit?_eq_none_iff {rows : List (List α)} :
    misfit? rows = none ↔ ∃ n, Rectangular n rows := by
  cases rows with
  | nil => exact ⟨nofun, fun ⟨_, hne, _⟩ => absurd rfl hne⟩
  | cons first rest =>
    have hall : (rest.map List.length).all (· == first.length) = true ↔
        ∀ row ∈ rest, row.length = first.length := by
      rw [List.all_map, List.all_eq_true]
      simp only [Function.comp_apply, beq_iff_eq]
    constructor
    · intro h
      rw [misfit?, List.map_cons] at h
      dsimp only at h
      split at h
      · next hrest =>
        refine ⟨first.length, List.cons_ne_nil first rest, fun row hrow => ?_⟩
        rcases List.mem_cons.1 hrow with rfl | hrow
        · rfl
        · exact hall.1 hrest row hrow
      · cases h
    · rintro ⟨n, -, hrows⟩
      have hrest : ∀ row ∈ rest, row.length = first.length := fun row hrow =>
        (hrows row (List.mem_cons_of_mem _ hrow)).trans (hrows first List.mem_cons_self).symm
      rw [misfit?, List.map_cons]
      exact if_pos (hall.2 hrest)

theorem not_rectangular_iff {rows : List (List α)} :
    (¬ ∃ n, Rectangular n rows) ↔ rows = [] ∨ ∃ a ∈ rows, ∃ b ∈ rows, a.length ≠ b.length := by
  constructor
  · intro h
    cases rows with
    | nil => exact Or.inl rfl
    | cons first rest =>
      refine Or.inr ⟨first, List.mem_cons_self, ?_⟩
      by_contra! hsame
      exact h ⟨first.length, List.cons_ne_nil first rest, fun row hrow => (hsame row hrow).symm⟩
  · rintro (rfl | ⟨a, ha, b, hb, hne⟩) ⟨n, hrows, hn⟩
    · exact hrows rfl
    · exact hne ((hn a ha).trans (hn b hb).symm)

theorem draw_eq_error_iff {rows : List (List Cell)} :
    (∃ lengths, draw rows = .error lengths) ↔
      rows = [] ∨ ∃ a ∈ rows, ∃ b ∈ rows, a.length ≠ b.length := by
  rw [← not_rectangular_iff, ← misfit?_eq_none_iff, draw]
  cases misfit? rows with
  | none => exact ⟨nofun, fun h => absurd rfl h⟩
  | some lengths => exact ⟨fun _ => nofun, fun _ => ⟨lengths, rfl⟩⟩

theorem draw_eq_ok_iff {rows : List (List Cell)} {text : String} :
    draw rows = .ok text ↔ (∃ n, Rectangular n rows) ∧ text = picture rows := by
  rw [← misfit?_eq_none_iff, draw]
  cases misfit? rows with
  | none => exact ⟨fun h => ⟨rfl, (Except.ok.inj h).symm⟩, fun h => congrArg _ h.2.symm⟩
  | some lengths => exact ⟨nofun, fun h => nomatch h.1⟩

theorem fits_map_length (cells : List String) : Fits (cells.map String.length) cells := by
  induction cells with
  | nil => exact List.Forall₂.nil
  | cons cell rest ih => exact List.Forall₂.cons (Nat.le_refl _) ih

theorem Fits.widen {others : List Nat} (h : Fits widths cells)
    (hlength : others.length = widths.length) : Fits (List.zipWith max widths others) cells := by
  induction h generalizing others with
  | nil => exact List.Forall₂.nil
  | cons hcell _ ih =>
    cases others with
    | nil => cases hlength
    | cons other others =>
      exact List.Forall₂.cons (Nat.le_trans hcell (Nat.le_max_left _ _)) (ih (Nat.succ.inj hlength))

theorem length_columnWidths (h : Rectangular n rows) : (columnWidths rows).length = n := by
  obtain ⟨hne, hrows⟩ := h
  fun_induction columnWidths rows with
  | case1 => exact absurd rfl hne
  | case2 row => rw [List.length_map, hrows row List.mem_cons_self]
  | case3 row rest hrest ih =>
    rw [List.length_zipWith, List.length_map, hrows row List.mem_cons_self,
      ih (fun hnil => hrest hnil) fun r hr => hrows r (List.mem_cons_of_mem _ hr), Nat.min_self]

theorem fits_columnWidths (h : Rectangular n rows) :
    ∀ row ∈ rows, Fits (columnWidths rows) row := by
  obtain ⟨hne, hrows⟩ := h
  fun_induction columnWidths rows with
  | case1 => exact absurd rfl hne
  | case2 row =>
    intro r hr
    obtain rfl := List.mem_singleton.1 hr
    exact fits_map_length r
  | case3 row rest hrest ih =>
    have hbelow : Rectangular n rest :=
      ⟨fun hnil => hrest hnil, fun r hr => hrows r (List.mem_cons_of_mem _ hr)⟩
    have hlength : (columnWidths rest).length = (row.map String.length).length := by
      rw [length_columnWidths hbelow, List.length_map, hrows row List.mem_cons_self]
    intro r hr
    rcases List.mem_cons.1 hr with rfl | hr
    · exact (fits_map_length r).widen hlength
    · rw [List.zipWith_comm_of_comm Nat.max_comm]
      exact (ih hbelow.1 hbelow.2 r hr).widen hlength.symm

theorem length_blanks (c : Char) (n : Nat) : (String.ofList (List.replicate n c)).length = n := by
  rw [String.length_ofList, List.length_replicate]

theorem length_padded {width : Nat} {cell : String} (h : cell.length ≤ width) :
    (padded width cell).length = width := by
  rw [padded, String.length_append, length_blanks]
  omega

theorem map_length_padded (h : Fits widths cells) :
    (List.zipWith padded widths cells).map String.length = widths := by
  induction h with
  | nil => rfl
  | cons hcell _ ih => rw [List.zipWith_cons_cons, List.map_cons, length_padded hcell, ih]

theorem forall_padded (h : Fits widths cells) :
    List.Forall₂ (fun cell column => ∃ blanks, column = cell ++ String.ofList
      (List.replicate blanks ' ')) cells (List.zipWith padded widths cells) := by
  induction h with
  | nil => exact List.Forall₂.nil
  | cons hcell _ ih => exact List.Forall₂.cons ⟨_, rfl⟩ ih

theorem length_intercalate {sep : String} (hsep : sep.length = 3) (parts : List String) :
    (sep.intercalate parts).length = lineLength (parts.map String.length) := by
  induction parts with
  | nil => rw [String.intercalate_nil]; rfl
  | cons part rest ih =>
    cases rest with
    | nil => rw [String.intercalate_singleton]; rfl
    | cons next rest =>
      rw [String.intercalate_cons_cons, String.length_append, String.length_append, hsep, ih]
      rfl

theorem length_rule {crossing : String} (h : crossing.length = 3) (widths : List Nat) :
    (rule widths crossing).length = lineLength widths := by
  rw [rule, length_intercalate h, List.map_map]
  congr 1
  exact List.map_id'' (fun width => length_blanks '─' width) widths

theorem length_row (h : Fits widths cells) : (row widths cells).length = lineLength widths := by
  rw [row, length_intercalate rfl, map_length_padded h]

theorem showsRow_row (h : Fits widths cells) : ShowsRow widths cells (row widths cells) := by
  have hwidths := map_length_padded h
  refine ⟨List.zipWith padded widths cells, hwidths, forall_padded h, rfl, fun j hj => ?_⟩
  let columns := List.zipWith padded widths cells
  have hcolumns : columns.length = widths.length := by
    rw [← hwidths, List.length_map]
  have hbefore : columns.take (j + 1) ≠ [] := by
    rw [← List.length_pos_iff, List.length_take]
    omega
  have hafter : columns.drop (j + 1) ≠ [] := by
    rw [← List.length_pos_iff, List.length_drop]
    omega
  refine ⟨_, " │ ".intercalate (columns.drop (j + 1)), ?_, rfl, ?_⟩
  · rw [← String.intercalate_append_of_ne_nil hbefore hafter, List.take_append_drop]
    rfl
  · rw [length_intercalate rfl, List.map_take, hwidths, separatorAt]

theorem drawing_eq (rows : List (List String)) :
    drawing rows = upperRule (columnWidths rows) ::
      underFirst (innerRule (columnWidths rows)) (rows.map (row (columnWidths rows))) ++
        [lowerRule (columnWidths rows)] := by
  rw [drawing]
  generalize rows.map (row (columnWidths rows)) = lines
  match lines with
  | [] => rfl
  | [_] => rfl
  | _ :: _ :: _ => rfl

theorem mem_underFirst {inner line : String} {lines : List String}
    (h : line ∈ underFirst inner lines) : line = inner ∨ line ∈ lines := by
  match lines with
  | [] => exact Or.inr h
  | [_] => exact Or.inr h
  | first :: second :: rest =>
    rw [underFirst, List.mem_cons, List.mem_cons] at h
    rcases h with h | h | h
    · exact Or.inr (h ▸ List.mem_cons_self)
    · exact Or.inl h
    · exact Or.inr (List.mem_cons_of_mem _ h)

theorem length_underFirst {inner : String} {lines : List String} (h : 2 ≤ lines.length) :
    (underFirst inner lines).length = lines.length + 1 := by
  match lines, h with
  | _ :: _ :: _, _ => rfl

/-- A line of a drawing is one of the rules or that of a row. -/
theorem mem_drawing {line : String} (h : line ∈ drawing rows) :
    (∃ crossing, crossing.length = 3 ∧ OneLine crossing ∧
      line = rule (columnWidths rows) crossing) ∨
      ∃ cells ∈ rows, line = row (columnWidths rows) cells := by
  rw [drawing_eq, List.cons_append, List.mem_cons, List.mem_append, List.mem_singleton] at h
  rcases h with h | h | h
  · exact Or.inl ⟨"─┬─", rfl, by decide, h⟩
  · rcases mem_underFirst h with h | h
    · exact Or.inl ⟨"─┼─", rfl, by decide, h⟩
    · obtain ⟨cells, hcells, rfl⟩ := List.mem_map.1 h
      exact Or.inr ⟨cells, hcells, rfl⟩
  · exact Or.inl ⟨"─┴─", rfl, by decide, h⟩

theorem length_drawing (h : 2 ≤ rows.length) : (drawing rows).length = rows.length + 3 := by
  rw [drawing_eq, List.cons_append, List.length_cons, List.length_append, List.length_singleton,
    length_underFirst (by rwa [List.length_map]), List.length_map]

theorem aligned_drawing (h : Rectangular n rows) :
    Aligned (columnWidths rows) rows (drawing rows) := by
  have hfits := fits_columnWidths h
  refine ⟨fun line hline => ?_, _, ?_, drawing_eq rows⟩
  · rcases mem_drawing hline with ⟨crossing, hlength, -, rfl⟩ | ⟨cells, hcells, rfl⟩
    · exact length_rule hlength (columnWidths rows)
    · exact length_row (hfits cells hcells)
  · rw [List.forall₂_map_right_iff, List.forall₂_same]
    exact fun cells hcells => showsRow_row (hfits cells hcells)

theorem oneLine_blanks {c : Char} (hc : c ≠ '\n') (n : Nat) :
    OneLine (String.ofList (List.replicate n c)) := by
  rw [OneLine, String.toList_ofList]
  exact fun hfeed => hc (List.eq_of_mem_replicate hfeed).symm

theorem oneLine_rule {crossing : String} (h : OneLine crossing) (widths : List Nat) :
    OneLine (rule widths crossing) := by
  apply oneLine_intercalate h
  intro part hpart
  obtain ⟨width, -, rfl⟩ := List.mem_map.1 hpart
  exact oneLine_blanks (by decide) width

theorem oneLine_row (h : ∀ cell ∈ cells, OneLine cell) (widths : List Nat) :
    OneLine (row widths cells) := by
  apply oneLine_intercalate (by decide)
  intro part hpart
  rw [← List.map_uncurry_zip_eq_zipWith] at hpart
  obtain ⟨⟨width, cell⟩, hmem, rfl⟩ := List.mem_map.1 hpart
  exact oneLine_append.2 ⟨h cell (List.of_mem_zip hmem).2, oneLine_blanks (by decide) _⟩

theorem printed_picture {grid : List (List Cell)}
    (h : ∀ row ∈ grid, ∀ cell ∈ row, OneLine cell.shown) :
    Printed (picture grid) (drawing (grid.map (·.map Cell.shown))) := by
  refine ⟨rfl, fun line hline => ?_⟩
  rcases mem_drawing hline with ⟨crossing, -, hcrossing, rfl⟩ | ⟨cells, hcells, rfl⟩
  · exact oneLine_rule hcrossing _
  · obtain ⟨row, hrow, rfl⟩ := List.mem_map.1 hcells
    apply oneLine_row
    intro cell hcell
    obtain ⟨value, hvalue, rfl⟩ := List.mem_map.1 hcell
    exact h row hrow value hvalue

theorem Rectangular.map {β : Type} {rows : List (List α)} (h : Rectangular n rows) (f : α → β) :
    Rectangular n (rows.map (·.map f)) := by
  refine ⟨mt List.map_eq_nil_iff.1 h.1, fun row hrow => ?_⟩
  obtain ⟨cells, hcells, rfl⟩ := List.mem_map.1 hrow
  rw [List.length_map, h.2 cells hcells]

theorem drawn_picture {grid : List (List Cell)} (h : Rectangular n grid)
    (hcells : ∀ row ∈ grid, ∀ cell ∈ row, OneLine cell.shown) :
    Drawn grid (picture grid) (drawing (grid.map (·.map Cell.shown))) :=
  ⟨draw_eq_ok_iff.2 ⟨⟨n, h⟩, rfl⟩, printed_picture hcells, _, aligned_drawing (h.map Cell.shown)⟩

end TypedModule.Grid
