import Mathlib.Order.Bounds.Basic
import TypedModule.Outline

/-!
# Rows of an outline

The rows of a forest stand depth first, so all rows below a node follow it at once, up to the next
row that is no deeper than the node. Among them there is one row a level deeper for each child: the
number of children that the row of the node tells. Depths and numbers of children hence give back
where in the list the rows below each node end, and two forests of different shapes never have the
same rows.
-/

namespace TypedModule

namespace OutlineRow

/-- How deep the row is. The header is at no depth. -/
def depth? : OutlineRow → Option Int
  | header => none
  | node depth _ _ => some depth
  | text depth _ => some depth

def isBelow (d : Int) (row : OutlineRow) : Bool := row.depth?.any (d < ·)

/-- The same row, so many levels deeper. -/
def deeper (levels : Int) : OutlineRow → OutlineRow
  | header => header
  | node depth place width => node (depth + levels) place width
  | text depth shown => text (depth + levels) shown

/-- The rows that come before the next one of the depth or less. -/
def below (d : Int) (rows : List OutlineRow) : List OutlineRow := rows.takeWhile (isBelow d)

/-- The row is one of a node or a fragment, and says of the rows after it what is so: one level
below a node there are as many rows as it has children, and there are none below a fragment. -/
def Governs : OutlineRow → List OutlineRow → Prop
  | header, _ => False
  | node depth _ width, rest => (below depth rest).countP (·.depth? = some (depth + 1)) = width
  | text depth _, rest => below depth rest = []

/-- Every row governs those after it. -/
def Governed (rows : List OutlineRow) : Prop :=
  ∀ before row rest, rows = before ++ row :: rest → row.Governs rest

variable {d e : Int} {row : OutlineRow} {rows : List OutlineRow}

theorem cells_injective : Function.Injective cells := by
  intro a b h
  cases a with
  | header => cases b <;> simp [cells] at h ⊢
  | node depth place width =>
    cases b with
    | header => simp [cells] at h
    | node depth' place' width' =>
      simp only [cells, List.cons.injEq, Cell.scalar.injEq, Scalar.int.injEq, Cell.text.injEq,
        String.append_left_inj] at h
      obtain ⟨rfl, -, rfl, hwidth, -⟩ := h
      -- A number is read back from its digits.
      rw [Nat.toString_eq_ofList_toDigits, Nat.toString_eq_ofList_toDigits,
        String.ofList_inj] at hwidth
      rw [← @Nat.ofDigitChars_ten_toDigits width, hwidth, Nat.ofDigitChars_ten_toDigits]
    | text depth' shown => simp [cells] at h
  | text depth shown =>
    cases b with
    | header => simp [cells] at h
    | node depth' place width => simp [cells] at h
    | text depth' shown' =>
      simp only [cells, List.cons.injEq, Cell.scalar.injEq, Scalar.int.injEq, Cell.text.injEq] at h
      obtain ⟨rfl, -, -, rfl, -⟩ := h
      rfl

theorem isBelow_iff : row.isBelow d = true ↔ ∃ depth, row.depth? = some depth ∧ d < depth := by
  rw [isBelow, Option.any_eq_true]
  simp only [decide_eq_true_eq]

theorem isBelow_of_le (hde : d ≤ e) (h : row.isBelow e = true) : row.isBelow d = true := by
  obtain ⟨depth, hdepth, hlt⟩ := isBelow_iff.1 h
  exact isBelow_iff.2 ⟨depth, hdepth, hde.trans_lt hlt⟩

theorem below_eq_nil_of_le (hde : d ≤ e) (h : below d rows = []) : below e rows = [] := by
  cases rows with
  | nil => rfl
  | cons row rest =>
    have hrow : row.isBelow e ≠ true := by
      intro hbelow
      rw [below, List.takeWhile_cons, if_pos (isBelow_of_le hde hbelow)] at h
      cases h
    rw [below, List.takeWhile_cons, if_neg hrow]

theorem governed_nil : Governed [] := by
  intro before row rest h
  simp at h

theorem governed_cons :
    Governed (row :: rows) ↔ row.Governs rows ∧ Governed rows := by
  constructor
  · intro h
    refine ⟨h [] row rows rfl, fun before r rest heq => ?_⟩
    exact h (row :: before) r rest (congrArg (row :: ·) heq)
  · rintro ⟨hrow, hrows⟩ before r rest heq
    cases before with
    | nil =>
      obtain ⟨rfl, rfl⟩ := List.cons.inj heq
      exact hrow
    | cons b before =>
      exact hrows before r rest (List.cons.inj heq).2

end OutlineRow

open OutlineRow

namespace Forest

variable {d e : Int} {row : OutlineRow} {tail : List OutlineRow} {f : Forest}

theorem nodeRows_of_pos (hd : 0 < d) (tag : Tag) (width : Nat) :
    nodeRows d tag width = [.node d tag.place width] := by
  rw [nodeRows, if_neg hd.ne', List.nil_append]

theorem outline_node (hd : 0 < d) (tag : Tag) (inner rest : Forest) :
    (node tag inner rest).outline d =
      .node d tag.place inner.width :: (inner.outline (d + 1) ++ rest.outline d) := by
  rw [outline, nodeRows_of_pos hd, List.append_assoc, List.singleton_append]

theorem isBelow_of_mem_outline (he : 0 ≤ e) (h : row ∈ f.outline (e + 1)) :
    row.isBelow e = true := by
  induction f generalizing e with
  | nil => cases h
  | text s rest ih =>
    rcases List.mem_cons.1 h with rfl | h
    · exact isBelow_iff.2 ⟨e + 1, rfl, Int.lt_succ e⟩
    · exact ih he h
  | node tag inner rest ihInner ihRest =>
    rw [outline_node (by omega), List.mem_cons, List.mem_append] at h
    rcases h with rfl | h | h
    · exact isBelow_iff.2 ⟨e + 1, rfl, Int.lt_succ e⟩
    · exact isBelow_of_le (by omega) (ihInner (e := e + 1) (by omega) h)
    · exact ihRest he h

theorem below_outline_append (he : 0 ≤ e) (htail : below e tail = []) :
    below e (f.outline (e + 1) ++ tail) = f.outline (e + 1) := by
  rw [below, List.takeWhile_append_of_pos fun row => isBelow_of_mem_outline he]
  exact (congrArg _ htail).trans (List.append_nil _)

/-- The first row of a forest is no deeper than the others, so it ends what comes before it. -/
theorem below_succ_outline_append (he : 0 ≤ e) (htail : below e tail = []) :
    below (e + 1) (f.outline (e + 1) ++ tail) = [] := by
  have hself : ¬ decide (e + 1 < e + 1) = true := by simp
  cases f with
  | nil => exact below_eq_nil_of_le (by omega) htail
  | text s rest => exact List.takeWhile_cons_of_neg hself
  | node tag inner rest =>
    rw [outline_node (by omega)]
    exact List.takeWhile_cons_of_neg hself

/-- There is one row at the level of the forest for each of its children. -/
theorem countP_outline (he : 0 ≤ e) (f : Forest) :
    (f.outline (e + 1)).countP (·.depth? = some (e + 1)) = f.width := by
  induction f generalizing e with
  | nil => rfl
  | text s rest ih =>
    rw [outline, List.countP_cons_of_pos (by simp [depth?]), ih he, width]
  | node tag inner rest _ ih =>
    have hinner : (inner.outline (e + 1 + 1)).countP (·.depth? = some (e + 1)) = 0 := by
      refine List.countP_eq_zero.2 fun row hrow hdepth => ?_
      obtain ⟨depth, heq, hlt⟩ := isBelow_iff.1 (isBelow_of_mem_outline (by omega) hrow)
      have hsame : e + 1 = depth := Option.some.inj ((of_decide_eq_true hdepth).symm.trans heq)
      omega
    rw [outline_node (by omega), List.countP_cons_of_pos (by simp [depth?]), List.countP_append,
      hinner, ih he, width, Nat.zero_add]

theorem governed_outline_append (he : 0 ≤ e) (htail : below e tail = [])
    (hgoverned : Governed tail) : Governed (f.outline (e + 1) ++ tail) := by
  induction f generalizing e tail with
  | nil => exact hgoverned
  | text s rest ih =>
    rw [outline, List.cons_append, governed_cons]
    exact ⟨below_succ_outline_append he htail, ih he htail hgoverned⟩
  | node tag inner rest ihInner ihRest =>
    have hrest : below (e + 1) (rest.outline (e + 1) ++ tail) = [] :=
      below_succ_outline_append he htail
    rw [outline_node (by omega), List.cons_append, List.append_assoc, governed_cons]
    refine ⟨?_, ihInner (by omega) hrest (ihRest he htail hgoverned)⟩
    rw [Governs, below_outline_append (by omega) hrest, countP_outline (by omega)]

/-- The forest with all texts and tags left blank. -/
def shape : Forest → Forest
  | nil => nil
  | text _ rest => text "" rest.shape
  | node _ inner rest => node {} inner.shape rest.shape

/-- Rows that go on with what is not as deep tell where the forest ends. -/
theorem outline_append_inj {f₁ f₂ : Forest} {tail₁ tail₂ : List OutlineRow} (he : 0 ≤ e)
    (htail₁ : below e tail₁ = []) (htail₂ : below e tail₂ = [])
    (h : f₁.outline (e + 1) ++ tail₁ = f₂.outline (e + 1) ++ tail₂) :
    f₁.outline (e + 1) = f₂.outline (e + 1) ∧ tail₁ = tail₂ := by
  have houtline := congrArg (below e) h
  rw [below_outline_append he htail₁, below_outline_append he htail₂] at houtline
  rw [houtline] at h
  exact ⟨houtline, List.append_cancel_left h⟩

theorem shape_eq_of_outline {f₁ f₂ : Forest} (he : 0 ≤ e)
    (h : f₁.outline (e + 1) = f₂.outline (e + 1)) : f₁.shape = f₂.shape := by
  induction f₁ generalizing f₂ e with
  | nil =>
    cases f₂ with
    | nil => rfl
    | text s rest => cases h
    | node tag inner rest => rw [outline_node (by omega)] at h; cases h
  | text s₁ rest₁ ih =>
    cases f₂ with
    | nil => cases h
    | text s₂ rest₂ => rw [shape, shape, ih he (List.cons.inj h).2]
    | node tag inner rest =>
      rw [outline_node (by omega)] at h
      cases (List.cons.inj h).1
  | node tag₁ inner₁ rest₁ ihInner ihRest =>
    rw [outline_node (by omega)] at h
    cases f₂ with
    | nil => cases h
    | text s rest => cases (List.cons.inj h).1
    | node tag₂ inner₂ rest₂ =>
      have hends (rest : Forest) : below (e + 1) (rest.outline (e + 1)) = [] := by
        have hend : below (e + 1) (rest.outline (e + 1) ++ []) = [] :=
          below_succ_outline_append he rfl
        rwa [List.append_nil] at hend
      rw [outline_node (by omega)] at h
      obtain ⟨hinner, hrest⟩ :=
        outline_append_inj (by omega) (hends rest₁) (hends rest₂) (List.cons.inj h).2
      rw [shape, shape, ihInner (by omega) hinner, ihRest he hrest]

theorem depth_le_of_mem_outline (he : 0 ≤ e) {place : String} {width : Nat}
    (h : .node d place width ∈ f.outline (e + 1)) : d ≤ e + f.depth := by
  induction f generalizing e with
  | nil => cases h
  | text s rest ih =>
    rw [outline, List.mem_cons] at h
    exact ih he (h.resolve_left nofun)
  | node tag inner rest ihInner ihRest =>
    rw [outline_node (by omega), List.mem_cons, List.mem_append] at h
    rw [depth]
    rcases h with h | h | h
    · have hd : d = e + 1 := (OutlineRow.node.inj h).1
      omega
    · have hd := ihInner (by omega) h
      omega
    · have hd := ihRest he h
      omega

theorem exists_mem_outline_of_depth (he : 0 ≤ e) (hf : 0 < f.depth) :
    ∃ place width, .node (e + f.depth) place width ∈ f.outline (e + 1) := by
  induction f generalizing e with
  | nil => cases hf
  | text s rest ih =>
    obtain ⟨place, width, hmem⟩ := ih he hf
    exact ⟨place, width, List.mem_cons_of_mem _ hmem⟩
  | node tag inner rest ihInner ihRest =>
    rw [outline_node (by omega), depth]
    rcases Nat.lt_or_ge inner.depth rest.depth with hlt | hge
    · obtain ⟨place, width, hmem⟩ := ihRest he (by omega)
      rw [Nat.max_eq_right hlt]
      exact ⟨place, width, List.mem_cons_of_mem _ (List.mem_append_right _ hmem)⟩
    · rw [Nat.max_eq_left (by omega)]
      rcases Nat.eq_zero_or_pos inner.depth with hzero | hpos
      · rw [hzero]
        exact ⟨tag.place, inner.width, List.mem_cons_self⟩
      · obtain ⟨place, width, hmem⟩ := ihInner (e := e + 1) (by omega) hpos
        have hdepth : e + 1 + (inner.depth : Int) = e + ((inner.depth + 1 : Nat) : Int) := by omega
        rw [hdepth] at hmem
        exact ⟨place, width, List.mem_cons_of_mem _ (List.mem_append_left _ hmem)⟩

theorem outline_add (he : 0 ≤ e) (hd : 0 ≤ d) (f : Forest) :
    f.outline (e + 1 + d) = (f.outline (e + 1)).map (deeper d) := by
  induction f generalizing e with
  | nil => rfl
  | text s rest ih =>
    rw [outline, outline, List.map_cons, ih he]
    rfl
  | node tag inner rest ihInner ihRest =>
    have hlevel : e + 1 + d + 1 = e + 1 + 1 + d := by omega
    rw [outline_node (by omega), outline_node (by omega), List.map_cons, List.map_append, hlevel,
      ihInner (by omega), ihRest he]
    rfl

end Forest

namespace Tree

variable {t u : Tree}

/-- The rows of the outline below the header. -/
def rows (t : Tree) : List OutlineRow :=
  .node 0 t.tag.place t.children.width :: t.children.outline 1

def shape (t : Tree) : Tree := ⟨{}, t.children.shape⟩

theorem outline_zero (t : Tree) : t.outline 0 = .header :: t.rows := rfl

theorem outline_of_pos {d : Int} (hd : 1 ≤ d) (t : Tree) : t.outline d = t.rows.map (deeper d) := by
  have hchildren : t.children.outline (d + 1) = (t.children.outline 1).map (deeper d) := by
    rw [Int.add_comm d 1]
    exact Forest.outline_add (e := 0) (by omega) (by omega) t.children
  rw [outline, Forest.nodeRows_of_pos (by omega), hchildren, rows, List.map_cons, deeper,
    Int.zero_add, List.singleton_append]

theorem governed_rows (t : Tree) : Governed t.rows := by
  have hchildren : Governed (t.children.outline 1 ++ []) :=
    Forest.governed_outline_append (e := 0) (by omega) rfl governed_nil
  have hbelow : below 0 (t.children.outline 1 ++ []) = t.children.outline 1 :=
    Forest.below_outline_append (e := 0) (by omega) rfl
  rw [List.append_nil] at hchildren hbelow
  rw [rows, governed_cons, Governs, hbelow]
  exact ⟨Forest.countP_outline (e := 0) (by omega) t.children, hchildren⟩

/-- The deepest row of a node is as deep as the tree. -/
theorem isGreatest_depth (t : Tree) :
    IsGreatest {d : Int | ∃ place width, .node d place width ∈ t.rows} t.depth := by
  constructor
  · rcases Nat.eq_zero_or_pos t.children.depth with hzero | hpos
    · refine ⟨t.tag.place, t.children.width, ?_⟩
      rw [depth, hzero]
      exact List.mem_cons_self
    · obtain ⟨place, width, hmem⟩ := Forest.exists_mem_outline_of_depth (e := 0) (by omega) hpos
      rw [Int.zero_add, Int.zero_add] at hmem
      exact ⟨place, width, List.mem_cons_of_mem _ hmem⟩
  · rintro d ⟨place, width, hmem⟩
    rcases List.mem_cons.1 hmem with h | h
    · have hd : d = 0 := (OutlineRow.node.inj h).1
      omega
    · have hd := Forest.depth_le_of_mem_outline (e := 0) (by omega) h
      rwa [Int.zero_add] at hd

theorem shape_eq_of_rows (h : t.rows = u.rows) : t.shape = u.shape := by
  rw [shape, shape, Forest.shape_eq_of_outline (e := 0) (by omega) (List.cons.inj h).2]

end Tree

end TypedModule
