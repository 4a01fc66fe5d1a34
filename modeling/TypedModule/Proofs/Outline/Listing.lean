import TypedModule.Graph.Outline
import TypedModule.Proofs.Graph.Place
import TypedModule.Proofs.Outline.Rows

/-!
# What an outline lists

The outline of a node has one row for every place below the node, in the order of the places: the
row of a child is as deep as its place is long. From the outline the shape of all that is below the
node can be told.
-/

namespace TypedModule

open OutlineRow

/-- The rows of a forest that stands at a depth, each with its place. Places count from `p`. -/
def Forest.entries (depth : Int) (p : Nat) : Forest → List (List Nat × OutlineRow)
  | .nil => []
  | .text s rest => ([p], .text depth (excerpt usualWidth s)) :: rest.entries depth (p + 1)
  | .node tag inner rest =>
    ((([], .node depth tag.place inner.width) :: inner.entries (depth + 1) 0).map
      fun entry => (p :: entry.1, entry.2)) ++ rest.entries depth (p + 1)

def Tree.entries (depth : Int) (t : Tree) : List (List Nat × OutlineRow) :=
  ([], .node depth t.tag.place t.children.width) :: t.children.entries (depth + 1) 0

namespace Forest

variable {d e : Int} {p : Nat} {f : Forest} {entry : List Nat × OutlineRow}

theorem entries_node (depth : Int) (p : Nat) (tag : Tag) (inner rest : Forest) :
    (node tag inner rest).entries depth p =
      ((Tree.mk tag inner).entries depth).map (fun entry => (p :: entry.1, entry.2)) ++
        rest.entries depth (p + 1) := rfl

theorem map_snd_entries (he : 0 ≤ e) (p : Nat) (f : Forest) :
    (f.entries (e + 1) p).map Prod.snd = f.outline (e + 1) := by
  induction f generalizing e p with
  | nil => rfl
  | text s rest ih => rw [entries, List.map_cons, ih he, outline]
  | node tag inner rest ihInner ihRest =>
    have hinner : (inner.entries (e + 1 + 1) 0).map Prod.snd = inner.outline (e + 1 + 1) :=
      ihInner (by omega) 0
    rw [entries, List.map_append, List.map_map, List.map_cons, ihRest he, outline_node (by omega),
      ← hinner]
    rfl

theorem head_le_of_mem_entries (h : entry ∈ f.entries d p) :
    ∃ q below, entry.1 = q :: below ∧ p ≤ q := by
  induction f generalizing p with
  | nil => cases h
  | text s rest ih =>
    rcases List.mem_cons.1 h with rfl | h
    · exact ⟨p, [], rfl, le_rfl⟩
    · obtain ⟨q, below, heq, hq⟩ := ih h
      exact ⟨q, below, heq, by omega⟩
  | node tag inner rest _ ih =>
    rcases List.mem_append.1 h with h | h
    · obtain ⟨x, -, rfl⟩ := List.mem_map.1 h
      exact ⟨p, x.1, rfl, le_rfl⟩
    · obtain ⟨q, below, heq, hq⟩ := ih h
      exact ⟨q, below, heq, by omega⟩

/-- The row of a node comes before those of what is below it. -/
theorem pairwise_cons_entries (row : OutlineRow) (h : (f.entries d p).Pairwise (·.1 < ·.1)) :
    (([], row) :: f.entries d p).Pairwise (·.1 < ·.1) := by
  refine List.pairwise_cons.2 ⟨fun entry hentry => ?_, h⟩
  obtain ⟨q, below, heq, -⟩ := head_le_of_mem_entries hentry
  rw [heq]
  exact List.nil_lt_cons q below

/-- The entries come in the order of their places. -/
theorem pairwise_entries (d : Int) (p : Nat) (f : Forest) :
    (f.entries d p).Pairwise (·.1 < ·.1) := by
  have hlater {d : Int} {q : Nat} {below : List Nat} {rest : Forest} {x : List Nat × OutlineRow}
      (h : x ∈ rest.entries d (q + 1)) : q :: below < x.1 := by
    obtain ⟨r, place, heq, hr⟩ := head_le_of_mem_entries h
    rw [heq]
    exact List.cons_lt_cons_iff.2 (Or.inl hr)
  induction f generalizing d p with
  | nil => exact List.Pairwise.nil
  | text s rest ih => exact List.pairwise_cons.2 ⟨fun x => hlater, ih d (p + 1)⟩
  | node tag inner rest ihInner ihRest =>
    refine List.pairwise_append.2 ⟨?_, ihRest d (p + 1), ?_⟩
    · refine List.pairwise_map.2 ?_
      simp only [List.cons_lt_cons_self]
      exact pairwise_cons_entries _ (ihInner (d + 1) 0)
    · intro x hx y hy
      obtain ⟨z, -, rfl⟩ := List.mem_map.1 hx
      exact hlater hy

end Forest

namespace Graph

variable {g : Graph} {i : NodeId} {c : Child} {d : Int} {row : OutlineRow} {rows : List OutlineRow}

/-- The row of a child at a depth. A foreign child has none. -/
def rowOf (g : Graph) (depth : Int) : Child → Option OutlineRow
  | .text s => some (.text depth (excerpt usualWidth s))
  | .node k => some (.node depth (g.node k).tag.place (g.children k).length)
  | .foreign _ => none

/-- The row of what is at a place below a child at a depth. -/
def rowAt (g : Graph) (depth : Int) (c : Child) (place : List Nat) : Option OutlineRow :=
  (g.childAt c place).bind (g.rowOf (depth + place.length))

/-- The rows are those of all places below a node, in their order, each as deep as its place is
long. -/
def Lists (g : Graph) (i : NodeId) (rows : List OutlineRow) : Prop :=
  ∃ entries : List (List Nat × OutlineRow), rows = entries.map Prod.snd ∧
    entries.Pairwise (·.1 < ·.1) ∧
    ∀ place row, (place, row) ∈ entries ↔ g.rowAt 0 (.node i) place = some row

theorem rowAt_nil (g : Graph) (d : Int) (c : Child) : g.rowAt d c [] = g.rowOf d c := by
  rw [rowAt, childAt_nil, Option.bind_some, List.length_nil, Int.natCast_zero, Int.add_zero]

theorem rowAt_node_cons (g : Graph) (d : Int) (i : NodeId) (p : Nat) (place : List Nat) :
    g.rowAt d (.node i) (p :: place) =
      (g.children i)[p]?.bind fun c => g.rowAt (d + 1) c place := by
  have hdepth : d + ((p :: place).length : Int) = d + 1 + (place.length : Int) := by
    rw [List.length_cons]
    omega
  rw [rowAt, childAt_node_cons, Option.bind_assoc, hdepth]
  rfl

theorem rowAt_text_eq_some {s : String} {place : List Nat} :
    g.rowAt d (.text s) place = some row ↔
      place = [] ∧ row = .text d (excerpt usualWidth s) := by
  cases place with
  | nil => rw [rowAt_nil, rowOf, Option.some.injEq, eq_comm, eq_self, true_and]
  | cons p place => simp [rowAt, childAt]

theorem width_forestOf {tree : NodeId → Except WalkFault Tree} {cs : List Child} {f : Forest}
    (h : forestOf tree cs = .ok f) : f.width = cs.length := by
  induction cs generalizing f with
  | nil =>
    obtain rfl := Except.ok.inj h
    rfl
  | cons c rest ih =>
    cases c with
    | text s =>
      obtain ⟨r, hr, rfl⟩ := forestOf_text_eq_ok h
      exact congrArg (· + 1) (ih hr)
    | node k =>
      obtain ⟨t, r, -, hr, rfl⟩ := forestOf_node_eq_ok h
      exact congrArg (· + 1) (ih hr)
    | foreign v => cases h

/-- The entries of a list of children are the rows of each child and of what is below it, given that
this is so of the child nodes. -/
theorem mem_entries_forestOf {cs : List Child} {f : Forest} (hf : forestOf g.unfold cs = .ok f)
    (hkids : ∀ k ∈ childIds cs, ∀ t, g.unfold k = .ok t → ∀ d place row,
      (place, row) ∈ t.entries d ↔ g.rowAt d (.node k) place = some row)
    (d : Int) (p : Nat) (place : List Nat) (row : OutlineRow) :
    (place, row) ∈ f.entries d p ↔
      ∃ q below, place = (p + q) :: below ∧
        (cs[q]?.bind fun c => g.rowAt d c below) = some row := by
  induction cs generalizing f p with
  | nil =>
    obtain rfl := Except.ok.inj hf
    simp [Forest.entries]
  | cons c rest ih =>
    -- The first child has position `p`, and the others are counted from the next one.
    have hsplit : (∃ q below, place = (p + q) :: below ∧
          ((c :: rest)[q]?.bind fun c => g.rowAt d c below) = some row) ↔
        (∃ below, place = p :: below ∧ g.rowAt d c below = some row) ∨
          ∃ q below, place = (p + 1 + q) :: below ∧
            (rest[q]?.bind fun c => g.rowAt d c below) = some row := by
      rw [← Nat.or_exists_add_one]
      simp only [Nat.add_zero, List.getElem?_cons_zero, Option.bind_some,
        List.getElem?_cons_succ, Nat.add_assoc, Nat.add_comm 1]
    rw [hsplit]
    cases c with
    | text s =>
      obtain ⟨r, hr, rfl⟩ := forestOf_text_eq_ok hf
      rw [Forest.entries, List.mem_cons, ih hr hkids]
      refine or_congr ?_ Iff.rfl
      constructor
      · intro h
        obtain ⟨rfl, rfl⟩ := Prod.mk.inj h
        exact ⟨[], rfl, rowAt_text_eq_some.2 ⟨rfl, rfl⟩⟩
      · rintro ⟨below, rfl, h⟩
        obtain ⟨rfl, rfl⟩ := rowAt_text_eq_some.1 h
        rfl
    | node k =>
      obtain ⟨t, r, ht, hr, rfl⟩ := forestOf_node_eq_ok hf
      have hk := hkids k List.mem_cons_self t ht
      rw [Forest.entries_node, List.mem_append, List.mem_map,
        ih hr fun j hj => hkids j (List.mem_cons_of_mem _ hj)]
      refine or_congr ?_ Iff.rfl
      constructor
      · rintro ⟨⟨below, row⟩, hmem, h⟩
        obtain ⟨rfl, rfl⟩ := Prod.mk.inj h
        exact ⟨below, rfl, (hk d below row).1 hmem⟩
      · rintro ⟨below, rfl, h⟩
        exact ⟨(below, row), (hk d below row).2 h, rfl⟩
    | foreign v => cases hf

theorem mem_entries_iff (hg : g.WellFormed) (hi : i < g.size) {t : Tree}
    (ht : g.unfold i = .ok t) (d : Int) (place : List Nat) (row : OutlineRow) :
    (place, row) ∈ t.entries d ↔ g.rowAt d (.node i) place = some row := by
  induction i using hg.induct generalizing t d place row with
  | step i ih =>
    obtain ⟨hf, htag⟩ := hg.forestOf_unfold hi ht
    have hbelow := mem_entries_forestOf hf fun k hk t ht d place row =>
      ih k hk (hg.closed hk) ht d place row
    rw [Tree.entries, List.mem_cons, hbelow (d + 1) 0]
    cases place with
    | nil =>
      rw [rowAt_nil, rowOf, Option.some.injEq, htag, width_forestOf hf, eq_comm (b := row)]
      simp
    | cons p place =>
      rw [rowAt_node_cons]
      simp

theorem lists_rows (hg : g.WellFormed) (hi : i < g.size) {t : Tree} (ht : g.unfold i = .ok t) :
    g.Lists i t.rows := by
  refine ⟨t.entries 0, ?_, ?_, mem_entries_iff hg hi ht 0⟩
  · rw [Tree.entries, List.map_cons, Forest.map_snd_entries (e := 0) (by omega), Tree.rows]
    rfl
  · exact Forest.pairwise_cons_entries _ (Forest.pairwise_entries 1 0 t.children)

theorem outline_of_unfold {t : Tree} (ht : g.unfold i = .ok t) (depth : Int) :
    g.outline i depth = .ok (t.outline depth) := by
  rw [outline, walk, ht]
  rfl

theorem unfold_of_outline {depth : Int} (h : g.outline i depth = .ok rows) :
    ∃ t, g.unfold i = .ok t ∧ rows = t.outline depth := by
  cases ht : g.unfold i with
  | error e =>
    rw [outline, walk, ht] at h
    cases h
  | ok t =>
    rw [outline_of_unfold ht] at h
    exact ⟨t, rfl, (Except.ok.inj h).symm⟩

/-- The outline of a node below which there are only fragments and nodes. Under the header is one
row for each place, depth first, beginning with the node itself at depth zero. After the row of a
node, before the next that is no deeper, come as many rows one level deeper as it tells children;
after the row of a fragment comes none that is deeper. The deepest row of a node is as deep as the
node is. An outline that begins deeper is the same without the header, all its rows so much deeper.
Two nodes with the same outlines, as they are shown, have the same shape. -/
theorem outline_shows_shape (hg : g.WellFormed) (hi : i < g.size) (ht : g.Textual i) :
    ∃ rows, g.outline i 0 = .ok (.header :: rows) ∧ g.Lists i rows ∧
      rows.head? = some (.node 0 (g.node i).tag.place (g.children i).length) ∧
      Governed rows ∧
      IsGreatest {d : Int | ∃ place width, .node d place width ∈ rows} (g.depth i) ∧
      (∀ d, 1 ≤ d → g.outline i d = .ok (rows.map (deeper d))) ∧
      ∀ h j rows', outline h j 0 = .ok rows' →
        rows'.map cells = (.header :: rows).map cells →
          ∃ t u, g.unfold i = .ok t ∧ h.unfold j = .ok u ∧ t.shape = u.shape := by
  obtain ⟨t, hunfold⟩ := hg.exists_unfold hi ht
  obtain ⟨hf, htag⟩ := hg.forestOf_unfold hi hunfold
  have hdepth := t.isGreatest_depth
  rw [← hg.depth_unfold hi hunfold] at hdepth
  refine ⟨t.rows, outline_of_unfold hunfold 0, lists_rows hg hi hunfold, ?_, t.governed_rows,
    hdepth, ?_, ?_⟩
  · rw [Tree.rows, List.head?_cons, htag, width_forestOf hf]
  · intro d hd
    rw [outline_of_unfold hunfold, t.outline_of_pos hd]
  · intro h j rows' hrows hcells
    obtain ⟨u, hu, rfl⟩ := unfold_of_outline hrows
    have hsame : u.outline 0 = .header :: t.rows :=
      List.map_injective_iff.2 cells_injective hcells
    rw [Tree.outline_zero] at hsame
    exact ⟨t, u, hunfold, hu, (Tree.shape_eq_of_rows (List.cons.inj hsame).2).symm⟩

/-- A node comes twice below another, with a text between. -/
def twiceSheet : Graph := ⟨#[
  ⟨{}, [.node 1, .text "a;\n\tb;\n", .node 1]⟩,
  ⟨{ line := some 4, source := some "g.js" }, [.text "c;\n"]⟩]⟩

theorem outline_twiceSheet :
    twiceSheet.outline 0 0 = .ok [.header, .node 0 "" 3, .node 1 "g.js:4" 1, .text 2 "c;",
        .text 1 "a;↵ b;", .node 1 "g.js:4" 1, .text 2 "c;"] ∧
      twiceSheet.outline 0 5 = .ok [.node 5 "" 3, .node 6 "g.js:4" 1, .text 7 "c;",
        .text 6 "a;↵ b;", .node 6 "g.js:4" 1, .text 7 "c;"] ∧
      twiceSheet.depth 0 = 1 := by
  have hg : twiceSheet.WellFormed := WellFormed.of_later (by decide)
  have ht : twiceSheet.Textual 0 := (hg.unfold_ok_iff (by decide)).1 ⟨_, rfl⟩
  obtain ⟨rows, hrows, -, -, -, -, hdeeper, -⟩ :=
    outline_shows_shape hg (show 0 < twiceSheet.size by decide) ht
  have hknown : twiceSheet.outline 0 0 = .ok [.header, .node 0 "" 3, .node 1 "g.js:4" 1,
      .text 2 "c;", .text 1 "a;↵ b;", .node 1 "g.js:4" 1, .text 2 "c;"] := rfl
  obtain rfl := (List.cons.inj (Except.ok.inj (hknown.symm.trans hrows))).2
  exact ⟨hknown, hdeeper 5 (by decide), rfl⟩

end Graph

end TypedModule
