import Mathlib.Data.List.Basic
import TypedModule.Proofs.Graph.Sprouting
import TypedModule.Proofs.Text.Lines
import TypedModule.Tree.OfText

/-!
# The nodes of a text

`LineSplit` says what the lines of a text are: they join to the text, each has one line end at its
end and nowhere else, which only the last may lack, and the pair of a carriage return and a line
feed is not cut in two. There is one such list for every text. The node of a text has one child
node for each of these lines, numbered from one, with the line as its only fragment.
-/

namespace TypedModule

variable {l m text : List Char} {ls ms : List (List Char)}

/-- The lines of a text, one after another. -/
structure LineSplit (text : List Char) (ls : List (List Char)) : Prop where
  joined : ls.flatten = text
  nonempty : ∀ l ∈ ls, l ≠ []
  closed : ∀ l ∈ ls.dropLast, ∃ c, l.getLast? = some c ∧ isTerminator c = true
  single : ∀ l ∈ ls, ∃ body e, l = body ++ e ∧ (e = [] ∨ e ∈ lineEnds) ∧
    ∀ c ∈ body, isTerminator c = false
  uncut : ls.IsChain fun l m => ¬ CutsPair l m

namespace LineSplit

theorem tail (h : LineSplit text (l :: ls)) : LineSplit ls.flatten ls where
  joined := rfl
  nonempty k hk := h.nonempty k (List.mem_cons_of_mem l hk)
  closed k hk := by
    apply h.closed k
    cases ls with
    | nil => cases hk
    | cons m ls => exact List.mem_cons_of_mem l hk
  single k hk := h.single k (List.mem_cons_of_mem l hk)
  uncut := h.uncut.tail

theorem lines (h : LineSplit text ls) : Lines ls := by
  induction ls generalizing text with
  | nil => exact Lines.nil
  | cons l ls ih =>
    have hne : l ≠ [] := h.nonempty l List.mem_cons_self
    obtain ⟨body, e, hl, he, hbody⟩ := h.single l List.mem_cons_self
    cases ls with
    | nil =>
      rcases he with rfl | he
      · rw [List.append_nil] at hl
        exact Lines.last ⟨hne, hl ▸ hbody⟩
      · refine Lines.cons ⟨body, e, he, hl, hbody⟩ ?_ Lines.nil
        intro hcut
        cases hcut.2
    | cons m ls =>
      -- A line that is not the last has a terminator, which is none of the body.
      have hend : e ≠ [] := by
        intro hnil
        obtain ⟨c, hlast, hc⟩ := h.closed l List.mem_cons_self
        rw [hl, hnil, List.append_nil] at hlast
        rw [hbody c (List.mem_of_getLast? hlast)] at hc
        cases hc
      have hm : m ≠ [] := h.nonempty m (by simp)
      have hcut : ¬ CutsPair l m := h.uncut.rel
      refine Lines.cons ⟨body, e, he.resolve_left hend, hl, hbody⟩ ?_ (ih h.tail)
      rwa [List.flatten_cons, cutsPair_append_iff hm]

end LineSplit

theorem Lines.lineSplit (h : Lines ls) : LineSplit ls.flatten ls := by
  induction h with
  | nil => exact ⟨rfl, by simp, by simp, by simp, List.isChain_nil⟩
  | @last l h =>
    refine ⟨rfl, ?_, by simp, ?_, List.isChain_singleton l⟩
    · intro k hk
      obtain rfl := List.mem_singleton.1 hk
      exact h.1
    · intro k hk
      obtain rfl := List.mem_singleton.1 hk
      exact ⟨k, [], by simp, Or.inl rfl, h.2⟩
  | @cons l ls hl hcut hls ih =>
    refine ⟨rfl, ?_, ?_, ?_, ?_⟩
    · intro k hk
      exact (Lines.cons hl hcut hls).ne_nil_of_mem hk
    · intro k hk
      cases ls with
      | nil => cases hk
      | cons m ls =>
        rcases List.mem_cons.1 hk with rfl | hk
        · exact hl.closed
        · exact ih.closed k hk
    · intro k hk
      rcases List.mem_cons.1 hk with rfl | hk
      · obtain ⟨body, e, he, heq, hbody⟩ := hl
        exact ⟨body, e, heq, Or.inr he, hbody⟩
      · exact ih.single k hk
    · cases ls with
      | nil => exact List.isChain_singleton l
      | cons m ls =>
        have hm : m ≠ [] := hls.ne_nil_of_mem List.mem_cons_self
        apply List.IsChain.cons_cons _ ih.uncut
        rwa [List.flatten_cons, cutsPair_append_iff hm] at hcut

/-- Splitting finds the lines of a text, and there are no others. -/
theorem lineSplit_iff : LineSplit text ls ↔ ls = splitLines text := by
  constructor
  · intro h
    rw [← h.joined, h.lines.splitLines_flatten]
  · intro h
    subst h
    have hsplit := (lines_splitLines text).lineSplit
    rwa [flatten_splitLines] at hsplit

theorem Forest.depth_ofLines (source : Option String) (row : Int) (ls : List (List Char)) :
    (Forest.ofLines source row ls).depth = if ls = [] then 0 else 1 := by
  induction ls generalizing row with
  | nil => rfl
  | cons l ls ih =>
    rw [Forest.ofLines, Forest.depth, ih]
    split <;> rfl

section Forests

variable {tree : NodeId → Except WalkFault Tree} {cs : List Child} {rest : Forest}

theorem forestOf_eq_nil (h : forestOf tree cs = .ok .nil) : cs = [] := by
  cases cs with
  | nil => rfl
  | cons c ds =>
    cases c with
    | text s =>
      obtain ⟨r, -, hr⟩ := forestOf_text_eq_ok h
      cases hr
    | node i =>
      obtain ⟨t, r, -, -, hr⟩ := forestOf_node_eq_ok h
      cases hr
    | foreign v => cases h

theorem forestOf_eq_text {s : String} (h : forestOf tree cs = .ok (.text s rest)) :
    ∃ ds, cs = .text s :: ds ∧ forestOf tree ds = .ok rest := by
  cases cs with
  | nil => cases h
  | cons c ds =>
    cases c with
    | text s' =>
      obtain ⟨r, hds, hr⟩ := forestOf_text_eq_ok h
      cases hr
      exact ⟨ds, rfl, hds⟩
    | node i =>
      obtain ⟨t, r, -, -, hr⟩ := forestOf_node_eq_ok h
      cases hr
    | foreign v => cases h

theorem forestOf_eq_node {tag : Tag} {inner : Forest}
    (h : forestOf tree cs = .ok (.node tag inner rest)) :
    ∃ i ds, cs = .node i :: ds ∧ tree i = .ok ⟨tag, inner⟩ ∧ forestOf tree ds = .ok rest := by
  cases cs with
  | nil => cases h
  | cons c ds =>
    cases c with
    | text s =>
      obtain ⟨r, -, hr⟩ := forestOf_text_eq_ok h
      cases hr
    | node i =>
      obtain ⟨t, r, ht, hds, hr⟩ := forestOf_node_eq_ok h
      cases hr
      exact ⟨i, ds, rfl, ht, hds⟩
    | foreign v => cases h

/-- The node of a line. -/
def lineNode (source : Option String) (row : Int) (l : List Char) : Node :=
  ⟨{ line := some row, column := some 0, source := source }, [.text (String.ofList l)]⟩

/-- The tree of a line. -/
def lineTree (source : Option String) (row : Int) (l : List Char) : Tree :=
  ⟨{ line := some row, column := some 0, source := source }, .text (String.ofList l) .nil⟩

/-- Only a row of nodes, one for each line, unfolds to the forest of some lines. -/
theorem forestOf_eq_ofLines {source : Option String} {row : Int} {node : NodeId → Node}
    (hnode : ∀ i, Child.node i ∈ cs → ∀ row l, tree i = .ok (lineTree source row l) →
      node i = lineNode source row l)
    (h : forestOf tree cs = .ok (Forest.ofLines source row ls)) :
    ∃ ids : List NodeId, cs = ids.map Child.node ∧
      ids.map node = ls.mapIdx fun i l => lineNode source (row + i) l := by
  induction ls generalizing row cs with
  | nil =>
    obtain rfl := forestOf_eq_nil h
    exact ⟨[], rfl, rfl⟩
  | cons l ls ih =>
    obtain ⟨i, ds, rfl, ht, hds⟩ := forestOf_eq_node h
    have hfirst : node i = lineNode source row l := hnode i List.mem_cons_self row l ht
    obtain ⟨ids, rfl, hids⟩ := ih (fun j hj => hnode j (List.mem_cons_of_mem _ hj)) hds
    refine ⟨i :: ids, rfl, ?_⟩
    have hshift (k : Nat) : row + 1 + (k : Int) = row + ((k + 1 : Nat) : Int) := by omega
    rw [List.map_cons, List.mapIdx_cons, hfirst, hids]
    simp only [hshift, Int.natCast_zero, Int.add_zero]

end Forests

namespace Graph

variable {g : Graph} {i : NodeId}

theorem node_of_unfold_text (hg : g.WellFormed) (hi : i < g.size) {tag : Tag} {s : String}
    (ht : g.unfold i = .ok ⟨tag, .text s .nil⟩) : g.node i = ⟨tag, [.text s]⟩ := by
  obtain ⟨hforest, htag⟩ := hg.forestOf_unfold hi ht
  obtain ⟨ds, hchildren, hds⟩ := forestOf_eq_text hforest
  obtain rfl := forestOf_eq_nil hds
  have hnode : g.node i = ⟨(g.node i).tag, g.children i⟩ := rfl
  rw [hnode, hchildren, ← htag]

/-- The node of a text has a child node for each line of the text, and no other children. The
lines are the only list of texts that takes the text apart at its line ends, and they join to the
text again. There are none if the text is empty, and otherwise the node has depth one. -/
theorem plant_ofText_nodes (hg : g.WellFormed) (text : String) (source : Option String) :
    ∃ (h : Graph) (root : NodeId) (ls : List (List Char)) (ids : List NodeId),
      plant (.ofText text source) g = (h, root) ∧
      LineSplit text.toList ls ∧ (∀ ms, LineSplit text.toList ms → ms = ls) ∧
      h.node root = ⟨{ source := source }, ids.map Child.node⟩ ∧
      ids.map h.node = ls.mapIdx (fun i l => lineNode source (1 + i) l) ∧
      h.render root = .ok text ∧ (ls = [] ↔ text = "") ∧
      h.depth root = if text = "" then 0 else 1 := by
  have hs := sprouted_plant hg (Tree.ofText text source)
  let h := (plant (Tree.ofText text source) g).1
  let root := (plant (Tree.ofText text source) g).2
  obtain ⟨hforest, htag⟩ := hs.wellFormed.forestOf_unfold hs.root_lt hs.unfold
  have hlines : ∀ i, Child.node i ∈ h.children root → ∀ row l,
      h.unfold i = .ok (lineTree source row l) → h.node i = lineNode source row l := by
    intro i hi row l ht
    have hkid : i ∈ h.kids root := mem_childIds_iff.2 hi
    exact node_of_unfold_text hs.wellFormed (hs.wellFormed.closed hkid) ht
  obtain ⟨ids, hchildren, hids⟩ := forestOf_eq_ofLines hlines hforest
  have hempty : splitLines text.toList = [] ↔ text = "" := by
    rw [splitLines_eq_nil_iff, String.toList_eq_nil_iff]
  refine ⟨h, root, splitLines text.toList, ids, rfl, lineSplit_iff.2 rfl, ?_, ?_, hids, ?_, ?_, ?_⟩
  · intro ms hms
    exact lineSplit_iff.1 hms
  · have hnode : h.node root = ⟨(h.node root).tag, h.children root⟩ := rfl
    rw [hnode, hchildren, ← htag]
    rfl
  · rw [render, walk, hs.unfold]
    exact congrArg Except.ok (Tree.render_ofText text source)
  · exact hempty
  · rw [hs.wellFormed.depth_unfold hs.root_lt hs.unfold, Tree.depth, Tree.ofText,
      Forest.depth_ofLines]
    exact if_congr hempty rfl rfl

/-- Every kind of line end, a pair that is one end, two returns that are two ends, and a last line
without an end. -/
def endsText : String := "a\r\nb\r\rc\u2028\nd\u2029e"

theorem plant_endsText :
    WellFormed {} ∧
      ∃ (h : Graph) (root : NodeId) (ls : List (List Char)) (ids : List NodeId),
        plant (.ofText endsText (some "p.js")) {} = (h, root) ∧
        ls.map String.ofList = ["a\r\n", "b\r", "\r", "c\u2028", "\n", "d\u2029", "e"] ∧
        h.node root = ⟨{ source := some "p.js" }, ids.map Child.node⟩ ∧
        ids.map h.node = ls.mapIdx (fun i l => lineNode (some "p.js") (1 + i) l) ∧
        h.render root = .ok endsText ∧ h.depth root = 1 := by
  have hg : WellFormed {} := WellFormed.of_later (by decide)
  obtain ⟨h, root, ls, ids, hplant, hlines, -, hroot, hids, hrender, -, hdepth⟩ :=
    plant_ofText_nodes hg endsText (some "p.js")
  obtain rfl := lineSplit_iff.1 hlines
  exact ⟨hg, h, root, _, ids, hplant, by decide +kernel, hroot, hids, hrender, hdepth⟩

end Graph

end TypedModule
