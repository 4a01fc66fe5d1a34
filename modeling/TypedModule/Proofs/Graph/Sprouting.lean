import TypedModule.Graph.Pass
import TypedModule.Proofs.Graph.Copying

/-!
# New trees in a graph

What the pass adds to a graph is a new tree: `Sprouted` says that the nodes which were there are as
before, that the tree leads to new nodes only and to each of them on one path, and what it unfolds
to. Planting a tree makes one, and it stays one when it is annotated or hung under a new root.
-/

namespace TypedModule

namespace Graph

variable {g h : Graph} {c d i : NodeId} {t : Tree}

/-- A new tree in a graph `h` grown from `g`: its nodes are new, each of them is reached on one
path from the root `d`, and it unfolds to `t`. -/
structure Sprouted (g h : Graph) (d : NodeId) (t : Tree) : Prop where
  kept : Extends g h
  wellFormed : h.WellFormed
  root_lt : d < h.size
  fresh : ∀ n, h.Reaches d n → g.size ≤ n
  strict : h.Strict d
  unfold : h.unfold d = .ok t

theorem sprouted_plant (hg : g.WellFormed) (t : Tree) :
    Sprouted g (plant t g).1 (plant t g).2 t := by
  have hp := planted_plant hg t
  obtain ⟨hle, hlt⟩ := hp.fresh _ (List.mem_singleton_self _)
  have hfresh : ∀ n, (plant t g).1.Reaches (plant t g).2 n → g.size ≤ n :=
    fun n hn => hp.le_of_reaches hle hn
  refine ⟨hp.kept, hp.wellFormed, hlt, hfresh, fun n hn => ?_, ?_⟩
  · have honce := hp.once n (hfresh n hn) (hp.wellFormed.lt_of_reaches hlt hn)
    simpa [childIds] using honce
  · obtain ⟨t', rest, ht', hrest, heq⟩ := forestOf_node_eq_ok hp.forest
    obtain ⟨htag, hchildren, -⟩ := Forest.node.inj heq
    rw [ht']
    exact congrArg Except.ok (show t' = t by cases t; cases t'; simp_all)

/-- It is enough that the tree is new but for foreign children of some sort: annotation drops them. -/
theorem Sprouted.annotate_of_without {p : Foreign → Bool} (hkept : Extends g h)
    (hs : Sprouted (g.without p) (h.without p) d t) : Sprouted g (h.annotate d) d t.annotate := by
  have hw : h.WellFormed := hs.wellFormed.of_without
  have hd : d < h.size := by
    rw [← size_without p h]
    exact hs.root_lt
  have hfresh : ∀ n, h.Reaches d n → g.size ≤ n := fun n hn => by
    rw [← size_without p g]
    exact hs.fresh n (reaches_without.2 hn)
  have hkids : ∀ n, h.Reaches d n → (h.annotate d).kids n = h.kids n :=
    fun n _ => kids_annotate hw hd n
  constructor
  case kept =>
    refine ⟨by rw [size_annotate]; exact hkept.size_le, fun n hn => ?_⟩
    have hnone : ¬ h.Reaches d n := fun hdn => Nat.not_le_of_lt hn (hfresh n hdn)
    rw [node_annotate hw hd rfl fun _ _ => rfl, hw.pathCount_eq_zero_iff.2 hnone]
    exact hkept.node_eq n hn
  case wellFormed => exact hw.annotate hd
  case root_lt => rwa [size_annotate]
  case fresh => exact fun n hn => hfresh n ((reaches_congr hkids n).1 hn)
  case strict =>
    intro n hn
    rw [pathCount_congr hkids, ← pathCount_without (p := p)]
    exact hs.strict n (reaches_without.2 ((reaches_congr hkids n).1 hn))
  case unfold =>
    rw [← unfold_annotate_without (p := p) hw hd]
    exact hs.wellFormed.unfold_annotate hs.root_lt hs.strict hs.unfold

theorem Sprouted.annotate (hs : Sprouted g h d t) : Sprouted g (h.annotate d) d t.annotate := by
  apply Sprouted.annotate_of_without (p := fun _ => false) hs.kept
  rwa [without_none, without_none]

theorem add_node_of_ne {j : NodeId} (hj : j ≠ i) :
    (g.add i (.node j)).1 = g.append i (.node j) := by
  simp [add, acceptAll, accept, Item.parts, hj, append]

theorem prepend_text (g : Graph) (i : NodeId) (s : String) :
    (g.prepend i (.text s)).1 = g.update i fun n => ⟨n.tag, .text s :: n.children⟩ := by
  simp [prepend, acceptAll, accept, Item.parts]

theorem acceptAll_texts (i : NodeId) (ss : List String) :
    acceptAll i (ss.map .text) = (ss.map .text, none) := by
  induction ss with
  | nil => rfl
  | cons s rest ih => simp [acceptAll, accept, ih]

theorem add_texts (g : Graph) (i : NodeId) (ss : List String) :
    (g.add i (.list (ss.map .text))).1 =
      g.update i fun n => ⟨n.tag, n.children ++ ss.map .text⟩ := by
  simp [add, Item.parts, acceptAll_texts]

/-- The graph `h` is `g` with a root and a holder around the node `c`, between texts. -/
structure Enclosed (g h : Graph) (c : NodeId) (front back : List String) : Prop where
  size_eq : h.size = g.size + 2
  node_eq : ∀ n < g.size, h.node n = g.node n
  root : h.node g.size = ⟨{}, front.map .text ++ [.node (g.size + 1)] ++ back.map .text⟩
  holder : h.node (g.size + 1) = ⟨{}, [.text holderLead, .node c]⟩

theorem enclosed_enclose (g : Graph) (header : Option String) (hc : c < g.size) :
    Enclosed g (g.enclose header c).1 c (frontMatter header) [] := by
  have hne : c ≠ g.size + 1 := Nat.ne_of_lt (Nat.lt_succ_of_lt hc)
  constructor
  case size_eq => cases header <;> simp [enclose, add_node_of_ne, hne, prepend_text]
  case node_eq =>
    intro n hn
    have hroot : g.size ≠ n := Nat.ne_of_gt hn
    have hholder : g.size + 1 ≠ n := Nat.ne_of_gt (Nat.lt_succ_of_lt hn)
    cases header <;>
      simp [enclose, add_node_of_ne, hne, prepend_text, append, node_update, node_alloc, hroot,
        hholder, hroot.symm, hholder.symm]
  case root =>
    cases header <;>
      simp [enclose, add_node_of_ne, hne, prepend_text, append, node_update, node_alloc,
        frontMatter]
  case holder =>
    cases header <;>
      simp [enclose, add_node_of_ne, hne, prepend_text, append, node_update, node_alloc]

namespace Enclosed

variable {front back : List String} (he : Enclosed g h c front back)

include he

theorem root_lt : g.size < h.size := by
  rw [he.size_eq]
  omega

theorem holder_lt : g.size + 1 < h.size := by
  rw [he.size_eq]
  omega

theorem toExtends : Extends g h := ⟨he.root_lt.le, he.node_eq⟩

theorem add_texts (ss : List String) :
    Enclosed g (h.add g.size (.list (ss.map .text))).1 c front (back ++ ss) := by
  rw [Graph.add_texts]
  refine ⟨by rw [size_update, he.size_eq], fun n hn => ?_, ?_, ?_⟩
  · rw [h.node_update_of_ne (Nat.ne_of_gt hn), he.node_eq n hn]
  · rw [h.node_update_self he.root_lt, he.root]
    simp
  · rw [h.node_update_of_ne (Nat.ne_of_lt (Nat.lt_succ_self _)), he.holder]

theorem kids_root : h.kids g.size = [g.size + 1] := by
  have htexts (ss : List String) : childIds (ss.map .text) = [] := by
    induction ss with
    | nil => rfl
    | cons s rest ih => exact ih
  rw [kids, children, he.root, childIds_append, childIds_append, htexts, htexts]
  rfl

theorem kids_holder : h.kids (g.size + 1) = [c] := by
  rw [kids, children, he.holder]
  rfl

theorem mem_kids {n k : NodeId} (hk : k ∈ h.kids n) :
    n < g.size ∧ k ∈ g.kids n ∨ n = g.size ∧ k = g.size + 1 ∨ n = g.size + 1 ∧ k = c := by
  by_cases hn : n < g.size
  · exact Or.inl ⟨hn, he.toExtends.kids_eq hn ▸ hk⟩
  rcases Nat.eq_or_lt_of_le (Nat.le_of_not_lt hn) with rfl | hroot
  · rw [he.kids_root] at hk
    exact Or.inr (Or.inl ⟨rfl, List.mem_singleton.1 hk⟩)
  rcases Nat.eq_or_lt_of_le (Nat.succ_le_of_lt hroot) with rfl | hholder
  · rw [he.kids_holder] at hk
    exact Or.inr (Or.inr ⟨rfl, List.mem_singleton.1 hk⟩)
  · rw [kids_of_size_le (he.size_eq.trans_le hholder)] at hk
    cases hk

theorem wellFormed (hg : g.WellFormed) (hc : c < g.size) : h.WellFormed := by
  -- The holder stands above the nodes of `g`, and the root above the holder.
  refine WellFormed.of_measure
    (fun n => if n < g.size then g.rank n else if n = g.size then g.size + 1 else g.size) ?_ ?_
  · intro n k hk
    rcases he.mem_kids hk with ⟨_, hk⟩ | ⟨_, rfl⟩ | ⟨_, rfl⟩
    · exact (hg.closed hk).trans he.root_lt
    · exact he.holder_lt
    · exact hc.trans he.root_lt
  · intro n k hk
    rcases he.mem_kids hk with ⟨hn, hk⟩ | ⟨rfl, rfl⟩ | ⟨rfl, rfl⟩
    · simpa [hn, hg.closed hk] using hg.rank_lt_of_mem_kids hk
    · simp
    · simpa [hc] using rank_lt_size hc

theorem reaches_root {n : NodeId} (hg : g.WellFormed) (hc : c < g.size)
    (hn : h.Reaches g.size n) : n = g.size ∨ n = g.size + 1 ∨ g.Reaches c n := by
  rcases Graph.reaches_iff.1 hn with rfl | ⟨m, hm, hmn⟩
  · exact Or.inl rfl
  rw [he.kids_root, List.mem_singleton] at hm
  subst hm
  rcases Graph.reaches_iff.1 hmn with rfl | ⟨m, hm, hmn⟩
  · exact Or.inr (Or.inl rfl)
  rw [he.kids_holder, List.mem_singleton] at hm
  subst hm
  exact Or.inr (Or.inr ((he.toExtends.reaches_iff hg hc).1 hmn))

/-- The one way down from the root goes to the holder. -/
theorem pathCount_root {n : NodeId} (hg : g.WellFormed) (hc : c < g.size) (hn : g.size ≠ n) :
    h.pathCount g.size n = h.pathCount (g.size + 1) n := by
  rw [(he.wellFormed hg hc).pathCount_of_ne hn, he.kids_root, List.map_cons, List.map_nil,
    List.sum_singleton]

/-- The one way down from the holder goes to the code. -/
theorem pathCount_holder {n : NodeId} (hg : g.WellFormed) (hc : c < g.size)
    (hn : g.size + 1 ≠ n) : h.pathCount (g.size + 1) n = g.pathCount c n := by
  rw [(he.wellFormed hg hc).pathCount_of_ne hn, he.kids_holder, List.map_cons, List.map_nil,
    List.sum_singleton, he.toExtends.pathCount_eq hg hc]

theorem unfold_root (hg : g.WellFormed) (hc : c < g.size) (ht : g.unfold c = .ok t) :
    h.unfold g.size = .ok ⟨{}, .ofTexts front ++ .ofTree t.holder ++ .ofTexts back⟩ := by
  have hw : h.WellFormed := he.wellFormed hg hc
  have hcode : h.unfold c = .ok t := by
    rw [he.toExtends.unfold_eq hg hc, ht]
  have hheld : h.unfold (g.size + 1) = .ok t.holder := by
    have hforest : forestOf h.unfold (h.children (g.size + 1)) =
        .ok (.text holderLead (.ofTree t)) := by
      rw [children, he.holder]
      exact forestOf_text (forestOf_node hcode rfl)
    rw [hw.unfold_of_forestOf he.holder_lt hforest, he.holder]
    rfl
  have hforest : forestOf h.unfold (h.children g.size) =
      .ok (.ofTexts front ++ .ofTree t.holder ++ .ofTexts back) := by
    rw [children, he.root]
    exact forestOf_append (forestOf_append (forestOf_texts front) (forestOf_node hheld rfl))
      (forestOf_texts back)
  rw [hw.unfold_of_forestOf he.root_lt hforest, he.root]

end Enclosed

/-- A new tree, hung into a holder under a root of its own. -/
theorem Sprouted.enclose {k : Graph} {front back : List String} (hs : Sprouted g h c t)
    (he : Enclosed h k c front back) :
    Sprouted g k h.size ⟨{}, .ofTexts front ++ .ofTree t.holder ++ .ofTexts back⟩ := by
  have hh : h.WellFormed := hs.wellFormed
  have hc : c < h.size := hs.root_lt
  have hw : k.WellFormed := he.wellFormed hh hc
  have hroot : h.size ≠ h.size + 1 := Nat.ne_of_lt (Nat.lt_succ_self _)
  refine ⟨hs.kept.trans he.toExtends, hw, he.root_lt, ?_, ?_, he.unfold_root hh hc hs.unfold⟩
  · intro n hn
    rcases he.reaches_root hh hc hn with rfl | rfl | hcn
    · exact hs.kept.size_le
    · exact hs.kept.size_le.trans (Nat.le_succ _)
    · exact hs.fresh n hcn
  · intro n hn
    rcases he.reaches_root hh hc hn with rfl | rfl | hcn
    · exact hw.pathCount_self _
    · rw [he.pathCount_root hh hc hroot, hw.pathCount_self]
    · have hlt : n < h.size := hh.lt_of_reaches hc hcn
      rw [he.pathCount_root hh hc (Nat.ne_of_gt hlt),
        he.pathCount_holder hh hc (Nat.ne_of_gt (Nat.lt_succ_of_lt hlt))]
      exact hs.strict n hcn

end Graph

end TypedModule
