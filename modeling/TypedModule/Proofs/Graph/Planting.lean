import TypedModule.Proofs.Graph.Unfold

/-!
# Planted trees

Planting a forest leaves the nodes of a graph as they are and adds new ones, each met on exactly
one path from the new children, which unfold to the forest. All of this is `Planted`, and it holds
of forests put together from smaller ones.
-/

namespace TypedModule.Graph

variable {g h k : Graph} {i n : NodeId} {cs ds : List Child} {f e : Forest}

/-- The second graph has the nodes of the first as they are, and may have more. -/
structure Extends (g h : Graph) : Prop where
  size_le : g.size ≤ h.size
  node_eq : ∀ n < g.size, h.node n = g.node n

namespace Extends

theorem refl (g : Graph) : Extends g g := ⟨le_rfl, fun _ _ => rfl⟩

theorem trans (hgh : Extends g h) (hhk : Extends h k) : Extends g k :=
  ⟨hgh.size_le.trans hhk.size_le, fun n hn =>
    (hhk.node_eq n (hn.trans_le hgh.size_le)).trans (hgh.node_eq n hn)⟩

theorem alloc (g : Graph) (m : Node) : Extends g (g.alloc m).1 :=
  ⟨by rw [size_alloc]; omega, fun _ hn => g.node_alloc_of_lt hn m⟩

section

variable (hgh : Extends g h)

include hgh

theorem kids_eq (hn : n < g.size) : h.kids n = g.kids n := by
  rw [kids, children, hgh.node_eq n hn]
  rfl

theorem node_eq_of_reaches (hg : g.WellFormed) (hi : i < g.size) (hn : g.Reaches i n) :
    h.node n = g.node n :=
  hgh.node_eq n (hg.lt_of_reaches hi hn)

theorem unfold_eq (hg : g.WellFormed) (hi : i < g.size) : h.unfold i = g.unfold i :=
  hg.unfold_congr hi hgh.size_le fun _ hn => hgh.node_eq_of_reaches hg hi hn

theorem reaches_iff (hg : g.WellFormed) (hi : i < g.size) : h.Reaches i n ↔ g.Reaches i n :=
  reaches_congr (fun _ hm => hgh.kids_eq (hg.lt_of_reaches hi hm)) n

theorem pathCount_eq (hg : g.WellFormed) (hi : i < g.size) :
    h.pathCount i n = g.pathCount i n :=
  pathCount_congr (fun _ hm => hgh.kids_eq (hg.lt_of_reaches hi hm)) n

theorem map_pathCount_eq (hg : g.WellFormed) {ks : List NodeId} (hks : ∀ k ∈ ks, k < g.size) :
    (ks.map fun k => h.pathCount k n) = ks.map fun k => g.pathCount k n :=
  List.map_congr_left fun k hk => hgh.pathCount_eq hg (hks k hk)

theorem forestOf_eq (hg : g.WellFormed) (hcs : ∀ k ∈ childIds cs, k < g.size) :
    forestOf h.unfold cs = forestOf g.unfold cs :=
  forestOf_congr fun k hk => hgh.unfold_eq hg (hcs k hk)

end

end Extends

theorem kids_alloc_self (g : Graph) (m : Node) :
    (g.alloc m).1.kids g.size = childIds m.children := by
  rw [kids, children, show (g.alloc m).1.node g.size = m from g.node_alloc_self m]

theorem mem_kids_alloc {k : NodeId} {m : Node} (hk : k ∈ (g.alloc m).1.kids i) :
    i < g.size ∧ k ∈ g.kids i ∨ i = g.size ∧ k ∈ childIds m.children := by
  rcases Nat.lt_trichotomy i g.size with hi | rfl | hi
  · exact Or.inl ⟨hi, (Extends.alloc g m).kids_eq hi ▸ hk⟩
  · exact Or.inr ⟨rfl, g.kids_alloc_self m ▸ hk⟩
  · rw [kids_of_size_le (by rw [size_alloc]; omega)] at hk
    cases hk

theorem WellFormed.alloc (hg : g.WellFormed) {m : Node}
    (hm : ∀ k ∈ childIds m.children, k < g.size) : (g.alloc m).1.WellFormed := by
  -- The new node stands above all others.
  refine WellFormed.of_measure (fun n => if n < g.size then g.rank n else g.size) ?_ ?_
  · intro i k hk
    rw [size_alloc]
    rcases mem_kids_alloc hk with ⟨_, hk⟩ | ⟨_, hk⟩
    · exact (hg.closed hk).trans (Nat.lt_succ_self _)
    · exact (hm k hk).trans (Nat.lt_succ_self _)
  · intro i k hk
    rcases mem_kids_alloc hk with ⟨hi, hk'⟩ | ⟨rfl, hk'⟩
    · simpa [hi, hg.closed hk'] using hg.rank_lt_of_mem_kids hk'
    · have hlt : k < g.size := hm k hk'
      simpa [hlt] using rank_lt_size hlt

/-- New children `cs` that stand for the forest `f`, in a graph `h` grown from `g`. -/
structure Planted (g h : Graph) (cs : List Child) (f : Forest) : Prop where
  kept : Extends g h
  wellFormed : h.WellFormed
  fresh : ∀ k ∈ childIds cs, g.size ≤ k ∧ k < h.size
  inside : ∀ n, g.size ≤ n → ∀ k ∈ h.kids n, g.size ≤ k
  once : ∀ n, g.size ≤ n → n < h.size → ((childIds cs).map fun k => h.pathCount k n).sum = 1
  forest : forestOf h.unfold cs = .ok f

theorem childIds_append (cs ds : List Child) :
    childIds (cs ++ ds) = childIds cs ++ childIds ds := by
  induction cs with
  | nil => rfl
  | cons c rest ih =>
    cases c with
    | text s => exact ih
    | node i => exact congrArg _ ih
    | foreign v => exact ih

theorem sum_pathCount_eq_zero (hg : g.WellFormed) {ks : List NodeId}
    (hks : ∀ k ∈ ks, ¬ g.Reaches k n) : (ks.map fun k => g.pathCount k n).sum = 0 := by
  refine List.sum_eq_zero fun x hx => ?_
  obtain ⟨k, hk, rfl⟩ := List.mem_map.1 hx
  exact hg.pathCount_eq_zero_iff.2 (hks k hk)

namespace Planted

theorem nil (hg : g.WellFormed) : Planted g g [] .nil where
  kept := Extends.refl g
  wellFormed := hg
  fresh k hk := by cases hk
  inside n hn k hk := by
    rw [kids_of_size_le hn] at hk
    cases hk
  once n hn hn' := by omega
  forest := rfl

theorem text (hp : Planted g h cs f) (s : String) : Planted g h (.text s :: cs) (.text s f) where
  kept := hp.kept
  wellFormed := hp.wellFormed
  fresh := hp.fresh
  inside := hp.inside
  once := hp.once
  forest := forestOf_text hp.forest

theorem le_of_reaches (hp : Planted g h cs f) (hi : g.size ≤ i) (hn : h.Reaches i n) :
    g.size ≤ n :=
  hn.mem_of_closed (P := fun m => g.size ≤ m) (fun hm hk => hp.inside _ hm _ hk) hi

/-- A node over planted children. -/
theorem alloc (hp : Planted g h cs f) (tag : Tag) :
    Planted g (h.alloc ⟨tag, cs⟩).1 [.node h.size] (.node tag f .nil) := by
  have hcs : ∀ k ∈ childIds cs, k < h.size := fun k hk => (hp.fresh k hk).2
  have hw : (h.alloc ⟨tag, cs⟩).1.WellFormed := hp.wellFormed.alloc hcs
  have hext : Extends h (h.alloc ⟨tag, cs⟩).1 := Extends.alloc h _
  have htop : h.size < (h.alloc ⟨tag, cs⟩).1.size := by
    rw [size_alloc]
    omega
  constructor
  case kept => exact hp.kept.trans hext
  case wellFormed => exact hw
  case fresh =>
    intro k hk
    obtain rfl := List.mem_singleton.1 hk
    exact ⟨hp.kept.size_le, htop⟩
  case inside =>
    intro n hn k hk
    rcases mem_kids_alloc hk with ⟨_, hk⟩ | ⟨_, hk⟩
    · exact hp.inside n hn k hk
    · exact (hp.fresh k hk).1
  case once =>
    intro n hn hn'
    rw [size_alloc] at hn'
    simp only [childIds, List.map_cons, List.map_nil, List.sum_cons, List.sum_nil, Nat.add_zero]
    by_cases htop : n = h.size
    · rw [htop, hw.pathCount_self]
    · rw [hw.pathCount_of_ne (Ne.symm htop), kids_alloc_self,
        hext.map_pathCount_eq hp.wellFormed hcs]
      exact hp.once n hn (by omega)
  case forest =>
    have hnode : (h.alloc ⟨tag, cs⟩).1.node h.size = ⟨tag, cs⟩ := h.node_alloc_self _
    have hforest : forestOf (h.alloc ⟨tag, cs⟩).1.unfold
        ((h.alloc ⟨tag, cs⟩).1.children h.size) = .ok f := by
      rw [children, hnode, hext.forestOf_eq hp.wellFormed hcs, hp.forest]
    have hunfold := hw.unfold_of_forestOf htop hforest
    rw [hnode] at hunfold
    exact forestOf_node hunfold rfl

/-- Two forests planted one after another. -/
theorem append (hp : Planted g h cs f) (hq : Planted h k ds e) :
    Planted g k (cs ++ ds) (f ++ e) := by
  have hgh := hp.kept.size_le
  have hcs : ∀ i ∈ childIds cs, i < h.size := fun i hi => (hp.fresh i hi).2
  constructor
  case kept => exact hp.kept.trans hq.kept
  case wellFormed => exact hq.wellFormed
  case fresh =>
    intro i hi
    rw [childIds_append, List.mem_append] at hi
    rcases hi with hi | hi
    · exact ⟨(hp.fresh i hi).1, (hcs i hi).trans_le hq.kept.size_le⟩
    · exact ⟨hgh.trans (hq.fresh i hi).1, (hq.fresh i hi).2⟩
  case inside =>
    intro n hn i hi
    by_cases hlt : n < h.size
    · exact hp.inside n hn i (hq.kept.kids_eq hlt ▸ hi)
    · exact hgh.trans (hq.inside n (by omega) i hi)
  case once =>
    intro n hn hn'
    rw [childIds_append, List.map_append, List.sum_append]
    by_cases hlt : n < h.size
    · rw [hq.kept.map_pathCount_eq hp.wellFormed hcs, hp.once n hn hlt,
        sum_pathCount_eq_zero hq.wellFormed]
      intro i hi hin
      have := hq.le_of_reaches (hq.fresh i hi).1 hin
      omega
    · rw [hq.once n (by omega) hn', sum_pathCount_eq_zero hq.wellFormed]
      intro i hi hin
      rw [hq.kept.reaches_iff hp.wellFormed (hcs i hi)] at hin
      exact hlt (hp.wellFormed.lt_of_reaches (hcs i hi) hin)
  case forest =>
    refine forestOf_append ?_ hq.forest
    rw [hq.kept.forestOf_eq hp.wellFormed hcs, hp.forest]

end Planted

theorem planted_plantForest (hg : g.WellFormed) (f : Forest) :
    Planted g (plantForest f g).1 (plantForest f g).2 f := by
  induction f generalizing g with
  | nil => exact Planted.nil hg
  | text s rest ih => exact (ih hg).text s
  | node tag inner rest ihInner ihRest =>
    have hnode := (ihInner hg).alloc tag
    exact hnode.append (ihRest hnode.wellFormed)

theorem planted_plant (hg : g.WellFormed) (t : Tree) :
    Planted g (plant t g).1 [.node (plant t g).2] (.ofTree t) :=
  (planted_plantForest hg t.children).alloc t.tag

end TypedModule.Graph
