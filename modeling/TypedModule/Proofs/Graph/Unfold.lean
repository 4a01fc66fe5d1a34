import TypedModule.Graph.Walk
import TypedModule.Proofs.Graph.Annotation

/-!
# What nodes unfold to

In a well formed graph the fuel of a walk never runs out, so a node unfolds to its tag and to what
its children unfold to, and the walk is stopped by nothing but a foreign child. The tree is as
deep as the node, it depends only on the nodes below, and annotating a node below which nothing is
shared annotates its tree.
-/

namespace TypedModule

variable {cs ds : List Child} {f : Forest}

section Forests

variable {tree : NodeId → Except WalkFault Tree}

theorem forestOf_congr {other : NodeId → Except WalkFault Tree}
    (hcs : ∀ k ∈ childIds cs, tree k = other k) : forestOf tree cs = forestOf other cs := by
  induction cs with
  | nil => rfl
  | cons c rest ih =>
    cases c with
    | text s => rw [forestOf, forestOf, ih hcs]
    | node i =>
      rw [forestOf, forestOf, hcs i (by simp [childIds]),
        ih fun k hk => hcs k (by simp [childIds, hk])]
    | foreign v => rfl

theorem depthOf_congr {a b : NodeId → Nat} (hcs : ∀ k ∈ childIds cs, a k = b k) :
    depthOf a cs = depthOf b cs := by
  induction cs with
  | nil => rfl
  | cons c rest ih =>
    cases c with
    | text s => exact ih hcs
    | node i =>
      rw [depthOf, depthOf, hcs i (by simp [childIds]),
        ih fun k hk => hcs k (by simp [childIds, hk])]
    | foreign v => exact ih hcs

theorem forestOf_text_eq_ok {s : String} (h : forestOf tree (.text s :: cs) = .ok f) :
    ∃ rest, forestOf tree cs = .ok rest ∧ f = .text s rest := by
  rw [forestOf] at h
  cases hrest : forestOf tree cs with
  | error e => rw [hrest] at h; cases h
  | ok rest => rw [hrest] at h; exact ⟨rest, rfl, (Except.ok.inj h).symm⟩

theorem forestOf_node_eq_ok {i : NodeId} (h : forestOf tree (.node i :: cs) = .ok f) :
    ∃ t rest, tree i = .ok t ∧ forestOf tree cs = .ok rest ∧
      f = .node t.tag t.children rest := by
  rw [forestOf] at h
  cases ht : tree i with
  | error e => rw [ht] at h; cases h
  | ok t =>
    rw [ht] at h
    cases hrest : forestOf tree cs with
    | error e => rw [hrest] at h; cases h
    | ok rest => rw [hrest] at h; exact ⟨t, rest, rfl, rfl, (Except.ok.inj h).symm⟩

theorem forestOf_text {s : String} (h : forestOf tree cs = .ok f) :
    forestOf tree (.text s :: cs) = .ok (.text s f) := by
  rw [forestOf, h]
  rfl

theorem forestOf_node {i : NodeId} {t : Tree} (ht : tree i = .ok t)
    (h : forestOf tree cs = .ok f) :
    forestOf tree (.node i :: cs) = .ok (.node t.tag t.children f) := by
  rw [forestOf, ht, h]
  rfl

theorem forestOf_append {e : Forest} (hcs : forestOf tree cs = .ok f)
    (hds : forestOf tree ds = .ok e) : forestOf tree (cs ++ ds) = .ok (f ++ e) := by
  induction cs generalizing f with
  | nil =>
    obtain rfl := Except.ok.inj hcs
    exact hds
  | cons c rest ih =>
    cases c with
    | text s =>
      obtain ⟨r, hr, rfl⟩ := forestOf_text_eq_ok hcs
      exact forestOf_text (ih hr)
    | node i =>
      obtain ⟨t, r, ht, hr, rfl⟩ := forestOf_node_eq_ok hcs
      exact forestOf_node ht (ih hr)
    | foreign v => cases hcs

theorem forestOf_texts (ss : List String) :
    forestOf tree (ss.map .text) = .ok (.ofTexts ss) := by
  induction ss with
  | nil => rfl
  | cons s rest ih => exact forestOf_text ih

theorem exists_forestOf (hforeign : ∀ v, .foreign v ∉ cs)
    (hnodes : ∀ k ∈ childIds cs, ∃ t, tree k = .ok t) : ∃ f, forestOf tree cs = .ok f := by
  induction cs with
  | nil => exact ⟨.nil, rfl⟩
  | cons c rest ih =>
    cases c with
    | text s =>
      obtain ⟨r, hr⟩ := ih (fun v hv => hforeign v (by simp [hv])) hnodes
      exact ⟨.text s r, forestOf_text hr⟩
    | node i =>
      obtain ⟨r, hr⟩ := ih (fun v hv => hforeign v (by simp [hv]))
        fun k hk => hnodes k (by simp [childIds, hk])
      obtain ⟨t, ht⟩ := hnodes i (by simp [childIds])
      exact ⟨.node t.tag t.children r, forestOf_node ht hr⟩
    | foreign v => exact absurd (List.mem_cons_self) (hforeign v)

theorem depthOf_forestOf {depth : NodeId → Nat} (h : forestOf tree cs = .ok f)
    (hdepth : ∀ k ∈ childIds cs, ∀ t, tree k = .ok t → depth k = t.depth) :
    depthOf depth cs = f.depth := by
  induction cs generalizing f with
  | nil =>
    obtain rfl := Except.ok.inj h
    rfl
  | cons c rest ih =>
    cases c with
    | text s =>
      obtain ⟨r, hr, rfl⟩ := forestOf_text_eq_ok h
      have hrest : depthOf depth rest = r.depth := ih hr hdepth
      exact hrest
    | node i =>
      obtain ⟨t, r, ht, hr, rfl⟩ := forestOf_node_eq_ok h
      rw [depthOf, Forest.depth, hdepth i (by simp [childIds]) t ht,
        ih hr fun k hk => hdepth k (by simp [childIds, hk])]
      rfl
    | foreign v => cases h

theorem forestOf_withMarkers {other : NodeId → Except WalkFault Tree}
    (h : forestOf tree cs = .ok f)
    (hnodes : ∀ k ∈ childIds cs, ∀ t, tree k = .ok t → other k = .ok t.annotate) :
    forestOf other (withMarkers 1 cs) = .ok f.annotate := by
  induction cs generalizing f with
  | nil =>
    obtain rfl := Except.ok.inj h
    rfl
  | cons c rest ih =>
    cases c with
    | text s =>
      obtain ⟨r, hr, rfl⟩ := forestOf_text_eq_ok h
      have hrest := ih hr hnodes
      by_cases hs : needsMarker s
      · rw [withMarkers, if_pos hs, Forest.annotate, if_pos hs]
        exact forestOf_text (forestOf_text hrest)
      · rw [withMarkers, if_neg hs, Forest.annotate, if_neg hs]
        exact forestOf_text hrest
    | node i =>
      obtain ⟨t, r, ht, hr, rfl⟩ := forestOf_node_eq_ok h
      have hrest := ih hr fun k hk => hnodes k (by simp [childIds, hk])
      exact forestOf_node (hnodes i (by simp [childIds]) t ht) hrest
    | foreign v => cases h

end Forests

namespace Graph

variable {g h : Graph} {i : NodeId} {t : Tree}

/-- There are only fragments and nodes below a node. -/
def Textual (g : Graph) (i : NodeId) : Prop :=
  ∀ n, g.Reaches i n → ∀ v, .foreign v ∉ g.children n

theorem Textual.kid {k : NodeId} (hi : g.Textual i) (hk : k ∈ g.kids i) : g.Textual k :=
  fun n hn => hi n ((Reaches.of_mem_kids hk).trans hn)

theorem unfoldWithin_congr (hnodes : ∀ n, g.Reaches i n → h.node n = g.node n) (fuel : Nat) :
    h.unfoldWithin fuel i = g.unfoldWithin fuel i := by
  induction fuel generalizing i with
  | zero => rfl
  | succ fuel ih =>
    have hself : h.node i = g.node i := hnodes i (Reaches.refl g i)
    have hforest : forestOf (h.unfoldWithin fuel) (g.children i) =
        forestOf (g.unfoldWithin fuel) (g.children i) :=
      forestOf_congr fun k hk => ih fun n hn => hnodes n ((Reaches.of_mem_kids hk).trans hn)
    rw [unfoldWithin, unfoldWithin, children, hself]
    exact congrArg _ hforest

theorem WellFormed.congr (hg : g.WellFormed) (hsize : g.size ≤ h.size)
    (hkids : ∀ n, h.kids n = g.kids n) : h.WellFormed :=
  WellFormed.of_measure g.rank (fun hk => (hg.closed (hkids _ ▸ hk)).trans_le hsize)
    fun hk => hg.rank_lt_of_mem_kids (hkids _ ▸ hk)

namespace WellFormed

variable (hg : g.WellFormed)

include hg

theorem unfoldWithin_stable {a b : Nat} (ha : g.rank i < a) (hb : g.rank i < b) :
    g.unfoldWithin a i = g.unfoldWithin b i := by
  induction a generalizing b i with
  | zero => omega
  | succ a ih =>
    cases b with
    | zero => omega
    | succ b =>
      have hforest : forestOf (g.unfoldWithin a) (g.children i) =
          forestOf (g.unfoldWithin b) (g.children i) := forestOf_congr fun k hk => by
        have hrank := hg.rank_lt_of_mem_kids hk
        exact ih (by omega) (by omega)
      rw [unfoldWithin, unfoldWithin, hforest]

theorem depthWithin_stable {a b : Nat} (ha : g.rank i < a) (hb : g.rank i < b) :
    g.depthWithin a i = g.depthWithin b i := by
  induction a generalizing b i with
  | zero => omega
  | succ a ih =>
    cases b with
    | zero => omega
    | succ b =>
      refine depthOf_congr fun k hk => ?_
      have hrank := hg.rank_lt_of_mem_kids hk
      exact ih (by omega) (by omega)

theorem unfold_eq (hi : i < g.size) :
    g.unfold i = (forestOf g.unfold (g.children i)).map fun f => ⟨(g.node i).tag, f⟩ := by
  have hforest : forestOf (g.unfoldWithin g.size) (g.children i) =
      forestOf g.unfold (g.children i) := rfl
  have hrank := rank_lt_size hi
  rw [unfold, hg.unfoldWithin_stable hrank (Nat.lt_succ_of_lt hrank), unfoldWithin, hforest]

theorem depth_eq (hi : i < g.size) : g.depth i = depthOf g.depth (g.children i) := by
  have hrank := rank_lt_size hi
  rw [depth, hg.depthWithin_stable hrank (Nat.lt_succ_of_lt hrank), depthWithin]
  rfl

theorem forestOf_unfold (hi : i < g.size) (ht : g.unfold i = .ok t) :
    forestOf g.unfold (g.children i) = .ok t.children ∧ t.tag = (g.node i).tag := by
  rw [hg.unfold_eq hi] at ht
  cases hf : forestOf g.unfold (g.children i) with
  | error e => rw [hf] at ht; cases ht
  | ok f =>
    rw [hf] at ht
    obtain rfl := Except.ok.inj ht
    exact ⟨rfl, rfl⟩

theorem unfold_of_forestOf {f : Forest} (hi : i < g.size)
    (hf : forestOf g.unfold (g.children i) = .ok f) : g.unfold i = .ok ⟨(g.node i).tag, f⟩ := by
  rw [hg.unfold_eq hi, hf]
  rfl

theorem unfold_congr (hi : i < g.size) (hsize : g.size ≤ h.size)
    (hnodes : ∀ n, g.Reaches i n → h.node n = g.node n) : h.unfold i = g.unfold i := by
  have hrank := rank_lt_size hi
  rw [unfold, unfoldWithin_congr hnodes]
  exact hg.unfoldWithin_stable (hrank.trans_le hsize) hrank

theorem exists_unfold (hi : i < g.size) (ht : g.Textual i) : ∃ t, g.unfold i = .ok t := by
  induction i using hg.induct with
  | step i ih =>
    obtain ⟨f, hf⟩ := exists_forestOf (ht i (Reaches.refl g i)) fun k hk =>
      ih k hk (hg.closed hk) (ht.kid hk)
    exact ⟨_, hg.unfold_of_forestOf hi hf⟩

theorem depth_unfold (hi : i < g.size) (ht : g.unfold i = .ok t) : g.depth i = t.depth := by
  induction i using hg.induct generalizing t with
  | step i ih =>
    rw [hg.depth_eq hi]
    exact depthOf_forestOf (hg.forestOf_unfold hi ht).1 fun k hk t' ht' =>
      ih k hk (hg.closed hk) ht'

theorem annotate (hi : i < g.size) : (g.annotate i).WellFormed :=
  hg.congr (size_annotate g i).ge (kids_annotate hg hi)

/-- Annotating a node below which nothing is shared annotates its tree. -/
theorem unfold_annotate (hi : i < g.size) (hstrict : g.Strict i) (ht : g.unfold i = .ok t) :
    (g.annotate i).unfold i = .ok t.annotate := by
  suffices hall : ∀ n, g.Reaches i n → ∀ t, g.unfold n = .ok t →
      (g.annotate i).unfold n = .ok t.annotate from hall i (Reaches.refl g i) t ht
  intro n
  induction n using hg.induct with
  | step n ih =>
    intro hn t ht
    have hsize : n < g.size := hg.lt_of_reaches hi hn
    obtain ⟨hf, htag⟩ := hg.forestOf_unfold hsize ht
    have hnode : (g.annotate i).node n = ⟨(g.node n).tag, withMarkers 1 (g.node n).children⟩ := by
      rw [node_annotate hg hi rfl fun _ _ => rfl, hstrict n hn]
      rfl
    have hforest : forestOf (g.annotate i).unfold ((g.annotate i).children n) =
        .ok t.children.annotate := by
      rw [children, hnode]
      exact forestOf_withMarkers hf fun k hk =>
        ih k hk (hn.trans (Reaches.of_mem_kids hk))
    rw [(hg.annotate hi).unfold_of_forestOf (by rwa [size_annotate]) hforest, hnode, Tree.annotate,
      htag]

end WellFormed

end Graph

end TypedModule
