import TypedModule.Graph.Outline
import TypedModule.Proofs.Graph.Module

/-!
# Separation of copies

A copy, and a module around one, shares no node with the code it is made from. Whatever is done
afterwards to nodes of the one side, and to new nodes built from them, the other side does not
change: the nodes that steps on one side can lay hands on are fenced off from the other side, and
every step keeps the fence.
-/

namespace TypedModule

/-- A later step on a graph. -/
inductive Edit
  | create (tag : Tag) (item : Option Item)
  | add (target : NodeId) (item : Item)
  | prepend (target : NodeId) (item : Item)
  | set (target : NodeId) (change : Tag → Tag)
  | annotate (target : NodeId)

namespace Edit

def targets : Edit → List NodeId
  | create _ _ => []
  | add target _ => [target]
  | prepend target _ => [target]
  | set target _ => [target]
  | annotate target => [target]

/-- The nodes that a step puts into some node. What is refused is not among them. -/
def inserted (g : Graph) : Edit → List NodeId
  | create _ none => []
  | create _ (some item) => childIds (acceptAll g.size item.parts).1
  | add target item => childIds (acceptAll target item.parts).1
  | prepend target item =>
    match acceptAll target item.parts with
    | (_, some _) => []
    | (block, none) => childIds block
  | set _ _ => []
  | annotate _ => []

/-- The node that a step makes. -/
def made (g : Graph) : Edit → List NodeId
  | create _ _ => [g.size]
  | _ => []

end Edit

namespace Graph

variable {g h : Graph} {a b c d i n k side : NodeId} {e : Edit} {own others : Set NodeId}

def edit (g : Graph) : Edit → Graph
  | .create tag item => (g.create tag item).1
  | .add target item => (g.add target item).1
  | .prepend target item => (g.prepend target item).1
  | .set target change => g.setTag target change
  | .annotate target => g.annotate target

def run (g : Graph) (steps : List Edit) : Graph := steps.foldl edit g

/-- Steps on the side of a node: whatever one of them changes or puts in is below that node at
the moment, or was made by a step before. No step closes a cycle. -/
def StaysOn (side : NodeId) : Graph → List NodeId → List Edit → Prop
  | _, _, [] => True
  | g, made, e :: rest =>
    (∀ n, n ∈ e.targets ∨ n ∈ e.inserted g → g.Reaches side n ∨ n ∈ made) ∧
      (g.edit e).Acyclic ∧ StaysOn side (g.edit e) (e.made g ++ made) rest

/-- No steps on the side of `a` ever change what `b` unfolds to, and so its text and outline. -/
def Apart (g : Graph) (a b : NodeId) : Prop :=
  ∀ steps, StaysOn a g [] steps →
    (g.run steps).unfold b = g.unfold b ∧ (g.run steps).render b = g.render b ∧
      (g.run steps).drawOutline b = g.drawOutline b ∧
      ∀ depth, (g.run steps).outline b depth = g.outline b depth

theorem create_eq (g : Graph) (tag : Tag) (item : Option Item) :
    (g.create tag item).1 = match item with
      | none => (g.alloc ⟨tag, []⟩).1
      | some item => ((g.alloc ⟨tag, []⟩).1.add g.size item).1 := by
  cases item with
  | none => rfl
  | some item =>
    simp only [create, alloc]
    split <;> simp_all

theorem size_edit (g : Graph) (e : Edit) : (g.edit e).size = g.size + (e.made g).length := by
  cases e with
  | create tag item => cases item <;> simp [edit, create_eq, Edit.made, add]
  | add target item => simp [edit, Edit.made, add]
  | prepend target item =>
    simp only [edit, Edit.made, prepend]
    split <;> simp
  | set target change => simp [edit, Edit.made, setTag]
  | annotate target => simp [edit, Edit.made]

theorem node_edit (hg : g.WellFormed) (hlt : ∀ m ∈ e.targets, m < g.size)
    (hn : n < g.size) (hfar : ∀ m ∈ e.targets, ¬ g.Reaches m n) :
    (g.edit e).node n = g.node n := by
  have hne {target : NodeId} (htarget : target ∈ e.targets) : target ≠ n := by
    rintro rfl
    exact hfar target htarget (Reaches.refl g target)
  cases e with
  | create tag item =>
    have hnew : g.size ≠ n := Nat.ne_of_gt hn
    cases item with
    | none => rw [edit, create_eq, node_alloc_of_lt g hn]
    | some item =>
      rw [edit, create_eq]
      exact (node_update_of_ne _ hnew _).trans (node_alloc_of_lt g hn _)
  | add target item => exact g.node_update_of_ne (hne (List.mem_singleton_self target)) _
  | prepend target item =>
    rw [edit, prepend]
    split
    · rfl
    · exact g.node_update_of_ne (hne (List.mem_singleton_self target)) _
  | set target change => exact g.node_update_of_ne (hne (List.mem_singleton_self target)) _
  | annotate target =>
    have htarget : target ∈ (Edit.annotate target).targets := List.mem_singleton_self target
    rw [edit, node_annotate hg (hlt target htarget) rfl fun _ _ => rfl,
      hg.pathCount_eq_zero_iff.2 (hfar target htarget), Node.marked_zero]

theorem mem_kids_update {f : Node → Node} (ks : List NodeId)
    (hf : ∀ m, ∀ k ∈ childIds (f m).children, k ∈ childIds m.children ∨ k ∈ ks)
    (hk : k ∈ (g.update i f).kids n) : k ∈ g.kids n ∨ k ∈ ks := by
  rw [kids, children, node_update] at hk
  split at hk
  · exact hf _ k hk
  · exact Or.inl hk

theorem mem_kids_edit (hg : g.WellFormed) (hlt : ∀ m ∈ e.targets, m < g.size)
    (hk : k ∈ (g.edit e).kids n) : k ∈ g.kids n ∨ k ∈ e.inserted g := by
  cases e with
  | create tag item =>
    have hempty {m : NodeId} (hm : k ∈ (g.alloc ⟨tag, []⟩).1.kids m) : k ∈ g.kids m := by
      rcases mem_kids_alloc hm with ⟨-, hm⟩ | ⟨-, hm⟩
      · exact hm
      · cases hm
    cases item with
    | none => exact Or.inl (hempty (by rwa [edit, create_eq] at hk))
    | some item =>
      rw [edit, create_eq] at hk
      have hadd := mem_kids_update (childIds (acceptAll g.size item.parts).1)
        (fun m k hk => by rwa [childIds_append, List.mem_append] at hk) hk
      exact hadd.imp_left hempty
  | add target item =>
    exact mem_kids_update (childIds (acceptAll target item.parts).1)
      (fun m k hk => by rwa [childIds_append, List.mem_append] at hk) hk
  | prepend target item =>
    rw [edit, prepend] at hk
    rw [Edit.inserted]
    cases hblock : acceptAll target item.parts with
    | mk block refusal =>
      cases refusal with
      | some r => exact Or.inl (by rwa [hblock] at hk)
      | none =>
        rw [hblock] at hk
        refine mem_kids_update (childIds block) (fun m k hk => ?_) hk
        rwa [childIds_append, List.mem_append, or_comm] at hk
  | set target change =>
    refine mem_kids_update [] (f := fun m => ⟨change m.tag, m.children⟩) (fun m k hk => ?_) hk
    exact Or.inl hk
  | annotate target =>
    rw [edit, kids_annotate hg (hlt target (List.mem_singleton_self target))] at hk
    exact Or.inl hk

theorem lt_size_of_mem_made (hn : n ∈ e.made g) : g.size ≤ n ∧ n < (g.edit e).size := by
  rw [size_edit]
  cases e with
  | create tag item =>
    obtain rfl := List.mem_singleton.1 hn
    exact ⟨le_rfl, Nat.lt_succ_self _⟩
  | add target item => cases hn
  | prepend target item => cases hn
  | set target change => cases hn
  | annotate target => cases hn

/-- The nodes `own` lead to none but themselves, and the nodes `others` are not among them. -/
structure Fenced (g : Graph) (own others : Set NodeId) : Prop where
  closed : ∀ {n k}, n ∈ own → k ∈ g.kids n → k ∈ own
  apart : ∀ {n}, n ∈ own → n ∉ others
  own_lt : ∀ {n}, n ∈ own → n < g.size
  others_lt : ∀ {n}, n ∈ others → n < g.size

theorem Fenced.edit (hg : g.WellFormed) (hf : g.Fenced own others)
    (hown : ∀ n, n ∈ e.targets ∨ n ∈ e.inserted g → n ∈ own) (hacyclic : (g.edit e).Acyclic) :
    (g.edit e).WellFormed ∧ (g.edit e).Fenced (own ∪ {n | n ∈ e.made g}) others ∧
      ∀ n ∈ others, (g.edit e).node n = g.node n := by
  have hlt : ∀ m ∈ e.targets, m < g.size := fun m hm => hf.own_lt (hown m (Or.inl hm))
  have hsize : g.size ≤ (g.edit e).size := by
    rw [size_edit]
    omega
  refine ⟨⟨fun {n k} hk => ?_, hacyclic⟩, ⟨?_, ?_, ?_, ?_⟩, fun n hn => ?_⟩
  · rcases mem_kids_edit hg hlt hk with hk | hk
    · exact (hg.closed hk).trans_le hsize
    · exact (hf.own_lt (hown k (Or.inr hk))).trans_le hsize
  · rintro n k (hn | hn) hk
    · rcases mem_kids_edit hg hlt hk with hk | hk
      · exact Or.inl (hf.closed hn hk)
      · exact Or.inl (hown k (Or.inr hk))
    · -- A new node has no children but those that were put in.
      rcases mem_kids_edit hg hlt hk with hk | hk
      · rw [kids_of_size_le (lt_size_of_mem_made hn).1] at hk
        cases hk
      · exact Or.inl (hown k (Or.inr hk))
  · rintro n (hn | hn) hother
    · exact hf.apart hn hother
    · exact Nat.not_lt_of_le (lt_size_of_mem_made hn).1 (hf.others_lt hother)
  · rintro n (hn | hn)
    · exact (hf.own_lt hn).trans_le hsize
    · exact (lt_size_of_mem_made hn).2
  · exact fun hn => (hf.others_lt hn).trans_le hsize
  · refine node_edit hg hlt (hf.others_lt hn) fun m hm hmn => ?_
    have hmem : n ∈ own :=
      hmn.mem_of_closed (P := fun n => n ∈ own) hf.closed (hown m (Or.inl hm))
    exact hf.apart hmem hn

/-- Steps on one side leave the nodes beyond the fence as they are. -/
theorem Fenced.run {made : List NodeId} {steps : List Edit} (hg : g.WellFormed)
    (hf : g.Fenced own others) (hside : side ∈ own) (hmade : ∀ n ∈ made, n ∈ own)
    (hsteps : StaysOn side g made steps) :
    g.size ≤ (g.run steps).size ∧ ∀ n ∈ others, (g.run steps).node n = g.node n := by
  induction steps generalizing g own made with
  | nil => exact ⟨le_rfl, fun _ _ => rfl⟩
  | cons e rest ih =>
    obtain ⟨htouched, hacyclic, hrest⟩ := hsteps
    have hown : ∀ n, n ∈ e.targets ∨ n ∈ e.inserted g → n ∈ own := fun n hn =>
      (htouched n hn).elim
        (fun hreach => hreach.mem_of_closed (P := fun n => n ∈ own) hf.closed hside) (hmade n)
    obtain ⟨hg', hf', hsame⟩ := hf.edit hg hown hacyclic
    obtain ⟨hsize, hlater⟩ := ih hg' hf' (Or.inl hside)
      (fun n hn => (List.mem_append.1 hn).elim Or.inr fun hn => Or.inl (hmade n hn)) hrest
    refine ⟨?_, fun n hn => (hlater n hn).trans (hsame n hn)⟩
    have hstep := size_edit g e
    rw [Graph.run, List.foldl_cons]
    exact le_trans (by omega) hsize

theorem apart_of_disjoint (hg : g.WellFormed) (ha : a < g.size) (hb : b < g.size)
    (hdisjoint : ∀ n, g.Reaches a n → ¬ g.Reaches b n) : g.Apart a b := by
  intro steps hsteps
  have hf : g.Fenced {n | g.Reaches a n} {n | g.Reaches b n} :=
    ⟨fun hn hk => hn.trans (Reaches.of_mem_kids hk), fun hn => hdisjoint _ hn,
      fun hn => hg.lt_of_reaches ha hn, fun hn => hg.lt_of_reaches hb hn⟩
  obtain ⟨hsize, hsame⟩ := hf.run hg (Reaches.refl g a) (fun n hn => by cases hn) hsteps
  have hunfold : (g.run steps).unfold b = g.unfold b := hg.unfold_congr hb hsize hsame
  refine ⟨hunfold, ?_, ?_, fun depth => ?_⟩
  · rw [render, render, walk, walk, hunfold]
  · rw [drawOutline, drawOutline, walk, walk, hunfold]
  · rw [outline, outline, walk, walk, hunfold]

/-- What `Apart` takes from a new tree: it and the node it was made from share nothing. -/
theorem Sprouted.apart {t : Tree} (hg : g.WellFormed) (hs : Sprouted g h d t) (hc : c < g.size) :
    h.Apart c d ∧ h.Apart d c := by
  have hold : ∀ n, h.Reaches c n → n < g.size := fun n hn =>
    hg.lt_of_reaches hc ((hs.kept.reaches_iff hg hc).1 hn)
  have hc' : c < h.size := hc.trans_le hs.kept.size_le
  constructor
  · refine apart_of_disjoint hs.wellFormed hc' hs.root_lt fun n hn hn' => ?_
    exact Nat.not_le_of_lt (hold n hn) (hs.fresh n hn')
  · refine apart_of_disjoint hs.wellFormed hs.root_lt hc' fun n hn hn' => ?_
    exact Nat.not_le_of_lt (hold n hn') (hs.fresh n hn)

/-- A copy leaves every node as it was, is a new tree in which nothing is shared, and unfolds to
the same tree, tags included; from then on, steps on either side never show on the other. The
same holds of the module that the pass makes, but for what it unfolds to. -/
theorem copy_and_wrap_separate (hg : g.WellFormed) (hc : c < g.size) (ht : g.Textual c) :
    (∃ h d t, g.copy c = .ok (h, d) ∧ (∀ n < g.size, h.node n = g.node n) ∧
      (∀ n, h.Reaches d n → g.size ≤ n ∧ (h.paths d n).ncard = 1) ∧
      g.unfold c = .ok t ∧ h.unfold d = .ok t ∧ h.Apart c d ∧ h.Apart d c) ∧
    ∀ s strict out, g.wrap s strict (some c) = .ok out →
      (∀ n < g.size, out.graph.node n = g.node n) ∧
      (∀ n, out.graph.Reaches out.root n →
        g.size ≤ n ∧ (out.graph.paths out.root n).ncard = 1) ∧
      out.graph.Apart c out.root ∧ out.graph.Apart out.root c := by
  obtain ⟨t, hunfold⟩ := hg.exists_unfold hc ht
  constructor
  · have hcopy : g.copy c = .ok (plant t g) := copy_of_unfold hg hc hunfold
    have hs : Sprouted g (plant t g).1 (plant t g).2 t := sprouted_plant hg t
    obtain ⟨hcd, hdc⟩ := hs.apart hg hc
    exact ⟨_, _, t, hcopy, hs.kept.node_eq, fun n hn => ⟨hs.fresh n hn, hs.strict n hn⟩, hunfold,
      hs.unfold, hcd, hdc⟩
  · intro s strict out hout
    cases hname : s.checkedName strict with
    | error fault =>
      rw [wrap_eq_error g c hname] at hout
      cases hout
    | ok name =>
      obtain ⟨out', hout', hw⟩ := wrap_eq_ok hg hc hname hunfold
      obtain rfl := Except.ok.inj (hout'.symm.trans hout)
      have hs := hw.sprouted
      exact ⟨hs.kept.node_eq, fun n hn => ⟨hs.fresh n hn, hs.strict n hn⟩, hs.apart hg hc⟩

theorem staysOn_annotate (hg : g.WellFormed) (hc : c < g.size) :
    StaysOn c g [] [.annotate c] := by
  refine ⟨fun n hn => Or.inl ?_, (hg.annotate hc).acyclic, trivial⟩
  rcases hn with hn | hn
  · obtain rfl := List.mem_singleton.1 hn
    exact Reaches.refl g n
  · cases hn

theorem separate_sharedCode :
    (∃ h d, sharedCode.copy 0 = .ok (h, d) ∧
      (h.run [.annotate 0]).render d = .ok "f(\n);\nf(\n") ∧
    ∃ out, sharedCode.wrap {} true (some 0) = .ok out ∧
      (out.graph.run [.annotate 0]).render out.root = out.graph.render out.root := by
  have hc : 0 < sharedCode.size := by decide
  have hname : Settings.checkedName {} true = .ok defaultErrorName := by decide +kernel
  obtain ⟨⟨h, d, t, hcopy, -, -, ht, hunfold, hcd, -⟩, hwrap⟩ :=
    copy_and_wrap_separate sharedCode_wellFormed hc sharedCode_textual
  constructor
  · have hplant : sharedCode.copy 0 = .ok (plant t sharedCode) :=
      copy_of_unfold sharedCode_wellFormed hc ht
    have hs := sprouted_plant sharedCode_wellFormed t
    rw [← Except.ok.inj (hcopy.symm.trans hplant)] at hs
    have hrender : h.render d = sharedCode.render 0 := by
      rw [render, render, walk, walk, hunfold, ht]
    refine ⟨h, d, hcopy, ?_⟩
    rw [(hcd _ (staysOn_annotate hs.wellFormed (hc.trans_le hs.kept.size_le))).2.1, hrender]
    rfl
  · obtain ⟨out, hout, hw⟩ := wrap_eq_ok sharedCode_wellFormed hc hname ht
    have hout' := (hwrap {} true out hout).2.2.1
    have hlt : 0 < out.graph.size := hc.trans_le hw.sprouted.kept.size_le
    exact ⟨out, hout, (hout' _ (staysOn_annotate hw.sprouted.wellFormed hlt)).2.1⟩

end Graph

end TypedModule
