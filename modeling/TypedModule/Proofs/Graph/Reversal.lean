import TypedModule.Proofs.Graph.Unfold

/-!
# Taking markers out again

Annotation can be undone without knowing the code: the text directly before each text that needs a
marker is taken out. Code may hold markers of its own, in runs and at the end of a node, so taking
out all markers would lose some. The markers that annotation put in are told from the others by
their place, and no two trees become equal by being annotated.
-/

namespace TypedModule

def Child.needsMarker : Child → Bool
  | .text s => TypedModule.needsMarker s
  | _ => false

@[simp] theorem Child.needsMarker_text (s : String) :
    (Child.text s).needsMarker = TypedModule.needsMarker s := rfl

/-- Whether the first child is a text that needs a marker. -/
def beginsLine (cs : List Child) : Bool := cs.head?.any Child.needsMarker

/-- The children without the text directly before each text that needs a marker. -/
def unmarkedChildren : List Child → List Child
  | [] => []
  | .text s :: rest =>
    if beginsLine rest then unmarkedChildren rest else .text s :: unmarkedChildren rest
  | c :: rest => c :: unmarkedChildren rest

/-- The texts that are taken out. -/
def removedTexts : List Child → List String
  | [] => []
  | .text s :: rest => if beginsLine rest then s :: removedTexts rest else removedTexts rest
  | _ :: rest => removedTexts rest

def Node.unmark (n : Node) : Node := ⟨n.tag, unmarkedChildren n.children⟩

theorem withMarkers_one_text (s : String) (cs : List Child) :
    withMarkers 1 (.text s :: cs) =
      if needsMarker s then .text marker :: .text s :: withMarkers 1 cs
      else .text s :: withMarkers 1 cs := by
  by_cases hs : needsMarker s <;> simp [withMarkers, hs]

/-- What stands first after annotation is a marker or needs none. -/
theorem beginsLine_withMarkers (cs : List Child) : beginsLine (withMarkers 1 cs) = false := by
  induction cs with
  | nil => rfl
  | cons c rest ih =>
    cases c with
    | text s =>
      by_cases hs : needsMarker s
      · rw [withMarkers_one_text, if_pos hs]
        exact needsMarker_marker
      · rw [withMarkers_one_text, if_neg hs]
        exact eq_false_of_ne_true hs
    | node i => rfl
    | foreign v => exact ih

theorem unmarkedChildren_withMarkers {cs : List Child} (hcs : ∀ v, .foreign v ∉ cs) :
    unmarkedChildren (withMarkers 1 cs) = cs := by
  induction cs with
  | nil => rfl
  | cons c rest ih =>
    have hrest := ih fun v hv => hcs v (List.mem_cons_of_mem _ hv)
    cases c with
    | text s =>
      have hkeep : unmarkedChildren (.text s :: withMarkers 1 rest) = .text s :: rest := by
        rw [unmarkedChildren, beginsLine_withMarkers, hrest]
        rfl
      by_cases hs : needsMarker s
      · have hline : beginsLine (.text s :: withMarkers 1 rest) = true := hs
        rw [withMarkers_one_text, if_pos hs, unmarkedChildren, if_pos hline, hkeep]
      · rw [withMarkers_one_text, if_neg hs, hkeep]
    | node i => exact congrArg (.node i :: ·) hrest
    | foreign v => exact absurd List.mem_cons_self (hcs v)

/-- Each text that needs a marker costs one text, and that is a marker. -/
theorem removedTexts_withMarkers (cs : List Child) :
    removedTexts (withMarkers 1 cs) = List.replicate (cs.countP Child.needsMarker) marker := by
  induction cs with
  | nil => rfl
  | cons c rest ih =>
    cases c with
    | text s =>
      have hkeep : removedTexts (.text s :: withMarkers 1 rest) =
          List.replicate (rest.countP Child.needsMarker) marker := by
        rw [removedTexts, beginsLine_withMarkers, ih]
        rfl
      rw [List.countP_cons, Child.needsMarker_text]
      by_cases hs : needsMarker s
      · have hline : beginsLine (.text s :: withMarkers 1 rest) = true := hs
        rw [withMarkers_one_text, if_pos hs, if_pos hs, removedTexts, if_pos hline, hkeep,
          List.replicate_succ]
      · rw [withMarkers_one_text, if_neg hs, if_neg hs, hkeep, Nat.add_zero]
    | node i => exact ih
    | foreign v => exact ih

namespace Forest

/-- Whether the first child is a text that needs a marker. -/
def beginsLine : Forest → Bool
  | text s _ => needsMarker s
  | _ => false

/-- The forest without the text directly before each text that needs a marker. -/
def unmark : Forest → Forest
  | nil => nil
  | text s rest => if rest.beginsLine then rest.unmark else text s rest.unmark
  | node tag inner rest => node tag inner.unmark rest.unmark

theorem beginsLine_annotate (f : Forest) : f.annotate.beginsLine = false := by
  cases f with
  | nil => rfl
  | text s rest =>
    by_cases hs : needsMarker s
    · rw [annotate, if_pos hs]
      exact needsMarker_marker
    · rw [annotate, if_neg hs]
      exact eq_false_of_ne_true hs
  | node tag inner rest => rfl

theorem unmark_annotate (f : Forest) : f.annotate.unmark = f := by
  induction f with
  | nil => rfl
  | text s rest ih =>
    have hkeep : (text s rest.annotate).unmark = text s rest := by
      rw [unmark, beginsLine_annotate, ih]
      rfl
    by_cases hs : needsMarker s
    · have hline : (text s rest.annotate).beginsLine = true := hs
      rw [annotate, if_pos hs, unmark, if_pos hline, hkeep]
    · rw [annotate, if_neg hs, hkeep]
  | node tag inner rest ihInner ihRest => rw [annotate, unmark, ihInner, ihRest]

end Forest

namespace Tree

def unmark (t : Tree) : Tree := ⟨t.tag, t.children.unmark⟩

theorem unmark_annotate (t : Tree) : t.annotate.unmark = t := by
  rw [annotate, unmark, Forest.unmark_annotate]

theorem annotate_injective : Function.Injective annotate :=
  Function.LeftInverse.injective unmark_annotate

end Tree

namespace Graph

variable {g : Graph} {i : NodeId}

/-- Annotation of a tree in place is undone, at every node, by taking out the text directly before
each text that needs a marker: the node gets back its children and keeps its tag, and what is
taken out are markers, one for each such text. So the whole tree comes back, and trees that
annotation makes equal were equal. -/
theorem annotate_reversible (hg : g.WellFormed) (hi : i < g.size) (hstrict : g.Strict i)
    (ht : g.Textual i) :
    (∀ n, g.Reaches i n →
      ((g.annotate i).node n).unmark = g.node n ∧
        removedTexts ((g.annotate i).children n) =
          List.replicate ((g.children n).countP Child.needsMarker) marker) ∧
      ∃ t t', g.unfold i = .ok t ∧ (g.annotate i).unfold i = .ok t' ∧ t'.unmark = t ∧
        ∀ (h : Graph) (j : NodeId), h.WellFormed → j < h.size → h.Strict j → h.Textual j →
          (h.annotate j).unfold j = .ok t' → h.unfold j = .ok t := by
  constructor
  · intro n hn
    have hnode : (g.annotate i).node n = ⟨(g.node n).tag, withMarkers 1 (g.children n)⟩ := by
      rw [node_annotate hg hi rfl fun _ _ => rfl, hstrict n hn]
      rfl
    rw [Node.unmark, children, hnode, unmarkedChildren_withMarkers (ht n hn)]
    exact ⟨rfl, removedTexts_withMarkers _⟩
  · obtain ⟨t, hunfold⟩ := hg.exists_unfold hi ht
    refine ⟨t, t.annotate, hunfold, hg.unfold_annotate hi hstrict hunfold, t.unmark_annotate, ?_⟩
    intro h j hh hj hstrict' ht' hsame
    obtain ⟨u, hu⟩ := hh.exists_unfold hj ht'
    have hannotated := Except.ok.inj ((hh.unfold_annotate hj hstrict' hu).symm.trans hsame)
    rw [hu, Tree.annotate_injective hannotated]

/-- Two of the markers are the code's own: one before a line, one at the end. -/
def ownMarkers : Graph := ⟨#[
  ⟨{}, [.text marker, .text "f(\ng();", .node 1, .text marker]⟩,
  ⟨{ line := some 2 }, [.text ");\n", .text "x\n", .text "y\n"]⟩]⟩

theorem ownMarkers_wellFormed : ownMarkers.WellFormed :=
  WellFormed.of_later (by decide)

theorem ownMarkers_reaches {n : NodeId} (hn : ownMarkers.Reaches 0 n) : n = 0 ∨ n = 1 := by
  have hlt : n < 2 := ownMarkers_wellFormed.lt_of_reaches (show 0 < ownMarkers.size by decide) hn
  match n, hlt with
  | 0, _ => exact Or.inl rfl
  | 1, _ => exact Or.inr rfl

theorem ownMarkers_strict : ownMarkers.Strict 0 := by
  have hg := ownMarkers_wellFormed
  intro n hn
  rcases ownMarkers_reaches hn with rfl | rfl
  · exact hg.pathCount_self 0
  · have hkids : ownMarkers.kids 0 = [1] := by decide
    rw [hg.pathCount_of_ne (by decide), hkids, List.map_singleton, List.sum_singleton,
      hg.pathCount_self]

theorem ownMarkers_textual : ownMarkers.Textual 0 := by
  intro n hn v
  rcases ownMarkers_reaches hn with rfl | rfl <;> simp [ownMarkers, children, node]

theorem annotate_ownMarkers :
    (ownMarkers.annotate 0).children 0 =
        [.text marker, .text marker, .text "f(\ng();", .node 1, .text marker] ∧
      ((ownMarkers.annotate 0).node 0).unmark = ownMarkers.node 0 ∧
      removedTexts ((ownMarkers.annotate 0).children 1) = [marker, marker] := by
  have hall := (annotate_reversible ownMarkers_wellFormed (show 0 < ownMarkers.size by decide)
    ownMarkers_strict ownMarkers_textual).1
  have hkid : ownMarkers.Reaches 0 1 := Reaches.of_mem_kids (by decide)
  refine ⟨by decide +kernel, (hall 0 (Reaches.refl _ 0)).1, (hall 1 hkid).2.trans ?_⟩
  decide +kernel

end Graph

end TypedModule
