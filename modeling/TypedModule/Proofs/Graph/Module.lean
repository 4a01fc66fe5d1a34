import TypedModule.Proofs.Graph.Sprouting

/-!
# The typed module of a node

The pass copies the code, annotates the copy, hangs it into a holder under a new root and puts
the declarations behind. The module is a new tree that unfolds to what the pass makes of the tree
of the code, so it holds the fragments of the code in order, with the markers between them and
the added texts around them.
-/

namespace TypedModule

/-- The header in force as it stands in the module. -/
def Settings.headerTexts (s : Settings) : List String :=
  match s.header with
  | none => []
  | some text => if text = "" then [] else [text ++ "\n\n"]

theorem frontMatter_effectiveHeader (s : Settings) :
    frontMatter s.effectiveHeader = disableDirective :: s.headerTexts := by
  rcases s with ⟨_ | text, name, trace⟩
  · rfl
  · by_cases h : text = ""
    · subst h
      rfl
    · simp [Settings.headerTexts, Settings.effectiveHeader, Settings.nonempty, frontMatter, h]

theorem fragments_assemble (s : Settings) (name : String) (t : Tree) :
    (s.assemble name t).fragments =
      disableDirective :: s.headerTexts ++ holderLead :: t.fragments.flatMap marked ++
        (s.declarations name).chunks := by
  rw [Settings.assemble, Tree.fragments_addTexts, Tree.fragments_enclose,
    frontMatter_effectiveHeader, Tree.annotate, Tree.fragments, Forest.fragments_annotate]
  rfl

theorem depth_assemble (s : Settings) (name : String) (t : Tree) :
    (s.assemble name t).depth = t.depth + 2 := by
  simp [Settings.assemble, Tree.addTexts, Tree.enclose, Tree.holder, Tree.depth, Tree.annotate,
    Forest.ofTree, Forest.depth, Forest.depth_annotate]

namespace Graph

variable {g : Graph} {i : NodeId} {s : Settings} {strict : Bool} {name : String} {t : Tree}

/-- What a successful run leaves behind, for code that unfolds to `t`. -/
structure Wrapped (g : Graph) (s : Settings) (name : String) (t : Tree) (out : Outcome) :
    Prop where
  sprouted : Sprouted g out.graph out.root (s.assemble name t)
  declarations : out.declarations = s.declarations name
  code : out.graph.unfold out.code = .ok t.annotate
  children : ∃ holder,
    out.graph.children out.root = (frontMatter s.effectiveHeader).map .text ++ [.node holder] ++
      (s.declarations name).chunks.map .text ∧
    out.graph.children holder = [.text holderLead, .node out.code]

/-- It is enough that what the code unfolds to is known without the foreign children that have a
copy: the copies of these are dropped. -/
theorem wrap_eq_ok_of_without (hg : g.WellFormed) (hi : i < g.size)
    (hname : s.checkedName strict = .ok name)
    (ht : (g.without Foreign.copies).unfold i = .ok t) :
    ∃ out, g.wrap s strict (some i) = .ok out ∧ Wrapped g s name t out := by
  obtain ⟨h, d, hcopy, hkept, hplant⟩ := copy_eq_ok hg hi ht
  let annotated := h.annotate d
  let root := annotated.size
  let enclosed := (annotated.enclose s.effectiveHeader d).1
  let texts := (s.declarations name).chunks
  let out : Outcome := {
    graph := (enclosed.add root (.list (texts.map .text))).1
    root := root
    code := d
    declarations := s.declarations name }
  have hout : g.wrap s strict (some i) = .ok out := by
    simp only [wrap, hname, hcopy]
    rfl
  have hsprouted := sprouted_plant (hg.without Foreign.copies) t
  rw [← hplant] at hsprouted
  have hcode : Sprouted g annotated d t.annotate :=
    Sprouted.annotate_of_without hkept hsprouted
  have henclosed : Enclosed annotated out.graph d (frontMatter s.effectiveHeader) texts :=
    (enclosed_enclose annotated s.effectiveHeader hcode.root_lt).add_texts texts
  refine ⟨out, hout, ?_, rfl, ?_, annotated.size + 1, ?_, ?_⟩
  · exact hcode.enclose henclosed
  · exact (henclosed.toExtends.unfold_eq hcode.wellFormed hcode.root_lt).trans hcode.unfold
  · exact congrArg Node.children henclosed.root
  · exact congrArg Node.children henclosed.holder

theorem wrap_eq_ok (hg : g.WellFormed) (hi : i < g.size) (hname : s.checkedName strict = .ok name)
    (ht : g.unfold i = .ok t) :
    ∃ out, g.wrap s strict (some i) = .ok out ∧ Wrapped g s name t out := by
  apply wrap_eq_ok_of_without hg hi hname
  rw [hg.unfold_without_of_textual hi (hg.textual_of_unfold hi ht), ht]

theorem wrap_eq_error (g : Graph) (i : NodeId) {fault : NameFault}
    (hname : s.checkedName strict = .error fault) :
    g.wrap s strict (some i) = .error (.name fault) := by
  rw [wrap, hname]

theorem wrap_eq_error_of_copy (hname : s.checkedName strict = .ok name) {o : Obstacle}
    (hcopy : g.copy i = .error o) : g.wrap s strict (some i) = .error (.walk o) := by
  rw [wrap, hname]
  simp only [hcopy]

theorem fragments_of_unfold (ht : g.unfold i = .ok t) : g.fragments i = .ok t.fragments := by
  rw [fragments, walk, ht]
  rfl

/-- One node is a child twice. -/
def sharedCode : Graph := ⟨#[
  ⟨{}, [.node 1, .text ");\n", .node 1]⟩,
  ⟨{ line := some 1 }, [.text "f(\n"]⟩]⟩

theorem sharedCode_wellFormed : sharedCode.WellFormed :=
  WellFormed.of_later (by decide)

theorem sharedCode_textual : sharedCode.Textual 0 := by
  intro n hn v
  have hlt : n < 2 := sharedCode_wellFormed.lt_of_reaches (show 0 < sharedCode.size by decide) hn
  match n, hlt with
  | 0, _ => simp [sharedCode, children, node]
  | 1, _ => simp [sharedCode, children, node]

end Graph

end TypedModule
