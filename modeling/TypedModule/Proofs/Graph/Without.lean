import TypedModule.Proofs.Graph.Unfold

/-!
# Foreign children left out

Foreign children of some sort can be left out of a graph. Nodes keep their numbers and their child
nodes, so there are the same ways down, and depths are the same. Annotation does not see the
difference, since it drops all foreign children, and a tree in which there are none stays as it is.
-/

namespace TypedModule

variable {p : Foreign → Bool} {v : Foreign} {cs : List Child}

/-- Whether the child is foreign, and of the sort. -/
def Child.isForeign (p : Foreign → Bool) : Child → Bool
  | .foreign v => p v
  | _ => false

def leaveOut (p : Foreign → Bool) (cs : List Child) : List Child :=
  cs.filter fun c => !c.isForeign p

def Node.without (p : Foreign → Bool) (n : Node) : Node := ⟨n.tag, leaveOut p n.children⟩

def Graph.without (p : Foreign → Bool) (g : Graph) : Graph := ⟨g.nodes.map (Node.without p)⟩

theorem leaveOut_text (s : String) (cs : List Child) :
    leaveOut p (.text s :: cs) = .text s :: leaveOut p cs := rfl

theorem leaveOut_node (i : NodeId) (cs : List Child) :
    leaveOut p (.node i :: cs) = .node i :: leaveOut p cs := rfl

theorem leaveOut_foreign (v : Foreign) (cs : List Child) :
    leaveOut p (.foreign v :: cs) = if p v then leaveOut p cs else .foreign v :: leaveOut p cs := by
  rw [leaveOut, List.filter_cons, Child.isForeign]
  cases p v <;> rfl

theorem foreign_mem_leaveOut : .foreign v ∈ leaveOut p cs ↔ .foreign v ∈ cs ∧ p v = false := by
  rw [leaveOut, List.mem_filter, Child.isForeign, Bool.not_eq_true']

theorem leaveOut_of_forall_notMem (h : ∀ v, .foreign v ∉ cs) : leaveOut p cs = cs := by
  apply List.filter_eq_self.2
  intro c hc
  cases c with
  | text s => rfl
  | node i => rfl
  | foreign v => exact absurd hc (h v)

theorem childIds_leaveOut (cs : List Child) : childIds (leaveOut p cs) = childIds cs := by
  induction cs with
  | nil => rfl
  | cons c rest ih =>
    cases c with
    | text s => exact ih
    | node i => exact congrArg (i :: ·) ih
    | foreign v =>
      rw [leaveOut_foreign]
      split <;> exact ih

theorem depthOf_leaveOut (depth : NodeId → Nat) (cs : List Child) :
    depthOf depth (leaveOut p cs) = depthOf depth cs := by
  induction cs with
  | nil => rfl
  | cons c rest ih =>
    cases c with
    | text s => exact ih
    | node i => exact congrArg (max (depth i + 1) ·) ih
    | foreign v =>
      rw [leaveOut_foreign]
      split <;> exact ih

theorem withMarkers_leaveOut (times : Nat) (cs : List Child) :
    withMarkers times (leaveOut p cs) = withMarkers times cs := by
  induction cs with
  | nil => rfl
  | cons c rest ih =>
    cases c with
    | text s => exact congrArg (fun cs => _ ++ .text s :: cs) ih
    | node i => exact congrArg (.node i :: ·) ih
    | foreign v =>
      rw [leaveOut_foreign]
      split <;> exact ih

theorem Node.marked_without {times : Nat} (htimes : times ≠ 0) (n : Node) :
    (n.without p).marked times = n.marked times := by
  rw [marked, marked, if_neg htimes, if_neg htimes, without, withMarkers_leaveOut]

namespace Graph

variable {g : Graph} {i n : NodeId} {t : Tree}

@[simp] theorem size_without (p : Foreign → Bool) (g : Graph) : (g.without p).size = g.size :=
  Array.size_map

@[simp] theorem node_without (p : Foreign → Bool) (g : Graph) (n : NodeId) :
    (g.without p).node n = (g.node n).without p := by
  rw [node, node, Array.getD_eq_getD_getElem?, Array.getD_eq_getD_getElem?, without,
    Array.getElem?_map]
  cases g.nodes[n]? <;> rfl

theorem children_without (p : Foreign → Bool) (g : Graph) (n : NodeId) :
    (g.without p).children n = leaveOut p (g.children n) := by
  rw [children, node_without]
  rfl

@[simp] theorem kids_without (p : Foreign → Bool) (g : Graph) (n : NodeId) :
    (g.without p).kids n = g.kids n := by
  rw [kids, children_without, childIds_leaveOut]
  rfl

theorem without_none (g : Graph) : g.without (fun _ => false) = g := by
  have hnode : Node.without (fun _ => false) = id := by
    funext n
    have hnone : ∀ c : Child, (!c.isForeign fun _ => false) = true := by
      rintro (_ | _ | _) <;> rfl
    exact congrArg (Node.mk n.tag) (List.filter_eq_self.2 fun c _ => hnone c)
  rw [without, hnode, Array.map_id]

theorem reaches_without : (g.without p).Reaches i n ↔ g.Reaches i n :=
  reaches_congr (fun m _ => kids_without p g m) n

theorem pathCount_without : (g.without p).pathCount i n = g.pathCount i n :=
  pathCount_congr (fun m _ => kids_without p g m) n

theorem WellFormed.without (hg : g.WellFormed) (p : Foreign → Bool) : (g.without p).WellFormed :=
  hg.congr (size_without p g).ge (kids_without p g)

theorem WellFormed.of_without (hg : (g.without p).WellFormed) : g.WellFormed :=
  hg.congr (size_without p g).le fun n => (kids_without p g n).symm

theorem textual_without_iff :
    (g.without p).Textual i ↔ ∀ n, g.Reaches i n → ∀ v, .foreign v ∈ g.children n → p v = true := by
  simp only [Textual, reaches_without, children_without, foreign_mem_leaveOut, not_and,
    Bool.not_eq_false]

theorem not_textual_without_iff :
    ¬ (g.without p).Textual i ↔
      ∃ n v, g.Reaches i n ∧ .foreign v ∈ g.children n ∧ p v = false := by
  simp [textual_without_iff]

theorem depthWithin_without (fuel : Nat) (i : NodeId) :
    (g.without p).depthWithin fuel i = g.depthWithin fuel i := by
  induction fuel generalizing i with
  | zero => rfl
  | succ fuel ih =>
    rw [depthWithin, depthWithin, children_without, funext ih, depthOf_leaveOut]

theorem depth_without (p : Foreign → Bool) (g : Graph) (i : NodeId) :
    (g.without p).depth i = g.depth i := by
  rw [depth, depth, size_without, depthWithin_without]

/-- Nothing is left out where there is nothing foreign. -/
theorem node_without_of_textual (ht : g.Textual i) (hn : g.Reaches i n) :
    (g.without p).node n = g.node n := by
  rw [node_without, Node.without]
  exact congrArg _ (leaveOut_of_forall_notMem (ht n hn))

theorem WellFormed.unfold_without_of_textual (hg : g.WellFormed) (hi : i < g.size)
    (ht : g.Textual i) : (g.without p).unfold i = g.unfold i :=
  hg.unfold_congr hi (size_without p g).ge fun _ hn => node_without_of_textual ht hn

section

variable (hg : g.WellFormed) (hi : i < g.size)

include hg hi

theorem node_annotate_without (hn : g.Reaches i n) :
    ((g.without p).annotate i).node n = (g.annotate i).node n := by
  have hpos := hg.pathCount_pos_iff.2 hn
  rw [node_annotate (hg.without p) (by rwa [size_without]) rfl fun _ _ => rfl, pathCount_without,
    node_without, Node.marked_without (by omega), node_annotate hg hi rfl fun _ _ => rfl]

theorem unfold_annotate_without :
    ((g.without p).annotate i).unfold i = (g.annotate i).unfold i := by
  apply (hg.annotate hi).unfold_congr (by rwa [size_annotate])
  · rw [size_annotate, size_annotate, size_without]
  · intro n hn
    exact node_annotate_without hg hi ((reaches_congr (fun m _ => kids_annotate hg hi m) n).1 hn)

end

end Graph

end TypedModule
