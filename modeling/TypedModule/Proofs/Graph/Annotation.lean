import Mathlib.Algebra.BigOperators.Group.List.Basic
import Mathlib.Logic.Function.Iterate
import TypedModule.Graph.Annotate
import TypedModule.Proofs.Graph.Path

/-!
# Annotation of shared nodes

Annotating a node visits every node below it once for each path, and between two visits of one
node others are taken apart and put together. The outcome is still as if every node had been
annotated at one go: as many markers as there are paths stand before each of its fragments that
needs one. Markers need no markers, so visits add up, and no visit changes what are child nodes,
so the paths stay the same.
-/

namespace TypedModule

/-- Children with so many markers before each fragment that needs one, and none that is
foreign. -/
def withMarkers (times : Nat) : List Child → List Child
  | [] => []
  | .text s :: rest =>
    (if needsMarker s then List.replicate times (.text marker) else []) ++
      .text s :: withMarkers times rest
  | .node i :: rest => .node i :: withMarkers times rest
  | .foreign _ :: rest => withMarkers times rest

theorem withMarkers_markers (times n : Nat) (cs : List Child) :
    withMarkers times (List.replicate n (.text marker) ++ cs) =
      List.replicate n (.text marker) ++ withMarkers times cs := by
  induction n with
  | zero => rfl
  | succ n ih =>
    simp [List.replicate_succ, withMarkers, needsMarker_marker, ih]

theorem withMarkers_withMarkers (a b : Nat) (cs : List Child) :
    withMarkers a (withMarkers b cs) = withMarkers (a + b) cs := by
  induction cs with
  | nil => rfl
  | cons c rest ih =>
    cases c with
    | text s =>
      by_cases hs : needsMarker s
      · simp only [withMarkers, hs, if_true, withMarkers_markers, ih]
        rw [← List.append_assoc, ← List.replicate_add, Nat.add_comm b a]
      · simp [withMarkers, hs, ih]
    | node i => rw [withMarkers, withMarkers, withMarkers, ih]
    | foreign v => rw [withMarkers, withMarkers, ih]

@[simp] theorem childIds_withMarkers (times : Nat) (cs : List Child) :
    childIds (withMarkers times cs) = childIds cs := by
  have hmarkers (n : Nat) (ds : List Child) :
      childIds (List.replicate n (.text marker) ++ ds) = childIds ds := by
    induction n with
    | zero => rfl
    | succ n ih => simpa [List.replicate_succ, childIds] using ih
  induction cs with
  | nil => rfl
  | cons c rest ih =>
    cases c with
    | text s =>
      by_cases hs : needsMarker s
      · simp only [withMarkers, hs, if_true, hmarkers, childIds, ih]
      · simpa [withMarkers, hs, childIds] using ih
    | node i => rw [withMarkers, childIds, childIds, ih]
    | foreign v => exact ih

namespace Node

/-- A node after so many visits. -/
def marked (times : Nat) (n : Node) : Node :=
  if times = 0 then n else ⟨n.tag, withMarkers times n.children⟩

@[simp] theorem marked_zero (n : Node) : n.marked 0 = n := rfl

theorem marked_marked (a b : Nat) (n : Node) : (n.marked b).marked a = n.marked (a + b) := by
  by_cases ha : a = 0
  · simp [ha]
  by_cases hb : b = 0
  · simp [hb]
  simp [marked, ha, hb, withMarkers_withMarkers]

@[simp] theorem childIds_marked (times : Nat) (n : Node) :
    childIds (n.marked times).children = childIds n.children := by
  rw [marked]
  split
  · rfl
  · exact childIds_withMarkers times n.children

end Node

namespace Graph

variable {g h : Graph} {i j n : NodeId}

theorem node_append_self (hi : i < g.size) (c : Child) :
    (g.append i c).node i = ⟨(g.node i).tag, (g.node i).children ++ [c]⟩ :=
  g.node_update_self hi _

theorem node_append_of_ne (hn : n ≠ i) (c : Child) : (g.append i c).node n = g.node n :=
  g.node_update_of_ne hn.symm _

theorem node_appendMarked_self (hi : i < g.size) (s : String) :
    (g.appendMarked i s).node i =
      ⟨(g.node i).tag, (g.node i).children ++ withMarkers 1 [.text s]⟩ := by
  by_cases hs : needsMarker s
  · have hi' : i < (g.append i (.text marker)).size := by rwa [size_append]
    rw [appendMarked, if_pos hs, node_append_self hi', node_append_self hi]
    simp [withMarkers, hs]
  · rw [appendMarked, if_neg hs, node_append_self hi]
    simp [withMarkers, hs]

theorem node_appendMarked_of_ne (hn : n ≠ i) (s : String) :
    (g.appendMarked i s).node n = g.node n := by
  rw [appendMarked]
  split
  · rw [node_append_of_ne hn, node_append_of_ne hn]
  · exact node_append_of_ne hn _

theorem withMarkers_cons (times : Nat) (c : Child) (cs : List Child) :
    withMarkers times (c :: cs) = withMarkers times [c] ++ withMarkers times cs := by
  cases c with
  | text s => simp [withMarkers]
  | node i => rfl
  | foreign v => rfl

/-- What refilling a node comes to, if a visit to a child node adds one marking for each path:
the node itself has got the children, and every other node one marking for each path to it from
one of the children. Only the kinship below the children matters, not the node under repair. -/
theorem node_refill (hg : g.WellFormed) {visit : Graph → NodeId → Graph}
    (hsize : ∀ h k, (visit h k).size = h.size)
    (hvisit : ∀ k ∈ g.kids i, ∀ h, h.size = g.size →
      (∀ n, g.Reaches k n → h.kids n = g.kids n) →
      ∀ n, (visit h k).node n = (h.node n).marked (g.pathCount k n))
    (hi : i < g.size) (cs : List Child) (hcs : ∀ k ∈ childIds cs, k ∈ g.kids i)
    (hh : h.size = g.size) (hkids : ∀ n, n ≠ i → g.Reaches i n → h.kids n = g.kids n) :
    (refill visit i cs h).node i = ⟨(h.node i).tag, (h.node i).children ++ withMarkers 1 cs⟩ ∧
      ∀ n, n ≠ i → (refill visit i cs h).node n =
        (h.node n).marked ((childIds cs).map fun k => g.pathCount k n).sum := by
  induction cs generalizing h with
  | nil => simp [refill, withMarkers, childIds]
  | cons c rest ih =>
    cases c with
    | text s =>
      have hh' : (h.appendMarked i s).size = g.size := by rwa [size_appendMarked]
      obtain ⟨hself, hother⟩ := ih hcs hh' fun n hn hin => by
        rw [kids, children, node_appendMarked_of_ne hn]
        exact hkids n hn hin
      refine ⟨?_, fun n hn => ?_⟩
      · rw [refill, hself, node_appendMarked_self (hh ▸ hi), withMarkers_cons 1 (.text s) rest,
          List.append_assoc]
      · rw [refill, hother n hn, node_appendMarked_of_ne hn]
        rfl
    | node k =>
      have hk : k ∈ g.kids i := hcs k (by simp [childIds])
      have hbelow : ∀ n, g.Reaches k n → h.kids n = g.kids n := fun n hn => by
        refine hkids n ?_ ((Reaches.of_mem_kids hk).trans hn)
        rintro rfl
        exact hg.not_reaches_of_mem_kids hk hn
      have hk' := hvisit k hk h hh hbelow
      have hsame : (visit h k).node i = h.node i := by
        rw [hk', hg.pathCount_eq_zero_iff.2 (hg.not_reaches_of_mem_kids hk), Node.marked_zero]
      have hh' : ((visit h k).append i (.node k)).size = g.size := by rw [size_append, hsize, hh]
      obtain ⟨hself, hother⟩ := ih (fun m hm => hcs m (by simp [childIds, hm])) hh'
        fun n hn hin => by
          rw [kids, children, node_append_of_ne hn, hk', Node.childIds_marked]
          exact hkids n hn hin
      refine ⟨?_, fun n hn => ?_⟩
      · rw [refill, hself, node_append_self (by rwa [hsize, hh]), hsame,
          withMarkers_cons 1 (.node k) rest, List.append_assoc]
        rfl
      · rw [refill, hother n hn, node_append_of_ne hn, hk', Node.marked_marked, Nat.add_comm]
        rfl
    | foreign v => exact ih hcs hh hkids

/-- A visit adds to every node one marking for each path. It may come when nodes elsewhere are
being refilled: it needs to find only the nodes below it as they are in the graph `g`. -/
theorem node_annotateWithin (hg : g.WellFormed) (fuel : Nat) (hr : g.rank i < fuel)
    (hi : i < g.size) (hh : h.size = g.size) (hkids : ∀ n, g.Reaches i n → h.kids n = g.kids n)
    (n : NodeId) : (annotateWithin fuel h i).node n = (h.node n).marked (g.pathCount i n) := by
  induction fuel generalizing h i n with
  | zero => omega
  | succ fuel ih =>
    have hsame : childIds (h.children i) = g.kids i := hkids i (Reaches.refl g i)
    have hvisit : ∀ k ∈ g.kids i, ∀ h, h.size = g.size →
        (∀ n, g.Reaches k n → h.kids n = g.kids n) →
        ∀ n, (annotateWithin fuel h k).node n = (h.node n).marked (g.pathCount k n) := by
      intro k hk h' hh' hkids' m
      have hrank := hg.rank_lt_of_mem_kids hk
      exact ih (by omega) (hg.closed hk) hh' hkids' m
    obtain ⟨hself, hother⟩ := node_refill (h := h.update i Node.clear) hg
      (size_annotateWithin fuel) hvisit hi (h.children i) (fun k hk => hsame ▸ hk)
      (by rwa [size_update]) fun m hm him => by
        rw [kids, children, h.node_update_of_ne hm.symm]
        exact hkids m him
    by_cases hn : n = i
    · subst hn
      rw [annotateWithin, hself, h.node_update_self (hh ▸ hi), hg.pathCount_self]
      rfl
    · rw [annotateWithin, hother n hn, h.node_update_of_ne (Ne.symm hn), hsame,
        hg.pathCount_of_ne (Ne.symm hn)]

theorem node_annotate (hg : g.WellFormed) (hi : i < g.size) (hh : h.size = g.size)
    (hkids : ∀ n, g.Reaches i n → h.kids n = g.kids n) (n : NodeId) :
    (h.annotate i).node n = (h.node n).marked (g.pathCount i n) :=
  node_annotateWithin hg h.size (hh ▸ rank_lt_size hi) hi hh hkids n

theorem kids_annotate (hg : g.WellFormed) (hi : i < g.size) (n : NodeId) :
    (g.annotate i).kids n = g.kids n := by
  rw [kids, children, node_annotate hg hi rfl (fun _ _ => rfl), Node.childIds_marked]
  rfl

theorem size_iterate_annotate (g : Graph) (i : NodeId) (times : Nat) :
    ((fun h => annotate h i)^[times] g).size = g.size := by
  induction times with
  | zero => rfl
  | succ times ih => rw [Function.iterate_succ_apply', size_annotate, ih]

theorem node_iterate_annotate (hg : g.WellFormed) (hi : i < g.size) (times : Nat) (n : NodeId) :
    ((fun h => annotate h i)^[times] g).node n = (g.node n).marked (times * g.pathCount i n) := by
  induction times generalizing n with
  | zero => rw [Nat.zero_mul, Node.marked_zero, Function.iterate_zero_apply]
  | succ times ih =>
    have hkids (m : NodeId) : ((fun h => annotate h i)^[times] g).kids m = g.kids m := by
      rw [kids, children, ih, Node.childIds_marked]
      rfl
    rw [Function.iterate_succ_apply', node_annotate hg hi (size_iterate_annotate g i times)
      (fun m _ => hkids m), ih, Node.marked_marked, Nat.succ_mul, Nat.add_comm]

/-- Annotation in place, whatever is shared: a node on no path is as before, and a node on some
paths keeps its tag and its children in order, without those that are foreign, and gets one
marker for each path before each fragment that needs one. Where nothing is shared, every
repetition adds one marker. -/
theorem annotate_marks_once_per_path (hg : g.WellFormed) (hi : i < g.size) :
    (g.annotate i).size = g.size ∧
      (∀ n, (g.paths i n).Finite ∧
        ((g.paths i n).ncard = 0 → (g.annotate i).node n = g.node n) ∧
        (1 ≤ (g.paths i n).ncard → (g.annotate i).node n =
          ⟨(g.node n).tag, withMarkers (g.paths i n).ncard (g.node n).children⟩)) ∧
      (g.Strict i → ∀ n, g.Reaches i n → ∀ times, 1 ≤ times →
        ((fun h => annotate h i)^[times] g).node n =
          ⟨(g.node n).tag, withMarkers times (g.node n).children⟩) := by
  refine ⟨size_annotate g i, fun n => ⟨hg.paths_finite i n, ?_, ?_⟩, ?_⟩
  · intro hzero
    rw [node_annotate hg hi rfl fun _ _ => rfl, pathCount, hzero, Node.marked_zero]
  · intro hpos
    have hne : (g.paths i n).ncard ≠ 0 := by omega
    rw [node_annotate hg hi rfl fun _ _ => rfl, pathCount, Node.marked, if_neg hne]
  · intro hstrict n hn times htimes
    have hne : times ≠ 0 := by omega
    rw [node_iterate_annotate hg hi, hstrict n hn, Nat.mul_one, Node.marked, if_neg hne]

/-- The last node is a child of the first twice, and once more of the second. -/
def thriceShared : Graph := ⟨#[
  ⟨{}, [.node 2, .text ");\n", .node 1, .node 2]⟩,
  ⟨{}, [.node 2, .text "f();\n"]⟩,
  ⟨{ line := some 3 }, [.text "x = 1;\n", .foreign (.scalar .null), .text "// y\n"]⟩]⟩

theorem thriceShared_wellFormed : thriceShared.WellFormed :=
  WellFormed.of_later (by decide)

theorem ncard_paths_thriceShared : (thriceShared.paths 0 2).ncard = 3 := by
  have hg := thriceShared_wellFormed
  have h0 : thriceShared.kids 0 = [2, 1, 2] := by decide
  have h1 : thriceShared.kids 1 = [2] := by decide
  have hpaths1 : thriceShared.pathCount 1 2 = 1 := by
    rw [hg.pathCount_of_ne (by decide), h1, List.map_cons, hg.pathCount_self]
    rfl
  change thriceShared.pathCount 0 2 = 3
  rw [hg.pathCount_of_ne (by decide), h0, List.map_cons, List.map_cons, List.map_cons,
    hg.pathCount_self, hpaths1]
  rfl

theorem annotate_thriceShared :
    (thriceShared.annotate 0).node 2 =
      ⟨{ line := some 3 }, [.text marker, .text marker, .text marker, .text "x = 1;\n",
        .text "// y\n"]⟩ := by
  have hnode := ((annotate_marks_once_per_path thriceShared_wellFormed
    (show 0 < thriceShared.size by decide)).2.1 2).2.2
  rw [ncard_paths_thriceShared] at hnode
  rw [hnode (by decide)]
  decide +kernel

end Graph

end TypedModule
