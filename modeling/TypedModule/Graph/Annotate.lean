import TypedModule.Graph.Edit

/-!
# Annotation in place

Annotating a node takes its children out and puts them back one after another: a fragment after
a marker if it needs one, a child node once it is annotated itself, and a foreign child not at
all. A node that is reached along several paths is annotated once for each of them.
-/

namespace TypedModule

def Node.clear (n : Node) : Node := ⟨n.tag, []⟩

namespace Graph

def appendMarked (g : Graph) (i : NodeId) (s : String) : Graph :=
  if needsMarker s then (g.append i (.text marker)).append i (.text s) else g.append i (.text s)

/-- Puts children into a node, where `visit` annotates a child node. -/
def refill (visit : Graph → NodeId → Graph) (i : NodeId) : List Child → Graph → Graph
  | [], g => g
  | .text s :: rest, g => refill visit i rest (g.appendMarked i s)
  | .node j :: rest, g => refill visit i rest ((visit g j).append i (.node j))
  | .foreign _ :: rest, g => refill visit i rest g

def annotateWithin : Nat → Graph → NodeId → Graph
  | 0, g, _ => g
  | fuel + 1, g, i => refill (annotateWithin fuel) i (g.children i) (g.update i Node.clear)

def annotate (g : Graph) (i : NodeId) : Graph := annotateWithin g.size g i

@[simp] theorem size_appendMarked (g : Graph) (i : NodeId) (s : String) :
    (g.appendMarked i s).size = g.size := by
  rw [appendMarked]
  split <;> simp

theorem size_refill {visit : Graph → NodeId → Graph} (hv : ∀ g j, (visit g j).size = g.size)
    (i : NodeId) (cs : List Child) (g : Graph) : (refill visit i cs g).size = g.size := by
  fun_induction refill visit i cs g with
  | case1 => rfl
  | case2 g s rest ih => rw [ih, size_appendMarked]
  | case3 g j rest ih => rw [ih, size_append, hv]
  | case4 g v rest ih => exact ih

theorem size_annotateWithin (fuel : Nat) (g : Graph) (i : NodeId) :
    (annotateWithin fuel g i).size = g.size := by
  induction fuel generalizing g i with
  | zero => rfl
  | succ fuel ih => rw [annotateWithin, size_refill ih, size_update]

@[simp] theorem size_annotate (g : Graph) (i : NodeId) : (g.annotate i).size = g.size :=
  size_annotateWithin g.size g i

end Graph

end TypedModule
