import TypedModule.Json.Value
import TypedModule.Tree.Basic

/-!
# Graphs of nodes

A graph stores nodes by number. The children of a node are fragments, numbers of nodes, or
foreign values of any kind, which no walk can enter and some of which can be copied; a node may be
a child in several places. Changing one node leaves all others as they are, and a new node gets the
next number.
-/

namespace TypedModule

abbrev NodeId := Nat

/-- A value that is neither a text nor a node. Of what is no scalar it matters only of which kind it
is, whether it has a copy, which is a value of the same kind, and how messages show it. -/
inductive Foreign
  | scalar (value : Scalar)
  | other (kind : String) (copies : Bool) (shown : String)
deriving DecidableEq

namespace Foreign

def kind : Foreign → String
  | scalar v => v.kind
  | other kind _ _ => kind

/-- Whether the value has a copy. A scalar has none. -/
def copies : Foreign → Bool
  | scalar _ => false
  | other _ copies _ => copies

def shown : Foreign → String
  | scalar v => v.shown
  | other _ _ shown => shown

end Foreign

inductive Child
  | text (fragment : String)
  | node (id : NodeId)
  | foreign (value : Foreign)
deriving DecidableEq

structure Node where
  tag : Tag := {}
  children : List Child := []
deriving DecidableEq

structure Graph where
  nodes : Array Node := #[]

/-- The nodes among the children, in order. -/
def childIds : List Child → List NodeId
  | [] => []
  | .node i :: rest => i :: childIds rest
  | _ :: rest => childIds rest

namespace Graph

variable (g : Graph)

def size : Nat := g.nodes.size

def node (i : NodeId) : Node := g.nodes.getD i {}

def children (i : NodeId) : List Child := (g.node i).children

/-- The child nodes of a node. One that is a child several times comes several times. -/
def kids (i : NodeId) : List NodeId := childIds (g.children i)

def update (i : NodeId) (f : Node → Node) : Graph := ⟨g.nodes.modify i f⟩

def alloc (n : Node) : Graph × NodeId := (⟨g.nodes.push n⟩, g.size)

@[simp] theorem size_update (i : NodeId) (f : Node → Node) : (g.update i f).size = g.size := by
  simp [size, update]

@[simp] theorem size_alloc (n : Node) : (g.alloc n).1.size = g.size + 1 := by
  simp [size, alloc]

theorem node_update (i j : NodeId) (f : Node → Node) :
    (g.update i f).node j = if i = j ∧ i < g.size then f (g.node j) else g.node j := by
  simp only [node, update, size, Array.getD_eq_getD_getElem?, Array.getElem?_modify]
  by_cases h : i = j
  · subst h
    by_cases hi : i < g.nodes.size <;> simp [hi]
  · simp [h]

theorem node_update_self {i : NodeId} (h : i < g.size) (f : Node → Node) :
    (g.update i f).node i = f (g.node i) := by
  simp [node_update, h]

theorem node_update_of_ne {i j : NodeId} (h : i ≠ j) (f : Node → Node) :
    (g.update i f).node j = g.node j := by
  simp [node_update, h]

theorem node_alloc (n : Node) (j : NodeId) :
    (g.alloc n).1.node j = if j = g.size then n else g.node j := by
  simp only [node, alloc, size, Array.getD_eq_getD_getElem?, Array.getElem?_push]
  split <;> simp

theorem node_alloc_of_lt {j : NodeId} (h : j < g.size) (n : Node) :
    (g.alloc n).1.node j = g.node j := by
  rw [node_alloc, if_neg (Nat.ne_of_lt h)]

theorem node_alloc_self (n : Node) : (g.alloc n).1.node (g.alloc n).2 = n := by
  rw [node_alloc, alloc, if_pos rfl]

/-- The line that stands for a node in messages. -/
def describe (i : NodeId) : String :=
  let tag := (g.node i).tag
  let part (s : Option String) : String := s.getD "None"
  "<SourceNode " ++ part tag.source ++ ":" ++ part (tag.line.map toString) ++ ":" ++
    part (tag.column.map toString) ++ " " ++ toString (g.children i).length ++ " children>"

end Graph

end TypedModule
