import TypedModule.Graph.Basic

/-!
# Walks through a graph

A walk goes down from a node through its children, from left to right, and meets a shared node
once for every path. Unfolding gives the tree that the walk sees; it fails at the first foreign
child. The fuel is the number of nodes: without a cycle no path is longer. A walk for a purpose
asks every node for one thing, and complains that a foreign child does not have it. What is asked
for in copying is a copy, and that some foreign children have.
-/

namespace TypedModule

inductive WalkFault
  | foreign (value : Foreign)
  | endless
deriving DecidableEq

/-- The complaint about a value that lacks what is asked of it. -/
def lackMessage (kind wanted : String) : String :=
  "'" ++ kind ++ "' object has no attribute '" ++ wanted ++ "'"

inductive Purpose
  | rendering
  | copying
  | outlining
deriving DecidableEq

/-- What a walk asks of its nodes. -/
def Purpose.wanted : Purpose → String
  | rendering => "fragments"
  | copying => "copy"
  | outlining => "line"

/-- A walk that stopped, and what it was for. -/
structure Obstacle where
  purpose : Purpose
  fault : WalkFault
deriving DecidableEq

def Obstacle.message (o : Obstacle) : String :=
  match o.fault with
  | .foreign value => lackMessage value.kind o.purpose.wanted
  | .endless => "the graph has a cycle"

/-- The forest of a list of children, given the tree of each node. -/
def forestOf (tree : NodeId → Except WalkFault Tree) : List Child → Except WalkFault Forest
  | [] => .ok .nil
  | .text s :: rest => (forestOf tree rest).map (.text s)
  | .node i :: rest =>
    match tree i with
    | .error e => .error e
    | .ok t => (forestOf tree rest).map (.node t.tag t.children)
  | .foreign v :: _ => .error (.foreign v)

/-- The nesting depth of a list of children, given the depth of each node. -/
def depthOf (depth : NodeId → Nat) : List Child → Nat
  | [] => 0
  | .node i :: rest => max (depth i + 1) (depthOf depth rest)
  | _ :: rest => depthOf depth rest

namespace Graph

def unfoldWithin (g : Graph) : Nat → NodeId → Except WalkFault Tree
  | 0, _ => .error .endless
  | fuel + 1, i =>
    (forestOf (g.unfoldWithin fuel) (g.children i)).map fun f => ⟨(g.node i).tag, f⟩

def unfold (g : Graph) (i : NodeId) : Except WalkFault Tree := g.unfoldWithin g.size i

def depthWithin (g : Graph) : Nat → NodeId → Nat
  | 0, _ => 0
  | fuel + 1, i => depthOf (g.depthWithin fuel) (g.children i)

/-- Foreign children count for nothing. -/
def depth (g : Graph) (i : NodeId) : Nat := g.depthWithin g.size i

/-- Adds the nodes of a forest to the graph and returns the children that stand for it. -/
def plantForest : Forest → Graph → Graph × List Child
  | .nil, g => (g, [])
  | .text s rest, g =>
    let planted := plantForest rest g
    (planted.1, .text s :: planted.2)
  | .node tag inner rest, g =>
    let below := plantForest inner g
    let top := below.1.alloc ⟨tag, below.2⟩
    let planted := plantForest rest top.1
    (planted.1, .node top.2 :: planted.2)

/-- Adds a tree to the graph, all of its nodes being new. -/
def plant (t : Tree) (g : Graph) : Graph × NodeId :=
  let planted := plantForest t.children g
  planted.1.alloc ⟨t.tag, planted.2⟩

/-- The tree that a walk for a purpose sees. -/
def walk (purpose : Purpose) (g : Graph) (i : NodeId) : Except Obstacle Tree :=
  (g.unfold i).mapError fun fault => ⟨purpose, fault⟩

/-- Copies children from left to right, given how a child node is copied. -/
def copyChildren (copy : Graph → NodeId → Except WalkFault (Graph × NodeId)) :
    List Child → Graph → Except WalkFault (Graph × List Child)
  | [], g => .ok (g, [])
  | .text s :: rest, g =>
    match copyChildren copy rest g with
    | .error e => .error e
    | .ok (g, cs) => .ok (g, .text s :: cs)
  | .node i :: rest, g =>
    match copy g i with
    | .error e => .error e
    | .ok (g, j) =>
      match copyChildren copy rest g with
      | .error e => .error e
      | .ok (g, cs) => .ok (g, .node j :: cs)
  | .foreign v :: rest, g =>
    if v.copies then
      match copyChildren copy rest g with
      | .error e => .error e
      | .ok (g, cs) => .ok (g, .foreign v :: cs)
    else .error (.foreign v)

def copyWithin : Nat → Graph → NodeId → Except WalkFault (Graph × NodeId)
  | 0, _, _ => .error .endless
  | fuel + 1, g, i =>
    match copyChildren (copyWithin fuel) (g.children i) g with
    | .error e => .error e
    | .ok (h, cs) => .ok (h.alloc ⟨(g.node i).tag, cs⟩)

/-- A deep copy. Nothing is shared with it but fragments. Foreign children are copied along if they
have a copy. -/
def copy (g : Graph) (i : NodeId) : Except Obstacle (Graph × NodeId) :=
  (copyWithin g.size g i).mapError fun fault => ⟨.copying, fault⟩

def fragments (g : Graph) (i : NodeId) : Except Obstacle (List String) :=
  (g.walk .rendering i).map Tree.fragments

def render (g : Graph) (i : NodeId) : Except Obstacle String :=
  (g.walk .rendering i).map Tree.render

def countMarkers (g : Graph) (i : NodeId) : Except Obstacle Nat :=
  (g.walk .rendering i).map Tree.countMarkers

end Graph

end TypedModule
