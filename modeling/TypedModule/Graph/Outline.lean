import TypedModule.Graph.Walk
import TypedModule.Outline

/-!
# Outlines of nodes

The outline of a node is the outline of the tree that it unfolds to. It fails at the first
foreign child.
-/

namespace TypedModule.Graph

def outline (g : Graph) (i : NodeId) (depth : Int) : Except Obstacle (List OutlineRow) :=
  (g.walk .outlining i).map fun t => t.outline depth

def drawOutline (g : Graph) (i : NodeId) : Except Obstacle String :=
  (g.walk .outlining i).map Tree.drawOutline

end TypedModule.Graph
