import TypedModule.Graph.Basic

/-!
# Building nodes

An item offered to a node is a fragment, a node, a foreign value or a list of items. Fragments and
nodes other than the target are accepted, everything else is refused. A list is accepted item by
item: appending keeps what comes before the first refused item, putting in front is all or nothing.
Lists within lists are never accepted. A call may also be given the very list in which a node keeps
its children. Putting in front takes a copy of it first, but appending does not, and the children of
the target grow while they are gone through.
-/

namespace TypedModule

inductive Item
  | text (fragment : String)
  | node (id : NodeId)
  | foreign (value : Foreign)
  | list (items : List Item)

def Child.item : Child → Item
  | text s => .text s
  | node i => .node i
  | foreign v => .foreign v

namespace Item

/-- What is offered one by one. -/
def parts : Item → List Item
  | .list items => items
  | item => [item]

mutual

/-- An item as messages show it. -/
def shown (g : Graph) : Item → String
  | .text s => shownText s
  | .node i => g.describe i
  | .foreign v => v.shown
  | .list items => "[" ++ ", ".intercalate (shownList g items) ++ "]"

def shownList (g : Graph) : List Item → List String
  | [] => []
  | item :: rest => shown g item :: shownList g rest

end

end Item

inductive Refusal
  | itself
  | unfit (item : Item)

def Refusal.message (g : Graph) : Refusal → String
  | itself => "A node cannot contain itself."
  | unfit item => "Expected a string or SourceNode; got " ++ item.shown g

def accept (target : NodeId) : Item → Except Refusal Child
  | .text s => .ok (.text s)
  | .node i => if i = target then .error .itself else .ok (.node i)
  | item => .error (.unfit item)

/-- The children accepted before the first refusal, and that refusal. -/
def acceptAll (target : NodeId) : List Item → List Child × Option Refusal
  | [] => ([], none)
  | item :: rest =>
    match accept target item with
    | .error r => ([], some r)
    | .ok c => (c :: (acceptAll target rest).1, (acceptAll target rest).2)

/-- What a call is given: an item, or the very list in which a node keeps its children. -/
inductive Argument
  | item (item : Item)
  | childrenOf (id : NodeId)

/-- What the argument holds at the moment. -/
def Argument.held (g : Graph) : Argument → Item
  | item i => i
  | childrenOf i => .list ((g.children i).map Child.item)

/-- Appends to the children whatever stands among them, from a position on, as far as so many steps
go. As the children grow on the way there is always a next one, and only a refusal brings it to an
end. -/
def appendOwn (target : NodeId) : Nat → List Child → Nat → Option (List Child × Option Refusal)
  | 0, _, _ => none
  | steps + 1, children, position =>
    match children[position]? with
    | none => some (children, none)
    | some c =>
      match accept target c.item with
      | .error r => some (children, some r)
      | .ok c => appendOwn target steps (children ++ [c]) (position + 1)

namespace Graph

def add (g : Graph) (target : NodeId) (item : Item) : Graph × Option Refusal :=
  let (block, refusal) := acceptAll target item.parts
  (g.update target fun n => ⟨n.tag, n.children ++ block⟩, refusal)

def prepend (g : Graph) (target : NodeId) (item : Item) : Graph × Option Refusal :=
  match acceptAll target item.parts with
  | (_, some r) => (g, some r)
  | (block, none) => (g.update target fun n => ⟨n.tag, block ++ n.children⟩, none)

/-- Appends what a call is given. What is refused of the target's own children is one of those that
were there at first: a call that has come past them never comes back, and has no result. -/
def addGiven (g : Graph) (target : NodeId) : Argument → Option (Graph × Option Refusal)
  | .item item => some (g.add target item)
  | .childrenOf source =>
    if source = target then
      let children := g.children target
      (appendOwn target (children.length + 1) children 0).map fun (children, refusal) =>
        (g.update target fun n => ⟨n.tag, children⟩, refusal)
    else some (g.add target (Argument.held g (.childrenOf source)))

def prependGiven (g : Graph) (target : NodeId) (argument : Argument) : Graph × Option Refusal :=
  g.prepend target (argument.held g)

/-- Appends a child with no check at all. -/
def append (g : Graph) (target : NodeId) (c : Child) : Graph :=
  g.update target fun n => ⟨n.tag, n.children ++ [c]⟩

@[simp] theorem size_append (g : Graph) (target : NodeId) (c : Child) :
    (g.append target c).size = g.size :=
  size_update g target _

def setTag (g : Graph) (target : NodeId) (f : Tag → Tag) : Graph :=
  g.update target fun n => ⟨f n.tag, n.children⟩

/-- A new node, filled by one addition. -/
def create (g : Graph) (tag : Tag) (item : Option Item) : Graph × Except Refusal NodeId :=
  let (g, i) := g.alloc ⟨tag, []⟩
  match item with
  | none => (g, .ok i)
  | some item =>
    match g.add i item with
    | (g, none) => (g, .ok i)
    | (g, some r) => (g, .error r)

end Graph

end TypedModule
