import TypedModule.Graph.Walk

/-!
# Work on a graph

Work on a graph may fail on the way, and a failure undoes nothing: what was done before it stays
done. A copy that comes to a foreign child which has none leaves behind the nodes that it has made
so far.
-/

namespace TypedModule

/-- Work on a graph that may fail. -/
abbrev Work (ε : Type) := ExceptT ε (StateM Graph)

namespace Work

variable {ε δ α β : Type}

/-- What the work comes to, and the graph that it leaves. -/
def on (w : Work ε α) (g : Graph) : Except ε α × Graph := w.run.run g

def make (n : Node) : Work ε NodeId := modifyGet fun g => ((g.alloc n).2, (g.alloc n).1)

/-- The same work, with another account of a failure. -/
def adapt (f : ε → δ) (w : Work ε α) : Work δ α := ExceptT.adapt f w

/-- Copies children from left to right, given how a child node is copied. -/
def copyChildren (copy : NodeId → Work WalkFault NodeId) :
    List Child → Work WalkFault (List Child)
  | [] => pure []
  | .text s :: rest => do
    let cs ← copyChildren copy rest
    return .text s :: cs
  | .node i :: rest => do
    let j ← copy i
    let cs ← copyChildren copy rest
    return .node j :: cs
  | .foreign v :: rest =>
    if v.copies then do
      let cs ← copyChildren copy rest
      return .foreign v :: cs
    else throw (.foreign v)

def copyWithin : Nat → NodeId → Work WalkFault NodeId
  | 0, _ => throw .endless
  | fuel + 1, i => do
    let n := (← get).node i
    let cs ← copyChildren (copyWithin fuel) n.children
    make ⟨n.tag, cs⟩

/-- A deep copy. -/
def copy (i : NodeId) : Work Obstacle NodeId := do
  let g ← get
  adapt (⟨.copying, ·⟩) (copyWithin g.size i)

@[simp] theorem on_pure (a : α) (g : Graph) : (pure a : Work ε α).on g = (.ok a, g) := rfl

@[simp] theorem on_throw (e : ε) (g : Graph) : (throw e : Work ε α).on g = (.error e, g) := rfl

@[simp] theorem on_get (g : Graph) : (get : Work ε Graph).on g = (.ok g, g) := rfl

@[simp] theorem on_modify (f : Graph → Graph) (g : Graph) :
    (modify f : Work ε PUnit).on g = (.ok ⟨⟩, f g) := rfl

@[simp] theorem on_modifyGet (f : Graph → α × Graph) (g : Graph) :
    (modifyGet f : Work ε α).on g = (.ok (f g).1, (f g).2) := rfl

@[simp] theorem on_make (n : Node) (g : Graph) :
    (make n : Work ε NodeId).on g = (.ok (g.alloc n).2, (g.alloc n).1) := rfl

theorem on_bind (w : Work ε α) (next : α → Work ε β) (g : Graph) :
    (w >>= next).on g = match w.on g with
      | (.ok a, h) => (next a).on h
      | (.error e, h) => (.error e, h) := by
  change (ExceptT.bindCont next (w.on g).1).run (w.on g).2 = _
  rcases w.on g with ⟨e | a, h⟩ <;> rfl

@[simp] theorem on_ofExcept (x : Except ε α) (g : Graph) :
    (ofExcept x : Work ε α).on g = (x, g) := by
  cases x <;> rfl

@[simp] theorem on_adapt (f : ε → δ) (w : Work ε α) (g : Graph) :
    (w.adapt f).on g = ((w.on g).1.mapError f, (w.on g).2) := rfl

end Work

end TypedModule
