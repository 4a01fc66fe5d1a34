import TypedModule.Marker
import TypedModule.Text.Lines

/-!
# Trees of text

Generated code is a tree of snippets. A node holds text fragments and further nodes, in order,
and may remember where in the grammar it came from. A forest is the list of a node's children:
nothing, or a first child and the rest. Rendering joins the fragments from left to right.
-/

namespace TypedModule

/-- Where a node came from. -/
structure Tag where
  line : Option Int := none
  column : Option Int := none
  source : Option String := none
  name : Option String := none
deriving DecidableEq

inductive Forest
  | nil
  | text (fragment : String) (rest : Forest)
  | node (tag : Tag) (inner rest : Forest)
deriving DecidableEq

structure Tree where
  tag : Tag
  children : Forest
deriving DecidableEq

namespace Forest

/-- A forest of one tree. -/
def ofTree (t : Tree) : Forest := node t.tag t.children nil

def ofTexts : List String → Forest
  | [] => nil
  | s :: rest => text s (ofTexts rest)

def append : Forest → Forest → Forest
  | nil, other => other
  | text s rest, other => text s (rest.append other)
  | node tag inner rest, other => node tag inner (rest.append other)

instance : Append Forest := ⟨append⟩

@[simp] theorem nil_append (f : Forest) : nil ++ f = f := rfl

@[simp] theorem text_append (s : String) (f g : Forest) : text s f ++ g = text s (f ++ g) := rfl

@[simp] theorem node_append (tag : Tag) (inner f g : Forest) :
    node tag inner f ++ g = node tag inner (f ++ g) := rfl

@[simp] theorem append_nil (f : Forest) : f ++ nil = f := by
  induction f with
  | nil => rfl
  | text s rest ih => rw [text_append, ih]
  | node tag inner rest _ ih => rw [node_append, ih]

/-- The number of children. -/
def width : Forest → Nat
  | nil => 0
  | text _ rest => rest.width + 1
  | node _ _ rest => rest.width + 1

def fragments : Forest → List String
  | nil => []
  | text s rest => s :: rest.fragments
  | node _ inner rest => inner.fragments ++ rest.fragments

@[simp] theorem fragments_append (f g : Forest) :
    (f ++ g).fragments = f.fragments ++ g.fragments := by
  induction f with
  | nil => rfl
  | text s rest ih => rw [text_append, fragments, fragments, ih, List.cons_append]
  | node tag inner rest _ ih => rw [node_append, fragments, fragments, ih, List.append_assoc]

@[simp] theorem fragments_ofTexts (ss : List String) : (ofTexts ss).fragments = ss := by
  induction ss with
  | nil => rfl
  | cons s rest ih => rw [ofTexts, fragments, ih]

/-- How deep nodes are nested: zero if there is none. -/
def depth : Forest → Nat
  | nil => 0
  | text _ rest => rest.depth
  | node _ inner rest => max (inner.depth + 1) rest.depth

@[simp] theorem depth_append (f g : Forest) : (f ++ g).depth = max f.depth g.depth := by
  induction f with
  | nil => simp [depth]
  | text s rest ih => rw [text_append, depth, depth, ih]
  | node tag inner rest _ ih => rw [node_append, depth, depth, ih, Nat.max_assoc]

@[simp] theorem depth_ofTexts (ss : List String) : (ofTexts ss).depth = 0 := by
  induction ss with
  | nil => rfl
  | cons s rest ih => rw [ofTexts, depth, ih]

/-- Puts a marker before every fragment that needs one. -/
def annotate : Forest → Forest
  | nil => nil
  | text s rest =>
    if needsMarker s then text marker (text s rest.annotate) else text s rest.annotate
  | node tag inner rest => node tag inner.annotate rest.annotate

end Forest

/-- A fragment with the marker it needs, if any. -/
def marked (s : String) : List String := if needsMarker s then [marker, s] else [s]

theorem Forest.fragments_annotate (f : Forest) :
    f.annotate.fragments = f.fragments.flatMap marked := by
  induction f with
  | nil => rfl
  | text s rest ih =>
    by_cases h : needsMarker s <;>
      simp [Forest.annotate, Forest.fragments, marked, h, ih]
  | node tag inner rest ih₁ ih₂ =>
    rw [Forest.annotate, Forest.fragments, Forest.fragments, ih₁, ih₂, List.flatMap_append]

theorem Forest.depth_annotate (f : Forest) : f.annotate.depth = f.depth := by
  induction f with
  | nil => rfl
  | text s rest ih => by_cases h : needsMarker s <;> simp [Forest.annotate, Forest.depth, h, ih]
  | node tag inner rest ih₁ ih₂ => rw [Forest.annotate, Forest.depth, Forest.depth, ih₁, ih₂]

namespace Tree

def fragments (t : Tree) : List String := t.children.fragments

def render (t : Tree) : String := String.join t.fragments

def depth (t : Tree) : Nat := t.children.depth

def annotate (t : Tree) : Tree := ⟨t.tag, t.children.annotate⟩

def countMarkers (t : Tree) : Nat := t.fragments.count marker

end Tree

end TypedModule
