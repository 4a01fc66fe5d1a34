import TypedModule.Text.Blank

/-!
# Pictures of a place in a line

A picture shows a line and, below it, carets under the place at fault and a caption. Tabs in
front of the place stay tabs, so that both lines are indented alike.
-/

namespace TypedModule

/-- The items before an index. A negative index counts from the end. -/
def takeTo {α : Type} (index : Int) (xs : List α) : List α :=
  match index with
  | .ofNat n => xs.take n
  | .negSucc n => xs.take (xs.length - (n + 1))

/-- The same room with nothing but blanks and tabs in it. -/
def blankOut (cs : List Char) : List Char := cs.map fun c => if c = '\t' then '\t' else ' '

structure Picture where
  line : String
  start : Int
  width : Int
  lead : String
  caption : String

/-- At least one caret, and otherwise none past the end of the line. -/
def Picture.carets (p : Picture) : Nat :=
  (max 1 (min p.width (p.line.toList.length - p.start))).toNat

def Picture.render (p : Picture) : String :=
  let line := p.line.toList
  let lead := p.lead.toList
  String.ofList (lead ++ trimEnd line ++ '\n' :: blankOut (lead ++ takeTo p.start line) ++
    List.replicate p.carets '^' ++ ' ' :: p.caption.toList)

/-- The first place where two lists differ; the shorter length if one continues the other. -/
def firstDifference {α : Type} [DecidableEq α] : List α → List α → Nat
  | x :: xs, y :: ys => if x = y then firstDifference xs ys + 1 else 0
  | _, _ => 0

end TypedModule
