/-!
# Lines of a script

A line ends at a line feed, a carriage return, the pair of both, a line separator or a
paragraph separator, and nowhere else. Splitting keeps the ends on their lines, so joining
the lines gives the text back. Reading a file turns every carriage return, alone or before a
line feed, into one line feed.
-/

namespace TypedModule

def isTerminator (c : Char) : Bool :=
  c == '\n' || c == '\r' || c == '\u2028' || c == '\u2029'

/-- Puts a character in front of the first line. -/
def consLine (c : Char) : List (List Char) → List (List Char)
  | [] => [[c]]
  | line :: lines => (c :: line) :: lines

def splitLines : List Char → List (List Char)
  | [] => []
  | '\r' :: '\n' :: rest => ['\r', '\n'] :: splitLines rest
  | c :: rest => if isTerminator c then [c] :: splitLines rest else consLine c (splitLines rest)

theorem flatten_consLine (c : Char) (ls : List (List Char)) :
    (consLine c ls).flatten = c :: ls.flatten := by
  cases ls <;> rfl

theorem flatten_splitLines (cs : List Char) : (splitLines cs).flatten = cs := by
  fun_induction splitLines cs with
  | case1 => rfl
  | case2 rest ih => simp [ih]
  | case3 c rest _ _ ih => simp [ih]
  | case4 c rest _ _ ih => rw [flatten_consLine, ih]

/-- The text of a file as it is read: every line feed, carriage return and pair of both is
one line feed. -/
def foldNewlines : List Char → List Char
  | [] => []
  | '\r' :: '\n' :: rest => '\n' :: foldNewlines rest
  | c :: rest => (if c = '\r' then '\n' else c) :: foldNewlines rest

theorem carriageReturn_notMem_foldNewlines (cs : List Char) : '\r' ∉ foldNewlines cs := by
  fun_induction foldNewlines cs with
  | case1 => simp
  | case2 rest ih => simpa using ih
  | case3 c rest _ ih =>
    simp only [List.mem_cons, not_or]
    refine ⟨?_, ih⟩
    split
    · decide
    · next h => exact fun e => h e.symm

end TypedModule
