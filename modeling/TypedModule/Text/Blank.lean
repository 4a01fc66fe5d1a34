/-!
# Blank characters

Blank characters are what a line loses when it is trimmed: the ASCII blanks and separators,
and the space separators of Unicode. The zero width space and the byte order mark are not
among them. Blanks behind a text make no difference to what trimming leaves of it.
-/

namespace TypedModule

def isBlank (c : Char) : Bool :=
  let n := c.toNat
  (9 ≤ n && n ≤ 13) || (28 ≤ n && n ≤ 32) || n == 0x85 || n == 0xA0 || n == 0x1680 ||
    (0x2000 ≤ n && n ≤ 0x200A) || n == 0x2028 || n == 0x2029 || n == 0x202F || n == 0x205F ||
    n == 0x3000

/-- The list without the longest run at its end that satisfies `p`. -/
def dropEndWhile {α : Type} (p : α → Bool) (xs : List α) : List α :=
  (xs.reverse.dropWhile p).reverse

theorem dropEndWhile_append_singleton {α : Type} (p : α → Bool) (xs : List α) (x : α) :
    dropEndWhile p (xs ++ [x]) = if p x then dropEndWhile p xs else xs ++ [x] := by
  cases h : p x <;> simp [dropEndWhile, h]

theorem dropEndWhile_append_of_all {α : Type} {p : α → Bool} {ys : List α}
    (h : ∀ y ∈ ys, p y = true) (xs : List α) :
    dropEndWhile p (xs ++ ys) = dropEndWhile p xs := by
  rw [dropEndWhile, dropEndWhile, List.reverse_append, List.dropWhile_append_of_pos]
  exact fun y hy => h y (List.mem_reverse.1 hy)

def trimEnd (cs : List Char) : List Char := dropEndWhile isBlank cs

def trim (cs : List Char) : List Char := trimEnd (cs.dropWhile isBlank)

theorem trim_append_of_blank {ends : List Char} (h : ∀ c ∈ ends, isBlank c = true)
    (cs : List Char) : trim (cs ++ ends) = trim cs := by
  rw [trim, trim, List.dropWhile_append]
  split
  · next hblank =>
    -- All of the text is blank.
    have hends : ends.dropWhile isBlank = [] := by
      rw [← List.append_nil ends, List.dropWhile_append_of_pos h]
      rfl
    rw [hends, List.isEmpty_iff.1 hblank]
  · exact dropEndWhile_append_of_all h _

end TypedModule
