/-!
# Texts on one line

A text without a line feed is one line wherever it is shown. Texts that are put together are one
line if and only if their parts are, and a number always is.
-/

namespace TypedModule

/-- The text has no line feed. -/
def OneLine (text : String) : Prop := '\n' ∉ text.toList

instance : DecidablePred OneLine := fun _ => inferInstanceAs (Decidable (_ ∉ _))

theorem oneLine_ofList {cs : List Char} (h : cs.elem '\n' = false) :
    OneLine (String.ofList cs) := by
  rwa [OneLine, String.toList_ofList, ← List.elem_iff, Bool.not_eq_true]

theorem oneLine_empty : OneLine "" := by decide

theorem oneLine_append {a b : String} : OneLine (a ++ b) ↔ OneLine a ∧ OneLine b := by
  rw [OneLine, String.toList_append, List.mem_append, not_or]
  rfl

theorem oneLine_intercalate {sep : String} {parts : List String} (hsep : OneLine sep)
    (hparts : ∀ part ∈ parts, OneLine part) : OneLine (sep.intercalate parts) := by
  induction parts with
  | nil => exact oneLine_empty
  | cons part rest ih =>
    have hpart := hparts part List.mem_cons_self
    cases rest with
    | nil => rwa [String.intercalate_singleton]
    | cons next rest =>
      rw [String.intercalate_cons_cons, oneLine_append, oneLine_append]
      exact ⟨⟨hpart, hsep⟩, ih fun other hother => hparts other (List.mem_cons_of_mem _ hother)⟩

theorem oneLine_natDigits (n : Nat) : OneLine (toString n) := by
  rw [OneLine, Nat.toString_eq_ofList_toDigits, String.toList_ofList]
  intro hfeed
  have hdigit := Nat.isDigit_of_mem_toDigits (by decide) (by decide) hfeed
  cases hdigit

theorem oneLine_digits (n : Int) : OneLine (toString n) := by
  cases n with
  | ofNat n => exact oneLine_natDigits n
  | negSucc n => exact oneLine_append.2 ⟨by decide, oneLine_natDigits (n + 1)⟩

end TypedModule
