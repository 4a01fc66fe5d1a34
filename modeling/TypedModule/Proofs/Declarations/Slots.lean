import Mathlib.Data.List.Nodup
import TypedModule.Proofs.Graph.Layout

/-!
# Slots and their places in the text

No two slots have the same name, so a slot is found by its name. The text of the declarations has
the slots in order, with line feeds before the first, between any two and behind the last.
-/

namespace TypedModule

theorem find?_name_of_mem {slots : List Slot} {s : Slot} (hnames : (slots.map Slot.name).Nodup)
    (hs : s ∈ slots) : slots.find? (fun r => r.name == s.name) = some s := by
  induction slots with
  | nil => cases hs
  | cons r slots ih =>
    rw [List.map_cons, List.nodup_cons] at hnames
    rcases List.mem_cons.1 hs with rfl | hs
    · exact List.find?_cons_of_pos (beq_self_eq_true _)
    · have hne : r.name ≠ s.name := fun h => hnames.1 (h ▸ List.mem_map_of_mem hs)
      rw [List.find?_cons_of_neg (by simpa using hne), ih hnames.2 hs]

namespace Declarations

variable (d : Declarations)

theorem slotNames_nodup : d.slotNames.Nodup := by
  have hall : (librarySlots.map Slot.name ++ "rename" :: signatureSlots.map Slot.name ++
      ["export_error", "export_tracer"]).Nodup := by decide +kernel
  -- without the tracer there is one name less
  refine hall.sublist ?_
  rw [slotNames, slots, List.map_append, List.map_append, List.map_cons, List.map_cons]
  refine List.Sublist.append_left (List.Sublist.cons_cons _ ?_) _
  split
  · exact List.Sublist.refl _
  · exact List.nil_sublist _

theorem render?_of_mem {s : Slot} (hs : s ∈ d.slots) : d.render? s.name = some s.render := by
  rw [render?, find?_name_of_mem d.slotNames_nodup hs, Option.map_some]

theorem render?_eq_none_iff {name : String} : d.render? name = none ↔ name ∉ d.slotNames := by
  rw [render?, Option.map_eq_none_iff, List.find?_eq_none, slotNames, List.mem_map, not_exists]
  simp only [beq_iff_eq, not_and]

theorem map_render?_slotNames :
    d.slotNames.map d.render? = (d.slots.map Slot.render).map some := by
  rw [slotNames, List.map_map, List.map_map]
  exact List.map_congr_left fun s hs => d.render?_of_mem hs

end Declarations

/-- The text has the blocks in order, and one line feed or more before, between and behind them. -/
inductive Spaced : List (List Char) → List Char → Prop
  | nil (n : Nat) : Spaced [] (List.replicate (n + 1) '\n')
  | cons (n : Nat) (block : List Char) {blocks : List (List Char)} {rest : List Char}
      (hrest : Spaced blocks rest) :
      Spaced (block :: blocks) (List.replicate (n + 1) '\n' ++ block ++ rest)

theorem Spaced.eq_feed {blocks : List (List Char)} {text : List Char} (h : Spaced blocks text) :
    ∃ rest, text = '\n' :: rest := by
  cases h with
  | nil n => exact ⟨_, rfl⟩
  | cons n block hrest => exact ⟨_, rfl⟩

theorem Spaced.feeds {blocks : List (List Char)} {text : List Char} (h : Spaced blocks text)
    (k : Nat) : Spaced blocks (List.replicate k '\n' ++ text) := by
  cases h with
  | nil n =>
    rw [List.replicate_append_replicate, ← Nat.add_assoc]
    exact Spaced.nil _
  | cons n block hrest =>
    rw [← List.append_assoc, ← List.append_assoc, List.replicate_append_replicate, ← Nat.add_assoc]
    exact Spaced.cons _ block hrest

theorem Spaced.intercalate {more : List (List Char)} {rest : List Char} (h : Spaced more rest)
    (k : Nat) {blocks : List (List Char)} (hblocks : blocks ≠ []) :
    Spaced (blocks ++ more)
      ('\n' :: ((List.replicate (k + 1) '\n').intercalate blocks ++ rest)) := by
  induction blocks with
  | nil => exact absurd rfl hblocks
  | cons block blocks ih =>
    cases blocks with
    | nil =>
      rw [List.intercalate_singleton]
      exact Spaced.cons 0 block h
    | cons next blocks =>
      have htext : '\n' :: ((List.replicate (k + 1) '\n').intercalate (block :: next :: blocks) ++
          rest) = List.replicate (0 + 1) '\n' ++ block ++ (List.replicate k '\n' ++
            '\n' :: ((List.replicate (k + 1) '\n').intercalate (next :: blocks) ++ rest)) := by
        rw [List.intercalate_cons_cons, List.replicate_succ']
        simp [List.append_assoc]
      -- one feed ends the block, and the others stand in front of the next
      rw [htext]
      exact Spaced.cons 0 block ((ih (List.cons_ne_nil _ _)).feeds k)

/-- The characters of the chunks, whatever stands in the slots. -/
theorem toList_join_chunks (library signature more : List String) (rename error : String) :
    (String.join (["\n" ++ "\n\n".intercalate library ++ "\n\n", rename ++ "\n",
      "\n" ++ "\n".intercalate signature ++ "\n", "\n" ++ error ++ "\n"] ++ more)).toList =
      '\n' :: (['\n', '\n'].intercalate (library.map String.toList) ++
        '\n' :: '\n' :: (rename.toList ++
          '\n' :: '\n' :: (['\n'].intercalate (signature.map String.toList) ++
            '\n' :: '\n' :: (error.toList ++ '\n' :: (String.join more).toList)))) := by
  have hfeed : "\n".toList = ['\n'] := rfl
  have hfeeds : "\n\n".toList = ['\n', '\n'] := rfl
  simp only [String.toList_join, List.cons_append, List.flatMap_cons, List.nil_append,
    String.toList_append, String.toList_intercalate, hfeed, hfeeds, List.append_assoc]

namespace Declarations

variable (d : Declarations)

def tracerSlots : List Slot := if d.trace then [tracerSlot] else []

theorem spaced_tracerSlots :
    Spaced ((d.tracerSlots.map Slot.render).map String.toList) ('\n' :: (String.join
      (if d.trace then ["\n" ++ tracerSlot.render ++ "\n"] else [])).toList) := by
  have hfeed : "\n".toList = ['\n'] := rfl
  rw [tracerSlots, String.toList_join]
  split
  · rw [List.flatMap_singleton, String.toList_append, String.toList_append, hfeed]
    exact Spaced.cons 1 tracerSlot.render.toList (Spaced.nil 0)
  · exact Spaced.nil 0

/-- The text of the declarations has the slots in order and nothing but line feeds beside them. -/
theorem spaced_text : Spaced ((d.slots.map Slot.render).map String.toList) d.text.toList := by
  -- from the last chunk to the first, each in front of what is spaced already
  have herror := Spaced.cons 1 d.errorSlot.render.toList d.spaced_tracerSlots
  have hsignature := (herror.intercalate 0 (by simp [signatureSlots] :
    (signatureSlots.map Slot.render).map String.toList ≠ [])).feeds 1
  have hrename := Spaced.cons 1 d.renameSlot.render.toList hsignature
  have hlibrary := hrename.intercalate 1 (by simp [librarySlots] :
    (librarySlots.map Slot.render).map String.toList ≠ [])
  rw [text, chunks, toList_join_chunks, slots, List.append_assoc]
  simp only [List.map_append]
  exact hlibrary

/-- No name of a slot comes twice, and what is rendered is what the names of the slots stand for. The
chunks put together are the rendered texts in the order of the slots, with line feeds before the
first, between any two and behind the last, and nothing else. -/
theorem slots_render_chunks :
    d.slotNames.Nodup ∧
      (∀ name, (∃ text, d.render? name = some text) ↔ name ∈ d.slotNames) ∧
      (∀ name, d.render? name = none ↔ name ∉ d.slotNames) ∧
      ∃ texts : List String, d.slotNames.map d.render? = texts.map some ∧
        Spaced (texts.map String.toList) (String.join d.chunks).toList := by
  refine ⟨d.slotNames_nodup, fun name => ?_, fun name => d.render?_eq_none_iff,
    d.slots.map Slot.render, d.map_render?_slotNames, d.spaced_text⟩
  rw [← Option.ne_none_iff_exists', ne_eq, d.render?_eq_none_iff, not_not]

end Declarations

end TypedModule
