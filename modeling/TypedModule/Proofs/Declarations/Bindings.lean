import TypedModule.Proofs.Declarations.Exports

/-!
# What the declarations bind

At its top level the module binds the names that it exports, the name of the holder and the two
classes that are only declared. All of them but the name of the error class are fixed, and no two
of these are equal. The check of the error name does not know them, so a name that is one of them
is accepted, and then it is bound twice.
-/

namespace TypedModule

/-- The classes behind the casts. They are declared and not exported. -/
def declaredClasses : List String := ["_PeggySyntaxError", "_DefaultTracer"]

/-- The names that are bound whatever the error class is called. -/
def takenNames (trace : Bool) : List String :=
  (librarySlots ++ signatureSlots).map Slot.name ++ parserBinding ::
    (if trace then ["DefaultTracer"] else [])

theorem nodup_takenNames (trace : Bool) : (takenNames trace).Nodup := by
  cases trace <;> decide +kernel

theorem plainName_of_taken {taken : String} {trace : Bool} (h : taken ∈ takenNames trace) :
    PlainName taken := by
  have hall : ∀ t ∈ takenNames true, PlainName t := by decide +kernel
  have hsub : takenNames trace ⊆ takenNames true := by
    cases trace <;> decide +kernel
  exact hall taken (hsub h)

namespace Declarations

variable (d : Declarations)

/-- The names that the module binds at its top level. -/
def boundNames : List String := d.exportedNames ++ parserBinding :: declaredClasses

theorem boundNames_perm : d.boundNames.Perm (d.errorName :: takenNames d.trace) := by
  have hlibrary : (librarySlots.map Slot.name).Perm
      ((librarySlots.map Slot.name).filter (fun s => s.toList.head? != some '_') ++
        declaredClasses) := by
    decide +kernel
  have hsignature : signatureSlots.map Slot.name = ["ParseOptions", "ParseFunction", "parse"] := rfl
  rw [boundNames, exportedNames_eq, takenNames, List.map_append, hsignature]
  refine List.perm_iff_count.2 fun name => ?_
  simp only [List.count_append, List.count_cons, hlibrary.count_eq]
  omega

end Declarations

/-- The names that are bound are those taken and the name of the error class, and no taken name
comes twice. So no name is bound twice if and only if the error class has none of the taken names,
each of which the strict check accepts. -/
theorem bound_once_unless_taken (name : String) (trace : Bool) :
    (Declarations.mk name trace).boundNames.Perm (name :: takenNames trace) ∧
      (takenNames trace).Nodup ∧
      ((Declarations.mk name trace).boundNames.Nodup ↔ name ∉ takenNames trace) ∧
      ∀ taken ∈ takenNames trace, checkErrorName true taken = .ok taken := by
  have hperm := (Declarations.mk name trace).boundNames_perm
  have htaken := nodup_takenNames trace
  refine ⟨hperm, htaken, ?_, fun taken h => ?_⟩
  · rw [hperm.nodup_iff, List.nodup_cons]
    exact and_iff_left htaken
  · have hplain := plainName_of_taken h
    exact (checkErrorName_eq_ok_iff true taken).2 ⟨hplain.quotable, fun _ => hplain⟩

/-- A plain name is accepted though the parse function has it. -/
theorem parse_bound_twice :
    checkErrorName true "parse" = .ok "parse" ∧
      ¬ (Declarations.mk "parse" false).boundNames.Nodup := by
  decide +kernel

end TypedModule
