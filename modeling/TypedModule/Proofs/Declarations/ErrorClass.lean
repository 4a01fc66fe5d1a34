import TypedModule.Proofs.Declarations.Slots
import TypedModule.Proofs.Name.Acceptance

/-!
# The name of the error class in the module

The module has the name of the error class twice: quoted in ASCII where the class is renamed, and as
it is where the class is exported. An accepted name has no quote, and no escape of its characters
has one, so the quoted name ends where it should. Reading it gives the name that is exported.
-/

namespace TypedModule

variable {c : Char} {cs : List Char} {name : String}

namespace Json

/-- A character from the blank to the tilde. -/
def Printable (c : Char) : Prop := 0x20 ≤ c.toNat ∧ c.toNat ≤ 0x7E

instance : DecidablePred Printable := fun _ => inferInstanceAs (Decidable (_ ∧ _))

theorem printable_escapedChar (c : Char) : ∀ x ∈ escapedChar .ascii c, Printable x := by
  have hletters : ∀ p ∈ letters, Printable p.2 := by decide
  exact forall_mem_escapedChar (by decide) (fun letter h => hletters _ h) (by decide) (by decide)
    fun hvisible hascii => ⟨hvisible, hascii rfl⟩

theorem printable_quoted (s : String) : ∀ x ∈ (quoted .ascii s).toList, Printable x := by
  intro x hx
  rw [toList_quoted, List.cons_append, List.mem_cons, List.mem_append, List.mem_singleton] at hx
  rcases hx with rfl | hx | rfl
  · decide
  · obtain ⟨c, -, hc⟩ := List.mem_flatMap.1 hx
    exact printable_escapedChar c x hc
  · decide

/-- Only the escape of a quote has a quote. -/
theorem quote_notMem_escaped (style : Style) (h : ∀ c ∈ cs, Bare c) :
    '\x22' ∉ escaped style cs := by
  intro hquote
  obtain ⟨c, hc, hx⟩ := List.mem_flatMap.1 hquote
  exact forall_mem_escapedChar (P := (· ≠ '\x22')) (by decide)
    (fun letter hletter => absurd (h c hc) (not_bare_of_mem_letters _ hletter)) (by decide)
    (by decide) (fun _ _ => (h c hc).1) '\x22' hx rfl

theorem escaped_ascii_eq_self (h : ∀ c ∈ cs, Bare c ∧ c.toNat ≤ 0x7E) :
    escaped .ascii cs = cs := by
  induction cs with
  | nil => rfl
  | cons c cs ih =>
    rw [List.forall_mem_cons] at h
    rw [escaped, List.flatMap_cons, ← escaped, ih h.2,
      escapedChar_eq_singleton h.1.1 fun _ => h.1.2, List.singleton_append]

end Json

theorem PlainName.namePart (h : PlainName name) :
    ∀ c ∈ name.toList, OpensName c ∨ ('0' ≤ c ∧ c ≤ '9') := by
  obtain ⟨c, rest, hname, hc, hrest⟩ := h
  rw [hname, List.forall_mem_cons]
  exact ⟨Or.inl hc, hrest⟩

/-- A plain name is not changed by being quoted. -/
theorem PlainName.quoted_ascii (h : PlainName name) :
    Json.quoted .ascii name = "\x22" ++ name ++ "\x22" := by
  have hself : Json.escaped .ascii name.toList = name.toList := by
    refine Json.escaped_ascii_eq_self fun c hc => ⟨bare_of_namePart (h.namePart c hc), ?_⟩
    have hbounds := bounds_of_namePart (h.namePart c hc)
    omega
  apply String.toList_injective
  rw [Json.toList_quoted, hself, String.toList_append, String.toList_append]
  rfl

namespace Declarations

variable (d : Declarations)

theorem render_renameSlot :
    d.renameSlot.render = "peggyParser.SyntaxError.prototype.name = " ++
      Json.quoted .ascii d.errorName ++ ";" :=
  String.intercalate_singleton

theorem lines_errorSlot :
    d.errorSlot.lines = ["export const " ++ (d.errorName ++
      " = peggyParser.SyntaxError as typeof _PeggySyntaxError;")] := by
  have hbinding : " = " ++ (parserBinding ++ ".SyntaxError as typeof _PeggySyntaxError;") =
      " = peggyParser.SyntaxError as typeof _PeggySyntaxError;" := rfl
  rw [← hbinding]
  simp only [errorSlot, String.append_assoc]

theorem render_errorSlot :
    d.errorSlot.render = "export const " ++ d.errorName ++
      " = peggyParser.SyntaxError as typeof _PeggySyntaxError;" := by
  rw [Slot.render, lines_errorSlot, String.intercalate_singleton, String.append_assoc]

theorem render?_rename :
    d.render? "rename" = some ("peggyParser.SyntaxError.prototype.name = " ++
      Json.quoted .ascii d.errorName ++ ";") := by
  have hmem : d.renameSlot ∈ d.slots := by simp [slots]
  rw [← render_renameSlot]
  exact d.render?_of_mem hmem

theorem render?_export_error :
    d.render? "export_error" = some ("export const " ++ d.errorName ++
      " = peggyParser.SyntaxError as typeof _PeggySyntaxError;") := by
  have hmem : d.errorSlot ∈ d.slots := by simp [slots]
  rw [← render_errorSlot]
  exact d.render?_of_mem hmem

end Declarations

/-- The class is renamed to what is read from a quoted text in printable ASCII characters, which has
no quote inside, and this is the name that is exported. A plain name is quoted as it is. -/
theorem renamed_as_exported {strict : Bool} (h : checkErrorName strict name = .ok name)
    (trace : Bool) :
    ∃ literal body,
      (Declarations.mk name trace).render? "rename" =
        some ("peggyParser.SyntaxError.prototype.name = " ++ literal ++ ";") ∧
      (∀ c ∈ literal.toList, Json.Printable c) ∧
      Json.read literal.toList = .ok (.text name) ∧
      literal = "\x22" ++ body ++ "\x22" ∧ '\x22' ∉ body.toList ∧
      (∀ exported, (Declarations.mk name trace).render? "export_error" =
        some ("export const " ++ exported ++
          " = peggyParser.SyntaxError as typeof _PeggySyntaxError;") ↔ exported = name) ∧
      (checkErrorName true name = .ok name → literal = "\x22" ++ name ++ "\x22") := by
  have hq : Quotable name := ((checkErrorName_eq_ok_iff strict name).1 h).1
  refine ⟨Json.quoted .ascii name, String.ofList (Json.escaped .ascii name.toList),
    Declarations.render?_rename _, Json.printable_quoted name, Json.read_quoted .ascii name, ?_, ?_,
    fun exported => ?_, fun hstrict => ?_⟩
  · apply String.toList_injective
    rw [Json.toList_quoted]
    simp
  · rw [String.toList_ofList]
    exact Json.quote_notMem_escaped .ascii hq
  · rw [Declarations.render?_export_error, Option.some.injEq, String.append_left_inj,
      String.append_right_inj]
    exact eq_comm
  · exact (((checkErrorName_eq_ok_iff true name).1 hstrict).2 rfl).quoted_ascii

/-- A letter with an accent, a sign outside the first plane and the delete character. -/
def farName : String := "é𝄞\x7f"

theorem renamed_farName :
    checkErrorName false farName = .ok farName ∧
      (Declarations.mk farName true).renameSlot.render =
        "peggyParser.SyntaxError.prototype.name = \x22\\u00e9\\ud834\\udd1e\\u007f\x22;" ∧
      ∃ literal, (Declarations.mk farName true).render? "rename" =
          some ("peggyParser.SyntaxError.prototype.name = " ++ literal ++ ";") ∧
        Json.read literal.toList = .ok (.text farName) ∧
        (Declarations.mk farName true).render? "export_error" = some ("export const " ++ farName ++
          " = peggyParser.SyntaxError as typeof _PeggySyntaxError;") := by
  have h : checkErrorName false farName = .ok farName := by decide +kernel
  obtain ⟨literal, -, hrename, -, hread, -, -, hexport, -⟩ := renamed_as_exported h true
  exact ⟨h, by decide +kernel, literal, hrename, hread, (hexport farName).2 rfl⟩

end TypedModule
