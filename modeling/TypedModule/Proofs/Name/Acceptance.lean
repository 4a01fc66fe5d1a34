import Mathlib.Data.List.TakeWhile
import TypedModule.ErrorName
import TypedModule.Proofs.Json.RoundTrip

/-!
# Which error names are accepted

Escaping never makes a text shorter, and every character that is escaped makes it longer. So a
name comes back unchanged from being quoted only if all of its characters stand for themselves.
The characters of a plain identifier do. A rejected name comes back when what the message quotes
is read again.
-/

namespace TypedModule

variable {c : Char} {cs : List Char} {name : String}

namespace Json

/-- The character stands for itself in a quoted text. -/
def Bare (c : Char) : Prop := c ≠ '\x22' ∧ c ≠ '\\' ∧ 0x20 ≤ c.toNat

instance : DecidablePred Bare := fun _ => inferInstanceAs (Decidable (_ ∧ _))

theorem not_bare_of_mem_letters : ∀ p ∈ letters, ¬ Bare p.1 := by decide

theorem letterFor?_of_bare (h : Bare c) : letterFor? c = none := by
  rw [letterFor?, Option.map_eq_none_iff, List.find?_eq_none]
  intro p hp hc
  rw [beq_iff_eq] at hc
  exact not_bare_of_mem_letters p hp (hc ▸ h)

theorem escapedChar_eq_singleton {style : Style} (h : Bare c)
    (hascii : style = .ascii → c.toNat ≤ 0x7E) : escapedChar style c = [c] := by
  have hself : ¬ (c.toNat < 0x20 ∨ style = .ascii ∧ 0x7E < c.toNat) := by
    rintro (hlow | ⟨hstyle, hhigh⟩)
    · exact absurd h.2.2 (Nat.not_le.2 hlow)
    · exact absurd (hascii hstyle) (Nat.not_le.2 hhigh)
  rw [escapedChar, letterFor?_of_bare h]
  exact if_neg hself

theorem escapedChar_of_bare (h : Bare c) : escapedChar .plain c = [c] :=
  escapedChar_eq_singleton h nofun

/-- An escape has a backslash and at least one more character. -/
theorem escapedChar_of_not_bare (h : ¬ Bare c) :
    ∃ d rest, escapedChar .plain c = '\\' :: d :: rest := by
  rw [escapedChar]
  cases hletter : letterFor? c with
  | some letter => exact ⟨letter, [], rfl⟩
  | none =>
    have hlow : c.toNat < 0x20 := by
      by_contra hvisible
      refine h ⟨?_, ?_, Nat.not_lt.1 hvisible⟩
      · rintro rfl
        cases hletter
      · rintro rfl
        cases hletter
    have hunits : units c = [c.toNat] := if_pos (Nat.lt_trans hlow (by decide))
    rw [if_pos (Or.inl hlow), hunits, List.flatMap_singleton]
    exact ⟨'u', unitDigits c.toNat, rfl⟩

theorem length_le_length_escaped (cs : List Char) : cs.length ≤ (escaped .plain cs).length := by
  induction cs with
  | nil => exact Nat.le_refl 0
  | cons c cs ih =>
    have hone : 1 ≤ (escapedChar .plain c).length := by
      by_cases hc : Bare c
      · rw [escapedChar_of_bare hc]
        exact Nat.le_refl 1
      · obtain ⟨d, rest, hescaped⟩ := escapedChar_of_not_bare hc
        rw [hescaped, List.length_cons]
        omega
    rw [escaped, List.flatMap_cons, ← escaped, List.length_append, List.length_cons]
    omega

theorem escaped_eq_self_iff : escaped .plain cs = cs ↔ ∀ c ∈ cs, Bare c := by
  induction cs with
  | nil => simp [escaped]
  | cons c cs ih =>
    rw [escaped, List.flatMap_cons, ← escaped, List.forall_mem_cons]
    by_cases hc : Bare c
    · rw [escapedChar_of_bare hc, List.singleton_append, List.cons_inj_right, ih]
      exact (and_iff_right hc).symm
    · obtain ⟨d, rest, hescaped⟩ := escapedChar_of_not_bare hc
      have hlonger := length_le_length_escaped cs
      constructor
      · intro h
        have hlength := congrArg List.length h
        rw [hescaped, List.length_append, List.length_cons, List.length_cons,
          List.length_cons] at hlength
        omega
      · intro h
        exact absurd h.1 hc

end Json

/-- All characters of the name stand for themselves in a quoted text. -/
def Quotable (name : String) : Prop := ∀ c ∈ name.toList, Json.Bare c

instance : DecidablePred Quotable := fun name =>
  inferInstanceAs (Decidable (∀ c ∈ name.toList, Json.Bare c))

/-- An ASCII letter, an underscore or a dollar sign. -/
def OpensName (c : Char) : Prop :=
  ('A' ≤ c ∧ c ≤ 'Z') ∨ ('a' ≤ c ∧ c ≤ 'z') ∨ c = '_' ∨ c = '$'

/-- The name begins with a letter, an underscore or a dollar sign, and has only these and digits. -/
def PlainName (name : String) : Prop :=
  ∃ c rest, name.toList = c :: rest ∧ OpensName c ∧
    ∀ d ∈ rest, OpensName d ∨ ('0' ≤ d ∧ d ≤ '9')

theorem isAlpha_iff : c.isAlpha = true ↔ ('A' ≤ c ∧ c ≤ 'Z') ∨ ('a' ≤ c ∧ c ≤ 'z') := by
  have hupper : c.isUpper = true ↔ 'A' ≤ c ∧ c ≤ 'Z' := decide_eq_true_iff
  have hlower : c.isLower = true ↔ 'a' ≤ c ∧ c ≤ 'z' :=
    Bool.and_eq_true_iff.trans (and_congr decide_eq_true_iff decide_eq_true_iff)
  exact Bool.or_eq_true_iff.trans (or_congr hupper hlower)

theorem isIdentifierStart_iff : isIdentifierStart c = true ↔ OpensName c := by
  rw [isIdentifierStart, Bool.or_eq_true, Bool.or_eq_true, isAlpha_iff, beq_iff_eq, beq_iff_eq,
    OpensName, or_assoc, or_assoc]

theorem isIdentifierPart_iff :
    isIdentifierPart c = true ↔ OpensName c ∨ ('0' ≤ c ∧ c ≤ '9') := by
  have hdigit : c.isDigit = true ↔ '0' ≤ c ∧ c ≤ '9' :=
    Bool.and_eq_true_iff.trans (and_congr decide_eq_true_iff decide_eq_true_iff)
  rw [isIdentifierPart, Bool.or_eq_true, isIdentifierStart_iff, hdigit]

theorem isPlainIdentifier_iff : isPlainIdentifier name.toList = true ↔ PlainName name := by
  rw [PlainName]
  cases name.toList with
  | nil => simp [isPlainIdentifier]
  | cons c rest =>
    by_cases hc : isIdentifierStart c
    · simp [isPlainIdentifier, identifierPart, hc, isIdentifierStart_iff.1 hc,
        ← isIdentifierPart_iff, List.takeWhile_eq_self_iff]
    · simp [isPlainIdentifier, identifierPart, hc, mt isIdentifierStart_iff.2 hc]

instance : DecidablePred PlainName := fun _ => decidable_of_iff _ isPlainIdentifier_iff

theorem bounds_of_namePart (h : OpensName c ∨ ('0' ≤ c ∧ c ≤ '9')) :
    0x24 ≤ c.toNat ∧ c.toNat ≤ 0x7A ∧ c.toNat ≠ 0x5C := by
  simp only [OpensName, Char.le_def, UInt32.le_iff_toNat_le] at h
  rcases h with (h | h | rfl | rfl) | h
  · change 65 ≤ c.toNat ∧ c.toNat ≤ 90 at h
    omega
  · change 97 ≤ c.toNat ∧ c.toNat ≤ 122 at h
    omega
  · decide
  · decide
  · change 48 ≤ c.toNat ∧ c.toNat ≤ 57 at h
    omega

theorem bare_of_namePart (h : OpensName c ∨ ('0' ≤ c ∧ c ≤ '9')) : Json.Bare c := by
  obtain ⟨hlow, -, hslash⟩ := bounds_of_namePart h
  refine ⟨?_, ?_, by omega⟩
  · rintro rfl
    exact absurd hlow (by decide)
  · rintro rfl
    exact hslash rfl

theorem PlainName.quotable (h : PlainName name) : Quotable name := by
  obtain ⟨c, rest, hname, hc, hrest⟩ := h
  rw [Quotable, hname, List.forall_mem_cons]
  exact ⟨bare_of_namePart (Or.inl hc), fun d hd => bare_of_namePart (hrest d hd)⟩

theorem checkErrorName_eq (strict : Bool) (name : String) :
    checkErrorName strict name =
      if ¬ Quotable name then .error (.unquotable name)
      else if strict ∧ ¬ PlainName name then .error (.irregular name)
      else .ok name := by
  have hplain : (strict && !isPlainIdentifier name.toList) = true ↔
      strict ∧ ¬ PlainName name := by
    rw [Bool.and_eq_true, Bool.not_eq_true', Bool.eq_false_iff, ne_eq, isPlainIdentifier_iff]
  exact if_congr (not_congr Json.escaped_eq_self_iff) rfl (if_congr hplain rfl rfl)

theorem checkErrorName_eq_ok_iff (strict : Bool) (name : String) :
    checkErrorName strict name = .ok name ↔ Quotable name ∧ (strict → PlainName name) := by
  rw [checkErrorName_eq]
  by_cases hq : Quotable name
  · by_cases hp : strict ∧ ¬ PlainName name
    · simp [hq, hp]
    · have hplain : strict → PlainName name := fun hs => by_contra fun hn => hp ⟨hs, hn⟩
      rw [if_neg (not_not_intro hq), if_neg hp]
      exact iff_of_true rfl ⟨hq, hplain⟩
  · simp [hq]

/-- A rejected name fails the default check, or the strict one alone. -/
theorem checkErrorName_eq_error {strict : Bool} {fault : NameFault}
    (h : checkErrorName strict name = .error fault) :
    fault = .unquotable name ∧ ¬ Quotable name ∨
      fault = .irregular name ∧ Quotable name ∧ ¬ PlainName name := by
  rw [checkErrorName_eq] at h
  split at h
  · next hq => exact Or.inl ⟨(Except.error.inj h).symm, hq⟩
  · next hq =>
    split at h
    · next hp => exact Or.inr ⟨(Except.error.inj h).symm, not_not.1 hq, hp.2⟩
    · cases h

theorem read_quotedName (f : NameFault) :
    Json.read f.quotedName.toList = .ok (.text f.name) :=
  Json.read_quoted .plain f.name

/-- The two messages differ in one word. -/
theorem valid_message_ne_plain (quoted : String) :
    "The errorName " ++ quoted ++ " is not a valid Javascript identifier" ≠
      "The errorName " ++ quoted ++ " is not a plain Javascript identifier" := by
  intro h
  have hend := String.append_right_inj _ |>.1 h
  revert hend
  decide

/-- By default a name is accepted if it has no quote, no backslash and no control character, and
strictly if it is a plain one. Otherwise the fault tells the name, and its message tells which
check has failed, with the name quoted so that it can be read again. -/
theorem checkErrorName_decides (name : String) :
    (checkErrorName false name = .ok name ↔ Quotable name) ∧
      (checkErrorName true name = .ok name ↔ PlainName name) ∧
      ∀ strict, checkErrorName strict name = .ok name ∨
        ∃ fault quoted, checkErrorName strict name = .error fault ∧ fault.name = name ∧
          Json.read quoted.toList = .ok (.text name) ∧
          (fault.message = "The errorName " ++ quoted ++
            " is not a valid Javascript identifier" ↔ ¬ Quotable name) ∧
          (fault.message = "The errorName " ++ quoted ++
            " is not a plain Javascript identifier" ↔ Quotable name ∧ ¬ PlainName name) := by
  refine ⟨?_, ?_, fun strict => ?_⟩
  · rw [checkErrorName_eq_ok_iff]
    simp
  · rw [checkErrorName_eq_ok_iff]
    exact ⟨fun h => h.2 rfl, fun h => ⟨h.quotable, fun _ => h⟩⟩
  cases hcheck : checkErrorName strict name with
  | ok accepted =>
    obtain rfl := eq_of_checkErrorName hcheck
    exact Or.inl rfl
  | error fault =>
    right
    rcases checkErrorName_eq_error hcheck with ⟨rfl, hq⟩ | ⟨rfl, hq, hp⟩
    · refine ⟨_, _, rfl, rfl, read_quotedName (.unquotable name), ?_, ?_⟩
      · exact iff_of_true rfl hq
      · exact iff_of_false (valid_message_ne_plain _) fun h => hq h.1
    · refine ⟨_, _, rfl, rfl, read_quotedName (.irregular name), ?_, ?_⟩
      · exact iff_of_false (valid_message_ne_plain _).symm (not_not_intro hq)
      · exact iff_of_true rfl ⟨hq, hp⟩

end TypedModule
