import Mathlib.Data.List.Basic
import TypedModule.Command.Run
import TypedModule.Proofs.Text.Utf8

/-!
# What a run reads

`Disk.Holds` says of a path and a text, without reading anything, that the file at the path is the
encoding of the text. The settings of a run come from the texts of two files and from the
arguments: what is given last wins, and an argument that was given nothing fits no setting.
-/

namespace TypedModule

open Settings

variable {d : Disk} {path : String} {text cs : List Char} {s : Settings}

/-- The file at the path is the encoding of the text. -/
def Disk.Holds (d : Disk) (path : String) (text : List Char) : Prop :=
  d.read path = .ok (Utf8.encode text)

theorem Disk.Holds.unique (h : d.Holds path text) (hcs : d.Holds path cs) : text = cs := by
  have hsame : Utf8.encode text = Utf8.encode cs := Except.ok.inj (h.symm.trans hcs)
  exact Except.ok.inj ((Utf8.decode_encode text).symm.trans (Utf8.decode_eq_ok_iff.2 hsame))

theorem fileText_eq_ok_iff {octets : List UInt8} :
    fileText octets = .ok cs ↔ ∃ text, octets = Utf8.encode text ∧ cs = foldNewlines text := by
  rw [fileText]
  constructor
  · intro h
    cases hdecode : Utf8.decode octets with
    | error fault => rw [hdecode] at h; cases h
    | ok text =>
      rw [hdecode] at h
      exact ⟨text, Utf8.decode_eq_ok_iff.1 hdecode, (Except.ok.inj h).symm⟩
  · rintro ⟨text, rfl, rfl⟩
    rw [Utf8.decode_encode]
    rfl

theorem readText_of_error {e : PathFault} (h : d.read path = .error e) :
    d.files.readText path = .error (.path path e) := by
  simp only [Files.readText, Disk.files, h]

theorem readText_of_octets {octets : List UInt8} (h : d.read path = .ok octets) :
    d.files.readText path = (fileText octets).mapError ReadFault.undecodable := by
  simp only [Files.readText, Disk.files, h]
  cases fileText octets <;> rfl

theorem readText_eq_ok_iff :
    d.files.readText path = .ok cs ↔ ∃ text, d.Holds path text ∧ cs = foldNewlines text := by
  cases hread : d.read path with
  | error e => simp [Disk.Holds, readText_of_error hread, hread]
  | ok octets =>
    have hholds : (∃ text, d.Holds path text ∧ cs = foldNewlines text) ↔ fileText octets = .ok cs := by
      simp only [Disk.Holds, hread, Except.ok.injEq, fileText_eq_ok_iff]
    rw [hholds, readText_of_octets hread]
    cases fileText octets <;> simp [Except.mapError]

theorem readText_eq_ok (h : d.Holds path text) :
    d.files.readText path = .ok (foldNewlines text) :=
  readText_eq_ok_iff.2 ⟨text, h, rfl⟩

theorem readText_ne_zeroChar {other : String} (h : d.read path ≠ .error .zeroChar) :
    d.files.readText path ≠ .error (.path other .zeroChar) := by
  cases hread : d.read path with
  | error e =>
    rw [readText_of_error hread]
    rintro ⟨⟩
    exact h hread
  | ok octets =>
    rw [readText_of_octets hread]
    cases fileText octets <;> simp [Except.mapError]

theorem load_eq_ok_iff :
    load d.files path = .ok s ↔
      ∃ text value, d.Holds path text ∧ Json.read (foldNewlines text) = .ok value ∧
        ofJson value = .ok s := by
  constructor
  · intro h
    rw [load] at h
    split at h
    · cases h
    · cases h
    · cases h
    · next cs hcs =>
      obtain ⟨text, htext, rfl⟩ := readText_eq_ok_iff.1 hcs
      split at h
      · cases h
      · next value hvalue =>
        split at h
        · cases h
        · next s' hs =>
          obtain rfl := Except.ok.inj h
          exact ⟨text, value, htext, hvalue, hs⟩
  · rintro ⟨text, value, htext, hvalue, hs⟩
    simp only [load, readText_eq_ok htext, hvalue, hs]

theorem load_ne_zeroChar (h : d.read path ≠ .error .zeroChar) :
    load d.files path ≠ .error .zeroChar := by
  rw [load]
  split
  · next hread => exact absurd hread (readText_ne_zeroChar h)
  · simp
  · simp
  · split
    · simp
    · split <;> simp

namespace Command.Arguments

variable {a : Arguments} {config : Settings} {lead : Option (List Char)}

theorem textField_override (key : String) (old : Option String) {given : Option Value}
    (h : given ≠ some .nothing) :
    textField key (override (ofOption old) (field given)) =
      .ok ((given.bind Value.text?).or old) := by
  cases given with
  | none => cases old <;> rfl
  | some value =>
    cases value with
    | text s => rfl
    | nothing => exact absurd rfl h

theorem textField_override_nothing (key : String) (old : Option String) :
    textField key (override (ofOption old) (field (some .nothing))) =
      .error (.wrongKind key "str" (.array [])) :=
  rfl

theorem flagField_override (old given : Bool) :
    flagField "trace" (override (.scalar (.bool old))
      (if given then .scalar (.bool true) else .null)) = .ok (some (given || old)) := by
  cases given <;> rfl

/-- The header, as the text of the header file or as an argument. -/
def headerGiven (a : Arguments) (lead : Option (List Char)) : Option Value :=
  match lead with
  | none => a.header
  | some cs => some (.text (String.ofList (dropEndWhile (· == '\n') cs)))

/-- The settings in force, given those of the settings file and the text of the header file. -/
def chosen (a : Arguments) (config : Settings) (lead : Option (List Char)) : Settings where
  header := nonempty (((a.headerGiven lead).bind Value.text?).or config.header)
  errorName := some (nameOrDefault ((a.errorName.bind Value.text?).or config.errorName))
  trace := a.trace || config.trace

theorem overridden_eq_ok_iff :
    config.overridden (a.fields (field (a.headerGiven lead))) = .ok s ↔
      a.headerGiven lead ≠ some .nothing ∧ a.errorName ≠ some .nothing ∧
        s = a.chosen config lead := by
  rw [overridden, ofFields]
  by_cases hheader : a.headerGiven lead = some .nothing
  · simp only [fields, hheader, textField_override_nothing]
    simp
  · by_cases hname : a.errorName = some .nothing
    · simp only [fields, textField_override _ _ hheader, hname, textField_override_nothing]
      simp
    · simp only [fields, textField_override _ _ hheader, textField_override _ _ hname,
        flagField_override, Except.ok.injEq]
      exact ⟨fun h => ⟨hheader, hname, h.symm⟩, fun h => h.2.2.symm⟩

/-- Neither the header nor the name was given nothing. -/
def Textual (a : Arguments) : Prop := a.header ≠ some .nothing ∧ a.errorName ≠ some .nothing

/-- The settings are those of the settings file, if one is named. -/
def Configures (a : Arguments) (d : Disk) (config : Settings) : Prop :=
  match path? a.config with
  | none => config = {}
  | some path => ∃ text value, d.Holds path text ∧ Json.read (foldNewlines text) = .ok value ∧
      ofJson value = .ok config

/-- The text is the one read from the header file, if one is named. -/
def Leads (a : Arguments) (d : Disk) (lead : Option (List Char)) : Prop :=
  match path? a.headerFile with
  | none => lead = none
  | some path => ∃ text, d.Holds path text ∧ lead = some (foldNewlines text)

theorem configSettings_eq_ok_iff :
    a.configSettings d.files = .ok config ↔ a.Configures d config := by
  rw [configSettings, Configures]
  cases path? a.config with
  | none => exact ⟨fun h => (Except.ok.inj h).symm, fun h => congrArg Except.ok h.symm⟩
  | some path =>
    dsimp only
    rw [← load_eq_ok_iff]
    cases load d.files path with
    | ok s => simp
    | error e => cases e <;> simp

theorem leads_none (hpath : path? a.headerFile = none) : a.Leads d none := by
  rw [Leads, hpath]

theorem leads_some (hpath : path? a.headerFile = some path) (h : d.Holds path text) :
    a.Leads d (some (foldNewlines text)) := by
  rw [Leads, hpath]
  exact ⟨text, h, rfl⟩

theorem headerField_eq_ok (h : a.Leads d lead) :
    a.headerField d.files = .ok (field (a.headerGiven lead)) := by
  rw [Leads] at h
  rw [headerField]
  cases hpath : path? a.headerFile with
  | none =>
    simp only [hpath] at h
    subst h
    rfl
  | some path =>
    simp only [hpath] at h
    obtain ⟨text, htext, rfl⟩ := h
    simp only [readText_eq_ok htext]
    rfl

theorem leads_of_headerField {header : Json} (h : a.headerField d.files = .ok header) :
    ∃ lead, a.Leads d lead := by
  rw [headerField] at h
  cases hpath : path? a.headerFile with
  | none => exact ⟨none, leads_none hpath⟩
  | some path =>
    simp only [hpath] at h
    split at h
    · cases h
    · next cs hcs =>
      obtain ⟨text, htext, rfl⟩ := readText_eq_ok_iff.1 hcs
      exact ⟨some (foldNewlines text), leads_some hpath htext⟩

theorem headerGiven_ne_nothing_iff (hone : a.header = none ∨ a.headerFile = none)
    (hlead : a.Leads d lead) :
    a.headerGiven lead ≠ some .nothing ↔ a.header ≠ some .nothing := by
  rw [Leads] at hlead
  cases hpath : path? a.headerFile with
  | none =>
    simp only [hpath] at hlead
    subst hlead
    rfl
  | some path =>
    simp only [hpath] at hlead
    obtain ⟨text, -, rfl⟩ := hlead
    rcases hone with hheader | hfile
    · simp [headerGiven, hheader]
    · rw [hfile] at hpath
      cases hpath

theorem settings_eq_ok_iff :
    a.settings d.files = .ok s ↔
      (a.header = none ∨ a.headerFile = none) ∧ a.Textual ∧
        ∃ config lead, a.Configures d config ∧ a.Leads d lead ∧ s = a.chosen config lead := by
  have htwo : (a.header.isSome && a.headerFile.isSome) = true ↔
      ¬ (a.header = none ∨ a.headerFile = none) := by
    cases a.header <;> cases a.headerFile <;> simp
  rw [settings, if_congr htwo rfl rfl]
  by_cases hone : a.header = none ∨ a.headerFile = none
  · rw [if_neg (not_not_intro hone)]
    constructor
    · intro h
      split at h
      · cases h
      · next config hconfig =>
        split at h
        · cases h
        · next header hheader =>
          obtain ⟨lead, hlead⟩ := leads_of_headerField hheader
          obtain rfl := Except.ok.inj ((headerField_eq_ok hlead).symm.trans hheader)
          split at h
          · cases h
          · next s' hs =>
            obtain rfl := Except.ok.inj h
            obtain ⟨hgiven, hname, rfl⟩ := overridden_eq_ok_iff.1 hs
            exact ⟨hone, ⟨(headerGiven_ne_nothing_iff hone hlead).1 hgiven, hname⟩, config, lead,
              configSettings_eq_ok_iff.1 hconfig, hlead, rfl⟩
    · rintro ⟨-, htextual, config, lead, hconfig, hlead, rfl⟩
      have hgiven := (headerGiven_ne_nothing_iff hone hlead).2 htextual.1
      simp only [configSettings_eq_ok_iff.2 hconfig, headerField_eq_ok hlead,
        overridden_eq_ok_iff.2 ⟨hgiven, htextual.2, rfl⟩]
  · rw [if_pos hone]
    exact ⟨nofun, fun h => absurd h.1 hone⟩

end Command.Arguments

end TypedModule
