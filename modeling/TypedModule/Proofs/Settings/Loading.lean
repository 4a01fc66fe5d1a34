import TypedModule.Proofs.Command.Inputs
import TypedModule.Proofs.Disk.Writing
import TypedModule.Proofs.Json.Grammar
import TypedModule.Proofs.Settings.Overrides

/-!
# Loading a settings file

Loading goes through four steps: the path leads to octets, the octets encode a text, the text with
its line ends folded is data, and the data are settings. Each step may fail, and what comes of the
file is told by the first that does. All failures are faults of the settings but one: octets that
encode no text.
-/

namespace TypedModule

open Settings Json

variable {d : Disk} {path : String} {text : List Char} {e : PathFault} {value : Json}
  {config : Settings}

/-- The file at the path is data with the value. -/
def Disk.HoldsData (d : Disk) (path : String) (value : Json) : Prop :=
  ∃ text, d.Holds path text ∧ Denotes (foldNewlines text) value

/-- The octets of the file at the path encode no text. -/
def Disk.Garbled (d : Disk) (path : String) : Prop :=
  ∃ octets, d.read path = .ok octets ∧ ∀ text, octets ≠ Utf8.encode text

namespace Settings

theorem load_of_read_error (he : d.read path = .error e) (hzero : e ≠ .zeroChar) :
    load d.files path = .error (.settings (.unreadable path e.text)) := by
  rw [load, readText_of_error he]
  cases e with
  | zeroChar => exact absurd rfl hzero
  | _ => rfl

theorem load_of_garbled (h : d.Garbled path) :
    ∃ fault, load d.files path = .error (.undecodable fault) := by
  obtain ⟨octets, hread, hnone⟩ := h
  cases htext : fileText octets with
  | ok cs =>
    obtain ⟨text, htext, -⟩ := fileText_eq_ok_iff.1 htext
    exact absurd htext (hnone text)
  | error fault =>
    refine ⟨fault, ?_⟩
    rw [load, readText_of_octets hread, htext]
    rfl

theorem load_of_no_data (h : d.Holds path text)
    (hnone : ¬ ∃ value, Denotes (foldNewlines text) value) :
    ∃ reason, load d.files path = .error (.settings (.malformed path reason)) := by
  cases hread : Json.read (foldNewlines text) with
  | ok value => exact absurd ⟨value, read_eq_ok_iff.1 hread⟩ hnone
  | error fault =>
    refine ⟨fault.message (foldNewlines text), ?_⟩
    simp only [load, readText_eq_ok h, hread]

theorem load_of_data (h : d.HoldsData path value) :
    load d.files path = (ofJson value).mapError .settings := by
  obtain ⟨text, htext, hvalue⟩ := h
  simp only [load, readText_eq_ok htext, read_eq_ok_iff.2 hvalue]
  cases ofJson value <;> rfl

/-- A file is one of four, and each is loaded in a way of its own. -/
theorem file_cases (d : Disk) (path : String) :
    (∃ e, d.read path = .error e) ∨ d.Garbled path ∨
      (∃ text, d.Holds path text ∧ ¬ ∃ value, Denotes (foldNewlines text) value) ∨
      ∃ value, d.HoldsData path value := by
  cases hread : d.read path with
  | error e => exact Or.inl ⟨e, rfl⟩
  | ok octets =>
    by_cases htext : ∃ text, octets = Utf8.encode text
    · obtain ⟨text, rfl⟩ := htext
      by_cases hvalue : ∃ value, Denotes (foldNewlines text) value
      · obtain ⟨value, hvalue⟩ := hvalue
        exact Or.inr (Or.inr (Or.inr ⟨value, text, hread, hvalue⟩))
      · exact Or.inr (Or.inr (Or.inl ⟨text, hread, hvalue⟩))
    · exact Or.inr (Or.inl ⟨octets, hread, not_exists.1 htext⟩)

theorem load_eq_ok_iff_holdsData :
    load d.files path = .ok config ↔
      ∃ value, d.HoldsData path value ∧ ofJson value = .ok config := by
  rw [load_eq_ok_iff]
  constructor
  · rintro ⟨text, value, htext, hvalue, hconfig⟩
    exact ⟨value, ⟨text, htext, read_eq_ok_iff.1 hvalue⟩, hconfig⟩
  · rintro ⟨value, ⟨text, htext, hvalue⟩, hconfig⟩
    exact ⟨text, value, htext, read_eq_ok_iff.2 hvalue, hconfig⟩

theorem normal_of_load (hload : load d.files path = .ok config) : config.Normal := by
  obtain ⟨value, -, hvalue⟩ := load_eq_ok_iff_holdsData.1 hload
  have hread : apply {} (.read value) = .ok config := hvalue
  exact normal_of_apply hread

/-- Only octets that encode no text are another failure than a fault of the settings. -/
theorem load_fails_otherwise_iff (hzero : '\x00' ∉ path.toList) :
    (∃ fault, load d.files path = .error fault ∧ ∀ f, fault ≠ .settings f) ↔ d.Garbled path := by
  constructor
  · rintro ⟨fault, hload, hother⟩
    have hfault {f : SettingsFault} : load d.files path ≠ .error (.settings f) := by
      intro hf
      exact hother f (Except.error.inj (hload.symm.trans hf))
    obtain ⟨e, he⟩ | hgarbled | ⟨text, htext, hnone⟩ | ⟨value, hvalue⟩ := file_cases d path
    · have hchar : e ≠ .zeroChar := by
        rintro rfl
        exact Disk.read_ne_zeroChar hzero he
      exact absurd (load_of_read_error he hchar) hfault
    · exact hgarbled
    · obtain ⟨reason, hreason⟩ := load_of_no_data htext hnone
      exact absurd hreason hfault
    · have hdata := load_of_data hvalue
      cases hsettings : ofJson value with
      | ok s =>
        rw [hsettings, hload] at hdata
        cases hdata
      | error f =>
        rw [hsettings] at hdata
        exact absurd hdata hfault
  · intro h
    obtain ⟨fault, hload⟩ := load_of_garbled h
    exact ⟨_, hload, nofun⟩

/-- What comes of loading the file at a path without the character zero. Settings are loaded if and
only if the file is data that are settings, and then they are these, in normal form. A path that
cannot be read, a text that is no data and data that are no settings are faults of the settings, and
each names its cause. Nothing else can go wrong but that the octets of the file encode no text, and
that is no fault of the settings. -/
theorem load_outcomes (hzero : '\x00' ∉ path.toList) :
    (∀ s, load d.files path = .ok s ↔
        ∃ value, d.HoldsData path value ∧ ofJson value = .ok s) ∧
      (∀ s, load d.files path = .ok s → s.Normal) ∧
      (∀ value fault, d.HoldsData path value → ofJson value = .error fault →
        load d.files path = .error (.settings fault)) ∧
      (∀ text, d.Holds path text → (¬ ∃ value, Denotes (foldNewlines text) value) →
        ∃ reason, load d.files path = .error (.settings (.malformed path reason))) ∧
      (∀ e, d.read path = .error e →
        load d.files path = .error (.settings (.unreadable path e.text))) ∧
      ((∃ fault, load d.files path = .error fault ∧ ∀ f, fault ≠ .settings f) ↔
        d.Garbled path) := by
  refine ⟨fun s => load_eq_ok_iff_holdsData, fun s => normal_of_load, ?_, fun text => load_of_no_data,
    ?_, load_fails_otherwise_iff hzero⟩
  · intro value fault hvalue hfault
    rw [load_of_data hvalue, hfault]
    rfl
  · intro e he
    apply load_of_read_error he
    rintro rfl
    exact Disk.read_ne_zeroChar hzero he

/-- One file in the directory where the walk begins. -/
def lone (name : String) (octets : List UInt8) : Disk where
  entries := [([name], .file octets)]

theorem load_outcomes_lone :
    (load (lone "c.json" (Utf8.encode "\x7b\x7d".toList)).files "c.json" = .ok {}) ∧
      (∃ reason, load (lone "c.json" []).files "c.json" =
        .error (.settings (.malformed "c.json" reason))) ∧
      load (lone "c.json" []).files "c" =
        .error (.settings (.unreadable "c" "No such file or directory")) := by
  have hempty : (lone "c.json" []).Holds "c.json" [] := rfl
  refine ⟨?_, ?_, ?_⟩
  · refine ((load_outcomes (by decide)).1 {}).2 ⟨.object [], ⟨"\x7b\x7d".toList, rfl, ?_⟩, rfl⟩
    exact read_eq_ok_iff.1 rfl
  · refine (load_outcomes (by decide)).2.2.2.1 [] hempty ?_
    rintro ⟨value, hvalue⟩
    cases read_eq_ok_iff.2 hvalue
  · exact (load_outcomes (by decide)).2.2.2.2.1 .missing rfl

/-- An octet that begins no character: the file is not loaded, and this is no fault of the
settings. -/
theorem load_lone_stray :
    '\x00' ∉ "c.json".toList ∧
      load (lone "c.json" [0xFF]).files "c.json" =
        .error (.undecodable ⟨0, [0xFF], .badStart⟩) ∧
      ¬ ((∃ s, load (lone "c.json" [0xFF]).files "c.json" = .ok s) ∨
        ∃ fault, load (lone "c.json" [0xFF]).files "c.json" = .error (.settings fault)) := by
  have hload : load (lone "c.json" [0xFF]).files "c.json" =
      .error (.undecodable ⟨0, [0xFF], .badStart⟩) := rfl
  refine ⟨by decide, hload, ?_⟩
  rw [hload]
  rintro (⟨s, hs⟩ | ⟨fault, hfault⟩)
  · cases hs
  · cases hfault

end Settings

end TypedModule
