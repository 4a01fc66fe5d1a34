import Mathlib.Data.List.Basic
import TypedModule.Disk.Basic

/-!
# Writing to a disk

Only a place that is no directory can be written to, so a write takes no path away: whatever led
somewhere before still leads there. The path that was written to leads to the new file, and every
other place is as it was.
-/

namespace TypedModule.Disk

variable {d : Disk} {place other start next : Place} {content : List UInt8}
  {path name : String} {names : List String}

theorem entry?_root (d : Disk) : d.entry? [] = some .directory := if_pos rfl

theorem entry?_of_ne_root (d : Disk) (hplace : place ≠ []) :
    d.entry? place = lookUp place d.entries := if_neg hplace

theorem entry?_put_self (hplace : place ≠ []) :
    entry? (d.put place content) place = some (.file content) := by
  rw [entry?_of_ne_root _ hplace]
  exact lookUp_setEntry_self place _ d.entries

theorem entry?_put_of_ne (hother : other ≠ place) :
    entry? (d.put place content) other = d.entry? other := by
  by_cases hroot : other = []
  · rw [hroot, entry?_root, entry?_root]
  · rw [entry?_of_ne_root _ hroot, entry?_of_ne_root _ hroot]
    exact lookUp_setEntry_of_ne hother _ d.entries

theorem ne_root_of_not_directory (h : d.entry? place ≠ some .directory) : place ≠ [] := by
  rintro rfl
  exact h rfl

theorem entry?_of_step (h : d.step place name = .ok next) : d.entry? place = some .directory := by
  rw [step] at h
  split at h
  · cases h
  · cases h
  · assumption

theorem step_put (hplace : d.entry? place ≠ some .directory) (h : d.step start name = .ok next) :
    (d.put place content).step start name = .ok next := by
  have hstart := entry?_of_step h
  have hne : start ≠ place := by
    rintro rfl
    exact hplace hstart
  rw [step, entry?_put_of_ne hne]
  exact h

theorem walk_cons_eq_ok (h : d.walk start (name :: names) = .ok place) :
    ∃ next, d.step start name = .ok next ∧ d.walk next names = .ok place := by
  rw [walk, List.foldlM_cons] at h
  cases hstep : d.step start name with
  | error e => rw [hstep] at h; cases h
  | ok next => rw [hstep] at h; exact ⟨next, rfl, h⟩

theorem walk_cons_of_step (h : d.step start name = .ok next) :
    d.walk start (name :: names) = d.walk next names := by
  rw [walk, List.foldlM_cons, h]
  rfl

theorem walk_put (hplace : d.entry? place ≠ some .directory) (h : d.walk start names = .ok other) :
    (d.put place content).walk start names = .ok other := by
  induction names generalizing start with
  | nil => exact h
  | cons name names ih =>
    obtain ⟨next, hstep, hrest⟩ := walk_cons_eq_ok h
    rw [walk_cons_of_step (step_put hplace hstep)]
    exact ih hrest

theorem walk_concat {parent : Place} {last : String} (hparent : d.walk start names = .ok parent)
    (hlast : d.step parent last = .ok place) : d.walk start (names ++ [last]) = .ok place := by
  rw [walk] at hparent
  rw [walk, List.foldlM_append, hparent]
  exact (walk_cons_of_step hlast).trans rfl

theorem writable_eq_ok (h : d.writable path = .ok place) :
    ∃ p start, d.begin path = .ok (p, start) ∧ d.walk start p.names = .ok place ∧
      p.slashed = false ∧ d.entry? place ≠ some .directory := by
  rw [writable] at h
  split at h
  · cases h
  · next p start hbegin =>
    split at h
    · cases h
    · next last hlast =>
      split at h
      · cases h
      · next parent hparent =>
        split at h
        · cases h
        · cases h
        · next reached hstep =>
          split at h
          · cases h
          · next hslashed =>
            split at h
            · cases h
            · next hentry =>
              obtain rfl := Except.ok.inj h
              refine ⟨p, start, hbegin, ?_, by simpa using hslashed, hentry⟩
              have hnames : p.names.dropLast ++ [last] = p.names :=
                List.dropLast_append_getLast? last hlast
              rw [← hnames]
              exact walk_concat hparent hstep

theorem entry?_put_writable (h : d.writable path = .ok place) :
    entry? (d.put place content) place = some (.file content) := by
  obtain ⟨p, start, -, -, -, hentry⟩ := writable_eq_ok h
  exact entry?_put_self (ne_root_of_not_directory hentry)

/-- A place holds the content now, and nothing else is different. -/
structure ChangedOnly (d after : Disk) (place : Place) (content : List UInt8) : Prop where
  entry : after.entry? place = some (.file content)
  others : ∀ other, other ≠ place → after.entry? other = d.entry? other
  here : after.here = d.here

theorem changedOnly_put (h : d.writable path = .ok place) :
    ChangedOnly d (d.put place content) place content where
  entry := entry?_put_writable h
  others _ hother := entry?_put_of_ne hother
  here := rfl

theorem read_put_writable (h : d.writable path = .ok place) :
    (d.put place content).read path = .ok content := by
  obtain ⟨p, start, hbegin, hwalk, hslashed, hentry⟩ := writable_eq_ok h
  have hbegin' : (d.put place content).begin path = .ok (p, start) := hbegin
  have hfound : (d.put place content).find path = .ok (.file content) := by
    simp only [find, hbegin', walk_put hentry hwalk, entry?_put_writable h, hslashed]
    rfl
  rw [read, hfound]

theorem present_of_read (h : d.read path = .ok content) : d.present path = true := by
  rw [read] at h
  rw [present]
  cases hfind : d.find path with
  | error e => rw [hfind] at h; cases h
  | ok entry => rfl

theorem begin_ne_zeroChar (h : '\x00' ∉ path.toList) : d.begin path ≠ .error .zeroChar := by
  have hcontains : path.toList.contains '\x00' = false := by simpa using h
  rw [begin, hcontains]
  split
  · contradiction
  · split
    · simp
    · split <;> simp

theorem step_ne_zeroChar : d.step place name ≠ .error .zeroChar := by
  rw [step]
  split
  · simp
  · simp
  · split
    · simp
    · split
      · simp
      · split <;> simp

theorem walk_ne_zeroChar : d.walk start names ≠ .error .zeroChar := by
  induction names generalizing start with
  | nil => exact fun h => nomatch h
  | cons name names ih =>
    cases hstep : d.step start name with
    | error e =>
      intro h
      rw [walk, List.foldlM_cons, hstep] at h
      obtain rfl := Except.error.inj h
      exact step_ne_zeroChar hstep
    | ok next =>
      rw [walk_cons_of_step hstep]
      exact ih

theorem read_ne_zeroChar (h : '\x00' ∉ path.toList) : d.read path ≠ .error .zeroChar := by
  have hfind : d.find path ≠ .error .zeroChar := by
    rw [find]
    split
    · next e hbegin =>
      rintro ⟨⟩
      exact begin_ne_zeroChar h hbegin
    · split
      · next e hwalk =>
        rintro ⟨⟩
        exact walk_ne_zeroChar hwalk
      · split
        · simp
        · simp
        · split <;> simp
  rw [read]
  split
  · next e he =>
    rintro ⟨⟩
    exact hfind he
  · simp
  · simp

theorem writable_ne_zeroChar (h : '\x00' ∉ path.toList) : d.writable path ≠ .error .zeroChar := by
  rw [writable]
  split
  · next e hbegin =>
    rintro ⟨⟩
    exact begin_ne_zeroChar h hbegin
  · split
    · simp
    · split
      · next e hwalk =>
        rintro ⟨⟩
        exact walk_ne_zeroChar hwalk
      · split
        · split <;> simp
        · next e _ hstep =>
          rintro ⟨⟩
          exact step_ne_zeroChar hstep
        · split
          · simp
          · split <;> simp

end TypedModule.Disk
