import Mathlib.Data.List.Induction
import TypedModule.Graph.Pass
import TypedModule.Settings.Chain

/-!
# Overriding settings

Whatever a chain of settings goes through, its settings are in normal form: no header is empty,
and there is a name, which is not empty. Fields of the right types always override, and a field
that is nothing leaves what was there. So two overrides come to one, and after many of them each
setting is what it was last set to. The pass sees no difference between settings and their normal
form.
-/

namespace TypedModule

variable {s t : Settings} {f a b : Fields} {fs : List Fields} {j old : Json} {key : String}

namespace Settings

def givenText : Json → Option String
  | .text s => some s
  | _ => none

def givenFlag : Json → Option Bool
  | .scalar (.bool b) => some b
  | _ => none

/-- Nothing, or a value of the type that is read off it. -/
def Suits {α : Type} (given : Json → Option α) (j : Json) : Prop :=
  j = .null ∨ ∃ x, given j = some x

end Settings

structure Fields.WellTyped (f : Fields) : Prop where
  header : Settings.Suits Settings.givenText f.header
  errorName : Settings.Suits Settings.givenText f.errorName
  trace : Settings.Suits Settings.givenFlag f.trace

/-- The later of two lots of fields, with the earlier where it has nothing. -/
def Fields.over (later earlier : Fields) : Fields where
  header := Settings.override earlier.header later.header
  errorName := Settings.override earlier.errorName later.errorName
  trace := Settings.override earlier.trace later.trace

namespace Settings

theorem textField_eq_ok_iff {text : Option String} :
    textField key j = .ok text ↔ Suits givenText j ∧ text = givenText j := by
  cases j with
  | text s => simp [textField, Suits, givenText, eq_comm]
  | array items => simp [textField, Suits, givenText]
  | object fields => simp [textField, Suits, givenText]
  | scalar v => cases v <;> simp [textField, Suits, givenText, eq_comm]

theorem flagField_eq_ok_iff {flag : Option Bool} :
    flagField key j = .ok flag ↔ Suits givenFlag j ∧ flag = givenFlag j := by
  cases j with
  | text s => simp [flagField, Suits, givenFlag]
  | array items => simp [flagField, Suits, givenFlag]
  | object fields => simp [flagField, Suits, givenFlag]
  | scalar v => cases v <;> simp [flagField, Suits, givenFlag, eq_comm]

theorem ofFields_eq_ok_iff :
    ofFields f = .ok s ↔ f.WellTyped ∧
      s = ⟨nonempty (givenText f.header), some (nameOrDefault (givenText f.errorName)),
        (givenFlag f.trace).getD false⟩ := by
  constructor
  · intro h
    rw [ofFields] at h
    split at h
    · cases h
    · next header hheader =>
      split at h
      · cases h
      · next name hname =>
        split at h
        · cases h
        · next trace htrace =>
          obtain ⟨hfirst, rfl⟩ := textField_eq_ok_iff.1 hheader
          obtain ⟨hsecond, rfl⟩ := textField_eq_ok_iff.1 hname
          obtain ⟨hthird, rfl⟩ := flagField_eq_ok_iff.1 htrace
          exact ⟨⟨hfirst, hsecond, hthird⟩, (Except.ok.inj h).symm⟩
  · intro h
    obtain ⟨hf, rfl⟩ := h
    rw [ofFields, textField_eq_ok_iff.2 ⟨hf.header, rfl⟩]
    simp only [textField_eq_ok_iff.2 ⟨hf.errorName, rfl⟩, flagField_eq_ok_iff.2 ⟨hf.trace, rfl⟩]

/-- No header is empty, and there is a name, which is not empty. -/
structure Normal (s : Settings) : Prop where
  header : s.header ≠ some ""
  errorName : ∃ name, s.errorName = some name ∧ name ≠ ""

theorem nonempty_ne_empty (text : Option String) : nonempty text ≠ some "" := by
  rw [nonempty.eq_def]
  split
  · exact nofun
  · next h => exact h

theorem nonempty_of_ne_empty {text : Option String} (h : text ≠ some "") :
    nonempty text = text := by
  rw [nonempty.eq_def]
  split
  · exact absurd rfl h
  · rfl

theorem nameOrDefault_ne_empty (name : Option String) : nameOrDefault name ≠ "" := by
  rw [nameOrDefault]
  cases h : nonempty name with
  | none => exact (by decide : defaultErrorName ≠ "")
  | some text =>
    intro hempty
    have hsome : nonempty name = some "" := h.trans (congrArg some hempty)
    exact nonempty_ne_empty name hsome

theorem nameOrDefault_of_ne_empty {name : String} (h : name ≠ "") :
    nameOrDefault (some name) = name := by
  rw [nameOrDefault, nonempty_of_ne_empty fun hname => h (Option.some.inj hname)]
  rfl

theorem normal_default : Normal {} := ⟨nofun, defaultErrorName, rfl, by decide⟩

theorem normal_of_ofFields (h : ofFields f = .ok s) : s.Normal := by
  obtain ⟨-, rfl⟩ := ofFields_eq_ok_iff.1 h
  exact ⟨nonempty_ne_empty _, _, rfl, nameOrDefault_ne_empty _⟩

/-- Whatever a step makes is in normal form, even if the settings before were not. -/
theorem normal_of_apply {step : Step} (h : s.apply step = .ok t) : t.Normal := by
  cases step with
  | build fields => exact normal_of_ofFields h
  | override fields => exact normal_of_ofFields h
  | read value =>
    cases value with
    | object fields =>
      rw [apply, ofJson] at h
      dsimp only at h
      split at h
      · exact normal_of_ofFields h
      · cases h
    | scalar v => cases h
    | text text => cases h
    | array items => cases h

theorem after_of_error {step : Step} {fault : SettingsFault} (h : s.apply step = .error fault) :
    s.after step = s := by
  rw [after, h]

theorem after_of_ok {step : Step} (h : s.apply step = .ok t) : s.after step = t := by
  rw [after, h]

theorem Normal.after (hs : s.Normal) (step : Step) : (s.after step).Normal := by
  cases h : s.apply step with
  | error fault => rwa [after_of_error h]
  | ok t =>
    rw [after_of_ok h]
    exact normal_of_apply h

theorem final_concat (s : Settings) (steps : List Step) (step : Step) :
    final s (steps ++ [step]) = (final s steps).after step := by
  rw [final, List.foldl_append]
  rfl

theorem Normal.final (hs : s.Normal) (steps : List Step) : (final s steps).Normal := by
  induction steps using List.reverseRecOn with
  | nil => exact hs
  | append_singleton steps step ih =>
    rw [final_concat]
    exact ih.after step

theorem override_of_ne_null (old : Json) (h : j ≠ .null) : override old j = j := by
  rw [override]
  exact h

section Given

variable {α : Type} {given : Json → Option α}

theorem suits_of_override (h : Suits given (override old j)) : Suits given j := by
  by_cases hj : j = .null
  · exact Or.inl hj
  · rwa [override_of_ne_null old hj] at h

theorem suits_override (hold : Suits given old) (hj : Suits given j) :
    Suits given (override old j) := by
  by_cases hnull : j = .null
  · subst hnull
    exact hold
  · rwa [override_of_ne_null old hnull]

/-- A value that suits decides, and nothing leaves the decision to the value before. -/
theorem given_override (hnull : given .null = none) (hj : Suits given j) :
    given (override old j) = (given j).or (given old) := by
  rcases hj with rfl | ⟨x, hx⟩
  · rw [hnull]
    rfl
  · have hne : j ≠ .null := by
      rintro rfl
      cases hnull.symm.trans hx
    rw [override_of_ne_null old hne, hx]
    rfl

end Given

theorem wellTyped_over_iff (ha : a.WellTyped) : (b.over a).WellTyped ↔ b.WellTyped := by
  constructor
  · intro h
    exact ⟨suits_of_override h.header, suits_of_override h.errorName, suits_of_override h.trace⟩
  · intro hb
    exact ⟨suits_override ha.header hb.header, suits_override ha.errorName hb.errorName,
      suits_override ha.trace hb.trace⟩

/-- Settings as fields. -/
def asFields (s : Settings) : Fields :=
  ⟨ofOption s.header, ofOption s.errorName, .scalar (.bool s.trace)⟩

theorem overridden_eq (s : Settings) (f : Fields) : s.overridden f = ofFields (f.over s.asFields) :=
  rfl

theorem givenText_ofOption (text : Option String) : givenText (ofOption text) = text := by
  cases text <;> rfl

theorem suits_ofOption (text : Option String) : Suits givenText (ofOption text) := by
  cases text with
  | none => exact Or.inl rfl
  | some text => exact Or.inr ⟨text, rfl⟩

theorem wellTyped_asFields (s : Settings) : s.asFields.WellTyped :=
  ⟨suits_ofOption s.header, suits_ofOption s.errorName, Or.inr ⟨s.trace, rfl⟩⟩

/-- The settings with fields of the right types put over them. -/
def under (s : Settings) (f : Fields) : Settings where
  header := nonempty ((givenText f.header).or s.header)
  errorName := some (nameOrDefault ((givenText f.errorName).or s.errorName))
  trace := (givenFlag f.trace).getD s.trace

theorem overridden_eq_ok_iff : s.overridden f = .ok t ↔ f.WellTyped ∧ t = s.under f := by
  rw [overridden_eq, ofFields_eq_ok_iff, wellTyped_over_iff s.wellTyped_asFields]
  apply and_congr_right
  intro hf
  have hflag : givenFlag s.asFields.trace = some s.trace := rfl
  have hunder : under s f = ⟨nonempty (givenText (f.over s.asFields).header),
      some (nameOrDefault (givenText (f.over s.asFields).errorName)),
      (givenFlag (f.over s.asFields).trace).getD false⟩ := by
    simp only [Fields.over, given_override rfl hf.header, given_override rfl hf.errorName,
      given_override rfl hf.trace, hflag, Option.getD_or, Option.getD_some]
    simp only [asFields, givenText_ofOption, under]
  rw [hunder]

theorem overridden_of_wellTyped (s : Settings) (hf : f.WellTyped) :
    s.overridden f = .ok (s.under f) :=
  overridden_eq_ok_iff.2 ⟨hf, rfl⟩

theorem wellTyped_nothing : Fields.WellTyped {} := ⟨Or.inl rfl, Or.inl rfl, Or.inl rfl⟩

theorem under_nothing (s : Settings) :
    s.under {} = ⟨nonempty s.header, some (nameOrDefault s.errorName), s.trace⟩ := rfl

theorem Normal.name (hs : s.Normal) : some (nameOrDefault s.errorName) = s.errorName := by
  obtain ⟨name, hname, hne⟩ := hs.errorName
  rw [hname, nameOrDefault_of_ne_empty hne]

theorem Normal.under_nothing (hs : s.Normal) : s.under {} = s := by
  rw [Settings.under_nothing, nonempty_of_ne_empty hs.header, hs.name]

theorem Normal.under_header (hs : s.Normal) (header : String) :
    s.under { header := .text header } = { s with header := nonempty (some header) } := by
  have hunder : s.under { header := .text header } =
      ⟨nonempty (some header), some (nameOrDefault s.errorName), s.trace⟩ := rfl
  rw [hunder, hs.name]

theorem nonempty_or_nonempty (x y : Option String) :
    nonempty (x.or (nonempty y)) = nonempty (x.or y) := by
  cases x with
  | none => exact nonempty_of_ne_empty (nonempty_ne_empty y)
  | some text => rfl

theorem nameOrDefault_or_nameOrDefault (x y : Option String) :
    nameOrDefault (x.or (some (nameOrDefault y))) = nameOrDefault (x.or y) := by
  cases x with
  | none => exact nameOrDefault_of_ne_empty (nameOrDefault_ne_empty y)
  | some text => rfl

theorem under_over (s : Settings) (a : Fields) (hb : b.WellTyped) :
    s.under (b.over a) = (s.under a).under b := by
  simp only [under, Fields.over, given_override rfl hb.header, given_override rfl hb.errorName,
    given_override rfl hb.trace, Option.or_assoc, nonempty_or_nonempty,
    nameOrDefault_or_nameOrDefault, Option.getD_or]

/-- What fields say one after another, the last that is said. -/
def lastGiven {α : Type} (given : Fields → Option α) (fs : List Fields) : Option α :=
  (fs.filterMap given).getLast?

theorem lastGiven_concat {α : Type} (given : Fields → Option α) (fs : List Fields) (f : Fields) :
    lastGiven given (fs ++ [f]) = (given f).or (lastGiven given fs) := by
  rw [lastGiven, List.filterMap_append, List.getLast?_append]
  cases h : given f <;> simp [h, lastGiven]

theorem final_overrides (hs : s.Normal) (hfs : ∀ f ∈ fs, f.WellTyped) :
    final s (fs.map .override) = {
      header := nonempty ((lastGiven (fun f => givenText f.header) fs).or s.header)
      errorName :=
        some (nameOrDefault ((lastGiven (fun f => givenText f.errorName) fs).or s.errorName))
      trace := (lastGiven (fun f => givenFlag f.trace) fs).getD s.trace } := by
  induction fs using List.reverseRecOn with
  | nil => exact hs.under_nothing.symm
  | append_singleton fs f ih =>
    have hf : f.WellTyped := hfs f (by simp)
    have hstep (t : Settings) : t.after (.override f) = t.under f :=
      after_of_ok (overridden_of_wellTyped t hf)
    rw [List.map_append, List.map_singleton, final_concat, hstep,
      ih fun g hg => hfs g (List.mem_append_left _ hg)]
    simp only [under, lastGiven_concat, Option.or_assoc, nonempty_or_nonempty,
      nameOrDefault_or_nameOrDefault, Option.getD_or]

theorem effectiveHeader_under_nothing (s : Settings) :
    (s.under {}).effectiveHeader = s.effectiveHeader :=
  nonempty_of_ne_empty (nonempty_ne_empty s.header)

theorem effectiveName_under_nothing (s : Settings) :
    (s.under {}).effectiveName = s.effectiveName :=
  nameOrDefault_of_ne_empty (nameOrDefault_ne_empty s.errorName)

theorem checkedName_under_nothing (s : Settings) (strict : Bool) :
    (s.under {}).checkedName strict = s.checkedName strict := by
  rw [checkedName, checkedName, effectiveName_under_nothing]

theorem wrap_under_nothing (s : Settings) (g : Graph) (strict : Bool) (code : Option NodeId) :
    g.wrap (s.under {}) strict code = g.wrap s strict code := by
  cases code with
  | none => rfl
  | some i =>
    simp only [Graph.wrap, checkedName_under_nothing, effectiveHeader_under_nothing]
    rfl

theorem work_wrap_under_nothing (s : Settings) (strict : Bool) (code : Option NodeId) :
    Work.wrap (s.under {}) strict code = Work.wrap s strict code := by
  cases code with
  | none => rfl
  | some i =>
    simp only [Work.wrap, checkedName_under_nothing, effectiveHeader_under_nothing]
    rfl

/-- The settings of a chain are always in normal form, and a step that fails leaves them as they
were. Overriding normal settings with nothing changes nothing, and fields override if and only if
they are of the right types. Two overrides come to the one that has the later field where there
is one, so after many of them each setting is what it was last set to, an empty header being none
and an empty name the default name. The pass does the same for settings and for what overriding
them with nothing makes of them. -/
theorem chains_override :
    (∀ steps, (final {} steps).Normal ∧
      ∀ step, (∀ fault, (final {} steps).apply step = .error fault →
          final {} (steps ++ [step]) = final {} steps) ∧
        ∀ next, (final {} steps).apply step = .ok next → final {} (steps ++ [step]) = next) ∧
    (∀ s : Settings, s.Normal → s.overridden {} = .ok s) ∧
    (∀ (s : Settings) (f : Fields), (∃ t, s.overridden f = .ok t) ↔ f.WellTyped) ∧
    (∀ (s : Settings) (a b : Fields), a.WellTyped → b.WellTyped →
      ∃ t u, s.overridden a = .ok t ∧ t.overridden b = .ok u ∧
        s.overridden (b.over a) = .ok u) ∧
    (∀ (s : Settings) (fs : List Fields), s.Normal → (∀ f ∈ fs, f.WellTyped) →
      final s (fs.map .override) = {
        header := nonempty ((lastGiven (fun f => givenText f.header) fs).or s.header)
        errorName :=
          some (nameOrDefault ((lastGiven (fun f => givenText f.errorName) fs).or s.errorName))
        trace := (lastGiven (fun f => givenFlag f.trace) fs).getD s.trace }) ∧
    ∀ s : Settings, ∃ t, s.overridden {} = .ok t ∧ ∀ (g : Graph) strict code,
      g.wrap t strict code = g.wrap s strict code ∧
        Work.wrap t strict code = Work.wrap s strict code := by
  refine ⟨?_, ?_, ?_, ?_, ?_, ?_⟩
  · intro steps
    refine ⟨normal_default.final steps, fun step => ⟨?_, ?_⟩⟩
    · intro fault h
      rw [final_concat, after_of_error h]
    · intro next h
      rw [final_concat, after_of_ok h]
  · intro s hs
    rw [overridden_of_wellTyped s wellTyped_nothing, hs.under_nothing]
  · intro s f
    constructor
    · intro h
      obtain ⟨t, ht⟩ := h
      exact (overridden_eq_ok_iff.1 ht).1
    · intro hf
      exact ⟨s.under f, overridden_of_wellTyped s hf⟩
  · intro s a b ha hb
    have hover : s.overridden (b.over a) = .ok ((s.under a).under b) := by
      rw [overridden_of_wellTyped s ((wellTyped_over_iff ha).2 hb), under_over s a hb]
    exact ⟨s.under a, (s.under a).under b, overridden_of_wellTyped s ha,
      overridden_of_wellTyped _ hb, hover⟩
  · intro s fs hs hfs
    exact final_overrides hs hfs
  · intro s
    refine ⟨s.under {}, overridden_of_wellTyped s wellTyped_nothing, fun g strict code => ?_⟩
    exact ⟨wrap_under_nothing s g strict code, work_wrap_under_nothing s strict code⟩

/-- A header that is set, left and taken away, and a name that is set and made the default. -/
def clearingFields : List Fields := [
  { header := .text "import a;", errorName := .text "E", trace := .scalar (.bool true) },
  { errorName := .text "" },
  { header := .text "" }]

/-- A number is no header. -/
def numberStep : Step := .override { header := .scalar (.int 0) }

theorem chains_clearingFields :
    Normal {} ∧ (∀ f ∈ clearingFields, f.WellTyped) ∧
      final {} (clearingFields.map .override) = { trace := true } ∧
      final {} (clearingFields.map .override ++ [numberStep]) = { trace := true } ∧
      overridden { trace := true } {} = .ok { trace := true } ∧
      (∃ t u, overridden {} { header := .text "import a;" } = .ok t ∧
        t.overridden { errorName := .text "E" } = .ok u ∧
        overridden {} { header := .text "import a;", errorName := .text "E" } = .ok u) ∧
      ∃ t, overridden { header := some "", errorName := none } {} = .ok t ∧
        Graph.wrap {} t true none = Graph.wrap {} { header := some "", errorName := none } true none := by
  have htext (text : String) : Suits givenText (.text text) := Or.inr ⟨text, rfl⟩
  have hnull {α : Type} (given : Json → Option α) : Suits given .null := Or.inl rfl
  have hfields : ∀ f ∈ clearingFields, f.WellTyped := by
    intro f hf
    simp only [clearingFields, List.mem_cons, List.not_mem_nil, or_false] at hf
    rcases hf with rfl | rfl | rfl
    · exact ⟨htext _, htext _, Or.inr ⟨true, rfl⟩⟩
    · exact ⟨hnull _, htext _, hnull _⟩
    · exact ⟨htext _, hnull _, hnull _⟩
  obtain ⟨hchains, hnothing, -, hmerge, hruns, hpass⟩ := chains_override
  have hfinal : final {} (clearingFields.map .override) = { trace := true } :=
    hruns {} clearingFields normal_default hfields
  have hfault : (final {} (clearingFields.map .override)).apply numberStep =
      .error (.wrongKind "customHeader" "str" (.scalar (.int 0))) := by
    rw [hfinal]
    rfl
  obtain ⟨hnormal, hsteps⟩ := hchains (clearingFields.map .override)
  have hkept := (hsteps numberStep).1 _ hfault
  rw [hfinal] at hnormal hkept
  have hmerged := hmerge {} { header := .text "import a;" } { errorName := .text "E" }
    ⟨htext _, hnull _, hnull _⟩ ⟨hnull _, htext _, hnull _⟩
  obtain ⟨t, ht, hsame⟩ := hpass { header := some "", errorName := none }
  exact ⟨normal_default, hfields, hfinal, hkept, hnothing _ hnormal, hmerged, t, ht,
    (hsame {} true none).1⟩

end Settings

end TypedModule
