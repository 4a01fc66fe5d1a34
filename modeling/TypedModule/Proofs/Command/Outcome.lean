import Mathlib.Data.List.Induction
import TypedModule.Proofs.Command.Inputs
import TypedModule.Proofs.Disk.Writing

/-!
# How a run ends

Whether a run succeeds is settled by the disk it starts on. `Prepared` lists what must be in place
before the one write, and the target must be open for writing. A run that succeeds changes one
place, which then holds the module; a run that fails changes nothing and says so with status one.
Over a sequence of runs, whatever has changed was written by a run that succeeded.
-/

namespace TypedModule

open Command

variable {d : Disk} {a : Arguments} {config s : Settings} {lead : Option (List Char)}
  {script : List Char} {place : Place} {fault : RunFault} {out path text : String}

namespace Command

def RunResult.Succeeds : RunResult → Prop
  | .reported report => report.status = 0
  | .brokenOff _ => False

/-- There is a report: of success, or of failure with a message. -/
def RunResult.Reports : RunResult → Prop
  | .reported report => report.status = 0 ∧ report.err = "" ∨
      report.status = 1 ∧ ∃ message, report.err = message ++ "\n"
  | .brokenOff _ => False

namespace Arguments

/-- The tree of the script as it is read. -/
def code (a : Arguments) (script : List Char) : Tree :=
  Tree.ofText (String.ofList (foldNewlines script)) (some (baseName a.source))

/-- The module around the script. -/
def typed (a : Arguments) (config : Settings) (lead : Option (List Char)) (script : List Char) :
    Tree :=
  (a.chosen config lead).assemble (a.chosen config lead).effectiveName (a.code script)

/-- No path among the arguments has a zero character. -/
def ZeroFree (a : Arguments) : Prop :=
  ∀ path ∈ a.source :: [a.output, a.config, a.headerFile].filterMap path?, '\x00' ∉ path.toList

end Arguments

/-- What must be in place before the module is written. -/
structure Prepared (d : Disk) (a : Arguments) (config : Settings) (lead : Option (List Char))
    (script : List Char) : Prop where
  free : d.present a.target = false ∨ a.force = true
  oneHeader : a.header = none ∨ a.headerFile = none
  configures : a.Configures d config
  leads : a.Leads d lead
  holds : d.Holds a.source script
  accepted : checkErrorName a.strictName (a.chosen config lead).effectiveName =
    .ok (a.chosen config lead).effectiveName

theorem plan_of_prepared (htextual : a.Textual) (h : Prepared d a config lead script) :
    ∃ out, a.plan d.files = .save out a.target (a.typed config lead script).render := by
  have hfree : ¬ (d.files.present a.target && !a.force) = true := by
    change ¬ (d.present a.target && !a.force) = true
    rcases h.free with hfree | hforce
    · simp [hfree]
    · simp [hforce]
  have hsettings : a.settings d.files = .ok (a.chosen config lead) :=
    Arguments.settings_eq_ok_iff.2
      ⟨h.oneHeader, htextual, config, lead, h.configures, h.leads, rfl⟩
  have hwrap : (a.chosen config lead).wrap a.strictName (a.code script) =
      .ok (a.typed config lead script) := by
    rw [Settings.wrap, Settings.checkedName, h.accepted]
    rfl
  refine ⟨a.display (a.chosen config lead) (a.code script) (a.typed config lead script), ?_⟩
  rw [Arguments.plan, if_neg hfree, hsettings]
  simp only [readText_eq_ok h.holds]
  rw [Arguments.code] at hwrap
  rw [hwrap]
  rfl

theorem prepared_of_plan (h : a.plan d.files = .save out path text) :
    path = a.target ∧ a.Textual ∧ ∃ config lead script, Prepared d a config lead script ∧
      text = (a.typed config lead script).render := by
  rw [Arguments.plan] at h
  split at h
  · cases h
  · next hfree =>
    split at h
    · cases h
    · next s hsettings =>
      obtain ⟨hone, htextual, config, lead, hconfig, hlead, rfl⟩ :=
        Arguments.settings_eq_ok_iff.1 hsettings
      split at h
      · cases h
      · next cs hcs =>
        obtain ⟨script, hscript, rfl⟩ := readText_eq_ok_iff.1 hcs
        dsimp only at h
        rw [Settings.wrap] at h
        cases hname : (a.chosen config lead).checkedName a.strictName with
        | error e => rw [hname] at h; cases h
        | ok name =>
          rw [hname] at h
          obtain rfl := eq_of_checkErrorName hname
          obtain ⟨-, rfl, rfl⟩ := Plan.save.inj h
          refine ⟨rfl, htextual, config, lead, script, ⟨?_, hone, hconfig, hlead, hscript, hname⟩, rfl⟩
          change ¬ (d.present a.target && !a.force) = true at hfree
          simpa [Decidable.imp_iff_not_or] using hfree

/-- The run ends without a report: it has come to open a path that no system takes. -/
def RunFault.BreaksOff (fault : RunFault) : Prop := ∃ path, fault = .read (.path path .zeroChar)

theorem result_of_not_breaksOff (h : ¬ fault.BreaksOff) :
    fault.result = .reported ⟨1, "", fault.message⟩ := by
  rw [RunFault.result]
  exact fun path hpath => h ⟨path, hpath⟩

theorem not_succeeds_result : ¬ fault.result.Succeeds := by
  by_cases h : fault.BreaksOff
  · obtain ⟨path, rfl⟩ := h
    exact id
  · rw [result_of_not_breaksOff h]
    exact Nat.one_ne_zero

theorem mem_nameStem {c : Char} {cs : List Char} (h : c ∈ nameStem cs) : c ∈ cs := by
  rw [nameStem] at h
  split at h
  · rcases List.mem_append.1 h with h | h
    · exact (List.takeWhile_sublist _).subset h
    · have hbody := (List.dropWhile_sublist _).subset ((List.drop_sublist 1 _).subset
        (List.mem_reverse.1 h))
      exact (List.dropWhile_sublist _).subset (List.mem_reverse.1 hbody)
  · exact h

theorem mem_stem {c : Char} (h : c ∈ (stem path).toList) : c ∈ path.toList := by
  rw [stem, String.toList_ofList] at h
  rw [← beforeLastName_append_lastName path.toList]
  rcases List.mem_append.1 h with h | h
  · exact List.mem_append_left _ h
  · exact List.mem_append_right _ (mem_nameStem h)

namespace Arguments.ZeroFree

variable (hzero : a.ZeroFree)
include hzero

theorem sourcePath : '\x00' ∉ a.source.toList := hzero a.source List.mem_cons_self

theorem configPath (h : path? a.config = some path) : '\x00' ∉ path.toList :=
  hzero path (by simp [h])

theorem headerPath (h : path? a.headerFile = some path) : '\x00' ∉ path.toList :=
  hzero path (by simp [h])

theorem targetPath : '\x00' ∉ a.target.toList := by
  rw [Arguments.target]
  cases houtput : path? a.output with
  | some path => exact hzero path (by simp [houtput])
  | none =>
    rw [Option.getD_none, String.toList_append]
    intro hmem
    rcases List.mem_append.1 hmem with hmem | hmem
    · exact hzero.sourcePath (mem_stem hmem)
    · revert hmem
      decide

theorem configSettings_error (h : a.configSettings d.files = .error fault) :
    ¬ fault.BreaksOff := by
  rw [configSettings] at h
  split at h
  · cases h
  · next path hpath =>
    split at h
    · cases h
    · obtain rfl := Except.error.inj h
      rintro ⟨_, ⟨⟩⟩
    · obtain rfl := Except.error.inj h
      rintro ⟨_, ⟨⟩⟩
    · next hload => exact absurd hload (load_ne_zeroChar (Disk.read_ne_zeroChar (hzero.configPath hpath)))

theorem headerField_error (h : a.headerField d.files = .error fault) : ¬ fault.BreaksOff := by
  rw [headerField] at h
  split at h
  · cases h
  · next path hpath =>
    split at h
    · next e hread =>
      obtain rfl := Except.error.inj h
      rintro ⟨other, ⟨⟩⟩
      exact readText_ne_zeroChar (Disk.read_ne_zeroChar (hzero.headerPath hpath)) hread
    · cases h

theorem settings_error (h : a.settings d.files = .error fault) : ¬ fault.BreaksOff := by
  rw [settings] at h
  split at h
  · obtain rfl := Except.error.inj h
    rintro ⟨_, ⟨⟩⟩
  · split at h
    · next e hconfig =>
      obtain rfl := Except.error.inj h
      exact hzero.configSettings_error hconfig
    · split at h
      · next e hheader =>
        obtain rfl := Except.error.inj h
        exact hzero.headerField_error hheader
      · split at h
        · obtain rfl := Except.error.inj h
          rintro ⟨_, ⟨⟩⟩
        · cases h

theorem plan_stop (h : a.plan d.files = .stop fault) : ¬ fault.BreaksOff := by
  rw [plan] at h
  split at h
  · obtain rfl := Plan.stop.inj h
    rintro ⟨_, ⟨⟩⟩
  · split at h
    · next e hsettings =>
      obtain rfl := Plan.stop.inj h
      exact hzero.settings_error hsettings
    · split at h
      · next e hread =>
        obtain rfl := Plan.stop.inj h
        rintro ⟨other, ⟨⟩⟩
        exact readText_ne_zeroChar (Disk.read_ne_zeroChar hzero.sourcePath) hread
      · dsimp only at h
        split at h
        · obtain rfl := Plan.stop.inj h
          rintro ⟨_, ⟨⟩⟩
        · cases h

end Arguments.ZeroFree

theorem runArguments_of_stop (h : a.plan d.files = .stop fault) :
    d.runArguments a = (fault.result, d) := by
  rw [Disk.runArguments, h]
  rfl

theorem runArguments_of_closed {e : PathFault} (h : a.plan d.files = .save out path text)
    (hclosed : d.writable path = .error e) :
    d.runArguments a = ((Plan.save out path text).finish (.error e), d) := by
  simp only [Disk.runArguments, h, Disk.write, hclosed, Except.map]

theorem finish_of_closed {e : PathFault} (hnul : e ≠ .zeroChar) :
    (Plan.save out path text).finish (.error e) =
      .reported ⟨1, out, "Could not write " ++ path ++ ": " ++ e.text ++ "\n"⟩ := by
  rw [Plan.finish]
  exact hnul

theorem runArguments_of_open (h : a.plan d.files = .save out path text)
    (hopen : d.writable path = .ok place) :
    d.runArguments a =
      (.reported ⟨0, out ++ "Wrote typed module to:\n\t" ++ path ++ "\n", ""⟩,
        d.put place (Utf8.encode text.toList)) := by
  simp only [Disk.runArguments, h, Disk.write, hopen, Except.map]
  rfl

theorem message_eq_line (fault : RunFault) : ∃ line, fault.message = line ++ "\n" := by
  cases fault with
  | targetExists =>
    exact ⟨"Target file already exists and --force command-line argument was not given.", rfl⟩
  | settings fault => exact ⟨_, rfl⟩
  | name fault => exact ⟨_, rfl⟩
  | read fault => cases fault <;> exact ⟨_, rfl⟩

/-- What a run comes to, and the disk that it leaves. -/
structure Settled (d : Disk) (a : Arguments) (result : RunResult) (after : Disk) : Prop where
  succeeds_iff : result.Succeeds ↔
    a.Textual ∧ (∃ config lead script, Prepared d a config lead script) ∧
      ∃ place, d.writable a.target = .ok place
  writes : result.Succeeds → ∀ config lead script place,
    Prepared d a config lead script → d.writable a.target = .ok place →
      after.Holds a.target (a.typed config lead script).render.toList ∧
        d.ChangedOnly after place (Utf8.encode (a.typed config lead script).render.toList)
  unchanged : ¬ result.Succeeds → after = d

theorem settled_of_stop (hplan : a.plan d.files = .stop fault) :
    Settled d a (d.runArguments a).1 (d.runArguments a).2 := by
  rw [runArguments_of_stop hplan]
  refine ⟨⟨fun hs => absurd hs not_succeeds_result, ?_⟩,
    fun hs => absurd hs not_succeeds_result, fun _ => rfl⟩
  rintro ⟨htextual, ⟨config, lead, script, hprepared⟩, -⟩
  obtain ⟨out, hsave⟩ := plan_of_prepared htextual hprepared
  rw [hplan] at hsave
  cases hsave

theorem settled_of_closed {e : PathFault} (hplan : a.plan d.files = .save out a.target text)
    (hclosed : d.writable a.target = .error e) :
    Settled d a (d.runArguments a).1 (d.runArguments a).2 := by
  rw [runArguments_of_closed hplan hclosed]
  have hfails : ¬ ((Plan.save out a.target text).finish (.error e)).Succeeds := by
    by_cases hnul : e = .zeroChar
    · subst hnul
      exact id
    · rw [finish_of_closed hnul]
      exact Nat.one_ne_zero
  refine ⟨⟨fun hs => absurd hs hfails, ?_⟩, fun hs => absurd hs hfails, fun _ => rfl⟩
  rintro ⟨-, -, place, hplace⟩
  rw [hclosed] at hplace
  cases hplace

theorem settled_of_open (hplan : a.plan d.files = .save out a.target text)
    (hopen : d.writable a.target = .ok place) :
    Settled d a (d.runArguments a).1 (d.runArguments a).2 := by
  obtain ⟨-, htextual, config, lead, script, hprepared, -⟩ := prepared_of_plan hplan
  rw [runArguments_of_open hplan hopen]
  refine ⟨⟨fun _ => ⟨htextual, ⟨config, lead, script, hprepared⟩, place, hopen⟩, fun _ => rfl⟩, ?_,
    fun hfails => absurd rfl hfails⟩
  -- the same text comes of whatever settings and script are in place
  intro _ config lead script place' hprepared hplace
  obtain ⟨out', hplan'⟩ := plan_of_prepared htextual hprepared
  obtain ⟨-, -, rfl⟩ := Plan.save.inj (hplan.symm.trans hplan')
  obtain rfl := Except.ok.inj (hopen.symm.trans hplace)
  exact ⟨Disk.read_put_writable hopen, Disk.changedOnly_put hopen⟩

theorem settled_runArguments (d : Disk) (a : Arguments) :
    Settled d a (d.runArguments a).1 (d.runArguments a).2 := by
  cases hplan : a.plan d.files with
  | stop fault => exact settled_of_stop hplan
  | save out path text =>
    obtain ⟨rfl, -⟩ := prepared_of_plan hplan
    cases htarget : d.writable a.target with
    | error e => exact settled_of_closed hplan htarget
    | ok place => exact settled_of_open hplan htarget

theorem reports_runArguments (d : Disk) (hzero : a.ZeroFree) : (d.runArguments a).1.Reports := by
  cases hplan : a.plan d.files with
  | stop fault =>
    rw [runArguments_of_stop hplan, result_of_not_breaksOff (hzero.plan_stop hplan)]
    exact Or.inr ⟨rfl, message_eq_line fault⟩
  | save out path text =>
    obtain ⟨rfl, -⟩ := prepared_of_plan hplan
    cases htarget : d.writable a.target with
    | error e =>
      have hnul : e ≠ .zeroChar := by
        rintro rfl
        exact Disk.writable_ne_zeroChar hzero.targetPath htarget
      rw [runArguments_of_closed hplan htarget, finish_of_closed hnul]
      exact Or.inr ⟨rfl, _, rfl⟩
    | ok place =>
      rw [runArguments_of_open hplan htarget]
      exact Or.inl ⟨rfl, rfl⟩

/-- The run makes the place a file with the content. -/
def Writes (d : Disk) (a : Arguments) (place : Place) (content : List UInt8) : Prop :=
  (d.runArguments a).1.Succeeds ∧ d.writable a.target = .ok place ∧
    ∃ config lead script, Prepared d a config lead script ∧
      content = Utf8.encode (a.typed config lead script).render.toList

/-- What one run does to a place. -/
theorem entry?_runArguments (d : Disk) (a : Arguments) (place : Place) :
    Disk.entry? (d.runArguments a).2 place = d.entry? place ∨
      ∃ content, Writes d a place content ∧
        Disk.entry? (d.runArguments a).2 place = some (.file content) := by
  have hsettled := settled_runArguments d a
  by_cases hs : (d.runArguments a).1.Succeeds
  · obtain ⟨-, ⟨config, lead, script, hprepared⟩, target, htarget⟩ := hsettled.succeeds_iff.1 hs
    obtain ⟨-, hchanged⟩ := hsettled.writes hs config lead script target hprepared htarget
    by_cases hplace : place = target
    · subst hplace
      exact Or.inr ⟨_, ⟨hs, htarget, config, lead, script, hprepared, rfl⟩, hchanged.entry⟩
    · exact Or.inl (hchanged.others place hplace)
  · rw [hsettled.unchanged hs]
    exact Or.inl rfl

end Command

/-- The disk that a sequence of runs leaves. -/
def Disk.afterRuns (d : Disk) (runs : List Arguments) : Disk :=
  runs.foldl (fun d a => (d.runArguments a).2) d

namespace Command

theorem afterRuns_concat (d : Disk) (runs : List Arguments) (a : Arguments) :
    d.afterRuns (runs ++ [a]) = ((d.afterRuns runs).runArguments a).2 := by
  rw [Disk.afterRuns, List.foldl_append]
  rfl

/-- What a sequence of runs does to a place. -/
theorem entry?_afterRuns (d : Disk) (runs : List Arguments) (place : Place) :
    Disk.entry? (d.afterRuns runs) place = d.entry? place ∨
      ∃ earlier a later content, runs = earlier ++ a :: later ∧
        Writes (d.afterRuns earlier) a place content ∧
        Disk.entry? (d.afterRuns runs) place = some (.file content) := by
  induction runs using List.reverseRecOn with
  | nil => exact Or.inl rfl
  | append_singleton runs a ih =>
    rw [afterRuns_concat]
    rcases entry?_runArguments (d.afterRuns runs) a place with hsame | hwrites
    · rw [hsame]
      rcases ih with hstart | hwrote
      · exact Or.inl hstart
      · obtain ⟨earlier, b, later, content, rfl, hwrites, hentry⟩ := hwrote
        exact Or.inr ⟨earlier, b, later ++ [a], content, by simp, hwrites, hentry⟩
    · obtain ⟨content, hwrites, hentry⟩ := hwrites
      exact Or.inr ⟨runs, a, [], content, rfl, hwrites, hentry⟩

/-- Every run of a sequence is settled by the disk that it starts on and ends with a report, and
whatever the sequence has changed was written by one of its runs. -/
theorem runs_settled (d : Disk) (runs : List Arguments) (hzero : ∀ a ∈ runs, a.ZeroFree) :
    (∀ earlier a later, runs = earlier ++ a :: later →
      Settled (d.afterRuns earlier) a ((d.afterRuns earlier).runArguments a).1
          (d.afterRuns (earlier ++ [a])) ∧
        ((d.afterRuns earlier).runArguments a).1.Reports) ∧
    ∀ place, Disk.entry? (d.afterRuns runs) place = d.entry? place ∨
      ∃ earlier a later content, runs = earlier ++ a :: later ∧
        Writes (d.afterRuns earlier) a place content ∧
        Disk.entry? (d.afterRuns runs) place = some (.file content) := by
  refine ⟨?_, entry?_afterRuns d runs⟩
  rintro earlier a later rfl
  rw [afterRuns_concat]
  exact ⟨settled_runArguments (d.afterRuns earlier) a,
    reports_runArguments (d.afterRuns earlier) (hzero a (by simp))⟩

/-- A disk with one file. -/
def scriptDisk (script : List Char) : Disk :=
  { entries := [(["p.js"], .file (Utf8.encode script))] }

def plainRun : Arguments := { source := "p.js" }

theorem writable_scriptDisk (script : List Char) :
    (scriptDisk script).writable plainRun.target = .ok ["p.ts"] := rfl

theorem prepared_plainRun (script : List Char) :
    Prepared (scriptDisk script) plainRun {} none script where
  free := Or.inl rfl
  oneHeader := Or.inl rfl
  configures := rfl
  leads := rfl
  holds := rfl
  accepted := by decide +kernel

theorem succeeds_plainRun (script : List Char) :
    ((scriptDisk script).runArguments plainRun).1.Succeeds :=
  (settled_runArguments _ _).succeeds_iff.2
    ⟨⟨by decide, by decide⟩, ⟨_, _, _, prepared_plainRun script⟩, _, writable_scriptDisk script⟩

/-- The first run writes the module, and the second will not write over it. -/
theorem plainRun_twice :
    (∀ a ∈ [plainRun, plainRun], a.ZeroFree) ∧
      ((scriptDisk ['a']).runArguments plainRun).1.Succeeds ∧
      ¬ (((scriptDisk ['a']).afterRuns [plainRun]).runArguments plainRun).1.Succeeds := by
  have hzero : ∀ a ∈ [plainRun, plainRun], a.ZeroFree := by
    simp [Arguments.ZeroFree, plainRun, Arguments.path?, Settings.nonempty]
  obtain ⟨hruns, -⟩ := runs_settled (scriptDisk ['a']) [plainRun, plainRun] hzero
  obtain ⟨hfirst, -⟩ := hruns [] plainRun [plainRun] rfl
  obtain ⟨hsecond, -⟩ := hruns [plainRun] plainRun [] rfl
  have hsucceeds := succeeds_plainRun ['a']
  refine ⟨hzero, hsucceeds, fun hagain => ?_⟩
  obtain ⟨hholds, -⟩ := hfirst.writes hsucceeds _ _ _ _ (prepared_plainRun ['a'])
    (writable_scriptDisk ['a'])
  obtain ⟨-, ⟨_, _, _, hprepared⟩, -⟩ := hsecond.succeeds_iff.1 hagain
  rcases hprepared.free with habsent | hforce
  · cases (Disk.present_of_read hholds).symm.trans habsent
  · cases hforce

/-- The word behind the option stands for no text, so the header was given nothing. -/
def hyphenRun : Arguments := { source := "p.js", header := some .nothing }

/-- All is in place and the target is open, but the run fails. -/
theorem hyphenRun_fails :
    parse ["--header=--", "p.js"] = .ok hyphenRun ∧ hyphenRun.ZeroFree ∧
      Prepared (scriptDisk ['a']) hyphenRun {} none ['a'] ∧
      (scriptDisk ['a']).writable hyphenRun.target = .ok ["p.ts"] ∧
      ¬ ((scriptDisk ['a']).runArguments hyphenRun).1.Succeeds := by
  have hzero : hyphenRun.ZeroFree := by
    simp [Arguments.ZeroFree, hyphenRun, Arguments.path?, Settings.nonempty]
  have hprepared : Prepared (scriptDisk ['a']) hyphenRun {} none ['a'] :=
    ⟨Or.inl rfl, Or.inr rfl, rfl, rfl, rfl, (prepared_plainRun ['a']).accepted⟩
  refine ⟨rfl, hzero, hprepared, rfl, fun hs => ?_⟩
  obtain ⟨htextual, -⟩ := (settled_runArguments _ _).succeeds_iff.1 hs
  exact htextual.1 rfl

end Command

end TypedModule
