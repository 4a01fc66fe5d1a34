import TypedModule.Proofs.Command.Outcome
import TypedModule.Proofs.Command.Words
import TypedModule.Proofs.Json.RoundTrip
import TypedModule.Proofs.Settings.Loading
import TypedModule.Proofs.Text.Lines

/-!
# Routes of the settings

A header, an error name and the tracer flag reach a run as arguments, in a settings file, or in a
settings file and a header file. All these routes come to the same settings, so what can be seen of
the runs is the same: how they end and what the target holds behind them. Arguments put over a
settings file leave of it only the tracer flag.
-/

namespace TypedModule

open Command Settings Json

variable {d d' : Disk} {a : Arguments} {words : List String} {config : Settings}
  {path header name : String} {trace : Bool} {text lead ends : List Char} {n : Nat}

theorem Disk.Holds.path_ne_empty (h : d.Holds path text) : path ≠ "" := by
  rintro rfl
  cases h

/-- Settings as data, with the tracer flag at the top. -/
def settingsJson (header : Option String) (name : String) (trace : Bool) : Json :=
  .object [("trace", .scalar (.bool trace)),
    (innerKey, .object ((header.map fun h => ("customHeader", .text h)).toList ++
      [("errorName", .text name)]))]

theorem worded_settingsJson (header : Option String) (name : String) (trace : Bool) :
    Worded (settingsJson header name trace) := by
  have hflag : Worded (.scalar (.bool trace)) := by
    apply Worded.word
    cases trace <;> simp [words, Scalar.written]
  have hinner : Worded (.object ((header.map fun h => ("customHeader", .text h)).toList ++
      [("errorName", .text name)])) := by
    apply Worded.object
    · cases header <;> simp
    · intro f hf
      cases header with
      | none =>
        obtain rfl : f = ("errorName", .text name) := by simpa using hf
        exact Worded.text name
      | some header =>
        obtain rfl | rfl : f = ("customHeader", .text header) ∨ f = ("errorName", .text name) := by
          simpa using hf
        · exact Worded.text header
        · exact Worded.text name
  apply Worded.object
  · simp [innerKey]
  · intro f hf
    obtain rfl | rfl : f = ("trace", _) ∨ f = (innerKey, _) := by simpa using hf
    · exact hflag
    · exact hinner

theorem ofJson_settingsJson (header : Option String) (name : String) (trace : Bool) :
    ofJson (settingsJson header name trace) =
      .ok ⟨nonempty header, some (nameOrDefault (some name)), trace⟩ := by
  cases header with
  | none => rfl
  | some header => rfl

theorem load_settingsJson {style : Style} {header : Option String}
    (h : d.Holds path (writtenChars style (settingsJson header name trace))) :
    load d.files path = .ok ⟨nonempty header, some (nameOrDefault (some name)), trace⟩ := by
  have hworded := worded_settingsJson header name trace
  apply load_eq_ok_iff.2
  refine ⟨_, _, h, ?_, ofJson_settingsJson header name trace⟩
  rw [foldNewlines_eq_self_iff.2 (carriageReturn_notMem_writtenChars style hworded)]
  exact read_writtenChars style hworded

theorem dropEndWhile_append_replicate {c : Char} {p : Char → Bool} (hc : p c = true)
    {cs : List Char} (hcs : ∀ x ∈ cs.getLast?, p x = false) (n : Nat) :
    dropEndWhile p (cs ++ List.replicate n c) = cs := by
  induction n with
  | zero =>
    rw [List.replicate_zero, List.append_nil]
    cases cs using List.reverseRecOn with
    | nil => rfl
    | append_singleton cs x =>
      rw [dropEndWhile_append_singleton, hcs x (by simp)]
      rfl
  | succ n ih =>
    rw [List.replicate_succ', ← List.append_assoc, dropEndWhile_append_singleton, if_pos hc, ih]

theorem dropEndWhile_headerText (hreturn : '\r' ∉ header.toList)
    (hlast : header.toList.getLast? ≠ some '\n') (hends : foldNewlines ends = List.replicate n '\n') :
    dropEndWhile (· == '\n') (foldNewlines (header.toList ++ ends)) = header.toList := by
  rw [foldNewlines_append hreturn, hends]
  apply dropEndWhile_append_replicate rfl
  intro x hx
  apply beq_eq_false_iff_ne.2
  rintro rfl
  exact hlast hx

namespace Command

namespace Route

/-- All settings as arguments. -/
def direct (header name : String) (trace : Bool) : Route where
  header := some header
  errorName := some name
  trace := trace

/-- A settings file. -/
def byFile (config : String) : Route where
  config := some config

/-- A settings file, and a file for the header. -/
def byFiles (config header : String) : Route where
  config := some config
  headerFile := some header

/-- A settings file, and all settings as arguments over it. -/
def overFile (config header name : String) (trace : Bool) : Route :=
  { direct header name trace with config := some config }

end Route

/-- The arguments with those of the route in place of their own. -/
def Arguments.along (a : Arguments) (r : Route) : Arguments :=
  { a with
    config := r.config.map .ofString
    header := r.header.map .ofString
    headerFile := r.headerFile.map .ofString
    errorName := r.errorName.map .ofString
    trace := r.trace }

/-- No argument bears on the settings. -/
structure Arguments.Unset (a : Arguments) : Prop where
  config : a.config = none
  header : a.header = none
  headerFile : a.headerFile = none
  errorName : a.errorName = none
  trace : a.trace = false

theorem orElse_of_unset (ha : a.Unset) (r : Route) : a.orElse r = a.along r := by
  rw [Arguments.orElse, Arguments.along, ha.config, ha.header, ha.headerFile, ha.errorName,
    ha.trace]
  rfl

theorem run_route (d : Disk) (hwords : parse words = .ok a) (ha : a.Unset) (r : Route) :
    d.run (r.words ++ words) = d.runArguments (a.along r) := by
  rw [run_words_append d r hwords, orElse_of_unset ha]

end Command

/-- How the run of a command line ends, and what can be read at the path after it. -/
def Disk.shows (d : Disk) (words : List String) (path : String) :
    RunResult × Option (List UInt8) :=
  ((d.run words).1, ((d.run words).2.read path).toOption)

namespace Command

/-- To the arguments, the disks are the same but for the files that settings come from: the source
reads alike, there is nothing at the target, and opening it comes to the same. -/
structure Alike (a : Arguments) (d d' : Disk) : Prop where
  source : d.read a.source = d'.read a.source
  absent : d.present a.target = false
  absent' : d'.present a.target = false
  opened : d.writable a.target = d'.writable a.target

theorem Alike.symm (h : Alike a d d') : Alike a d' d :=
  ⟨h.source.symm, h.absent', h.absent, h.opened.symm⟩

theorem toOption_read_of_absent (h : d.present path = false) : (d.read path).toOption = none := by
  cases hread : d.read path with
  | error e => rfl
  | ok content => cases h.symm.trans (Disk.present_of_read hread)

theorem readText_congr (h : d.read path = d'.read path) :
    d.files.readText path = d'.files.readText path := by
  cases hread : d.read path with
  | error e => rw [readText_of_error hread, readText_of_error (h.symm.trans hread)]
  | ok octets => rw [readText_of_octets hread, readText_of_octets (h.symm.trans hread)]

/-- Routes to the same settings have the same plan. -/
theorem plan_along (halike : Alike a d d') {r r' : Route}
    (hsettings : (a.along r).settings d.files = (a.along r').settings d'.files) :
    (a.along r).plan d.files = (a.along r').plan d'.files := by
  have hfree : d.files.present (a.along r).target = d'.files.present (a.along r').target :=
    halike.absent.trans halike.absent'.symm
  have hsource : d.files.readText (a.along r).source = d'.files.readText (a.along r').source :=
    readText_congr halike.source
  rw [Arguments.plan, Arguments.plan, hfree, hsettings, hsource]
  rfl

/-- Routes to the same settings end alike, and leave the same at the target. -/
theorem runArguments_along (halike : Alike a d d') {r r' : Route}
    (hsettings : (a.along r).settings d.files = (a.along r').settings d'.files) :
    (d.runArguments (a.along r)).1 = (d'.runArguments (a.along r')).1 ∧
      ((d.runArguments (a.along r)).2.read a.target).toOption =
        ((d'.runArguments (a.along r')).2.read a.target).toOption := by
  have hplan' := plan_along halike hsettings
  have hnone : (d.read a.target).toOption = none := toOption_read_of_absent halike.absent
  have hnone' : (d'.read a.target).toOption = none := toOption_read_of_absent halike.absent'
  cases hplan : (a.along r).plan d.files with
  | stop fault =>
    rw [hplan] at hplan'
    rw [runArguments_of_stop hplan, runArguments_of_stop hplan'.symm, hnone, hnone']
    exact ⟨rfl, rfl⟩
  | save out path text =>
    rw [hplan] at hplan'
    obtain ⟨rfl, -⟩ := prepared_of_plan hplan
    have htarget : (a.along r).target = a.target := rfl
    rw [htarget] at hplan hplan'
    cases hopened : d.writable a.target with
    | error e =>
      have hopened' : d'.writable a.target = .error e := halike.opened.symm.trans hopened
      rw [runArguments_of_closed hplan hopened, runArguments_of_closed hplan'.symm hopened',
        hnone, hnone']
      exact ⟨rfl, rfl⟩
    | ok place =>
      have hopened' : d'.writable a.target = .ok place := halike.opened.symm.trans hopened
      rw [runArguments_of_open hplan hopened, runArguments_of_open hplan'.symm hopened',
        Disk.read_put_writable hopened, Disk.read_put_writable hopened']
      exact ⟨rfl, rfl⟩

/-- Command lines that differ in the words of routes to the same settings show the same. -/
theorem shows_route (hwords : parse words = .ok a) (ha : a.Unset) (halike : Alike a d d')
    {r r' : Route} (hsettings : (a.along r).settings d.files = (a.along r').settings d'.files) :
    d.shows (r.words ++ words) a.target = d'.shows (r'.words ++ words) a.target := by
  rw [Disk.shows, Disk.shows, run_route d hwords ha, run_route d' hwords ha]
  obtain ⟨hresult, hcontent⟩ := runArguments_along halike hsettings
  rw [hresult, hcontent]

theorem ofString_of_ne {word : String} (h : word ≠ "--") : Value.ofString word = .text word :=
  if_neg h

theorem path?_of_holds (hpath : path ≠ "--") (hholds : d.Holds path text) :
    Arguments.path? (some (.ofString path)) = some path := by
  rw [ofString_of_ne hpath]
  apply nonempty_of_ne_empty
  exact fun h => hholds.path_ne_empty (Option.some.inj h)

theorem path?_of_load (hpath : path ≠ "--") (hload : load d.files path = .ok config) :
    Arguments.path? (some (.ofString path)) = some path := by
  obtain ⟨text, value, hholds, -, -⟩ := load_eq_ok_iff.1 hload
  exact path?_of_holds hpath hholds

theorem configures_of_load (hconfig : Arguments.path? a.config = some path)
    (hload : load d.files path = .ok config) : a.Configures d config := by
  rw [Arguments.Configures, hconfig]
  exact load_eq_ok_iff.1 hload

/-- What settings come of a header, a name and a flag that are all given. -/
def stated (header name : Value) (trace : Bool) : Except RunFault Settings :=
  (ofFields ⟨header.toJson, name.toJson, .scalar (.bool trace)⟩).mapError .settings

theorem stated_of_ne (hheader : header ≠ "--") (hname : name ≠ "--") (trace : Bool) :
    stated (.ofString header) (.ofString name) trace =
      .ok ⟨nonempty (some header), some (nameOrDefault (some name)), trace⟩ := by
  rw [ofString_of_ne hheader, ofString_of_ne hname]
  rfl

theorem overridden_of_given (config : Settings) (header name : Value) (trace : Bool) :
    (config.overridden ⟨header.toJson, name.toJson,
        if trace then .scalar (.bool true) else .null⟩).mapError .settings =
      stated header name (trace || config.trace) := by
  cases header <;> cases name <;> cases trace <;> rfl

theorem settings_of_config (hconfig : a.configSettings d.files = .ok config)
    (hfile : a.headerFile = none) :
    a.settings d.files =
      (config.overridden (a.fields (Arguments.field a.header))).mapError .settings := by
  have hheader : a.headerField d.files = .ok (Arguments.field a.header) := by
    rw [Arguments.headerField, hfile]
    rfl
  rw [Arguments.settings, hfile, Option.isSome_none, Bool.and_false, if_neg Bool.false_ne_true,
    hconfig, hheader]
  dsimp only
  cases config.overridden (a.fields (Arguments.field a.header)) <;> rfl

theorem settings_direct (a : Arguments) (d : Disk) (header name : String) (trace : Bool) :
    (a.along (.direct header name trace)).settings d.files =
      stated (.ofString header) (.ofString name) trace := by
  have hconfig : (a.along (.direct header name trace)).configSettings d.files = .ok {} := rfl
  rw [settings_of_config hconfig rfl]
  exact (overridden_of_given {} _ _ trace).trans (by rw [Bool.or_false])

theorem settings_overFile (a : Arguments) (header name : String) (trace : Bool)
    (hpath : path ≠ "--") (hload : load d.files path = .ok config) :
    (a.along (.overFile path header name trace)).settings d.files =
      stated (.ofString header) (.ofString name) (trace || config.trace) := by
  have hfound : Arguments.path? (a.along (.overFile path header name trace)).config = some path :=
    path?_of_load hpath hload
  have hconfig : (a.along (.overFile path header name trace)).configSettings d.files =
      .ok config := by
    rw [Arguments.configSettings, hfound]
    dsimp only
    rw [hload]
  rw [settings_of_config hconfig rfl]
  exact overridden_of_given config _ _ trace

theorem settings_byFile (a : Arguments) (hpath : path ≠ "--")
    (hload : load d.files path = .ok config) :
    (a.along (.byFile path)).settings d.files = .ok config := by
  have hfound : Arguments.path? (a.along (.byFile path)).config = some path :=
    path?_of_load hpath hload
  have hchosen : (a.along (.byFile path)).chosen config none = config.under {} := rfl
  rw [(normal_of_load hload).under_nothing] at hchosen
  apply Arguments.settings_eq_ok_iff.2
  exact ⟨Or.inl rfl, ⟨nofun, nofun⟩, config, none, configures_of_load hfound hload, rfl,
    hchosen.symm⟩

theorem settings_byFiles (a : Arguments) {file : String} (hpath : path ≠ "--")
    (hfile : file ≠ "--") (hload : load d.files path = .ok config) (hlead : d.Holds file lead)
    (hheader : dropEndWhile (· == '\n') (foldNewlines lead) = header.toList) :
    (a.along (.byFiles path file)).settings d.files =
      .ok { config with header := nonempty (some header) } := by
  have hfound : Arguments.path? (a.along (.byFiles path file)).config = some path :=
    path?_of_load hpath hload
  have hfoundFile : Arguments.path? (a.along (.byFiles path file)).headerFile = some file :=
    path?_of_holds hfile hlead
  have hchosen : (a.along (.byFiles path file)).chosen config (some (foldNewlines lead)) =
      config.under { header := .text (String.ofList (dropEndWhile (· == '\n') (foldNewlines lead))) } :=
    rfl
  rw [hheader, String.ofList_toList, (normal_of_load hload).under_header] at hchosen
  apply Arguments.settings_eq_ok_iff.2
  exact ⟨Or.inl rfl, ⟨nofun, nofun⟩, config, some (foldNewlines lead),
    configures_of_load hfound hload, Arguments.leads_some hfoundFile hlead, hchosen.symm⟩

/-- Whichever way a header, an error name and the tracer flag are given, all else being equal and the
target free, the runs end alike and leave the same at the target: as arguments, in a settings file, or
in a settings file without the header and a header file that has any newlines behind it. What is
given is what is in force. Arguments for the header and the name make those of a settings file not
matter. Only a pair of hyphens cannot be given as an argument, for which it is no text. -/
theorem routes_agree (hwords : parse words = .ok a) (ha : a.Unset) (halike : Alike a d d')
    (header name : String) (trace : Bool) :
    (header ≠ "--" → name ≠ "--" →
      (a.orElse (.direct header name trace)).settings d.files =
        .ok ⟨nonempty (some header), some (nameOrDefault (some name)), trace⟩ ∧
      (∀ path style, path ≠ "--" →
        d'.Holds path (writtenChars style (settingsJson (some header) name trace)) →
        d'.shows ((Route.byFile path).words ++ words) a.target =
          d.shows ((Route.direct header name trace).words ++ words) a.target) ∧
      ∀ path file style (ends : List Char) n, path ≠ "--" → file ≠ "--" →
        '\r' ∉ header.toList → header.toList.getLast? ≠ some '\n' →
        d'.Holds path (writtenChars style (settingsJson none name trace)) →
        d'.Holds file (header.toList ++ ends) → foldNewlines ends = List.replicate n '\n' →
        d'.shows ((Route.byFiles path file).words ++ words) a.target =
          d.shows ((Route.direct header name trace).words ++ words) a.target) ∧
    ∀ path config, path ≠ "--" → load d'.files path = .ok config →
      d'.shows ((Route.overFile path header name trace).words ++ words) a.target =
        d.shows ((Route.direct header name (trace || config.trace)).words ++ words) a.target := by
  have halike' : Alike a d' d := halike.symm
  refine ⟨?_, ?_⟩
  · intro hheader hname
    have hdirect := settings_direct a d header name trace
    rw [stated_of_ne hheader hname] at hdirect
    refine ⟨?_, ?_, ?_⟩
    · rw [orElse_of_unset ha, hdirect]
    · intro path style hpath hholds
      apply shows_route hwords ha halike'
      rw [settings_byFile a hpath (load_settingsJson hholds), hdirect]
    · intro path file style ends n hpath hfile hreturn hlast hholds hlead hends
      have hdrop := dropEndWhile_headerText hreturn hlast hends
      apply shows_route hwords ha halike'
      rw [settings_byFiles a hpath hfile (load_settingsJson hholds) hlead hdrop, hdirect]
  · intro path config hpath hload
    apply shows_route hwords ha halike'
    rw [settings_overFile a header name trace hpath hload, settings_direct]

theorem route_succeeds (hwords : parse words = .ok a) (ha : a.Unset) {r : Route}
    (htextual : (a.along r).Textual) {read : Option (List Char)} {script : List Char}
    (hprepared : Prepared d (a.along r) config read script) {place : Place}
    (hopened : d.writable a.target = .ok place) :
    ∃ out, (d.run (r.words ++ words)).1 = .reported ⟨0, out, ""⟩ := by
  obtain ⟨out, hplan⟩ := plan_of_prepared htextual hprepared
  rw [run_route d hwords ha, runArguments_of_open hplan hopened]
  exact ⟨_, rfl⟩

theorem route_fails (hwords : parse words = .ok a) (ha : a.Unset) {r : Route}
    (hfree : d.present a.target = false) {fault : SettingsFault}
    (hsettings : (a.along r).settings d.files = .error (.settings fault)) :
    (d.run (r.words ++ words)).1 = .reported ⟨1, "", fault.message ++ "\n"⟩ := by
  have hplan : (a.along r).plan d.files = .stop (.settings fault) := by
    have hpresent : d.files.present (a.along r).target = false := hfree
    rw [Arguments.plan, hpresent, hsettings]
    rfl
  rw [run_route d hwords ha, runArguments_of_stop hplan]
  rfl

/-- A script, the same settings for three routes, and settings to be put over. -/
def routeDisk : Disk where
  entries := [
    (["p.js"], .file (Utf8.encode ['a'])),
    (["all.json"],
      .file (Utf8.encode (writtenChars .ascii (settingsJson (some "import x;") "E" true)))),
    (["name.json"], .file (Utf8.encode (writtenChars .ascii (settingsJson none "E" true)))),
    (["header.txt"], .file (Utf8.encode ("import x;".toList ++ ['\r', '\n', '\n']))),
    (["other.json"],
      .file (Utf8.encode (writtenChars .plain (settingsJson (some "import y;") "F" true))))]

theorem unset_plainRun : plainRun.Unset := ⟨rfl, rfl, rfl, rfl, rfl⟩

theorem alike_routeDisk : Alike plainRun routeDisk routeDisk := ⟨rfl, rfl, rfl, rfl⟩

theorem direct_routeDisk :
    ∃ out, (routeDisk.run ((Route.direct "import x;" "E" true).words ++ ["p.js"])).1 =
      .reported ⟨0, out, ""⟩ := by
  have hwords : parse ["p.js"] = .ok plainRun := rfl
  have htextual : (plainRun.along (.direct "import x;" "E" true)).Textual := ⟨nofun, nofun⟩
  have hprepared : Prepared routeDisk (plainRun.along (.direct "import x;" "E" true)) {} none ['a'] :=
    ⟨Or.inl rfl, Or.inr rfl, rfl, rfl, rfl, by decide +kernel⟩
  have hopened : routeDisk.writable plainRun.target = .ok ["p.ts"] := rfl
  exact route_succeeds hwords unset_plainRun htextual hprepared hopened

theorem routes_routeDisk :
    parse ["p.js"] = .ok plainRun ∧ plainRun.Unset ∧ Alike plainRun routeDisk routeDisk ∧
      (∃ out, (routeDisk.run ((Route.direct "import x;" "E" true).words ++ ["p.js"])).1 =
        .reported ⟨0, out, ""⟩) ∧
      (plainRun.orElse (.direct "import x;" "E" true)).settings routeDisk.files =
        .ok ⟨some "import x;", some "E", true⟩ ∧
      ∀ r ∈ [Route.byFile "all.json", .byFiles "name.json" "header.txt",
          .overFile "other.json" "import x;" "E" false],
        routeDisk.shows (r.words ++ ["p.js"]) "p.ts" =
          routeDisk.shows ((Route.direct "import x;" "E" true).words ++ ["p.js"]) "p.ts" := by
  have hwords : parse ["p.js"] = .ok plainRun := rfl
  obtain ⟨hroutes, -⟩ :=
    routes_agree hwords unset_plainRun alike_routeDisk "import x;" "E" true
  obtain ⟨hsettings, hfile, hfiles⟩ := hroutes (by decide) (by decide)
  obtain ⟨-, hover⟩ :=
    routes_agree hwords unset_plainRun alike_routeDisk "import x;" "E" false
  have hall : routeDisk.Holds "all.json"
      (writtenChars .ascii (settingsJson (some "import x;") "E" true)) := rfl
  have hname : routeDisk.Holds "name.json" (writtenChars .ascii (settingsJson none "E" true)) := rfl
  have hheader : routeDisk.Holds "header.txt" ("import x;".toList ++ ['\r', '\n', '\n']) := rfl
  have hother : routeDisk.Holds "other.json"
      (writtenChars .plain (settingsJson (some "import y;") "F" true)) := rfl
  have hload := load_settingsJson hother
  refine ⟨hwords, unset_plainRun, alike_routeDisk, direct_routeDisk, hsettings, ?_⟩
  intro r hr
  simp only [List.mem_cons, List.not_mem_nil, or_false] at hr
  obtain rfl | rfl | rfl := hr
  · exact hfile "all.json" .ascii (by decide) hall
  · apply hfiles "name.json" "header.txt" .ascii ['\r', '\n', '\n'] 2
    · decide
    · decide
    · decide
    · decide
    · exact hname
    · exact hheader
    · rfl
  · exact hover "other.json" _ (by decide) hload

/-- A script, and settings whose header is a pair of hyphens. -/
def hyphenDisk : Disk where
  entries := [
    (["p.js"], .file (Utf8.encode ['a'])),
    (["c.json"], .file (Utf8.encode (writtenChars .ascii (settingsJson (some "--") "E" false))))]

theorem alike_hyphenDisk : Alike plainRun hyphenDisk hyphenDisk := ⟨rfl, rfl, rfl, rfl⟩

/-- The pair of hyphens is a header in the settings file, but none as an argument. -/
theorem hyphenHeader_differs :
    parse ["p.js"] = .ok plainRun ∧ plainRun.Unset ∧ Alike plainRun hyphenDisk hyphenDisk ∧
      '\r' ∉ "--".toList ∧ "--".toList.getLast? ≠ some '\n' ∧
      hyphenDisk.Holds "c.json" (writtenChars .ascii (settingsJson (some "--") "E" false)) ∧
      (∃ out, (hyphenDisk.run ((Route.byFile "c.json").words ++ ["p.js"])).1 =
        .reported ⟨0, out, ""⟩) ∧
      (hyphenDisk.run ((Route.direct "--" "E" false).words ++ ["p.js"])).1 =
        .reported ⟨1, "", "Option 'customHeader' should be str; got [].\n"⟩ := by
  have hwords : parse ["p.js"] = .ok plainRun := rfl
  have hholds : hyphenDisk.Holds "c.json"
      (writtenChars .ascii (settingsJson (some "--") "E" false)) := rfl
  refine ⟨hwords, unset_plainRun, alike_hyphenDisk, by decide, by decide, hholds, ?_, ?_⟩
  · have hfound : Arguments.path? (plainRun.along (.byFile "c.json")).config = some "c.json" := rfl
    have hconfig := configures_of_load hfound (load_settingsJson hholds)
    have htextual : (plainRun.along (.byFile "c.json")).Textual := ⟨nofun, nofun⟩
    have hprepared : Prepared hyphenDisk (plainRun.along (.byFile "c.json")) _ none ['a'] :=
      ⟨Or.inl rfl, Or.inl rfl, hconfig, rfl, rfl, by decide +kernel⟩
    have hopened : hyphenDisk.writable plainRun.target = .ok ["p.ts"] := rfl
    exact route_succeeds hwords unset_plainRun htextual hprepared hopened
  · have hsettings : (plainRun.along (.direct "--" "E" false)).settings hyphenDisk.files =
        .error (.settings (.wrongKind "customHeader" "str" (.array []))) :=
      settings_direct plainRun hyphenDisk "--" "E" false
    rw [route_fails hwords unset_plainRun rfl hsettings]
    decide +kernel

end Command

end TypedModule
