import TypedModule.Proofs.Command.Outcome
import TypedModule.Proofs.Graph.Layout

/-!
# What becomes of the script

The module that a run writes has the lines of the script between what the settings put before and
behind them, and taking the markers out gives the lines back. But the script comes through reading,
which makes every line end with a carriage return a line feed. So a script comes back as it stands
in its file if and only if it has no carriage return.
-/

namespace TypedModule.Command

variable {d : Disk} {a : Arguments} {config : Settings} {lead : Option (List Char)}
  {script : List Char}

theorem toList_render_typed (a : Arguments) (config : Settings) (lead : Option (List Char))
    (script : List Char) :
    (a.typed config lead script).render.toList =
      (a.chosen config lead).frontText.toList ++ holderLead.toList ++
        (markedLines ((splitLines script).map foldNewlines)).flatten ++
          ((a.chosen config lead).declarations (a.chosen config lead).effectiveName).text.toList := by
  rw [Arguments.typed, Arguments.code, Settings.toList_render_assemble, String.toList_ofList,
    splitLines_foldNewlines]

theorem recover_typed (a : Arguments) (config : Settings) (lead : Option (List Char))
    (script : List Char) :
    ((a.chosen config lead).recover (a.typed config lead script).render).toList =
      foldNewlines script := by
  rw [Arguments.typed, Arguments.code, Settings.recover_render_assemble, String.toList_ofList]

/-- The module that a successful run writes is that of the settings in force. -/
theorem holds_typed (hsucceeds : (d.runArguments a).1.Succeeds) (hholds : d.Holds a.source script) :
    ∃ config lead, a.Configures d config ∧ a.Leads d lead ∧
      (d.runArguments a).2.Holds a.target (a.typed config lead script).render.toList := by
  have hsettled := settled_runArguments d a
  obtain ⟨-, ⟨config, lead, script', hprepared⟩, place, hplace⟩ := hsettled.succeeds_iff.1 hsucceeds
  obtain rfl := hprepared.holds.unique hholds
  obtain ⟨hwritten, -⟩ := hsettled.writes hsucceeds config lead script' place hprepared hplace
  exact ⟨config, lead, hprepared.configures, hprepared.leads, hwritten⟩

/-- A successful run writes the lines of the script, folded, with markers between them and with
what the settings fix before and behind. So what comes back without the markers is the script as it
was read, which is the script as it stands in its file only if that has no carriage return. -/
theorem run_keeps_folded_lines (hsucceeds : (d.runArguments a).1.Succeeds)
    (hholds : d.Holds a.source script) :
    ∃ config lead text, a.Configures d config ∧ a.Leads d lead ∧
      (d.runArguments a).2.Holds a.target text ∧
      text = (a.chosen config lead).frontText.toList ++ holderLead.toList ++
        (markedLines ((splitLines script).map foldNewlines)).flatten ++
          ((a.chosen config lead).declarations (a.chosen config lead).effectiveName).text.toList ∧
      ((a.chosen config lead).recover (String.ofList text)).toList = foldNewlines script ∧
      (((a.chosen config lead).recover (String.ofList text)).toList = script ↔ '\r' ∉ script) := by
  obtain ⟨config, lead, hconfig, hlead, hwritten⟩ := holds_typed hsucceeds hholds
  have hrecover := recover_typed a config lead script
  refine ⟨config, lead, _, hconfig, hlead, hwritten, toList_render_typed a config lead script, ?_, ?_⟩
  · rw [String.ofList_toList, hrecover]
  · rw [String.ofList_toList, hrecover, foldNewlines_eq_self_iff]

/-- Lines that end with a line feed, a line separator and nothing, and one that is a marker. -/
def feedScript : List Char := "// @ts-ignore\nf();\u2028g();\n\n)".toList

theorem keeps_feedScript :
    ((scriptDisk feedScript).runArguments plainRun).1.Succeeds ∧
      (scriptDisk feedScript).Holds plainRun.source feedScript ∧
      ∃ text, ((scriptDisk feedScript).runArguments plainRun).2.Holds plainRun.target text ∧
        (Settings.recover {} (String.ofList text)).toList = feedScript := by
  have hsucceeds := succeeds_plainRun feedScript
  have hholds := (prepared_plainRun feedScript).holds
  obtain ⟨config, lead, text, hconfig, hlead, hwritten, -, -, hrecover⟩ :=
    run_keeps_folded_lines hsucceeds hholds
  obtain rfl : config = {} := hconfig
  obtain rfl : lead = none := hlead
  exact ⟨hsucceeds, hholds, text, hwritten, hrecover.2 (by decide +kernel)⟩

def returnScript : List Char := ['a', '\r', '\n', 'b', '\r', '\n']

/-- What comes back has other line ends than the script. -/
theorem plainRun_folds_returns :
    ((scriptDisk returnScript).runArguments plainRun).1.Succeeds ∧
      (scriptDisk returnScript).Holds plainRun.source returnScript ∧
      ∃ text, ((scriptDisk returnScript).runArguments plainRun).2.Holds plainRun.target text ∧
        (Settings.recover {} (String.ofList text)).toList = ['a', '\n', 'b', '\n'] ∧
        (Settings.recover {} (String.ofList text)).toList ≠ returnScript := by
  obtain ⟨config, lead, hconfig, hlead, hwritten⟩ :=
    holds_typed (succeeds_plainRun returnScript) (prepared_plainRun returnScript).holds
  obtain rfl : config = {} := hconfig
  obtain rfl : lead = none := hlead
  have hrecover := recover_typed plainRun {} none returnScript
  refine ⟨succeeds_plainRun returnScript, rfl, _, hwritten, ?_, ?_⟩
  · rw [String.ofList_toList]
    exact hrecover
  · rw [String.ofList_toList]
    exact fun h => absurd (hrecover.symm.trans h) (by decide)

end TypedModule.Command
