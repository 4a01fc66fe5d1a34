import TypedModule.Settings

/-!
# Chains of settings

Settings are often made in several steps: built from fields, overridden by fields, or read from
data. A step that fails leaves the settings as they were, and the chain goes on.
-/

namespace TypedModule.Settings

inductive Step
  | build (fields : Fields)
  | override (fields : Fields)
  | read (value : Json)

def apply (s : Settings) : Step → Except SettingsFault Settings
  | .build fields => ofFields fields
  | .override fields => s.overridden fields
  | .read value => ofJson value

/-- The settings after a step. -/
def after (s : Settings) (step : Step) : Settings :=
  match s.apply step with
  | .error _ => s
  | .ok next => next

/-- The outcome of every step of a chain. -/
def outcomes : Settings → List Step → List (Except SettingsFault Settings)
  | _, [] => []
  | s, step :: rest => s.apply step :: outcomes (s.after step) rest

/-- The settings at the end of a chain. -/
def final (s : Settings) (steps : List Step) : Settings := steps.foldl after s

end TypedModule.Settings
