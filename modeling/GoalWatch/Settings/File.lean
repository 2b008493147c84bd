import GoalWatch.Folder
import GoalWatch.Settings

/-!
# Settings files

* `SettingsError` -- why settings cannot be loaded, saved or used;
* `Settings.ofFile` -- settings from what was read of a file.
-/

namespace GoalWatch

inductive SettingsError where
  | io (path : String) (fault : FileFault)
  /-- The text is no JSON, or not of the right shape. -/
  | json
  | timeout (cause : TimeoutOutOfRange)

def SettingsError.message : SettingsError → String
  | .io path fault => "Settings I/O error on " ++ path ++ ": " ++ fault.message
  | .json => "Invalid settings JSON"
  | .timeout cause => cause.message

namespace Settings

/-- Settings from what was read of the file at `path`. -/
def ofFile (path : String) : Except FileFault Content → Except SettingsError Settings
  | .error fault => .error (.io path fault)
  | .ok content =>
    match content.text with
    | .error fault => .error (.io path fault)
    | .ok text =>
      match Settings.read? text with
      | some s => .ok s
      | none => .error .json

/-- Loads settings from a file in a folder. -/
def load (f : Folder) (path : String) : Except SettingsError Settings :=
  ofFile path (f.read path)

/-- Saves settings to a file in a folder. -/
def save (s : Settings) (f : Folder) (path : String) : Except SettingsError Folder :=
  (f.write path (.ofText s.write)).mapError (.io path)

end Settings

end GoalWatch
