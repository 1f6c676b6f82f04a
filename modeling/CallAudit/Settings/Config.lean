import CallAudit.Failure
import CallAudit.Settings.Section
import CallAudit.Toml.Reader

/-!
# Configuration files

A configuration is a TOML file. One that is not there, or is not TOML, counts as empty; one that is
not UTF-8 is a failure.
-/

namespace CallAudit

namespace SettingsTable

/-- The name of a configuration file. -/
def configName : Text := "taurus.toml"

/-- The configuration file: the given one, or else the one in the root directory. -/
def configFile (root config : Option Path) : Path :=
  config.getD ((root.getD (.ofText ".")).child configName)

/-- The configuration written by a text. -/
def ofText (t : Text) : Except Failure SettingsTable :=
  match Toml.read (Text.unifyNewlines t) with
  | .ok table => .ok table
  | .error .malformed => .ok []
  | .error .tooDeep => .error .tooDeep
  | .error (.hugeInteger digits) => .error (.hugeInteger digits)

/-- The configuration of a file. -/
def load (files : FileTree) (root config : Option Path) : Except Failure SettingsTable :=
  match files.readBytes (configFile root config) with
  | .error fault => if fault.problem.isSystem then .ok [] else .error (.file fault)
  | .ok bytes =>
    match Utf8.decode bytes with
    | .error fault => .error (.undecodable fault)
    | .ok t => ofText t

/-- The audit settings of a configuration file. -/
def loadAudit (files : FileTree) (root config : Option Path) : Except Failure SettingsTable :=
  (load files root config).map ofConfig

end SettingsTable

end CallAudit
