import PermissionUsage.Codec.Settings
import PermissionUsage.Json.Reader
import PermissionUsage.Json.Writer
import PermissionUsage.SystemError
/-!
# The store of settings

Settings are kept in memory and in a file. A change is made in memory first and then written; it
stays in memory even if the write fails. What is in the file is read when the store is opened and
when it is reloaded: opening falls back to the defaults where reloading fails.
-/

namespace PermissionUsage

inductive FileContent where
  | absent
  | text (chars : String)
  /-- A file that is no text. -/
  | bytes
  | directory
  deriving DecidableEq, Repr, Inhabited

def FileContent.read : FileContent → Except SystemError String
  | .absent => .error .notFound
  | .text chars => .ok chars
  | .bytes => .error .notText
  | .directory => .error .isDirectory

/-- The file of the settings: where it is, what is there, and why writing it fails, if it does. -/
structure SettingsFile where
  path : String
  content : FileContent := .absent
  writeFault : Option SystemError := none
  deriving DecidableEq, Repr, Inhabited

inductive SettingsError where
  /-- The file could not be read when the store was opened. -/
  | opening (path : String) (cause : SystemError)
  | writing (path : String) (cause : SystemError)
  /-- The file could not be read when the store was reloaded. -/
  | reloading (cause : SystemError)
  /-- The text of the file is no document of settings. -/
  | malformed
  deriving DecidableEq, Repr

/-- The text of a failure, from the outside in; a malformed file has none. -/
def SettingsError.message : SettingsError → String
  | .opening path cause => s!"Failed to read settings from {path}: {cause.message}"
  | .writing path cause => s!"Failed to write settings to {path}: {cause.message}"
  | .reloading cause => cause.message
  | .malformed => ""

namespace Settings

/-- The settings of a text, if it is a document of settings. -/
def ofFileText? (text : String) : Option Settings := (Json.parse? text).bind decode

def toFileText (settings : Settings) : String := (encode settings).pretty

end Settings

structure SettingsStore where
  settings : Settings
  file : SettingsFile
  deriving DecidableEq, Repr

namespace SettingsStore

/-- Opens the store on a file. A missing file and a text that is no document of settings give the
defaults. -/
def ofFile (file : SettingsFile) : Except SettingsError SettingsStore :=
  match file.content.read with
  | .ok text => .ok { settings := (Settings.ofFileText? text).getD {}, file }
  | .error .notFound => .ok { settings := {}, file }
  | .error cause => .error (.opening file.path cause)

/-- Reads the file again. If that fails the settings stay as they are. -/
def reload (store : SettingsStore) : Except SettingsError Unit × SettingsStore :=
  match store.file.content.read with
  | .error cause => (.error (.reloading cause), store)
  | .ok text =>
    match Settings.ofFileText? text with
    | none => (.error .malformed, store)
    | some settings => (.ok (), { store with settings })

def persist (store : SettingsStore) : Except SettingsError Unit × SettingsStore :=
  match store.file.writeFault with
  | some cause => (.error (.writing store.file.path cause), store)
  | none => (.ok (), { store with file :=
      { store.file with content := .text store.settings.toFileText } })

/-- Changes the settings, and writes them if asked to. -/
def update (store : SettingsStore) (settings : Settings) (changed : Bool) :
    Except SettingsError Bool × SettingsStore :=
  let store := { store with settings }
  if changed then
    let (written, store) := store.persist
    (written.map fun _ => true, store)
  else (.ok false, store)

/-- Switches system usage; whether that changed anything. -/
def setShowSystem (store : SettingsStore) (value : Bool) :
    Except SettingsError Bool × SettingsStore :=
  let toggles := { store.settings.toggles with showSystem := value }
  store.update { store.settings with toggles } (store.settings.toggles.showSystem ≠ value)

/-- Switches between one day and seven; whether that changed anything. -/
def setShowSevenDays (store : SettingsStore) (value : Bool) :
    Except SettingsError Bool × SettingsStore :=
  let toggles := { store.settings.toggles with showSevenDays := value }
  store.update { store.settings with toggles } (store.settings.toggles.showSevenDays ≠ value)

/-- Sets the features; they are written even if they are the same. -/
def setFeatures (store : SettingsStore) (features : Features) :
    Except SettingsError Unit × SettingsStore :=
  let (written, store) := store.update { store.settings with features } true
  (written.map fun _ => (), store)

end SettingsStore

end PermissionUsage
