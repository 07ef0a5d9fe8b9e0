import PermissionUsage.Settings.Store
/-!
# The settings file in its directory

A directory with a settings file, which other programs may change, and a store that is open on it or
on a path beside it.
-/

namespace PermissionUsage

/-- The paths on which a store may be opened. -/
inductive SettingsPlace where
  | file
  /-- A file in a directory that does not exist. -/
  | missingDirectory
  | directory
  deriving DecidableEq, Repr

/-- A directory with a settings file, and the store that is open, if there is one. -/
structure SettingsDirectory where
  path : String
  content : FileContent := .absent
  /-- Where the open store is, and its settings. -/
  current : Option (SettingsPlace × Settings) := none
  deriving Repr

namespace SettingsDirectory

def fileAt (directory : SettingsDirectory) : SettingsPlace → SettingsFile
  | .file => { path := directory.path ++ "/settings.json", content := directory.content }
  | .missingDirectory =>
    { path := directory.path ++ "/missing/settings.json", writeFault := some .notFound }
  | .directory =>
    { path := directory.path, content := .directory, writeFault := some .isDirectory }

/-- Takes over an open store and what it did to its file. -/
def keep (directory : SettingsDirectory) (place : SettingsPlace) (store : SettingsStore) :
    SettingsDirectory :=
  { directory with
    content := if place = .file then store.file.content else directory.content
    current := some (place, store.settings) }

/-- Opens a store at a place, in place of the one that is open. -/
def openAt (directory : SettingsDirectory) (place : SettingsPlace) :
    Except SettingsError Settings × SettingsDirectory :=
  match SettingsStore.ofFile (directory.fileAt place) with
  | .ok store => (.ok store.settings, directory.keep place store)
  | .error error => (.error error, { directory with current := none })

/-- Calls the open store; none if there is none. -/
def call? {α : Type} (directory : SettingsDirectory) (run : SettingsStore → α × SettingsStore) :
    Option (α × SettingsDirectory) := do
  let (place, settings) ← directory.current
  let (answer, store) := run { settings, file := directory.fileAt place }
  return (answer, directory.keep place store)

def write (directory : SettingsDirectory) (content : FileContent) : SettingsDirectory :=
  { directory with content }

def delete (directory : SettingsDirectory) : Except SystemError Unit × SettingsDirectory :=
  if directory.content = .absent then (.error .notFound, directory)
  else (.ok (), { directory with content := .absent })

end SettingsDirectory

end PermissionUsage
