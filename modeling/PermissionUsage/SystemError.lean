/-!
# Faults of the system

The faults that files and directories give rise to, with the texts of the system.
-/

namespace PermissionUsage

/-- A fault in reading, writing or creating a file or directory. -/
inductive SystemError where
  | notFound
  | exists
  | isDirectory
  | notText
  deriving DecidableEq, Repr

def SystemError.message : SystemError → String
  | .notFound => "No such file or directory (os error 2)"
  | .exists => "File exists (os error 17)"
  | .isDirectory => "Is a directory (os error 21)"
  | .notText => "stream did not contain valid UTF-8"

end PermissionUsage
