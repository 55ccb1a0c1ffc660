/-!
# Why a file cannot be used
-/

namespace Discharge

/-- Why a file cannot be read, written or run. -/
inductive FileError where
  /-- It is not there, nor can it be made. -/
  | missing
  | denied
  /-- Its path leads through something that is no directory. -/
  | notDirectory
  | isDirectory
  /-- Its path, or a name in it, is too long. -/
  | nameTooLong
  /-- Any other reason. -/
  | other (text : String)
deriving DecidableEq, Repr

def FileError.message : FileError → String
  | .missing => "No such file or directory (os error 2)"
  | .denied => "Permission denied (os error 13)"
  | .notDirectory => "Not a directory (os error 20)"
  | .isDirectory => "Is a directory (os error 21)"
  | .nameTooLong => "File name too long (os error 36)"
  | .other text => text

end Discharge
