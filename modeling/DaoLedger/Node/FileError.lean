/-!
Why a file cannot be read as text.
-/
namespace DaoLedger

inductive FileError where
  | missing | isDirectory | notDirectory | denied | tooLong | notText
deriving DecidableEq, Inhabited, Repr

def FileError.message : FileError → String
  | .missing => "No such file or directory (os error 2)"
  | .isDirectory => "Is a directory (os error 21)"
  | .notDirectory => "Not a directory (os error 20)"
  | .denied => "Permission denied (os error 13)"
  | .tooLong => "File name too long (os error 36)"
  | .notText => "stream did not contain valid UTF-8"

end DaoLedger
