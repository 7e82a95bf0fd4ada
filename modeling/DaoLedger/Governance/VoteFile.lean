import DaoLedger.Governance.VoteList
import DaoLedger.Json.Printer
import DaoLedger.Json.Reader
/-!
The voter's own votes in a JSON file. A file that is not there stands for an empty list, and
missing directories above it are made when it is written.
-/
namespace DaoLedger

inductive Found where
  | missing
  | file (text : String)
  | directory
  /-- The folder of the path is a file. -/
  | underFile
  /-- Something above the folder of the path is no directory. -/
  | blocked
deriving DecidableEq, Inhabited, Repr

structure VoteFile where
  path : String
  folder : String
  found : Found
deriving DecidableEq, Inhabited, Repr

namespace VoteFile

def text? (f : VoteFile) : Option String :=
  match f.found with
  | .file text => some text
  | _ => none

def write (votes : List OwnVote) : String := (toJson votes).pretty

def load (f : VoteFile) : Except GovernanceError (List OwnVote) :=
  match f.found with
  | .missing | .underFile | .blocked => .ok []
  | .directory => .error (.storage ("failed to read " ++ f.path ++ ": Is a directory (os error 21)"))
  | .file text =>
    match (Json.read? text).bind ofJson? with
    | none => .error .invalidVoteList
    | some votes => .ok votes

def save (f : VoteFile) (votes : List OwnVote) : Except GovernanceError VoteFile :=
  match f.found with
  | .missing | .file _ => .ok { f with found := .file (write votes) }
  | .directory =>
    .error (.storage ("failed to write " ++ f.path ++ ": Is a directory (os error 21)"))
  | .underFile =>
    .error (.storage ("failed to create " ++ f.folder ++ ": File exists (os error 17)"))
  | .blocked =>
    .error (.storage ("failed to create " ++ f.folder ++ ": Not a directory (os error 20)"))

end VoteFile

instance : VoteStorage VoteFile where
  load := VoteFile.load
  save f votes :=
    match f.save votes with
    | .ok f => (f, .ok ())
    | .error e => (f, .error e)

end DaoLedger
