import DaoLedger.Command.Run
/-!
A folder with a few files, in which the program is run for a rehearsal. A path is followed step by
step, and the first step that cannot be taken decides how it fails. Of what lies outside the folder
only the root of the file system is known, with the empty device and some folders in it.
-/
namespace DaoLedger.Rehearsal

abbrev Folder := List (String × String)

inductive Place where
  | folder
  /-- A folder of which nothing is known. -/
  | elsewhere
  | root
  | devices
  | file (content : String)
deriving DecidableEq, Inhabited, Repr

namespace Folder

def nameLimit : Nat := 255

def pathLimit : Nat := 4095

def folders : List String :=
  ["bin", "boot", "etc", "home", "lib", "media", "mnt", "opt", "proc", "root", "run", "sbin", "srv",
    "sys", "tmp", "usr", "var"]

def inRoot (name : String) : Except FileError Place :=
  if name = "dev" then .ok .devices
  else if name ∈ folders then .ok .elsewhere
  else .error .missing

def enter (f : Folder) (name : String) : Place → Except FileError Place
  | .folder => (f.lookup name).elim (.error .missing) fun content => .ok (.file content)
  | .root => inRoot name
  | .devices => if name = "null" then .ok (.file "") else .error .missing
  | .elsewhere => .error .missing
  | .file _ => .error .notDirectory

def parent : Place → Except FileError Place
  | .folder | .elsewhere => .ok .elsewhere
  | .root | .devices => .ok .root
  | .file _ => .error .notDirectory

def step (f : Folder) (name : String) (p : Place) : Except FileError Place :=
  if name = "" ∨ name = "." then
    match p with
    | .file _ => .error .notDirectory
    | p => .ok p
  else if name = ".." then parent p
  else
    match p with
    | .file _ => .error .notDirectory
    | p => if nameLimit < name.utf8ByteSize then .error .tooLong else f.enter name p

def follow (f : Folder) (p : Place) : List String → Except FileError Place
  | [] => .ok p
  | name :: names => (f.step name p).bind fun p => f.follow p names

def locate (f : Folder) (path : String) : Except FileError Place :=
  if path = "" then .error .missing
  else if pathLimit < path.utf8ByteSize then .error .tooLong
  else if path.startsWith "/" then f.follow .root (path.splitOn "/")
  else f.follow .folder (path.splitOn "/")

def read (f : Folder) (path : String) : Except FileError String :=
  match f.locate path with
  | .error e => .error e
  | .ok (.file content) => .ok content
  | .ok _ => .error .isDirectory

end Folder

def isOwn : Address → Bool
  | .v4 ip _ => ip.a = 127 || 224 ≤ ip.a || [ip.a, ip.b, ip.c, ip.d] = [0, 0, 0, 0]
  | .v6 .. => true

def Folder.host (f : Folder) : Command.Host Id where
  fetch := f.read
  listen a := if isOwn a then .ok () else .error .foreignAddress

end DaoLedger.Rehearsal
