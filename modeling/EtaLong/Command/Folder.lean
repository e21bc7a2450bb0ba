/-
**Folders in memory.**

A folder of files that is held in memory stands for the working directory, so that the command can
be run without a disk. A path is followed step by step from the folder.
-/

namespace EtaLong.Command

/-- Why a file could not be read. -/
inductive ReadFailure where
  | missing
  | isDirectory
  | notDirectory
  | nameTooLong
  | other (text : String)
deriving DecidableEq

/-- The wording of a failure to read. -/
def ReadFailure.message : ReadFailure → String
  | .missing => "No such file or directory"
  | .isDirectory => "Is a directory"
  | .notDirectory => "Not a directory"
  | .nameTooLong => "File name too long"
  | .other text => text

/-- The files of a folder by name. -/
structure Folder where
  files : List (String × ByteArray)

namespace Folder

/-- Where a path has come to. -/
inductive Place where
  /-- The folder itself. -/
  | inside
  /-- Some directory around the folder. -/
  | around
  | file (content : ByteArray)

/-- The length in bytes up to which a name is short enough. -/
def nameBound : Nat := 255

/-- One step of a path. -/
def step (folder : Folder) (place : Place) (name : String) : Except ReadFailure Place :=
  match place with
  | .file _ => .error .notDirectory
  | .inside =>
    if name = "" ∨ name = "." then .ok .inside
    else if name = ".." then .ok .around
    else if nameBound < name.utf8ByteSize then .error .nameTooLong
    else match folder.files.lookup name with
      | some content => .ok (.file content)
      | none => .error .missing
  | .around =>
    if name = "" ∨ name = "." ∨ name = ".." then .ok .around
    else if nameBound < name.utf8ByteSize then .error .nameTooLong
    else .error .missing

/-- The length in bytes from which on a path is too long. -/
def pathBound : Nat := 4096

/-- The content of the file at a path. -/
def read (folder : Folder) (path : String) : Except ReadFailure ByteArray := do
  if path = "" then throw .missing
  if pathBound ≤ path.utf8ByteSize then throw .nameTooLong
  let start := if path.toList.head? = some '/' then .around else .inside
  match ← (path.splitOn "/").foldlM folder.step start with
  | .file content => return content
  | _ => throw .isDirectory

end Folder

end EtaLong.Command
