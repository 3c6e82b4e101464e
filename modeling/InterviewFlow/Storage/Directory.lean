import InterviewFlow.Collections.OrderedMap

/-!
# A directory of files

A directory without subdirectories, the directories above it, and beside them a
device that opens but never has space. A path is refused as a whole when it
holds a NUL or is too long. It is then walked from left to right: empty parts
and the part `.` stay where the walk is, `..` goes up, and any other part names
a file, so that nothing can follow it. Each operation says what it was doing
when it failed and why.
-/

set_option autoImplicit false

namespace InterviewFlow

inductive FileAction where
  | opening
  | creating
  | reading
  | writing
deriving DecidableEq

def FileAction.describe : FileAction → String
  | opening => "open file"
  | creating => "create file"
  | reading => "read from file"
  | writing => "write to file"

inductive FileFault where
  | missing
  | notADirectory
  | isADirectory
  | noSpace
  | nameTooLong
  /-- The path holds a NUL, which no name may contain. -/
  | nulByte
deriving DecidableEq

def FileFault.describe : FileFault → String
  | missing => "No such file or directory (os error 2)"
  | notADirectory => "Not a directory (os error 20)"
  | isADirectory => "Is a directory (os error 21)"
  | noSpace => "No space left on device (os error 28)"
  | nameTooLong => "File name too long (os error 36)"
  | nulByte => "file name contained an unexpected NUL byte"

/-- Where bytes go: to a path in the directory, or to the device without space. -/
inductive Destination where
  | path (path : String)
  | fullDevice
deriving DecidableEq

/-- The contents of files by name. The name of a file in a directory above starts with one
`../` for every level. -/
structure Directory where
  root : String
  files : OrderedMap (List UInt8)

namespace Directory

def empty (root : String) : Directory :=
  ⟨root, .empty⟩

def fullPath (directory : Directory) (path : String) : String :=
  directory.root ++ "/" ++ path

def pathOf (directory : Directory) : Destination → String
  | .path path => directory.fullPath path
  | .fullDevice => "/dev/full"

inductive Target where
  /-- The directory itself or one above it. -/
  | directory
  /-- The place of a file, which may be missing. -/
  | entry (name : String)
  /-- A name that the path takes for a directory, and why it is none. -/
  | slashed (fault : FileFault)
deriving DecidableEq

def nameLimit : Nat := 255

def pathLimit : Nat := 4095

/-- Why a walk cannot go on through a part: no part but `.` and `..` is a directory. -/
def barrier (directory : Directory) (above part : String) : FileFault :=
  if nameLimit < part.utf8ByteSize then .nameTooLong
  else
    match directory.files.get? (above ++ part) with
    | some _ => .notADirectory
    | none => .missing

/-- Follows the parts of a path; `above` leads from the directory to where the walk is. -/
def walk (directory : Directory) (above : String) : List String → Except FileFault Target
  | [] => .ok .directory
  | part :: rest =>
      if part = "" ∨ part = "." then directory.walk above rest
      else if part = ".." then directory.walk ("../" ++ above) rest
      else if rest = [] then
        if nameLimit < part.utf8ByteSize then .error .nameTooLong else .ok (.entry (above ++ part))
      else if rest.all fun later => later = "" then .ok (.slashed (directory.barrier above part))
      else .error (directory.barrier above part)

def locate (directory : Directory) (path : String) : Except FileFault Target :=
  if '\x00' ∈ path.toList then .error .nulByte
  else if pathLimit < (directory.fullPath path).utf8ByteSize then .error .nameTooLong
  else directory.walk "" (path.splitOn "/")

/-- The bytes of the file at a path. A directory can be opened but not read. -/
def read (directory : Directory) (path : String) :
    Except (FileAction × FileFault) (List UInt8) :=
  match directory.locate path with
  | .error fault => .error (.opening, fault)
  | .ok .directory => .error (.reading, .isADirectory)
  | .ok (.entry name) =>
      match directory.files.get? name with
      | some bytes => .ok bytes
      | none => .error (.opening, .missing)
  | .ok (.slashed fault) => .error (.opening, fault)

/-- Creates or truncates the file at a destination and writes the bytes to it. -/
def write (directory : Directory) (destination : Destination) (bytes : List UInt8) :
    Except (FileAction × FileFault) Directory :=
  match destination with
  | .fullDevice => if bytes.isEmpty then .ok directory else .error (.writing, .noSpace)
  | .path path =>
      match directory.locate path with
      | .error fault => .error (.creating, fault)
      | .ok (.entry name) => .ok { directory with files := directory.files.insert name bytes }
      | .ok .directory => .error (.creating, .isADirectory)
      | .ok (.slashed _) => .error (.creating, .isADirectory)

end Directory

end InterviewFlow
