import InterviewFlow.Artifact.Decoding
import InterviewFlow.Storage.Directory

/-!
# Artifacts

A compiled node with the revision of the format it is stored in, as bytes that
can be cached and loaded without reading the document again. Bytes of another
revision are refused, but only after everything has been read.
-/

set_option autoImplicit false

namespace InterviewFlow

structure Artifact where
  version : UInt32
  node : Node

inductive ArtifactError where
  | undecodable
  | unsupportedVersion (version : UInt32)
  | file (action : FileAction) (path : String) (fault : FileFault)
deriving DecidableEq

namespace Artifact

/-- The format revision that is written and understood. -/
def currentVersion : UInt32 := 1

def ofNode (node : Node) : Artifact :=
  ⟨currentVersion, node⟩

def toBytes (artifact : Artifact) : List UInt8 :=
  writeInteger artifact.version.toNat ++ writeNode artifact.node

/-- Reads an artifact of any revision. -/
def readArtifact (levels : Nat) : Reader Artifact := do
  let version ← readTag
  let node ← readNode levels
  return ⟨UInt32.ofNat version, node⟩

/-- Reads an artifact of the current revision; bytes after it are ignored. -/
def ofBytes (bytes : List UInt8) : Except ArtifactError Artifact :=
  match readArtifact bytes.length bytes with
  | none => .error .undecodable
  | some (artifact, _) =>
      if artifact.version = currentVersion then .ok artifact
      else .error (.unsupportedVersion artifact.version)

def fileError (path : String) (failure : FileAction × FileFault) : ArtifactError :=
  .file failure.1 path failure.2

def save (artifact : Artifact) (directory : Directory) (destination : Destination) :
    Except ArtifactError Directory :=
  (directory.write destination artifact.toBytes).mapError
    (fileError (directory.pathOf destination))

def load (directory : Directory) (path : String) : Except ArtifactError Artifact :=
  match directory.read path with
  | .error failure => .error (fileError (directory.fullPath path) failure)
  | .ok bytes => ofBytes bytes

/-- Whether two artifacts differ at most in the order of options and set values. -/
def equivalent (left right : Artifact) : Bool :=
  left.version = right.version && left.node.equivalent right.node

end Artifact

def ArtifactError.message : ArtifactError → String
  | undecodable => "Artifact error: Deserialization failed: "
  | unsupportedVersion version =>
      "Artifact error: Unsupported artifact version " ++ version.toNat.repr ++ " (expected "
        ++ Artifact.currentVersion.toNat.repr ++ ")"
  | file action path fault =>
      "Artifact error: Could not " ++ action.describe ++ " '" ++ path ++ "': " ++ fault.describe

end InterviewFlow
