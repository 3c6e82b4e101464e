import InterviewFlow.Document
import InterviewFlow.Rewriting.FlowRules

/-!
# Compiling documents

A compiler reads a document and rewrites its tree to a node. Reader, registry
and depth limit can each be replaced.
-/

set_option autoImplicit false

namespace InterviewFlow

inductive CompileError where
  | document (error : DocumentError)
  | registry (error : RegistryError)
  | transform (error : TransformError)
deriving DecidableEq

def CompileError.message : CompileError → String
  | document error => error.message
  | registry error => error.message
  | transform error => error.message

structure Compiler where
  read : String → Except DocumentError Tree := Document.read
  registry : Registry := .flow
  depthLimit : Nat := Registry.defaultDepthLimit

namespace Compiler

/-- Reads JSON documents, with the rules of flow documents and the default depth limit. -/
def standard : Compiler :=
  {}

def compile (compiler : Compiler) (name source : String) : Except CompileError Node :=
  match compiler.read source with
  | .error error => .error (.document error)
  | .ok tree =>
      match compiler.registry.rewriteNode compiler.depthLimit ⟨name⟩ tree with
      | .error error => .error (.transform error)
      | .ok node => .ok node

end Compiler

end InterviewFlow
