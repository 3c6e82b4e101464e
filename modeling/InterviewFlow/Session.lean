import InterviewFlow.Artifact.Basic
import InterviewFlow.Compiler

/-!
# Sessions

A session keeps nodes and predicate bindings by name and a directory of
artifacts. Every request either answers and leaves a new session, or fails and
leaves the session as it was.
-/

set_option autoImplicit false

namespace InterviewFlow

structure Session where
  nodes : OrderedMap Node
  bindings : OrderedMap Predicate
  directory : Directory

inductive Request where
  | compile (name source : String)
  | query (name : String)
  | fetch (name : String)
  | bind (name : String) (tree : Tree)
  | unbind (name : String)
  | resolve (name : String)
  | unresolved (name : String)
  /-- Add the body of another node to the end of a node's own. -/
  | append (name source : String)
  | compare (name other : String)
  | save (name : String) (destination : Destination) (version : UInt32)
  | write (path : String) (bytes : List UInt8)
  /-- Keep the node of an artifact under a name, its own where none is given. -/
  | load (path : String) (name : Option String)

inductive Answer where
  /-- A node with that many elements in its body was kept. -/
  | kept (elements : Nat)
  | report (report : Report)
  | node (node : Node)
  /-- The predicate that was bound to the name before. -/
  | replaced (predicate : Option Predicate)
  | removed (predicate : Option Predicate)
  | resolved (predicate : Option Predicate)
  | names (names : List String)
  | verdict (equal : Bool)
  | saved (size : Nat)
  | written

inductive SessionError where
  | unknownNode
  | compile (error : CompileError)
  | transform (error : TransformError)
  | artifact (error : ArtifactError)
deriving DecidableEq

namespace Session

def start (root : String) : Session :=
  ⟨.empty, .empty, .empty root⟩

def node (session : Session) (name : String) : Except SessionError Node :=
  match session.nodes.get? name with
  | some node => .ok node
  | none => .error .unknownNode

def keep (session : Session) (name : String) (node : Node) : Session :=
  { session with nodes := session.nodes.insert name node }

def resolver (session : Session) : Resolver :=
  session.bindings.get?

def predicateOf (tree : Tree) : Except TransformError Predicate := do
  let value ← Registry.flow.rewrite Registry.defaultDepthLimit ⟨""⟩ tree
  value.toPredicate

def step (session : Session) : Request → Except SessionError (Answer × Session)
  | .compile name source => do
      let node ← (Compiler.standard.compile name source).mapError .compile
      return (.kept node.body.length, session.keep name node)
  | .query name => do
      let node ← session.node name
      return (.report (node.report session.resolver), session)
  | .fetch name => do
      let node ← session.node name
      return (.node node, session)
  | .bind name tree => do
      let predicate ← (predicateOf tree).mapError .transform
      return (.replaced (session.bindings.get? name),
        { session with bindings := session.bindings.insert name predicate })
  | .unbind name =>
      return (.removed (session.bindings.get? name),
        { session with bindings := session.bindings.erase name })
  | .resolve name =>
      return (.resolved (session.bindings.get? name), session)
  | .unresolved name => do
      let node ← session.node name
      return (.names (node.unresolved session.resolver), session)
  | .append name source => do
      let addition ← session.node source
      let node ← session.node name
      let longer := node.append addition.body
      return (.report (longer.report session.resolver), session.keep name longer)
  | .compare name other => do
      let left ← session.node name
      let right ← session.node other
      return (.verdict (left.equivalent right), session)
  | .save name destination version => do
      let node ← session.node name
      let artifact : Artifact := ⟨version, node⟩
      let directory ← (artifact.save session.directory destination).mapError .artifact
      return (.saved artifact.toBytes.length, { session with directory := directory })
  | .write path bytes => do
      let directory ← (session.directory.write (.path path) bytes).mapError fun failure =>
        .artifact (Artifact.fileError (session.directory.fullPath path) failure)
      return (.written, { session with directory := directory })
  | .load path name => do
      let artifact ← (Artifact.load session.directory path).mapError .artifact
      return (.node artifact.node,
        session.keep (name.getD artifact.node.name) artifact.node)

/-- Answers requests one after the other; a failing one changes nothing. -/
def run (session : Session) : List Request → List (Except SessionError Answer)
  | [] => []
  | request :: rest =>
      match session.step request with
      | .error error => .error error :: session.run rest
      | .ok (answer, next) => .ok answer :: next.run rest

end Session

end InterviewFlow
