import InterviewFlow.Json.Reader
import InterviewFlow.Tree

/-!
# Documents

A flow document is a JSON text. Strings, numbers and booleans become leaves with
their text, arrays become sequences and objects become groups, in which a
repeated key keeps its first position and takes its last value. `null` has no
place in a tree; one that a later value of the same key replaces does no harm.
-/

set_option autoImplicit false

namespace InterviewFlow

inductive DocumentError where
  | malformed
  /-- A value has no counterpart in a tree. -/
  | unsupported (value : String)
deriving DecidableEq

def DocumentError.message : DocumentError → String
  | malformed => "Failed to parse tree JSON: "
  | unsupported value => "Unsupported value in parsed tree: " ++ value

namespace Document

/-- The entries of a group, when every subtree was built. -/
def settle (entries : Entries (Except DocumentError Tree)) :
    Except DocumentError (List (String × Tree)) :=
  entries.mapM fun (tag, outcome) => outcome.map fun tree => (tag, tree)

mutual

/-- The tree of a value. Only unsound values are malformed here. -/
def ofJson : Json → Except DocumentError Tree
  | .null => .error (.unsupported "null")
  | .bool value => .ok (.leaf (if value then "true" else "false"))
  | .number literal =>
      match literal.text? with
      | some text => .ok (.leaf text)
      | none => .error .malformed
  | .string (some text) => .ok (.leaf text)
  | .string none => .error .malformed
  | .array items => (ofItems items).map .sequence
  | .object entries => (settle (Entries.ofList (ofEntries entries))).map .group

def ofItems : List Json → Except DocumentError (List Tree)
  | [] => .ok []
  | item :: rest =>
      match ofJson item with
      | .error error => .error error
      | .ok tree => (ofItems rest).map (tree :: ·)

def ofEntries : List (Option String × Json) → List (String × Except DocumentError Tree)
  | [] => []
  | (some key, value) :: rest => (key, ofJson value) :: ofEntries rest
  | (none, _) :: rest => ("", .error .malformed) :: ofEntries rest

end

/-- Reads a document. The whole text is checked before any `null` is. -/
def read (source : String) : Except DocumentError Tree :=
  match Json.read? source with
  | none => .error .malformed
  | some value => ofJson value

end Document

end InterviewFlow
