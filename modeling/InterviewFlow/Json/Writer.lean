import InterviewFlow.Json.Value

/-!
# Writing JSON

The compact form has no blanks. The pretty form puts every item and entry on a
line of its own, indented by two spaces a level, with a space after each colon;
empty containers stay on one line.
-/

set_option autoImplicit false

namespace InterviewFlow

namespace Json

def compact (value : Json) : String :=
  String.ofList (value.tokens.flatMap Token.write)

def newline (level : Nat) : List Char :=
  '\n' :: List.replicate (2 * level) ' '

mutual

def prettyAt (level : Nat) : Json → List Char
  | .null => Token.null.write
  | .bool value => (Token.bool value).write
  | .number literal => (Token.number literal).write
  | .string text => (Token.string text).write
  | .array [] => ['[', ']']
  | .array (item :: rest) =>
      '[' :: prettyItems (level + 1) (item :: rest) ++ newline level ++ [']']
  | .object [] => ['\x7b', '\x7d']
  | .object (entry :: rest) =>
      '\x7b' :: prettyEntries (level + 1) (entry :: rest) ++ newline level ++ ['\x7d']

def prettyItems (level : Nat) : List Json → List Char
  | [] => []
  | [item] => newline level ++ prettyAt level item
  | item :: next :: rest =>
      newline level ++ prettyAt level item ++ ',' :: prettyItems level (next :: rest)

def prettyEntries (level : Nat) : List (Option String × Json) → List Char
  | [] => []
  | [(key, value)] =>
      newline level ++ (Token.string key).write ++ ':' :: ' ' :: prettyAt level value
  | (key, value) :: next :: rest =>
      newline level ++ (Token.string key).write ++ ':' :: ' ' :: prettyAt level value
        ++ ',' :: prettyEntries level (next :: rest)

end

def pretty (value : Json) : String :=
  String.ofList (prettyAt 0 value)

end Json

end InterviewFlow
