import InterviewFlow.Json.Token

/-!
# JSON values

A JSON value keeps everything that its tokens say: number literals as they are
spelled, repeated keys, and string literals that spell no text. Hence a value and
its token sequence determine each other. `Json.isSound` singles out the values
in which every literal means something.
-/

set_option autoImplicit false

namespace InterviewFlow

inductive Json where
  | null
  | bool (value : Bool)
  | number (literal : NumberLiteral)
  /-- A string, `none` where its literal leaves a surrogate unpaired. -/
  | string (text : Option String)
  | array (items : List Json)
  /-- The entries in order, repeated keys included. -/
  | object (entries : List (Option String × Json))

namespace Json

def ofText (text : String) : Json :=
  .string (some text)

def ofFields (fields : List (String × Json)) : Json :=
  .object (fields.map fun field => (some field.1, field.2))

/-! ## Nesting -/

mutual

/-- The greatest number of arrays and objects around a place in a value, empty ones counted. -/
def nesting : Json → Nat
  | .array items => 1 + nestingOfItems items
  | .object entries => 1 + nestingOfEntries entries
  | .null => 0
  | .bool _ => 0
  | .number _ => 0
  | .string _ => 0

def nestingOfItems : List Json → Nat
  | [] => 0
  | item :: rest => max item.nesting (nestingOfItems rest)

def nestingOfEntries : List (Option String × Json) → Nat
  | [] => 0
  | (_, value) :: rest => max value.nesting (nestingOfEntries rest)

end

/-! ## Soundness -/

mutual

/-- Whether every string spells a text and every number is finite, keys included. -/
def isSound : Json → Bool
  | .null => true
  | .bool _ => true
  | .number literal => literal.text?.isSome
  | .string text => text.isSome
  | .array items => areSound items
  | .object entries => haveSoundEntries entries

def areSound : List Json → Bool
  | [] => true
  | item :: rest => item.isSound && areSound rest

def haveSoundEntries : List (Option String × Json) → Bool
  | [] => true
  | (key, value) :: rest => key.isSome && value.isSound && haveSoundEntries rest

end

/-! ## Tokens -/

mutual

def tokens : Json → List Token
  | .null => [.null]
  | .bool value => [.bool value]
  | .number literal => [.number literal]
  | .string text => [.string text]
  | .array items => .leftBracket :: tokensOfItems items ++ [.rightBracket]
  | .object entries => .leftBrace :: tokensOfEntries entries ++ [.rightBrace]

def tokensOfItems : List Json → List Token
  | [] => []
  | [item] => item.tokens
  | item :: next :: rest => item.tokens ++ .comma :: tokensOfItems (next :: rest)

def tokensOfEntries : List (Option String × Json) → List Token
  | [] => []
  | [(key, value)] => .string key :: .colon :: value.tokens
  | (key, value) :: next :: rest =>
      .string key :: .colon :: value.tokens ++ .comma :: tokensOfEntries (next :: rest)

end

end Json

end InterviewFlow
