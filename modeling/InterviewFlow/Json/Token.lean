import InterviewFlow.Json.Number

/-!
# JSON tokens

The punctuation, names, numbers and strings a JSON text consists of, each with
its spelling, and the splitting of a text into them. A string literal may spell
no text at all: its escapes may leave half of a surrogate pair alone. Such a
literal is a token all the same, because it may stand where nobody looks at it.
-/

set_option autoImplicit false

namespace InterviewFlow

inductive Token where
  | leftBrace
  | rightBrace
  | leftBracket
  | rightBracket
  | colon
  | comma
  | null
  | bool (value : Bool)
  | number (literal : NumberLiteral)
  /-- A string literal, `none` where it leaves a surrogate unpaired. -/
  | string (text : Option String)
deriving DecidableEq

namespace Token

/-! ## Spelling -/

/-- The code of a character below U+0100 as four hexadecimal digits. -/
def controlEscape (character : Char) : List Char :=
  ['\\', 'u', '0', '0', Nat.digitChar (character.toNat / 16 % 16),
    Nat.digitChar (character.toNat % 16)]

/-- One character of a string literal: quotation marks, backslashes and controls are
escaped, everything else stands for itself. -/
def escapeChar (character : Char) : List Char :=
  match character with
  | '"' => ['\\', '"']
  | '\\' => ['\\', '\\']
  | '\x08' => ['\\', 'b']
  | '\x0c' => ['\\', 'f']
  | '\n' => ['\\', 'n']
  | '\r' => ['\\', 'r']
  | '\t' => ['\\', 't']
  | other => if other.toNat < 0x20 then controlEscape other else [other]

def writeText (text : String) : List Char :=
  '"' :: text.toList.flatMap escapeChar ++ ['"']

def write : Token → List Char
  | .leftBrace => ['\x7b']
  | .rightBrace => ['\x7d']
  | .leftBracket => ['[']
  | .rightBracket => [']']
  | .colon => [':']
  | .comma => [',']
  | .null => ['n', 'u', 'l', 'l']
  | .bool true => ['t', 'r', 'u', 'e']
  | .bool false => ['f', 'a', 'l', 's', 'e']
  | .number literal => literal.write
  | .string (some text) => writeText text
  | .string none => ['"', '\\', 'u', 'd', '8', '0', '0', '"']

/-! ## String literals -/

/-- What one character or escape of a string literal contributes. -/
inductive TextUnit where
  /-- A character, written as it is or by a short escape. -/
  | char (character : Char)
  /-- A code written with four hexadecimal digits: a code point or half of a surrogate pair. -/
  | code (value : Nat)
deriving DecidableEq

def hexDigit? (digit : Char) : Option Nat :=
  if '0' ≤ digit ∧ digit ≤ '9' then some (digit.toNat - '0'.toNat)
  else if 'a' ≤ digit ∧ digit ≤ 'f' then some (digit.toNat - 'a'.toNat + 10)
  else if 'A' ≤ digit ∧ digit ≤ 'F' then some (digit.toNat - 'A'.toNat + 10)
  else none

/-- The value of hexadecimal digits, read on from a value. -/
def hexValue? (value : Nat) : List Char → Option Nat
  | [] => some value
  | digit :: rest =>
      match hexDigit? digit with
      | none => none
      | some low => hexValue? (16 * value + low) rest

def shortEscape? (mark : Char) : Option Char :=
  match mark with
  | '"' => some '"'
  | '\\' => some '\\'
  | '/' => some '/'
  | 'b' => some '\x08'
  | 'f' => some '\x0c'
  | 'n' => some '\n'
  | 'r' => some '\r'
  | 't' => some '\t'
  | _ => none

/-- Reads the inside of a string literal up to its closing quotation mark. -/
def scanUnits? : List Char → Option (List TextUnit × List Char)
  | [] => none
  | '"' :: rest => some ([], rest)
  | '\\' :: 'u' :: first :: second :: third :: fourth :: rest =>
      match hexValue? 0 [first, second, third, fourth] with
      | none => none
      | some value => (scanUnits? rest).map fun found => (.code value :: found.1, found.2)
  | '\\' :: mark :: rest =>
      match shortEscape? mark with
      | none => none
      | some character => (scanUnits? rest).map fun found => (.char character :: found.1, found.2)
  | character :: rest =>
      if character.toNat < 0x20 then none
      else (scanUnits? rest).map fun found => (.char character :: found.1, found.2)

def isHighSurrogate (value : Nat) : Bool :=
  0xD800 ≤ value && value ≤ 0xDBFF

def isLowSurrogate (value : Nat) : Bool :=
  0xDC00 ≤ value && value ≤ 0xDFFF

def pairedCode (high low : Nat) : Nat :=
  0x10000 + (high - 0xD800) * 0x400 + (low - 0xDC00)

/-- The characters that units spell; every surrogate needs its partner next to it. -/
def decodeUnits? : List TextUnit → Option (List Char)
  | [] => some []
  | .char character :: rest => (decodeUnits? rest).map (character :: ·)
  | .code high :: .code low :: rest =>
      if isHighSurrogate high then
        if isLowSurrogate low then
          (decodeUnits? rest).map (Char.ofNat (pairedCode high low) :: ·)
        else none
      else if isLowSurrogate high then none
      else (decodeUnits? (.code low :: rest)).map (Char.ofNat high :: ·)
  | .code value :: rest =>
      if isHighSurrogate value || isLowSurrogate value then none
      else (decodeUnits? rest).map (Char.ofNat value :: ·)

/-! ## Splitting a text -/

def isBlank (character : Char) : Bool :=
  character = ' ' || character = '\t' || character = '\n' || character = '\r'

/-- Reads a token from the front of a text that starts with no blank. -/
def scan? : List Char → Option (Token × List Char)
  | '\x7b' :: rest => some (.leftBrace, rest)
  | '\x7d' :: rest => some (.rightBrace, rest)
  | '[' :: rest => some (.leftBracket, rest)
  | ']' :: rest => some (.rightBracket, rest)
  | ':' :: rest => some (.colon, rest)
  | ',' :: rest => some (.comma, rest)
  | 'n' :: 'u' :: 'l' :: 'l' :: rest => some (.null, rest)
  | 't' :: 'r' :: 'u' :: 'e' :: rest => some (.bool true, rest)
  | 'f' :: 'a' :: 'l' :: 's' :: 'e' :: rest => some (.bool false, rest)
  | '"' :: rest =>
      (scanUnits? rest).map fun found =>
        (.string ((decodeUnits? found.1).map String.ofList), found.2)
  | other => (NumberLiteral.scan? other).map fun found => (.number found.1, found.2)

end Token

end InterviewFlow
