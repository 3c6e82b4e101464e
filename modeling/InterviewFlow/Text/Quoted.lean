import InterviewFlow.Text.Unprintable

/-!
# Quoted text

How diagnostics show a text: between quotation marks, with a backslash before
quotation marks and backslashes, the short forms of NUL, tab, newline and
carriage return, and the code point of every other character that would not
print. An apostrophe stands for itself.
-/

set_option autoImplicit false

namespace InterviewFlow.Text

/-- The digits of a number in lower-case hexadecimal, without padding. -/
def hexDigits (number : Nat) : List Char :=
  Nat.toDigits 16 number

def quoteChar (character : Char) : List Char :=
  match character with
  | '\x00' => ['\\', '0']
  | '\t' => ['\\', 't']
  | '\r' => ['\\', 'r']
  | '\n' => ['\\', 'n']
  | '"' => ['\\', '"']
  | '\\' => ['\\', '\\']
  | other =>
      if isUnprintable other then
        ['\\', 'u', '\x7b'] ++ hexDigits other.toNat ++ ['\x7d']
      else [other]

def quote (text : String) : String :=
  String.ofList ('"' :: text.toList.flatMap quoteChar ++ ['"'])

end InterviewFlow.Text
