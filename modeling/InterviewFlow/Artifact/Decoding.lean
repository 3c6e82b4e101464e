import InterviewFlow.Artifact.Encoding

/-!
# The model from bytes

Every reader takes its value from the front of the bytes and leaves the rest.
Reading fails where bytes are missing, a text is no UTF-8 or a variant has no
such number. Maps may repeat keys and sets members. The readers of nested
values are bounded by a number of levels; since every level starts with a byte
of its own, as many levels as there are bytes are always enough.
-/

set_option autoImplicit false

namespace InterviewFlow

namespace Artifact

def readBytes (count : Nat) : Reader (List UInt8) := fun bytes =>
  if count ≤ bytes.length then some (bytes.take count, bytes.drop count) else none

def readText : Reader String := do
  let count ← readLength
  let bytes ← readBytes count
  match String.fromUTF8? ⟨bytes.toArray⟩ with
  | some text => return text
  | none => failure

def readTimes {α : Type} (reader : Reader α) : Nat → Reader (List α)
  | 0 => return []
  | count + 1 => do
      let item ← reader
      let items ← readTimes reader count
      return item :: items

def readList {α : Type} (reader : Reader α) : Reader (List α) := do
  let count ← readLength
  readTimes reader count

def readTextEntry : Reader (String × String) := do
  let key ← readText
  let text ← readText
  return (key, text)

def readOperator : Reader ComparisonOperator := do
  match ← readTag with
  | 0 => return .less
  | 1 => return .lessOrEqual
  | 2 => return .greater
  | 3 => return .greaterOrEqual
  | _ => failure

def readComparison : Reader Comparison := do
  let operator ← readOperator
  let varname ← readText
  let value ← readText
  return ⟨operator, varname, value⟩

/-- Reads a predicate of at most the given number of levels. -/
def readPredicate : Nat → Reader Predicate
  | 0 => failure
  | levels + 1 => do
      match ← readTag with
      | 0 =>
          let varname ← readText
          let expected ← readText
          return .equality varname expected
      | 1 =>
          let varname ← readText
          let values ← readList readText
          return .membership varname (.ofList values)
      | 2 =>
          let name ← readText
          return .named name
      | 3 => return .otherwise
      | 4 =>
          let members ← readList (readPredicate levels)
          return .combined members
      | 5 =>
          let name ← readText
          let arguments ← readList readText
          return .function name arguments
      | 6 =>
          let test ← readComparison
          return .comparison test
      | _ => failure

def readRoutingRule : Nat → Reader RoutingRule
  | 0 => failure
  | levels + 1 => do
      match ← readTag with
      | 0 =>
          let predicate ← readPredicate levels
          let outcome ← readText
          return .direct predicate outcome
      | 1 =>
          let predicate ← readPredicate levels
          let children ← readList (readRoutingRule levels)
          return .nested predicate children
      | _ => failure

def readQuestion : Reader Question := do
  match ← readTag with
  | 0 =>
      let identifier ← readText
      let options ← readList readTextEntry
      return .multipleChoice identifier (.ofList options)
  | 1 =>
      let identifier ← readText
      return .date identifier
  | 2 =>
      let identifier ← readText
      return .salary identifier
  | 3 =>
      let identifier ← readText
      return .text identifier
  | _ => failure

def readElement : Nat → Reader Element
  | 0 => failure
  | levels + 1 => do
      match ← readTag with
      | 0 =>
          let text ← readText
          return .heading text
      | 1 =>
          let text ← readText
          return .paragraph text
      | 2 =>
          let target ← readText
          return .startButton target
      | 3 =>
          let text ← readText
          return .nextSteps text
      | 4 =>
          let guard ← readPredicate levels
          let whenTrue ← readList (readElement levels)
          let whenFalse ← readList (readElement levels)
          return .conditional guard whenTrue whenFalse
      | 5 =>
          let prompt ← readQuestion
          return .question prompt
      | 6 =>
          let rules ← readList (readRoutingRule levels)
          return .routing rules
      | _ => failure

def readNode (levels : Nat) : Reader Node := do
  let name ← readText
  let body ← readList (readElement levels)
  let attributes ← readList readTextEntry
  return ⟨name, body, .ofList attributes⟩

end Artifact

end InterviewFlow
