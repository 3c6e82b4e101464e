import InterviewFlow.Artifact.Integer
import InterviewFlow.Node

/-!
# The model as bytes

Records are their fields one after the other. A variant is its number followed
by its content. Texts and lists start with their length, texts in bytes of
UTF-8; maps are lists of keys and values. Nothing else is written, so every
value can be read back without knowing where it ends.
-/

set_option autoImplicit false

namespace InterviewFlow

namespace Artifact

def utf8 (text : String) : List UInt8 :=
  text.toByteArray.data.toList

/-- A text behind its length. -/
def writeText (text : String) : List UInt8 :=
  writeInteger (utf8 text).length ++ utf8 text

def writeTexts (texts : List String) : List UInt8 :=
  writeInteger texts.length ++ texts.flatMap writeText

def writeTextEntries (entries : Entries String) : List UInt8 :=
  writeInteger entries.length
    ++ entries.flatMap fun entry => writeText entry.1 ++ writeText entry.2

def operatorTag : ComparisonOperator → Nat
  | .less => 0
  | .lessOrEqual => 1
  | .greater => 2
  | .greaterOrEqual => 3

def writeComparison (comparison : Comparison) : List UInt8 :=
  writeInteger (operatorTag comparison.operator) ++ writeText comparison.varname
    ++ writeText comparison.value

mutual

def writePredicate : Predicate → List UInt8
  | .equality varname expected => writeInteger 0 ++ writeText varname ++ writeText expected
  | .membership varname values => writeInteger 1 ++ writeText varname ++ writeTexts values.items
  | .named name => writeInteger 2 ++ writeText name
  | .otherwise => writeInteger 3
  | .combined members => writeInteger 4 ++ writeInteger members.length ++ writePredicates members
  | .function name arguments => writeInteger 5 ++ writeText name ++ writeTexts arguments
  | .comparison test => writeInteger 6 ++ writeComparison test

def writePredicates : List Predicate → List UInt8
  | [] => []
  | predicate :: rest => writePredicate predicate ++ writePredicates rest

end

mutual

def writeRoutingRule : RoutingRule → List UInt8
  | .direct predicate outcome => writeInteger 0 ++ writePredicate predicate ++ writeText outcome
  | .nested predicate children =>
      writeInteger 1 ++ writePredicate predicate ++ writeInteger children.length
        ++ writeRoutingRules children

def writeRoutingRules : List RoutingRule → List UInt8
  | [] => []
  | rule :: rest => writeRoutingRule rule ++ writeRoutingRules rest

end

def writeQuestion : Question → List UInt8
  | .multipleChoice identifier options =>
      writeInteger 0 ++ writeText identifier ++ writeTextEntries options.entries
  | .date identifier => writeInteger 1 ++ writeText identifier
  | .salary identifier => writeInteger 2 ++ writeText identifier
  | .text identifier => writeInteger 3 ++ writeText identifier

mutual

def writeElement : Element → List UInt8
  | .heading text => writeInteger 0 ++ writeText text
  | .paragraph text => writeInteger 1 ++ writeText text
  | .startButton target => writeInteger 2 ++ writeText target
  | .nextSteps text => writeInteger 3 ++ writeText text
  | .conditional guard whenTrue whenFalse =>
      writeInteger 4 ++ writePredicate guard
        ++ writeInteger whenTrue.length ++ writeElements whenTrue
        ++ writeInteger whenFalse.length ++ writeElements whenFalse
  | .question prompt => writeInteger 5 ++ writeQuestion prompt
  | .routing rules => writeInteger 6 ++ writeInteger rules.length ++ writeRoutingRules rules

def writeElements : List Element → List UInt8
  | [] => []
  | element :: rest => writeElement element ++ writeElements rest

end

def writeNode (node : Node) : List UInt8 :=
  writeText node.name ++ writeInteger node.body.length ++ writeElements node.body
    ++ writeTextEntries node.frontMatter.attributes.entries

end Artifact

end InterviewFlow
