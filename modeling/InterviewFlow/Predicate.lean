import InterviewFlow.Collections.OrderedSet

/-!
# Predicates

Boolean conditions over the answers collected so far. Operands are kept as the
text the author wrote: a comparison against `18` holds the text `18`, and what
number that is belongs to whoever evaluates the predicate.
-/

set_option autoImplicit false

namespace InterviewFlow

inductive ComparisonOperator where
  | less
  | lessOrEqual
  | greater
  | greaterOrEqual
deriving DecidableEq

namespace ComparisonOperator

/-- How an operator is written in documents and diagnostics. -/
def symbol : ComparisonOperator → String
  | less => "<"
  | lessOrEqual => "<="
  | greater => ">"
  | greaterOrEqual => ">="

def ofSymbol? (text : String) : Option ComparisonOperator :=
  if text = "<=" then some lessOrEqual
  else if text = "<" then some less
  else if text = ">=" then some greaterOrEqual
  else if text = ">" then some greater
  else none

theorem ofSymbol?_eq_some_iff {text : String} {operator : ComparisonOperator} :
    ofSymbol? text = some operator ↔ text = operator.symbol := by
  constructor
  · intro read
    unfold ofSymbol? at read
    split at read
    · simp_all [← Option.some.inj read, symbol]
    split at read
    · simp_all [← Option.some.inj read, symbol]
    split at read
    · simp_all [← Option.some.inj read, symbol]
    split at read
    · simp_all [← Option.some.inj read, symbol]
    · simp at read
  · rintro rfl
    cases operator <;> decide

end ComparisonOperator

structure Comparison where
  operator : ComparisonOperator
  varname : String
  value : String
deriving DecidableEq

namespace Comparison

/-- `age >= 18`. -/
def describe (comparison : Comparison) : String :=
  comparison.varname ++ " " ++ comparison.operator.symbol ++ " " ++ comparison.value

end Comparison

/-- A condition over the answers collected so far. -/
inductive Predicate where
  | equality (varname expected : String)
  | membership (varname : String) (values : OrderedSet)
  /-- A predicate bound outside the document. -/
  | named (name : String)
  /-- No earlier sibling held. -/
  | otherwise
  | combined (members : List Predicate)
  | function (name : String) (arguments : List String)
  | comparison (test : Comparison)

namespace Predicate

/-! ## Diagnostic text -/

mutual

/-- The predicate in one line, members of a conjunction joined by `AND`. -/
def describe : Predicate → String
  | .equality varname expected => varname ++ " is " ++ expected
  | .membership varname values =>
      varname ++ " in \x7b" ++ " ".intercalate values.items ++ "\x7d"
  | .named name => name ++ "?"
  | .otherwise => "otherwise"
  | .combined members => " AND ".intercalate (describeAll members)
  | .function name arguments => name ++ "(" ++ ", ".intercalate arguments ++ ")"
  | .comparison test => test.describe

def describeAll : List Predicate → List String
  | [] => []
  | predicate :: rest => predicate.describe :: describeAll rest

end

/-! ## References to bound predicates -/

mutual

/-- The names referred to, in document order and with repeats. -/
def references : Predicate → List String
  | .named name => [name]
  | .combined members => referencesOfAll members
  | .equality _ _ => []
  | .membership _ _ => []
  | .otherwise => []
  | .function _ _ => []
  | .comparison _ => []

def referencesOfAll : List Predicate → List String
  | [] => []
  | predicate :: rest => predicate.references ++ referencesOfAll rest

end

theorem referencesOfAll_eq_flatMap (predicates : List Predicate) :
    referencesOfAll predicates = predicates.flatMap references := by
  induction predicates with
  | nil => rfl
  | cons predicate rest ih => simp [referencesOfAll, ih]

def names (predicate : Predicate) : List String :=
  (OrderedSet.ofList predicate.references).items

/-! ## Equivalence -/

mutual

/-- Whether two predicates differ at most in the order of the values of a set. -/
def equivalent : Predicate → Predicate → Bool
  | .equality varname expected, .equality varname' expected' =>
      varname = varname' && expected = expected'
  | .membership varname values, .membership varname' values' =>
      varname = varname' && values.equivalent values'
  | .named name, .named name' => name = name'
  | .otherwise, .otherwise => true
  | .combined members, .combined members' => equivalentAll members members'
  | .function name arguments, .function name' arguments' =>
      name = name' && arguments = arguments'
  | .comparison test, .comparison test' => test = test'
  | _, _ => false

def equivalentAll : List Predicate → List Predicate → Bool
  | [], [] => true
  | predicate :: rest, predicate' :: rest' =>
      predicate.equivalent predicate' && equivalentAll rest rest'
  | _, _ => false

end

end Predicate

end InterviewFlow
