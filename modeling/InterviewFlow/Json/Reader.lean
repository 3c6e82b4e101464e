import InterviewFlow.Json.Splitting
import InterviewFlow.Json.Value

/-!
# Reading JSON

Tokens are put together one at a time. The state holds the containers that are
still open, innermost first, and says what may come next. A text is a JSON text
when its tokens leave one finished value and nothing open.

`Json.ofText?` asks for the grammar only. `Json.read?` asks in addition that
every literal means something and that no more than 127 arrays and objects are
nested.
-/

set_option autoImplicit false

namespace InterviewFlow

namespace Json

inductive Frame where
  /-- The finished items, latest first. -/
  | array (items : List Json)
  /-- The finished entries, latest first, and the key whose value is due. -/
  | object (entries : List (Option String × Json)) (key : Option String)

inductive Phase where
  | value
  | itemOrEnd
  | keyOrEnd
  /-- A key, after the entries given latest first. -/
  | key (entries : List (Option String × Json))
  | colon (entries : List (Option String × Json)) (key : Option String)
  /-- Whatever may follow a finished value in the innermost open container. -/
  | done (value : Json)

structure Assembly where
  /-- The open containers around the current place, innermost first. -/
  frames : List Frame
  phase : Phase

namespace Assembly

def start : Assembly :=
  ⟨[], .value⟩

def beginValue? (frames : List Frame) : Token → Option Assembly
  | .leftBrace => some ⟨frames, .keyOrEnd⟩
  | .leftBracket => some ⟨frames, .itemOrEnd⟩
  | .null => some ⟨frames, .done .null⟩
  | .bool value => some ⟨frames, .done (.bool value)⟩
  | .number literal => some ⟨frames, .done (.number literal)⟩
  | .string text => some ⟨frames, .done (.string text)⟩
  | _ => none

def continue? (value : Json) : List Frame → Token → Option Assembly
  | .array items :: frames, .comma => some ⟨.array (value :: items) :: frames, .value⟩
  | .array items :: frames, .rightBracket =>
      some ⟨frames, .done (.array (value :: items).reverse)⟩
  | .object entries key :: frames, .comma => some ⟨frames, .key ((key, value) :: entries)⟩
  | .object entries key :: frames, .rightBrace =>
      some ⟨frames, .done (.object ((key, value) :: entries).reverse)⟩
  | _, _ => none

def step? (assembly : Assembly) (token : Token) : Option Assembly :=
  match assembly.phase, token with
  | .value, first => beginValue? assembly.frames first
  | .itemOrEnd, .rightBracket => some ⟨assembly.frames, .done (.array [])⟩
  | .itemOrEnd, first => beginValue? (.array [] :: assembly.frames) first
  | .keyOrEnd, .rightBrace => some ⟨assembly.frames, .done (.object [])⟩
  | .keyOrEnd, .string key => some ⟨assembly.frames, .colon [] key⟩
  | .key entries, .string key => some ⟨assembly.frames, .colon entries key⟩
  | .colon entries key, .colon => some ⟨.object entries key :: assembly.frames, .value⟩
  | .done value, next => continue? value assembly.frames next
  | _, _ => none

/-- The finished value, when nothing is open. -/
def value? : Assembly → Option Json
  | ⟨[], .done value⟩ => some value
  | _ => none

end Assembly

def ofTokens? (tokens : List Token) : Option Json :=
  (tokens.foldlM Assembly.step? Assembly.start).bind Assembly.value?

def ofText? (text : String) : Option Json :=
  (Token.split? text.toList).bind ofTokens?

def nestingLimit : Nat := 127

/-- The value of a text in which every literal means something and the nesting is within
its limit. -/
def read? (text : String) : Option Json :=
  match ofText? text with
  | none => none
  | some value =>
      if value.nesting ≤ nestingLimit && value.isSound then some value else none

end Json

end InterviewFlow
