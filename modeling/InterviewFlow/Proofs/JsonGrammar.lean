import InterviewFlow.Proofs.Lexemes

/-! The grammar of JSON texts: the tokens of a value in order, each in one of its words,
with blanks between them. Splitting a text and putting its tokens together finds the value
that it spells, and there is no other. -/

set_option autoImplicit false

namespace InterviewFlow

namespace Token

/-! ## Texts of tokens -/

/-- The text consists of words of the tokens in order, with blanks around them. -/
inductive SpelledIn : List Token → List Char → Prop where
  | blanks {blanks : List Char} :
      (∀ blank ∈ blanks, isBlank blank = true) → SpelledIn [] blanks
  | token {token : Token} {tokens : List Token} {blanks word text : List Char} :
      (∀ blank ∈ blanks, isBlank blank = true) → token.SpelledBy word → SpelledIn tokens text →
      SpelledIn (token :: tokens) (blanks ++ (word ++ text))

theorem SpelledIn.blank {tokens : List Token} {text : List Char} {blank : Char}
    (isBlank : isBlank blank = true) (spelled : SpelledIn tokens text) :
    SpelledIn tokens (blank :: text) := by
  cases spelled with
  | blanks all => exact .blanks (List.forall_mem_cons.2 ⟨isBlank, all⟩)
  | token all word rest => exact .token (List.forall_mem_cons.2 ⟨isBlank, all⟩) word rest

theorem SpelledIn.append {tokens others : List Token} {text behind : List Char}
    (first : SpelledIn tokens text) (second : SpelledIn others behind) :
    SpelledIn (tokens ++ others) (text ++ behind) := by
  induction first with
  | @blanks blanks all =>
      induction blanks with
      | nil => exact second
      | cons blank rest ih =>
          obtain ⟨isBlank, others⟩ := List.forall_mem_cons.1 all
          exact (ih others).blank isBlank
  | token all word _ ih =>
      rw [List.append_assoc, List.append_assoc]
      exact .token all word ih

theorem spelledIn_of_split? {text : List Char} {tokens : List Token}
    (split : split? text = some tokens) : SpelledIn tokens text := by
  fun_induction split? text generalizing tokens with
  | case1 =>
      cases split
      exact .blanks (List.forall_mem_nil _)
  | case2 blank rest isBlank ih => exact (ih split).blank isBlank
  | case3 => cases split
  | case4 first rest _ token remaining scanned _ ih =>
      obtain ⟨further, restSplit, rfl⟩ := Option.map_eq_some_iff.1 split
      obtain ⟨word, spelled, same⟩ := scan?_eq_some scanned
      have whole := SpelledIn.token (List.forall_mem_nil _) spelled (ih restSplit)
      rwa [List.nil_append, ← same] at whole

/-- No number directly follows another, which would make them one. -/
def Separate (tokens : List Token) : Prop :=
  tokens.IsChain fun token next => ∀ literal, token = .number literal → next.IsClosed

theorem SpelledBy.first {token : Token} {word : List Char} (spelled : token.SpelledBy word) :
    ∃ first others, word = first :: others ∧ isBlank first = false ∧
      (token.IsClosed → first.isDigit = false ∧ first ≠ '.' ∧ first ≠ 'e' ∧ first ≠ 'E') := by
  cases spelled with
  | number spelled =>
      obtain ⟨first, others, rfl, start⟩ := spelled.first
      refine ⟨first, others, rfl, ?_, fun closed => absurd rfl (closed _)⟩
      simp only [isBlank, Bool.or_eq_false_iff, decide_eq_false_iff_not]
      refine ⟨⟨⟨?_, ?_⟩, ?_⟩, ?_⟩ <;> rintro rfl <;> rcases start with other | other <;> cases other
  | _ => exact ⟨_, _, rfl, rfl, fun _ => by decide⟩

theorem SpelledIn.endsNumber {tokens : List Token} {text : List Char}
    (spelled : SpelledIn tokens text) (closed : ∀ token ∈ tokens.head?, token.IsClosed) :
    NumberLiteral.EndsNumber text := by
  have blankEnds : ∀ blank, isBlank blank = true →
      blank.isDigit = false ∧ blank ≠ '.' ∧ blank ≠ 'e' ∧ blank ≠ 'E' := by
    intro blank blankKind
    simp only [isBlank, Bool.or_eq_true, decide_eq_true_eq] at blankKind
    rcases blankKind with ((rfl | rfl) | rfl) | rfl <;> decide
  intro next behind same
  cases spelled with
  | blanks all => exact blankEnds next (all next (same ▸ .head _))
  | @token token _ blanks word text all spelled _ =>
      cases blanks with
      | cons blank others =>
          obtain ⟨rfl, _⟩ := List.cons.inj same
          exact blankEnds blank (all blank (.head _))
      | nil =>
          obtain ⟨first, others, rfl, _, starts⟩ := spelled.first
          obtain ⟨rfl, _⟩ := List.cons.inj same
          exact starts (closed token rfl)

theorem split?_of_spelledIn {tokens : List Token} {text : List Char}
    (spelled : SpelledIn tokens text) (separate : Separate tokens) :
    split? text = some tokens := by
  induction spelled with
  | blanks all => exact (spells_blanks all).split?
  | @token token tokens blanks word text all spelled rest ih =>
      have ends : ∀ literal, token = .number literal → NumberLiteral.EndsNumber text := by
        intro literal number
        apply rest.endsNumber
        intro next first
        cases tokens with
        | nil => cases first
        | cons head behind =>
            cases first
            exact (List.isChain_cons_cons.1 separate).1 literal number
      have scanned := scan?_append spelled ends
      obtain ⟨first, others, rfl, dark, _⟩ := spelled.first
      rw [List.cons_append] at scanned ⊢
      rw [spells_blanks all, split?_of_scan? dark scanned, ih separate.of_cons]
      rfl

end Token

namespace Json

open Token (Separate SpelledIn)

/-! ## Tokens of a value -/

theorem tokensOfItems_split (before after : List Json) (item : Json) :
    tokensOfItems (before ++ item :: after) =
      before.flatMap (fun earlier => earlier.tokens ++ [.comma]) ++
        tokensOfItems (item :: after) := by
  induction before with
  | nil => rfl
  | cons head rest ih =>
      obtain ⟨next, others, same⟩ := List.exists_cons_of_ne_nil
        (List.append_ne_nil_of_right_ne_nil rest (List.cons_ne_nil item after))
      rw [List.cons_append, same, tokensOfItems, ← same, ih]
      simp

theorem tokensOfItems_append (items : List Json) (item : Json) :
    tokensOfItems (items ++ [item]) =
      items.flatMap (fun earlier => earlier.tokens ++ [.comma]) ++ item.tokens :=
  tokensOfItems_split items [] item

theorem tokensOfEntries_split (before after : List (Option String × Json))
    (entry : Option String × Json) : tokensOfEntries (before ++ entry :: after) =
      before.flatMap (fun earlier => .string earlier.1 :: .colon :: earlier.2.tokens ++ [.comma]) ++
        tokensOfEntries (entry :: after) := by
  induction before with
  | nil => rfl
  | cons head rest ih =>
      obtain ⟨next, others, same⟩ := List.exists_cons_of_ne_nil
        (List.append_ne_nil_of_right_ne_nil rest (List.cons_ne_nil entry after))
      rw [List.cons_append, same, tokensOfEntries, ← same, ih]
      simp

theorem tokensOfEntries_append (entries : List (Option String × Json)) (key : Option String)
    (value : Json) : tokensOfEntries (entries ++ [(key, value)]) =
      entries.flatMap (fun entry => .string entry.1 :: .colon :: entry.2.tokens ++ [.comma]) ++
        .string key :: .colon :: value.tokens :=
  tokensOfEntries_split entries [] (key, value)

/-- The tokens of an object that ends with these entries, given latest first, and goes on. -/
def tokensBefore (entries : List (Option String × Json)) : List Token :=
  .leftBrace :: entries.reverse.flatMap fun entry =>
    .string entry.1 :: .colon :: entry.2.tokens ++ [.comma]

/-- The tokens that opened a container, up to the value that is due. -/
def Frame.taken : Frame → List Token
  | .array items =>
      .leftBracket :: items.reverse.flatMap fun item => item.tokens ++ [.comma]
  | .object entries due => tokensBefore entries ++ [.string due, .colon]

def Phase.taken : Phase → List Token
  | .value => []
  | .itemOrEnd => [.leftBracket]
  | .keyOrEnd => [.leftBrace]
  | .key entries => tokensBefore entries
  | .colon entries due => tokensBefore entries ++ [.string due]
  | .done finished => finished.tokens

namespace Assembly

def taken (assembly : Assembly) : List Token :=
  assembly.frames.reverse.flatMap Frame.taken ++ assembly.phase.taken

theorem taken_beginValue? {frames : List Frame} {token : Token} {result : Assembly}
    (begun : beginValue? frames token = some result) :
    result.taken = frames.reverse.flatMap Frame.taken ++ [token] := by
  unfold beginValue? at begun
  split at begun <;> cases begun <;> rfl

theorem taken_continue? {value : Json} {frames : List Frame} {token : Token} {result : Assembly}
    (continued : continue? value frames token = some result) :
    result.taken = taken ⟨frames, .done value⟩ ++ [token] := by
  unfold continue? at continued
  split at continued
  · cases continued
    simp [taken, Frame.taken, Phase.taken]
  · cases continued
    simp [taken, Frame.taken, Phase.taken, tokens, tokensOfItems_append]
  · cases continued
    simp [taken, Frame.taken, Phase.taken, tokensBefore]
  · cases continued
    simp [taken, Frame.taken, Phase.taken, tokensBefore, tokens, tokensOfEntries_append]
  · cases continued

theorem step?_itemOrEnd {frames : List Frame} {token : Token} (other : token ≠ .rightBracket) :
    step? ⟨frames, .itemOrEnd⟩ token = beginValue? (.array [] :: frames) token := by
  cases token with
  | rightBracket => exact absurd rfl other
  | _ => rfl

/-- A step takes its token and nothing else. -/
theorem taken_step? {assembly result : Assembly} {token : Token}
    (stepped : assembly.step? token = some result) : result.taken = assembly.taken ++ [token] := by
  obtain ⟨frames, phase⟩ := assembly
  cases phase with
  | value =>
      rw [taken_beginValue? stepped]
      simp [taken, Phase.taken]
  | itemOrEnd =>
      by_cases ends : token = .rightBracket
      · subst ends
        cases stepped
        simp [taken, Phase.taken, tokens, tokensOfItems]
      · rw [step?_itemOrEnd ends] at stepped
        rw [taken_beginValue? stepped]
        simp [taken, Phase.taken, Frame.taken]
  | keyOrEnd =>
      cases token with
      | rightBrace =>
          cases stepped
          simp [taken, Phase.taken, tokens, tokensOfEntries]
      | string due =>
          cases stepped
          simp [taken, Phase.taken, tokensBefore]
      | _ => cases stepped
  | key entries =>
      cases token with
      | string due =>
          cases stepped
          simp [taken, Phase.taken]
      | _ => cases stepped
  | colon entries due =>
      cases token with
      | colon =>
          cases stepped
          simp [taken, Phase.taken, Frame.taken]
      | _ => cases stepped
  | done value => exact taken_continue? stepped

theorem Takes.taken {assembly result : Assembly} {tokens : List Token}
    (takes : Takes assembly tokens result) : result.taken = assembly.taken ++ tokens := by
  induction tokens generalizing assembly with
  | nil =>
      cases takes
      exact (List.append_nil _).symm
  | cons token rest ih =>
      rw [Takes, List.foldlM_cons] at takes
      obtain ⟨middle, stepped, takes⟩ := Option.bind_eq_some_iff.1 takes
      rw [ih takes, taken_step? stepped, List.append_assoc, List.singleton_append]

/-- A number finishes a value, so that no other number may come next. -/
theorem isClosed_of_step? {assembly middle result : Assembly} {literal : NumberLiteral}
    {next : Token} (first : assembly.step? (.number literal) = some middle)
    (second : middle.step? next = some result) : next.IsClosed := by
  have finished : ∃ frames, middle = ⟨frames, .done (.number literal)⟩ := by
    obtain ⟨frames, phase⟩ := assembly
    cases phase with
    | value =>
        cases first
        exact ⟨frames, rfl⟩
    | itemOrEnd =>
        cases first
        exact ⟨_, rfl⟩
    | done value => rcases frames with _ | ⟨_ | _, _⟩ <;> cases first
    | _ => cases first
  obtain ⟨frames, rfl⟩ := finished
  rintro other rfl
  rcases frames with _ | ⟨_ | _, _⟩ <;> cases second

theorem Takes.separate {assembly result : Assembly} {tokens : List Token}
    (takes : Takes assembly tokens result) : Separate tokens := by
  induction tokens generalizing assembly with
  | nil => exact .nil
  | cons token rest ih =>
      rw [Takes, List.foldlM_cons] at takes
      obtain ⟨middle, stepped, takes⟩ := Option.bind_eq_some_iff.1 takes
      have below := ih takes
      cases rest with
      | nil => exact .singleton token
      | cons next behind =>
          rw [List.foldlM_cons] at takes
          obtain ⟨_, nextStepped, _⟩ := Option.bind_eq_some_iff.1 takes
          refine List.isChain_cons_cons.2 ⟨?_, below⟩
          rintro literal rfl
          exact isClosed_of_step? stepped nextStepped

end Assembly

/-- Tokens are those of a value exactly if they are put together to it. -/
theorem ofTokens?_eq_some_iff {tokens : List Token} {value : Json} :
    ofTokens? tokens = some value ↔ value.tokens = tokens := by
  constructor
  · intro read
    obtain ⟨assembly, takes, finished⟩ := Option.bind_eq_some_iff.1 read
    have all := Assembly.Takes.taken takes
    unfold Assembly.value? at finished
    split at finished
    · cases finished
      exact all
    · cases finished
  · rintro rfl
    exact ofTokens?_tokens value

theorem separate_tokens (value : Json) : Separate value.tokens :=
  Assembly.Takes.separate (value.assembles [])

/-! ## Texts of a value -/

def SpelledBy (value : Json) (text : String) : Prop :=
  SpelledIn value.tokens text.toList

theorem ofText?_eq_some_iff {text : String} {value : Json} :
    ofText? text = some value ↔ value.SpelledBy text := by
  rw [ofText?, Option.bind_eq_some_iff]
  constructor
  · rintro ⟨tokens, split, read⟩
    rw [SpelledBy, ofTokens?_eq_some_iff.1 read]
    exact Token.spelledIn_of_split? split
  · intro spelled
    exact ⟨value.tokens, Token.split?_of_spelledIn spelled value.separate_tokens,
      ofTokens?_tokens value⟩

theorem SpelledBy.unique {value other : Json} {text : String} (spelled : value.SpelledBy text)
    (otherSpelled : other.SpelledBy text) : value = other :=
  Option.some.inj ((ofText?_eq_some_iff.2 spelled).symm.trans (ofText?_eq_some_iff.2 otherSpelled))

/-- The text spells the value, everything in it means something, and no more than 127 arrays
and objects are nested. -/
structure AcceptedAs (text : String) (value : Json) : Prop where
  spelled : value.SpelledBy text
  sound : value.isSound = true
  shallow : value.nesting ≤ 127

theorem read?_eq_some_iff {text : String} {value : Json} :
    read? text = some value ↔ AcceptedAs text value := by
  constructor
  · intro read
    unfold read? at read
    split at read
    · cases read
    · next found spelled =>
        split at read
        · next checked =>
            cases read
            obtain ⟨shallow, sound⟩ := Bool.and_eq_true_iff.1 checked
            exact ⟨ofText?_eq_some_iff.1 spelled, sound, of_decide_eq_true shallow⟩
        · cases read
  · rintro ⟨spelled, sound, shallow⟩
    simp only [read?, ofText?_eq_some_iff.2 spelled, sound, nestingLimit, shallow, decide_true,
      Bool.and_self, ↓reduceIte]

end Json

end InterviewFlow
