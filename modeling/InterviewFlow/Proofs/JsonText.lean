import InterviewFlow.Json.Reader
import InterviewFlow.Json.Writer
import Mathlib.Data.List.Basic

/-! A JSON text and its value. Every token but a number ends where its spelling ends,
whatever follows; so a text made of such spellings and blanks splits into the same
tokens, and the tokens of a value put it together again. -/

set_option autoImplicit false

namespace InterviewFlow

namespace Token

/-! ## String literals -/

theorem hexValue?_controlEscape {value : Nat} (control : value < 0x20) :
    hexValue? 0 ['0', '0', Nat.digitChar (value / 16 % 16), Nat.digitChar (value % 16)]
      = some value := by
  revert value
  decide

theorem decodeUnits?_code {value : Nat} (notHigh : isHighSurrogate value = false)
    (notLow : isLowSurrogate value = false) (units : List TextUnit) :
    decodeUnits? (.code value :: units) = (decodeUnits? units).map (Char.ofNat value :: ·) := by
  cases units with
  | nil => simp [decodeUnits?, notHigh, notLow]
  | cons unit rest =>
      cases unit with
      | char character => simp [decodeUnits?, notHigh, notLow]
      | code other => simp [decodeUnits?, notHigh, notLow]

theorem decodeUnits?_control {value : Nat} (control : value < 0x20) (units : List TextUnit) :
    decodeUnits? (.code value :: units) = (decodeUnits? units).map (Char.ofNat value :: ·) := by
  apply decodeUnits?_code
  · simp only [isHighSurrogate, Bool.and_eq_false_iff, decide_eq_false_iff_not]
    omega
  · simp only [isLowSurrogate, Bool.and_eq_false_iff, decide_eq_false_iff_not]
    omega

/-- An escaped character is read as one unit that stands for it. -/
theorem exists_unit (character : Char) : ∃ unit,
    (∀ rest, scanUnits? (escapeChar character ++ rest) =
      (scanUnits? rest).map fun found => (unit :: found.1, found.2)) ∧
    ∀ units, decodeUnits? (unit :: units) = (decodeUnits? units).map (character :: ·) := by
  unfold escapeChar
  -- the short escapes, then the controls without one, then what stands for itself
  split
  · exact ⟨.char '"', fun _ => rfl, fun _ => rfl⟩
  · exact ⟨.char '\\', fun _ => rfl, fun _ => rfl⟩
  · exact ⟨.char '\x08', fun _ => rfl, fun _ => rfl⟩
  · exact ⟨.char '\x0c', fun _ => rfl, fun _ => rfl⟩
  · exact ⟨.char '\n', fun _ => rfl, fun _ => rfl⟩
  · exact ⟨.char '\r', fun _ => rfl, fun _ => rfl⟩
  · exact ⟨.char '\t', fun _ => rfl, fun _ => rfl⟩
  · next notQuote notBackslash _ _ _ _ _ =>
      split
      · next control =>
          refine ⟨.code character.toNat, ?_, ?_⟩
          · intro rest
            simp only [controlEscape, List.cons_append, List.nil_append, scanUnits?,
              hexValue?_controlEscape control]
          · intro units
            rw [decodeUnits?_control control, Char.ofNat_toNat]
      · next visible =>
          refine ⟨.char character, ?_, fun _ => rfl⟩
          intro rest
          rw [List.singleton_append, scanUnits?, if_neg visible]
          · exact notQuote
          · intro _ _ _ _ _ backslash
            exact absurd backslash notBackslash
          · intro _ _ backslash
            exact absurd backslash notBackslash

theorem exists_units (characters : List Char) : ∃ units,
    (∀ rest, scanUnits? (characters.flatMap escapeChar ++ '"' :: rest) = some (units, rest)) ∧
    decodeUnits? units = some characters := by
  induction characters with
  | nil => exact ⟨[], fun _ => rfl, rfl⟩
  | cons character rest ih =>
      obtain ⟨unit, scanned, decoded⟩ := exists_unit character
      obtain ⟨units, restScanned, restDecoded⟩ := ih
      refine ⟨unit :: units, ?_, ?_⟩
      · intro behind
        rw [List.flatMap_cons, List.append_assoc, scanned, restScanned, Option.map_some]
      · rw [decoded, restDecoded, Option.map_some]

theorem scan?_writeText (text : String) (rest : List Char) :
    scan? (writeText text ++ rest) = some (.string (some text), rest) := by
  obtain ⟨units, scanned, decoded⟩ := exists_units text.toList
  have inner : scan? (writeText text ++ rest) =
      (scanUnits? (text.toList.flatMap escapeChar ++ '"' :: rest)).map fun found =>
        (.string ((decodeUnits? found.1).map String.ofList), found.2) := by
    simp only [writeText, List.cons_append, List.append_assoc, List.nil_append]
    rfl
  rw [inner, scanned, Option.map_some, decoded, Option.map_some, String.ofList_toList]

/-! ## Texts that spell tokens -/

/-- In front of any text, this text contributes exactly these tokens. -/
def Spells (text : List Char) (tokens : List Token) : Prop :=
  ∀ rest, split? (text ++ rest) = (split? rest).map (tokens ++ ·)

theorem Spells.nil : Spells [] [] := by
  intro rest
  simp

theorem Spells.append {text others : List Char} {tokens further : List Token}
    (head : Spells text tokens) (tail : Spells others further) :
    Spells (text ++ others) (tokens ++ further) := by
  intro rest
  rw [List.append_assoc, head, tail, Option.map_map]
  congr 1
  funext behind
  exact (List.append_assoc tokens further behind).symm

theorem Spells.before_blanks {text blanks : List Char} {tokens : List Token}
    (head : Spells text tokens) (tail : Spells blanks []) : Spells (text ++ blanks) tokens := by
  have both := head.append tail
  rwa [List.append_nil] at both

theorem Spells.split? {text : List Char} {tokens : List Token} (spells : Spells text tokens) :
    split? text = some tokens := by
  have alone := spells []
  rwa [List.append_nil, Token.split?, Option.map_some, List.append_nil] at alone

theorem split?_blank {blank : Char} (isBlank : isBlank blank) (rest : List Char) :
    split? (blank :: rest) = split? rest := by
  rw [split?, if_pos isBlank]

theorem spells_blanks {blanks : List Char} (all : ∀ blank ∈ blanks, isBlank blank) :
    Spells blanks [] := by
  intro rest
  induction blanks with
  | nil => exact Spells.nil rest
  | cons blank behind ih =>
      obtain ⟨first, others⟩ := List.forall_mem_cons.1 all
      rw [List.cons_append, split?_blank first, ih others]

theorem split?_of_scan? {first : Char} {others rest : List Char} {token : Token}
    (dark : isBlank first = false) (scanned : scan? (first :: others) = some (token, rest)) :
    split? (first :: others) = (split? rest).map (token :: ·) := by
  rw [split?, dark]
  simp only [Bool.false_eq_true, ↓reduceIte]
  split
  · next missing =>
      rw [scanned] at missing
      cases missing
  · next token' remaining found =>
      rw [scanned] at found
      cases found
      rfl

/-- A text that is always scanned as the same token spells it. -/
theorem spells_of_scan? {first : Char} {others : List Char} {token : Token}
    (dark : isBlank first = false)
    (scanned : ∀ rest, scan? (first :: others ++ rest) = some (token, rest)) :
    Spells (first :: others) [token] :=
  fun rest => split?_of_scan? dark (scanned rest)

/-- The tokens that end by themselves: all but numbers, which more digits could follow. -/
def IsClosed (token : Token) : Prop :=
  ∀ literal, token ≠ .number literal

theorem spells_write (token : Token) (closed : token.IsClosed) :
    Spells token.write [token] := by
  cases token with
  | number literal => exact absurd rfl (closed literal)
  | leftBrace => exact spells_of_scan? rfl fun _ => rfl
  | rightBrace => exact spells_of_scan? rfl fun _ => rfl
  | leftBracket => exact spells_of_scan? rfl fun _ => rfl
  | rightBracket => exact spells_of_scan? rfl fun _ => rfl
  | colon => exact spells_of_scan? rfl fun _ => rfl
  | comma => exact spells_of_scan? rfl fun _ => rfl
  | null => exact spells_of_scan? rfl fun _ => rfl
  | bool value =>
      cases value with
      | true => exact spells_of_scan? rfl fun _ => rfl
      | false => exact spells_of_scan? rfl fun _ => rfl
  | string text =>
      cases text with
      | none => exact spells_of_scan? rfl fun _ => rfl
      | some text => exact spells_of_scan? rfl (scan?_writeText text)

end Token

namespace Json

open Token (Spells)

/-- Values by their parts: a container is met after the values in it. -/
theorem memberInduction {motive : Json → Prop} (null : motive .null)
    (bool : ∀ value, motive (.bool value)) (number : ∀ literal, motive (.number literal))
    (string : ∀ text, motive (.string text))
    (array : ∀ items : List Json, (∀ item ∈ items, motive item) → motive (.array items))
    (object : ∀ entries : List (Option String × Json),
      (∀ entry ∈ entries, motive entry.2) → motive (.object entries))
    (value : Json) : motive value := by
  refine @Json.rec motive (fun items => ∀ item ∈ items, motive item)
    (fun entries => ∀ entry ∈ entries, motive entry.2) (fun entry => motive entry.2)
    null bool number string array object (by simp) ?_ (by simp) ?_ (fun _ _ held => held) value
  · intro head rest headHeld restHeld item member
    rcases List.mem_cons.1 member with rfl | later
    · exact headHeld
    · exact restHeld item later
  · intro head rest headHeld restHeld entry member
    rcases List.mem_cons.1 member with rfl | later
    · exact headHeld
    · exact restHeld entry later

/-! ## From tokens to values -/

namespace Assembly

/-- The tokens take one assembly to another. -/
def Takes (assembly : Assembly) (tokens : List Token) (result : Assembly) : Prop :=
  tokens.foldlM step? assembly = some result

theorem Takes.append {assembly middle result : Assembly} {tokens further : List Token}
    (head : Takes assembly tokens middle) (tail : Takes middle further result) :
    Takes assembly (tokens ++ further) result := by
  rw [Takes, List.foldlM_append, head]
  exact tail

theorem Takes.cons {assembly middle result : Assembly} {token : Token} {further : List Token}
    (head : assembly.step? token = some middle) (tail : Takes middle further result) :
    Takes assembly (token :: further) result := by
  rw [Takes, List.foldlM_cons, head]
  exact tail

end Assembly

open Assembly (Takes)

/-- The tokens of a value, wherever one is due, leave it finished. -/
def Assembles (value : Json) : Prop :=
  ∀ frames, Takes ⟨frames, .value⟩ value.tokens ⟨frames, .done value⟩

theorem takes_items {item : Json} {rest : List Json} (first : Assembles item)
    (others : ∀ other ∈ rest, Assembles other) (frames : List Frame) (before : List Json) :
    Takes ⟨.array before :: frames, .value⟩ (tokensOfItems (item :: rest) ++ [.rightBracket])
      ⟨frames, .done (.array (before.reverse ++ item :: rest))⟩ := by
  induction rest generalizing item before with
  | nil =>
      apply (first _).append
      exact .cons rfl (by rw [Takes, List.reverse_cons]; rfl)
  | cons next rest ih =>
      obtain ⟨nextAssembles, restAssemble⟩ := List.forall_mem_cons.1 others
      have tail := ih nextAssembles restAssemble (item :: before)
      rw [List.reverse_cons, List.append_assoc] at tail
      rw [tokensOfItems, List.append_assoc]
      exact (first _).append (.cons rfl tail)

theorem takes_entries {rest : List (Option String × Json)} {value : Json} (key : Option String)
    (first : Assembles value) (others : ∀ other ∈ rest, Assembles other.2) (frames : List Frame)
    (before : List (Option String × Json)) :
    Takes ⟨frames, .key before⟩ (tokensOfEntries ((key, value) :: rest) ++ [.rightBrace])
      ⟨frames, .done (.object (before.reverse ++ (key, value) :: rest))⟩ := by
  induction rest generalizing key value before with
  | nil =>
      refine .cons rfl (.cons rfl ((first _).append ?_))
      exact .cons rfl (by rw [Takes, List.reverse_cons]; rfl)
  | cons next rest ih =>
      obtain ⟨nextKey, nextValue⟩ := next
      obtain ⟨nextAssembles, restAssemble⟩ := List.forall_mem_cons.1 others
      have tail := ih nextKey nextAssembles restAssemble ((key, value) :: before)
      rw [List.reverse_cons, List.append_assoc] at tail
      rw [tokensOfEntries, List.append_assoc]
      exact .cons rfl (.cons rfl ((first _).append (.cons rfl tail)))

/-- Where an array may end at once, an item is taken as anywhere else. -/
theorem takes_itemOrEnd {frames : List Frame} {tokens : List Token} {result : Assembly}
    (some_token : tokens ≠ []) (taken : Takes ⟨.array [] :: frames, .value⟩ tokens result) :
    Takes ⟨frames, .itemOrEnd⟩ tokens result := by
  cases tokens with
  | nil => exact absurd rfl some_token
  | cons first others =>
      cases first with
      | rightBracket => cases taken
      | _ => exact taken

theorem takes_keyOrEnd {frames : List Frame} {tokens : List Token} {result : Assembly}
    (some_token : tokens ≠ []) (taken : Takes ⟨frames, .key []⟩ tokens result) :
    Takes ⟨frames, .keyOrEnd⟩ tokens result := by
  cases tokens with
  | nil => exact absurd rfl some_token
  | cons first others =>
      cases first with
      | string key => exact taken
      | _ => cases taken

theorem assembles (value : Json) : value.Assembles := by
  induction value using memberInduction with
  | null => exact fun _ => rfl
  | bool value => exact fun _ => rfl
  | number literal => exact fun _ => rfl
  | string text => exact fun _ => rfl
  | array items ih =>
      intro frames
      cases items with
      | nil => rfl
      | cons item rest =>
          obtain ⟨first, others⟩ := List.forall_mem_cons.1 ih
          exact .cons rfl (takes_itemOrEnd (by simp) (takes_items first others frames []))
  | object entries ih =>
      intro frames
      cases entries with
      | nil => rfl
      | cons entry rest =>
          obtain ⟨key, value⟩ := entry
          obtain ⟨first, others⟩ := List.forall_mem_cons.1 ih
          exact .cons rfl (takes_keyOrEnd (by simp) (takes_entries key first others frames []))

theorem ofTokens?_tokens (value : Json) : ofTokens? value.tokens = some value := by
  have assembled := value.assembles []
  rw [Takes] at assembled
  rw [ofTokens?, Assembly.start, assembled]
  rfl

/-! ## From texts to tokens -/

/-- There is no number anywhere in the value. -/
inductive NumberFree : Json → Prop where
  | null : NumberFree .null
  | bool {value : Bool} : NumberFree (.bool value)
  | string {text : Option String} : NumberFree (.string text)
  | array {items : List Json} (each : ∀ item ∈ items, NumberFree item) :
      NumberFree (.array items)
  | object {entries : List (Option String × Json)} (each : ∀ entry ∈ entries, NumberFree entry.2) :
      NumberFree (.object entries)

theorem spells_newline (level : Nat) : Spells (newline level) [] := by
  apply Token.spells_blanks
  intro blank member
  rcases List.mem_cons.1 member with rfl | later
  · rfl
  · rw [(List.mem_replicate.1 later).2]
    rfl

/-- A token on its own, then a text. -/
theorem spells_cons (token : Token) {text : List Char} {tokens : List Token}
    (closed : token.IsClosed) (spells : Spells text tokens) :
    Spells (token.write ++ text) (token :: tokens) :=
  (token.spells_write closed).append spells

theorem spells_prettyItems {items : List Json} (level : Nat)
    (each : ∀ item ∈ items, Spells (prettyAt level item) item.tokens) :
    Spells (prettyItems level items) (tokensOfItems items) := by
  induction items with
  | nil => exact .nil
  | cons item rest ih =>
      obtain ⟨first, others⟩ := List.forall_mem_cons.1 each
      cases rest with
      | nil => exact (spells_newline level).append first
      | cons next rest =>
          exact ((spells_newline level).append first).append
            (spells_cons .comma nofun (ih others))

theorem spells_prettyEntries {entries : List (Option String × Json)} (level : Nat)
    (each : ∀ entry ∈ entries, Spells (prettyAt level entry.2) entry.2.tokens) :
    Spells (prettyEntries level entries) (tokensOfEntries entries) := by
  have entrySpells : ∀ key value, Spells (prettyAt level value) value.tokens →
      Spells (newline level ++ (Token.string key).write ++ ':' :: ' ' :: prettyAt level value)
        (.string key :: .colon :: value.tokens) := by
    intro key value spells
    have blank : Spells [' '] [] := Token.spells_blanks (List.forall_mem_singleton.2 rfl)
    exact ((spells_newline level).append (Token.spells_write (.string key) nofun)).append
      (spells_cons .colon nofun (blank.append spells))
  induction entries with
  | nil => exact .nil
  | cons entry rest ih =>
      obtain ⟨key, value⟩ := entry
      obtain ⟨first, others⟩ := List.forall_mem_cons.1 each
      cases rest with
      | nil => exact entrySpells key value first
      | cons next rest =>
          exact (entrySpells key value first).append (spells_cons .comma nofun (ih others))

theorem NumberFree.spells_prettyAt {value : Json} (free : value.NumberFree) (level : Nat) :
    Spells (prettyAt level value) value.tokens := by
  induction free generalizing level with
  | null => exact Token.spells_write .null nofun
  | @bool value => exact Token.spells_write (.bool value) nofun
  | @string text => exact Token.spells_write (.string text) nofun
  | @array items each ih =>
      have close := Token.spells_write .rightBracket nofun
      cases items with
      | nil => exact spells_cons .leftBracket nofun close
      | cons item rest =>
          have inner := spells_prettyItems (level + 1) fun item member => ih item member (level + 1)
          exact ((spells_cons .leftBracket nofun inner).before_blanks
            (spells_newline level)).append close
  | @object entries each ih =>
      have close := Token.spells_write .rightBrace nofun
      cases entries with
      | nil => exact spells_cons .leftBrace nofun close
      | cons entry rest =>
          have inner := spells_prettyEntries (level + 1) fun entry member =>
            ih entry member (level + 1)
          exact ((spells_cons .leftBrace nofun inner).before_blanks
            (spells_newline level)).append close

/-- The pretty form is read back, except that numbers may be spelled in a form of their own. -/
theorem NumberFree.ofText?_pretty {value : Json} (free : value.NumberFree) :
    ofText? value.pretty = some value := by
  rw [ofText?, pretty, String.toList_ofList, (free.spells_prettyAt 0).split?, Option.bind_some,
    ofTokens?_tokens]

theorem closed_tokensOfItems {items : List Json}
    (each : ∀ item ∈ items, ∀ token ∈ item.tokens, token.IsClosed) :
    ∀ token ∈ tokensOfItems items, token.IsClosed := by
  induction items with
  | nil => exact List.forall_mem_nil _
  | cons item rest ih =>
      obtain ⟨first, others⟩ := List.forall_mem_cons.1 each
      cases rest with
      | nil => exact first
      | cons next rest =>
          rw [tokensOfItems, List.forall_mem_append, List.forall_mem_cons]
          exact ⟨first, nofun, ih others⟩

theorem closed_tokensOfEntries {entries : List (Option String × Json)}
    (each : ∀ entry ∈ entries, ∀ token ∈ entry.2.tokens, token.IsClosed) :
    ∀ token ∈ tokensOfEntries entries, token.IsClosed := by
  induction entries with
  | nil => exact List.forall_mem_nil _
  | cons entry rest ih =>
      obtain ⟨key, value⟩ := entry
      obtain ⟨first, others⟩ := List.forall_mem_cons.1 each
      cases rest with
      | nil =>
          rw [tokensOfEntries, List.forall_mem_cons, List.forall_mem_cons]
          exact ⟨nofun, nofun, first⟩
      | cons next rest =>
          simp only [tokensOfEntries, List.cons_append, List.forall_mem_cons,
            List.forall_mem_append]
          exact ⟨nofun, nofun, first, nofun, ih others⟩

theorem NumberFree.closed_tokens {value : Json} (free : value.NumberFree) :
    ∀ token ∈ value.tokens, token.IsClosed := by
  induction free with
  | null => exact List.forall_mem_singleton.2 nofun
  | bool => exact List.forall_mem_singleton.2 nofun
  | string => exact List.forall_mem_singleton.2 nofun
  | array _ ih =>
      rw [tokens, List.cons_append, List.forall_mem_cons, List.forall_mem_append]
      exact ⟨nofun, closed_tokensOfItems ih, List.forall_mem_singleton.2 nofun⟩
  | object _ ih =>
      rw [tokens, List.cons_append, List.forall_mem_cons, List.forall_mem_append]
      exact ⟨nofun, closed_tokensOfEntries ih, List.forall_mem_singleton.2 nofun⟩

theorem spells_tokens {tokens : List Token} (closed : ∀ token ∈ tokens, token.IsClosed) :
    Spells (tokens.flatMap Token.write) tokens := by
  induction tokens with
  | nil => exact .nil
  | cons token rest ih =>
      obtain ⟨first, others⟩ := List.forall_mem_cons.1 closed
      exact spells_cons token first (ih others)

theorem NumberFree.ofText?_compact {value : Json} (free : value.NumberFree) :
    ofText? value.compact = some value := by
  rw [ofText?, compact, String.toList_ofList, (spells_tokens free.closed_tokens).split?,
    Option.bind_some, ofTokens?_tokens]

end Json

end InterviewFlow
