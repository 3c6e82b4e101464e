import InterviewFlow.Proofs.DocumentReading
import InterviewFlow.Proofs.NumberText

/-! Numbers in documents. A JSON value with one place left open has tokens before the place and
behind it, and a path that leads to it; if the value is read, the tree has at the end of the path
what is read from the place. So at every place of a document a number becomes a leaf, with the
text of its literal. -/

set_option autoImplicit false

namespace InterviewFlow

/-- A step down: to an item by its position, or to the value of a key. -/
inductive Step where
  | item (position : Nat)
  | key (name : String)

namespace Tree

/-- What a tree holds at the end of a path. -/
def subtree? : Tree → List Step → Option Tree
  | tree, [] => some tree
  | .sequence items, .item position :: path =>
      items[position]?.bind fun inner => inner.subtree? path
  | .group entries, .key name :: path =>
      (Entries.get? name entries).bind fun inner => inner.subtree? path
  | _, _ :: _ => none

end Tree

namespace Json

open Token (SpelledIn)

/-- A value with one place left open. -/
inductive Surrounding where
  | place
  | item (before : List Json) (inside : Surrounding) (after : List Json)
  | entry (before : List (Option String × Json)) (key : String) (inside : Surrounding)
      (after : List (Option String × Json))

namespace Surrounding

def plug : Surrounding → Json → Json
  | place, part => part
  | item before inside after, part => .array (before ++ inside.plug part :: after)
  | entry before key inside after, part => .object (before ++ (some key, inside.plug part) :: after)

def path : Surrounding → List Step
  | place => []
  | item before inside _ => .item before.length :: inside.path
  | entry _ key inside _ => .key key :: inside.path

def opening : Surrounding → List Token
  | place => []
  | item before inside _ =>
      .leftBracket :: before.flatMap (fun other => other.tokens ++ [.comma]) ++ inside.opening
  | entry before key inside _ =>
      .leftBrace :: before.flatMap
          (fun other => .string other.1 :: .colon :: other.2.tokens ++ [.comma]) ++
        .string (some key) :: .colon :: inside.opening

def closing : Surrounding → List Token
  | place => []
  | item _ inside after =>
      inside.closing ++ after.flatMap (fun other => .comma :: other.tokens) ++ [.rightBracket]
  | entry _ _ inside after =>
      inside.closing ++ after.flatMap
          (fun other => .comma :: .string other.1 :: .colon :: other.2.tokens) ++
        [.rightBrace]

/-- No key around the place is written again behind it, which would replace what is there. -/
inductive Lasting : Surrounding → Prop where
  | place : Lasting place
  | item {before after : List Json} {inside : Surrounding} :
      Lasting inside → Lasting (item before inside after)
  | entry {before after : List (Option String × Json)} {key : String} {inside : Surrounding} :
      (∀ other ∈ after, other.1 ≠ some key) → Lasting inside →
      Lasting (entry before key inside after)

variable {surrounding : Surrounding}

/-! ## Tokens around a place -/

theorem tokensOfItems_cons (item : Json) (rest : List Json) :
    tokensOfItems (item :: rest) =
      item.tokens ++ rest.flatMap fun other => .comma :: other.tokens := by
  induction rest generalizing item with
  | nil => simp [tokensOfItems]
  | cons next rest ih => rw [tokensOfItems, ih, List.flatMap_cons, List.cons_append]

theorem tokensOfEntries_cons (entry : Option String × Json) (rest : List (Option String × Json)) :
    tokensOfEntries (entry :: rest) =
      .string entry.1 :: .colon :: entry.2.tokens ++
        rest.flatMap fun other => .comma :: .string other.1 :: .colon :: other.2.tokens := by
  induction rest generalizing entry with
  | nil => simp [tokensOfEntries]
  | cons next rest ih => rw [tokensOfEntries, ih, List.flatMap_cons]; simp

theorem tokens_plug (surrounding : Surrounding) (part : Json) :
    (surrounding.plug part).tokens =
      surrounding.opening ++ part.tokens ++ surrounding.closing := by
  induction surrounding with
  | place => rw [plug, opening, closing, List.nil_append, List.append_nil]
  | item before inside after ih =>
      rw [plug, tokens, tokensOfItems_split, tokensOfItems_cons, ih, opening, closing]
      simp only [List.append_assoc, List.cons_append]
  | entry before key inside after ih =>
      rw [plug, tokens, tokensOfEntries_split, tokensOfEntries_cons, ih, opening, closing]
      simp only [List.append_assoc, List.cons_append]

theorem spelledBy_plug_number {literal : NumberLiteral} {before word after : List Char}
    (opening : SpelledIn surrounding.opening before) (spelled : literal.SpelledBy word)
    (closing : SpelledIn surrounding.closing after) :
    (surrounding.plug (.number literal)).SpelledBy (String.ofList (before ++ word ++ after)) := by
  have number : SpelledIn [.number literal] word := by
    have alone := SpelledIn.token (List.forall_mem_nil _) (.number spelled)
      (.blanks (List.forall_mem_nil _))
    rwa [List.nil_append, List.append_nil] at alone
  rw [SpelledBy, String.toList_ofList, tokens_plug]
  exact (opening.append number).append closing

/-! ## The tree at the place -/

theorem exists_fields_of_hasTree {before after : List (Option String × Json)} {key : String}
    {value : Json} {tree : Tree}
    (shape : (object (before ++ (some key, value) :: after)).HasTree tree) :
    ∃ fieldsBefore fieldsAfter : List (String × Json),
      (fieldsAfter.map fun field => (some field.1, field.2)) = after ∧
        (ofFields (fieldsBefore ++ (key, value) :: fieldsAfter)).HasTree tree := by
  generalize whole : object (before ++ (some key, value) :: after) = outer at shape
  cases shape with
  | @object fields kept entries collects sameKeys related =>
      obtain ⟨fieldsBefore, others, rfl, _, split⟩ :=
        List.map_eq_append_iff.1 (object.inj whole).symm
      obtain ⟨⟨name, own⟩, fieldsAfter, rfl, here, afterSame⟩ := List.map_eq_cons_iff.1 split
      cases here
      exact ⟨fieldsBefore, fieldsAfter, afterSame, .object collects sameKeys related⟩
  | _ => cases whole

theorem exists_subtree?_of_hasTree {part : Json} {tree : Tree} (lasting : surrounding.Lasting)
    (shape : (surrounding.plug part).HasTree tree) :
    ∃ inner, tree.subtree? surrounding.path = some inner ∧ part.HasTree inner := by
  induction lasting generalizing tree with
  | place => exact ⟨tree, rfl, shape⟩
  | @item before after inside _ ih =>
      obtain ⟨trees, related, rfl⟩ := hasTree_array_iff.1 shape
      have behind := List.forall₂_drop before.length related
      rw [List.drop_left] at behind
      -- What is left of the trees begins with the tree of the item around the place.
      generalize remaining : trees.drop before.length = others at behind
      cases behind with
      | @cons _ found _ rest here _ =>
          obtain ⟨inner, below, innerShape⟩ := ih here
          refine ⟨inner, ?_, innerShape⟩
          have atPlace : trees[before.length]? = some found := by
            rw [← List.head?_drop, remaining, List.head?_cons]
          rw [path, Tree.subtree?, atPlace, Option.bind_some, below]
  | @entry before after key inside final _ ih =>
      obtain ⟨fieldsBefore, fieldsAfter, rfl, fieldsShape⟩ := exists_fields_of_hasTree shape
      obtain ⟨entries, tagwise, rfl⟩ := hasTree_ofFields_iff.1 fieldsShape
      -- An earlier entry with the same key does no harm: the value is the last one of its key.
      have kept : Entries.get? key
          (Entries.ofList (fieldsBefore ++ (key, inside.plug part) :: fieldsAfter)) =
            some (inside.plug part) := by
        refine ((OrderedMap.collects_ofList _).values key).trans (Entries.last?_split ?_)
        intro other member same
        exact final _ (List.mem_map_of_mem member) (congrArg some same)
      obtain ⟨found, holds, here⟩ := tagwise.get?_left kept
      obtain ⟨inner, below, innerShape⟩ := ih here
      refine ⟨inner, ?_, innerShape⟩
      rw [path, Tree.subtree?, holds, Option.bind_some, below]

end Surrounding

end Json

namespace Document

open Json (HasTree Surrounding)
open Token (SpelledIn)

/-! ## Numbers in a document -/

/-- Which numbers keep their spelling. A document that is read has at every place a leaf where
the text has a number. The leaf is spelled like the number if that is an integer from -2^63 to
2^64 - 1 and not the negative zero; the text of any other has a point or an exponent, so that no
other integer keeps its spelling. A number under a key that is written again has no leaf. -/
theorem number_leaves_verbatim {surrounding : Surrounding} {literal : NumberLiteral}
    {before word after : List Char} {tree : Tree} (lasting : surrounding.Lasting)
    (opening : SpelledIn surrounding.opening before) (spelled : literal.SpelledBy word)
    (closing : SpelledIn surrounding.closing after)
    (done : read (String.ofList (before ++ word ++ after)) = .ok tree) :
    ∃ text, tree.subtree? surrounding.path = some (.leaf text) ∧
      (NumberLiteral.FitsWord word → text = String.ofList word) ∧
      (¬ NumberLiteral.FitsWord word → '.' ∈ text.toList ∨ 'e' ∈ text.toList) ∧
      ∀ integer, NumberLiteral.SpellsInteger word integer → ¬ NumberLiteral.FitsWord word →
        text ≠ String.ofList word := by
  obtain ⟨value, accepted, shape⟩ := read_eq_ok_iff.1 done
  have same : value = surrounding.plug (.number literal) :=
    accepted.spelled.unique (Surrounding.spelledBy_plug_number opening spelled closing)
  rw [same] at shape
  obtain ⟨inner, found, leaf⟩ := Surrounding.exists_subtree?_of_hasTree lasting shape
  cases leaf with
  | @number _ text read =>
      exact ⟨text, found, NumberLiteral.verbatim_of_text? spelled read⟩

/-- The greatest word and the negative zero, behind a null that they replace. -/
theorem number_leaves_verbatim_greatest :
    let source (word : List Char) :=
      String.ofList ("\x7b\"n\":null,\"n\":[".toList ++ word ++ "]\x7d".toList)
    (∃ tree, read (source "18446744073709551615".toList) = .ok tree ∧
      tree.subtree? [.key "n", .item 0] = some (.leaf "18446744073709551615")) ∧
    ∃ tree text, read (source "-0".toList) = .ok tree ∧
      tree.subtree? [.key "n", .item 0] = some (.leaf text) ∧
      ('.' ∈ text.toList ∨ 'e' ∈ text.toList) ∧ text ≠ "-0" := by
  intro source
  let surrounding : Surrounding := .entry [(some "n", .null)] "n" (.item [] .place []) []
  have lasting : surrounding.Lasting := .entry (List.forall_mem_nil _) (.item .place)
  have opening : SpelledIn surrounding.opening "\x7b\"n\":null,\"n\":[".toList := by
    have closed : ∀ token ∈ surrounding.opening, token.IsClosed := by
      simp [surrounding, Surrounding.opening, Json.tokens, Token.IsClosed]
    exact Token.spelledIn_of_split? (Json.spells_tokens closed).split?
  have closing : SpelledIn surrounding.closing "]\x7d".toList := by
    have closed : ∀ token ∈ surrounding.closing, token.IsClosed := by
      simp [surrounding, Surrounding.closing, Token.IsClosed]
    exact Token.spelledIn_of_split? (Json.spells_tokens closed).split?
  have readable : ∀ (literal : NumberLiteral) (word : List Char) (text : String),
      literal.SpelledBy word → literal.text? = some text →
      read (source word) = .ok (.group [("n", .sequence [.leaf text])]) := by
    intro literal word text spelled meaning
    refine read_eq_ok_iff.2 ⟨surrounding.plug (.number literal),
      ⟨Surrounding.spelledBy_plug_number opening spelled closing, ?_, ?_⟩, ?_⟩
    · simp [surrounding, Surrounding.plug, Json.isSound, Json.haveSoundEntries, Json.areSound,
        meaning]
    · exact (show 2 ≤ 127 by decide)
    · let fields := [("n", Json.null), ("n", .array [.number literal])]
      have items : List.Forall₂ HasTree [.number literal] [.leaf text] :=
        .cons (.number meaning) .nil
      have shape : (Json.ofFields fields).HasTree (.group [("n", .sequence [.leaf text])]) :=
        Json.hasTree_ofFields_iff.2 ⟨_, .cons ⟨rfl, .array items⟩ .nil, rfl⟩
      exact shape
  have spelledBy : ∀ (literal : NumberLiteral) (word : List Char),
      NumberLiteral.scan? word = some (literal, []) → literal.SpelledBy word := by
    intro literal word scanned
    obtain ⟨own, spelled, same⟩ := NumberLiteral.scan?_eq_some scanned
    rw [List.append_nil] at same
    exact same ▸ spelled
  constructor
  · have spelled := spelledBy ⟨false, "18446744073709551615".toList, none, none⟩
      "18446744073709551615".toList rfl
    have done := readable _ _ "18446744073709551615" spelled (by decide +kernel)
    obtain ⟨text, found, kept, _⟩ :=
      number_leaves_verbatim lasting opening spelled closing done
    have fits : NumberLiteral.FitsWord "18446744073709551615".toList :=
      (NumberLiteral.fitsWord_iff spelled).2 ⟨18446744073709551615, by decide +kernel⟩
    refine ⟨_, done, found.trans ?_⟩
    rw [kept fits]
    rfl
  · have spelled := spelledBy ⟨true, "0".toList, none, none⟩ "-0".toList rfl
    have done := readable _ _ "-0.0" spelled (by decide +kernel)
    obtain ⟨text, found, _, marked, changed⟩ :=
      number_leaves_verbatim lasting opening spelled closing done
    have outside : ¬ NumberLiteral.FitsWord "-0".toList := fun fits => fits.1 rfl
    have whole := (NumberLiteral.spellsInteger_iff spelled).2 ⟨⟨rfl, rfl⟩, rfl⟩
    exact ⟨_, text, done, found, marked outside, changed _ whole outside⟩

end Document

end InterviewFlow
