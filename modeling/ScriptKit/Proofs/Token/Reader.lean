import ScriptKit.Token.Stream

/-!
Ways to read a text as lexemes, one after the other. Ways that agree on spaces, punctuation, signs and
reserved words agree on the texts that are put together from them, whatever they make of names and
literals.
-/
namespace ScriptKit

/-- Any rest will do. -/
abbrev Anywhere (_ : List Char) : Prop := True

/-- The characters that stand after names, literals and signs in emitted text. -/
def partings : List Char := [' ', '(', ')', ',', ';']

/-- Punctuation, with which no other symbol starts. -/
def marks : List Symbol :=
  [.leftParen, .rightParen, .leftBrace, .rightBrace, .semicolon, .comma]

/-- A way to read texts. `steps source phrase rest`: the source is read as the phrase, and then as the
rest is read; `ends rest`: what stands before the rest is not continued by it. -/
structure Reader where
  steps : List Char → List Lexeme → List Char → Prop
  ends : List Char → Prop
  refl : steps source [] source
  trans : steps source phrase middle → steps middle phrase' rest →
    steps source (phrase ++ phrase') rest
  space : isSpace char = true → steps (char :: rest) [] rest
  mark : sign ∈ marks → steps (sign.text.toList ++ rest) [.symbol sign] rest
  symbol : ends rest → steps (sign.text.toList ++ rest) [.symbol sign] rest
  /-- The word that prints is another one in emitted text. -/
  keyword : word ≠ .printWord → ends rest →
    steps (word.text.toList ++ rest) [.keyword word] rest
  parted : char ∈ partings → ends (char :: rest)

namespace Reader
variable {reader : Reader}

/-- Before a rest of which `next` holds, the text is read as the phrase. -/
def Before (reader : Reader) (next : List Char → Prop) (text : String) (phrase : List Lexeme) :
    Prop :=
  ∀ rest, next rest → reader.steps (text.toList ++ rest) phrase rest

/-- The text is read as the phrase, unless the rest continues it. -/
abbrev Reads (reader : Reader) (text : String) (phrase : List Lexeme) : Prop :=
  reader.Before reader.ends text phrase

/-- The text is read as the phrase, whatever follows it. -/
abbrev Closes (reader : Reader) (text : String) (phrase : List Lexeme) : Prop :=
  reader.Before Anywhere text phrase

namespace Before

theorem join (first : reader.Before next text phrase) (second : reader.Before next' text' phrase')
    (meets : ∀ rest, next' rest → next (text'.toList ++ rest)) :
    reader.Before next' (text ++ text') (phrase ++ phrase') := by
  intro rest holds
  rw [String.toList_append, List.append_assoc]
  exact reader.trans (first _ (meets rest holds)) (second rest holds)

theorem before (first : reader.Closes text phrase) (second : reader.Before next text' phrase') :
    reader.Before next (text ++ text') (phrase ++ phrase') :=
  first.join second fun _ _ => trivial

theorem append (first : reader.Closes text phrase) (second : reader.Closes text' phrase') :
    reader.Closes (text ++ text') (phrase ++ phrase') :=
  first.before second

theorem weaken (closed : reader.Closes text phrase) : reader.Before next text phrase :=
  fun rest _ => closed rest trivial

theorem of_eq (reads : reader.Before next text phrase) (same : text = text') :
    reader.Before next text' phrase :=
  same ▸ reads

end Before

/-- The text starts with a character that continues nothing. -/
def Parting (text : String) : Prop := text.toList.head?.any (· ∈ partings) = true

instance (text : String) : Decidable (Parting text) :=
  inferInstanceAs (Decidable (_ = true))

theorem Before.close (first : reader.Reads text phrase) (parting : Parting text')
    (second : reader.Closes text' phrase') :
    reader.Closes (text ++ text') (phrase ++ phrase') := by
  refine first.join second fun rest _ => ?_
  unfold Parting at parting
  cases chars : text'.toList with
  | nil =>
    rw [chars] at parting
    cases parting
  | cons char others =>
    rw [chars] at parting
    exact reader.parted (of_decide_eq_true parting)

end Reader

section
variable {reader : Reader}

theorem closed_empty : reader.Closes "" [] := fun _ _ => reader.refl

theorem closed_space (blank : isSpace char = true) : reader.Closes (String.singleton char) [] := by
  intro rest _
  rw [String.toList_singleton, List.singleton_append]
  exact reader.space blank

theorem closed_mark (sign : Symbol) (alone : sign ∈ marks) :
    reader.Closes sign.text [.symbol sign] :=
  fun _ _ => reader.mark alone

theorem reads_symbol (sign : Symbol) : reader.Reads sign.text [.symbol sign] :=
  fun _ => reader.symbol

theorem reads_keyword (word : Keyword) (other : word ≠ .printWord) :
    reader.Reads word.text [.keyword word] :=
  fun _ => reader.keyword other

end

end ScriptKit
