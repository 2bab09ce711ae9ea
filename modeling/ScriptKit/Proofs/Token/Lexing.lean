import ScriptKit.Proofs.Program.Accepted
import ScriptKit.Proofs.Token.Reader
import ScriptKit.Proofs.Token.Tokenization

/-!
Texts that are put together from lexemes, as the scanner reads them. A text with a phrase may stand
before any rest, or only before one that does not continue its last lexeme.
-/
namespace ScriptKit

/-- `Scans refusable source phrase rest`: the source is read as the phrase and then as the rest is, or
it may be refused. -/
def Scans (refusable : Prop) (source : List Char) (phrase : List Lexeme) (rest : List Char) : Prop :=
  ∀ position,
    (∃ position' tokens, lexemes tokens = phrase ∧
      tokensFrom position source = (tokensFrom position' rest).map fun following =>
        ⟨tokens ++ following.tokens, following.stop⟩) ∨
    (refusable ∧ ∃ fault, tokensFrom position source = .error fault)

theorem Scans.refl : Scans refusable source [] source := by
  intro position
  refine .inl ⟨position, [], rfl, ?_⟩
  cases tokensFrom position source <;> rfl

theorem Scans.trans (first : Scans refusable source phrase middle)
    (second : Scans refusable middle phrase' rest) :
    Scans refusable source (phrase ++ phrase') rest := by
  intro position
  rcases first position with ⟨between, tokens, same, reads⟩ | refused
  · rcases second between with ⟨final, tokens', same', reads'⟩ | ⟨may, fault, refused⟩
    · refine .inl ⟨final, tokens ++ tokens', by simp [lexemes, ← same, ← same'], ?_⟩
      rw [reads, reads']
      cases tokensFrom final rest <;> simp [Except.map]
    · exact .inr ⟨may, fault, by rw [reads, refused]; rfl⟩
  · exact .inr refused

private theorem tokensFrom_space (blank : isSpace char = true) (position : Position)
    (rest : List Char) :
    tokensFrom position (char :: rest) = tokensFrom (position.next char) rest := by
  obtain ⟨gap, rest, rfl, between, solid⟩ := exists_gap rest
  have longer := tokensFrom_gap position (.space blank between) solid
  rw [List.cons_append] at longer
  rw [longer, tokensFrom_gap _ between solid]
  rfl

private theorem scans_space (blank : isSpace char = true) :
    Scans refusable (char :: rest) [] rest := by
  intro position
  refine .inl ⟨position.next char, [], rfl, ?_⟩
  rw [tokensFrom_space blank]
  cases tokensFrom _ rest <;> rfl

section
variable {lexeme : Lexeme} {text rest : List Char}

/-- A lexeme is the longest if the scanner finds nothing longer. -/
theorem Munched.of_found (spelled : lexeme.Spelled text) (preferred : lexeme.Preferred)
    (solid : gapLength false (text ++ rest) = 0)
    (found : terminalAt? (text ++ rest) = some (terminal, text.length)) :
    Munched lexeme text rest := by
  refine ⟨spelled, ?_, preferred⟩
  rintro other ⟨tail, split⟩ matched
  rw [← split] at solid found
  obtain ⟨_, length, found', reaches⟩ := matched.scanned solid
  rw [found] at found'
  cases found'
  exact reaches

theorem Lexeme.Spelled.munched (spelled : lexeme.Spelled text) (preferred : lexeme.Preferred)
    (apart : Apart rest) : Munched lexeme text rest := by
  obtain ⟨terminal, length, found, _, alone, _⟩ := spelled.scanned rest
  rw [alone apart] at found
  refine .of_found spelled preferred ?_ found
  obtain ⟨char, others, rfl⟩ := List.exists_cons_of_ne_nil spelled.ne_nil
  have unblank : isSpace char = false := by
    rw [← Bool.not_eq_true]
    intro blank
    rw [List.cons_append, terminalAt?_space blank] at found
    cases found
  have uncommented : ¬ (char = '/' ∧ (others ++ rest).head? = some '/') := by
    rintro ⟨rfl, second⟩
    have divide : terminalAt? ('/' :: (others ++ rest)) = some (.symbol .divide, 1) :=
      terminalAt?_symbol rfl
    obtain ⟨_, short⟩ := Prod.mk.inj (Option.some.inj (found.symm.trans divide))
    have none : others = [] := List.eq_nil_of_length_eq_zero (Nat.succ.inj short)
    rw [none, List.nil_append] at second
    exact absurd rfl (apart '/' second).2.2.2
  simp only [List.cons_append, gapLength, unblank, if_neg uncommented]
  rfl

theorem Munched.refused (munched : Munched lexeme text rest) (tooLong : Oversized text)
    (position : Position) :
    tokensFrom position (text ++ rest) = .error (.oversizedInteger text.length) := by
  obtain ⟨terminal, scanned, _⟩ := munched.scanned
  cases read : terminal.read text with
  | ok lexeme => exact absurd tooLong (Terminal.read_fits scanned read)
  | error fault =>
    rw [Terminal.read_eq_error read] at read
    obtain ⟨char, others, rfl⟩ := List.exists_cons_of_ne_nil munched.spelled.ne_nil
    have passed := tokensFrom_passed position .nil munched.solid
    simp only [List.nil_append, List.cons_append] at scanned passed
    rw [scanned] at passed
    simp only [← List.cons_append, List.take_left, read] at passed
    exact passed

/-- A lexeme with too many digits is refused. -/
theorem Munched.scans (munched : Munched lexeme text rest) (fits : Oversized text → refusable) :
    Scans refusable (text ++ rest) [lexeme] rest := by
  intro position
  by_cases tooLong : Oversized text
  · exact .inr ⟨fits tooLong, _, munched.refused tooLong position⟩
  · exact .inl ⟨position.advance text, [⟨lexeme, position⟩], rfl,
      tokensFrom_munched position .nil munched tooLong⟩

end

theorem Symbol.not_oversized (sign : Symbol) : ¬ Oversized sign.text.toList := by
  rintro ⟨_, long⟩
  cases sign <;> exact absurd long (by decide)

theorem Keyword.not_oversized (word : Keyword) : ¬ Oversized word.text.toList := by
  rintro ⟨_, long⟩
  cases word <;> exact absurd long (by decide)

/-- Parentheses, braces, semicolons, commas and the signs of numbers start no longer lexeme. -/
def loneSymbols : List Symbol := marks ++ [.plus, .minus]

private theorem scans_lone (alone : sign ∈ loneSymbols) :
    Scans refusable (sign.text.toList ++ rest) [.symbol sign] rest := by
  have found : gapLength false (sign.text.toList ++ rest) = 0 ∧
      terminalAt? (sign.text.toList ++ rest) = some (.symbol sign, sign.text.toList.length) := by
    simp only [loneSymbols, marks, List.mem_append, List.mem_cons, List.not_mem_nil, or_false] at alone
    rcases alone with (rfl | rfl | rfl | rfl | rfl | rfl) | rfl | rfl <;> exact ⟨rfl, rfl⟩
  exact (Munched.of_found .symbol nofun found.1 found.2).scans fun tooLong =>
    absurd tooLong sign.not_oversized

private theorem apart_parting (member : char ∈ partings) : Apart (char :: rest) := by
  have each : partings.all (fun char => decide (Apart [char])) = true := by decide
  exact of_decide_eq_true (List.all_eq_true.mp each char member)

private theorem scans_symbol (sign : Symbol) (apart : Apart rest) :
    Scans refusable (sign.text.toList ++ rest) [.symbol sign] rest :=
  (Lexeme.Spelled.symbol.munched nofun apart).scans fun tooLong => absurd tooLong sign.not_oversized

private theorem scans_keyword (word : Keyword) (apart : Apart rest) :
    Scans refusable (word.text.toList ++ rest) [.keyword word] rest :=
  (Lexeme.Spelled.keyword.munched nofun apart).scans fun tooLong => absurd tooLong word.not_oversized

/-- The scanner of the language, which may refuse a text. -/
def scanner (refusable : Prop) : Reader where
  steps := Scans refusable
  ends := Apart
  refl := .refl
  trans := .trans
  space := scans_space
  mark alone := scans_lone (List.mem_append_left _ alone)
  symbol := scans_symbol _
  keyword _ := scans_keyword _
  parted := apart_parting

/-- `Lexes refusable next text phrase`: before a rest of which `next` holds, the text is read as the
phrase, or it may be refused together with the rest. -/
abbrev Lexes (refusable : Prop) (next : List Char → Prop) (text : String) (phrase : List Lexeme) :
    Prop :=
  (scanner refusable).Before next text phrase

/-- The text is read as the phrase, whatever follows it. -/
abbrev Closed (refusable : Prop) (text : String) (phrase : List Lexeme) : Prop :=
  (scanner refusable).Closes text phrase

theorem Munched.lexes (munched : ∀ rest, next rest → Munched lexeme text rest)
    (fits : Oversized text → refusable) : Lexes refusable next (String.ofList text) [lexeme] := by
  intro rest holds
  rw [String.toList_ofList]
  exact (munched rest holds).scans fits

theorem Lexeme.Spelled.lexes {lexeme : Lexeme} (spelled : lexeme.Spelled text.toList)
    (preferred : lexeme.Preferred) (fits : Oversized text.toList → refusable) :
    Lexes refusable Apart text [lexeme] := by
  rw [← String.ofList_toList (s := text)]
  exact Munched.lexes (fun _ apart => spelled.munched preferred apart) fits

theorem closed_lone (alone : sign ∈ loneSymbols) : Closed refusable sign.text [.symbol sign] :=
  fun _ _ => scans_lone alone

/-- A lexeme that some text spells. -/
def Lexeme.Written (lexeme : Lexeme) : Prop :=
  ∃ text, lexeme.Spelled text ∧ lexeme.Preferred ∧ ¬ Oversized text

/-- Every lexeme that is read is written. -/
theorem tokensFrom_written (success : tokensFrom position source = .ok stream) :
    ∀ lexeme ∈ lexemes stream.tokens, lexeme.Written := by
  induction bound : source.length using Nat.strongRecOn generalizing position source stream with
  | _ length ih =>
  subst bound
  obtain ⟨gap, rest, rfl, between, solid⟩ := exists_gap source
  rw [tokensFrom_passed position between solid] at success
  cases rest with
  | nil =>
    obtain rfl := Except.ok.inj success
    exact fun lexeme member => absurd member List.not_mem_nil
  | cons char rest =>
    cases found : terminalAt? (char :: rest) with
    | none =>
      rw [found] at success
      cases success
    | some first =>
      obtain ⟨terminal, length⟩ := first
      obtain ⟨spoken, text, rest, split, rfl, spelled, preferred⟩ := terminalAt?_spelled found
      rw [split] at found
      simp only [split, found, List.take_left, List.drop_left] at success
      obtain ⟨lexeme, read, success⟩ := bind_eq_ok.mp success
      obtain ⟨following, others, success⟩ := bind_eq_ok.mp success
      obtain rfl := Except.ok.inj success
      have fits := Terminal.read_fits found read
      obtain ⟨_, _, found', _, _, reads⟩ := spelled.scanned rest
      rw [found] at found'
      obtain ⟨rfl, rfl⟩ := Prod.mk.inj (Option.some.inj found')
      obtain rfl := Except.ok.inj (read.symm.trans (reads rfl preferred fits))
      have nonempty := List.length_pos_iff.mpr spelled.ne_nil
      have length := congrArg List.length split
      rw [List.length_append] at length
      refine List.forall_mem_cons.mpr ⟨⟨text, spelled, preferred, fits⟩, ?_⟩
      exact ih rest.length (by rw [List.length_append]; omega) others rfl

theorem splits_append : Splits source (pieces ++ more) rest ↔
    ∃ middle, Splits source pieces middle ∧ Splits middle more rest := by
  induction pieces generalizing source with
  | nil =>
    constructor
    · intro splits
      exact ⟨source, .nil, splits⟩
    · rintro ⟨_, ⟨⟩, splits⟩
      exact splits
  | cons piece pieces ih =>
    constructor
    · rintro (_ | ⟨between, munched, others⟩)
      obtain ⟨middle, first, second⟩ := ih.mp others
      exact ⟨middle, .cons between munched first, second⟩
    · rintro ⟨middle, _ | ⟨between, munched, first⟩, second⟩
      exact .cons between munched (ih.mpr ⟨middle, first, second⟩)

/-- `Excessive source digits`: after pieces that can be read, the source has an integer of so many
digits, which are too many. -/
def Excessive (source : String) (digits : Nat) : Prop :=
  ∃ pieces piece rest, Splits source.toList (pieces ++ [piece]) rest ∧
    (∀ other ∈ pieces, ¬ Oversized other.text) ∧ Oversized piece.text ∧ digits = piece.text.length

theorem Excessive.refused (excessive : Excessive source digits) :
    TokenStream.ofSource source = .error (.oversizedInteger digits) := by
  obtain ⟨pieces, piece, rest, splits, fits, long, rfl⟩ := excessive
  obtain ⟨middle, first, second⟩ := splits_append.mp splits
  obtain ⟨_, _, reads⟩ := first.tokensFrom_eq fits []
  cases second with
  | cons between munched others =>
    rw [tokensFrom_gap _ between munched.solid, munched.refused long] at reads
    exact reads

/-- The scanner gives up on a text for the length of an integer at the first one that is too long,
and only there. -/
theorem TokenStream.ofSource_eq_oversized :
    ofSource source = .error (.oversizedInteger digits) ↔ Excessive source digits := by
  refine ⟨fun failure => ?_, Excessive.refused⟩
  obtain ⟨pieces, gap, rest, splits, between, ended⟩ := exists_splits source.toList
  cases first : pieces.find? fun piece => decide (Oversized piece.text) with
  | none =>
    have fits : ∀ piece ∈ pieces, ¬ Oversized piece.text := by simpa using first
    rcases ended with rfl | ⟨char, more, rfl, stuck⟩
    · rw [List.append_nil] at splits
      cases failure.symm.trans (splits.tokensFrom_ok between fits)
    · obtain ⟨_, _, reads⟩ := splits.tokensFrom_error between stuck fits
      cases failure.symm.trans reads
  | some piece =>
    obtain ⟨long, earlier, later, rfl, fits⟩ := List.find?_eq_some_iff_append.mp first
    rw [List.append_cons] at splits
    obtain ⟨_, splits, _⟩ := splits_append.mp splits
    have excessive : Excessive source piece.text.length :=
      ⟨earlier, piece, _, splits, by simpa using fits, of_decide_eq_true long, rfl⟩
    cases failure.symm.trans excessive.refused
    exact excessive

end ScriptKit
