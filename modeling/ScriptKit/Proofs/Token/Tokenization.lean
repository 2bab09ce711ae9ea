import ScriptKit.Program.Parser
import ScriptKit.Proofs.Token.Spelling
import ScriptKit.Proofs.Yields

/-!
Reading a text as tokens is its only division into gaps and lexemes in which every lexeme is the
longest text of any terminal where it starts. Reading fails where no terminal has a text, and nowhere
else.
-/
namespace ScriptKit

/-- `Gap gap rest`: before `rest`, the gap is white space and comments, each of which runs up to a
line feed or the end of the text. -/
inductive Gap : List Char → List Char → Prop where
  | nil : Gap [] rest
  | space (blank : isSpace char = true) (more : Gap gap rest) : Gap (char :: gap) rest
  | comment (line : '\n' ∉ body) (stop : ∀ char ∈ (gap ++ rest).head?, char = '\n')
      (more : Gap gap rest) : Gap ('/' :: '/' :: (body ++ gap)) rest

/-- Before `rest`, the text is the longest that is in the language of a terminal. -/
structure Munched (lexeme : Lexeme) (text rest : List Char) : Prop where
  spelled : lexeme.Spelled text
  longest : ∀ other, other <+: text ++ rest → Matched other → other.length ≤ text.length
  preferred : lexeme.Preferred

/-- A lexeme and its text, with the gap before it. -/
structure Piece where
  gap : List Char
  text : List Char
  lexeme : Lexeme

/-- `Splits source pieces rest`: the source is these pieces, and then `rest`. -/
inductive Splits : List Char → List Piece → List Char → Prop where
  | nil : Splits rest [] rest
  | cons (between : Gap gap (text ++ source)) (munched : Munched lexeme text source)
      (others : Splits source pieces rest) :
      Splits (gap ++ (text ++ source)) (⟨gap, text, lexeme⟩ :: pieces) rest

/-- The place after a text that starts at the first line: lines are counted by line feeds, columns from
the last one. -/
def placeAfter (text : List Char) : Position :=
  ⟨1 + text.count '\n', (text.reverse.takeWhile (· != '\n')).length + 1⟩

/-- The tokens of pieces that stand after the text `before`. -/
def tokensAfter (before : List Char) : List Piece → List Token
  | [] => []
  | piece :: pieces =>
    ⟨piece.lexeme, placeAfter (before ++ piece.gap)⟩ ::
      tokensAfter (before ++ piece.gap ++ piece.text) pieces

private theorem placeAfter_snoc (text : List Char) (char : Char) :
    placeAfter (text ++ [char]) = (placeAfter text).next char := by
  by_cases feed : char = '\n'
  · subst feed
    simp [placeAfter, Position.next]
    omega
  · simp [placeAfter, Position.next, feed]

@[simp]
private theorem placeAfter_advance (before text : List Char) :
    (placeAfter before).advance text = placeAfter (before ++ text) := by
  induction text generalizing before with
  | nil => simp [Position.advance]
  | cons char text ih =>
    have step := ih (before ++ [char])
    rw [placeAfter_snoc, List.append_assoc] at step
    exact step

private theorem gapLength_comment (text : List Char) :
    gapLength true text =
      (text.takeWhile (· != '\n')).length + gapLength false (text.dropWhile (· != '\n')) := by
  induction text with
  | nil => rfl
  | cons char text ih =>
    by_cases feed : char = '\n'
    · subst feed
      simp [gapLength, isSpace]
    · have inside : (char != '\n') = true := by simpa using feed
      simp [gapLength, inside, ih]
      omega

/-- A gap is as long as the scanner says, if none starts after it. -/
theorem Gap.length_eq (between : Gap gap rest) (solid : gapLength false rest = 0) :
    gapLength false (gap ++ rest) = gap.length := by
  induction between with
  | nil => simpa using solid
  | space blank more ih => simp [gapLength, blank, ih solid]
  | @comment body gap rest line stop more ih =>
    have inner : ∀ char ∈ body, (char != '\n') = true := by
      intro char member
      simp only [bne_iff_ne]
      rintro rfl
      exact line member
    have ended : (gap ++ rest).takeWhile (· != '\n') = [] ∧
        (gap ++ rest).dropWhile (· != '\n') = gap ++ rest := by
      generalize gap ++ rest = text at stop
      cases text with
      | nil => simp
      | cons char text => simp [stop char rfl]
    have slash : isSpace '/' = false := by decide
    have body : gapLength true (body ++ (gap ++ rest)) = body.length + gap.length := by
      rw [gapLength_comment, List.takeWhile_append_of_pos inner, List.dropWhile_append_of_pos inner,
        ended.1, ended.2, List.append_nil, ih solid]
    simp [gapLength, slash, body]

theorem exists_gap (source : List Char) :
    ∃ gap rest, source = gap ++ rest ∧ Gap gap rest ∧ gapLength false rest = 0 := by
  induction bound : source.length using Nat.strongRecOn generalizing source with
  | _ length ih =>
  subst bound
  cases source with
  | nil => exact ⟨[], [], rfl, .nil, rfl⟩
  | cons char source =>
    by_cases blank : isSpace char = true
    · obtain ⟨gap, rest, rfl, between, solid⟩ :=
        ih source.length (by simp) source rfl
      exact ⟨char :: gap, rest, rfl, .space blank between, solid⟩
    by_cases slashes : char = '/' ∧ source.head? = some '/'
    · obtain ⟨rfl, slash⟩ := slashes
      obtain ⟨text, rfl⟩ := List.head?_eq_some_iff.mp slash
      have shorter := congrArg List.length (text.takeWhile_append_dropWhile (p := (· != '\n')))
      rw [List.length_append] at shorter
      obtain ⟨gap, rest, split, between, solid⟩ :=
        ih _ (by simp; omega) (text.dropWhile (· != '\n')) rfl
      -- The comment stops before its line feed, which is white space of the gap that follows.
      refine ⟨'/' :: '/' :: (text.takeWhile (· != '\n') ++ gap), rest, ?_, .comment ?_ ?_ between,
        solid⟩
      · simp [← split]
      · intro member
        have := List.all_eq_true.mp List.all_takeWhile _ member
        simp at this
      · rw [← split]
        intro char first
        have := List.head?_dropWhile_not (· != '\n') text
        simpa [Option.mem_def.mp first] using this
    · exact ⟨[], char :: source, rfl, .nil, by simp [gapLength, blank, slashes]⟩

theorem terminalAt?_space (blank : isSpace char = true) : terminalAt? (char :: rest) = none := by
  simp only [isSpace, Bool.or_eq_true, beq_iff_eq] at blank
  rcases blank with (((rfl | rfl) | rfl) | rfl) | rfl <;> rfl

/-- A gap starts with a text of white space or of a comment. -/
theorem exists_matched_of_gapLength (gapped : gapLength false source ≠ 0) :
    ∃ text, text <+: source ∧ Matched text ∧
      ∀ terminal length, terminalAt? source = some (terminal, length) → length < text.length := by
  cases source with
  | nil => exact absurd rfl gapped
  | cons char source =>
    by_cases blank : isSpace char = true
    · refine ⟨[char], ⟨source, rfl⟩, .space (by simp) (by simpa using blank), ?_⟩
      rw [terminalAt?_space blank]
      nofun
    by_cases slashes : char = '/' ∧ source.head? = some '/'
    · obtain ⟨rfl, slash⟩ := slashes
      obtain ⟨text, rfl⟩ := List.head?_eq_some_iff.mp slash
      refine ⟨['/', '/'], ⟨text, rfl⟩, .comment (List.not_mem_nil), ?_⟩
      rintro terminal length ⟨⟩
      decide
    · simp [gapLength, blank, slashes] at gapped

/-- Where no gap starts, the scanner finds a terminal that is as long as any. -/
theorem Matched.scanned (matched : Matched text) (solid : gapLength false (text ++ rest) = 0) :
    ∃ terminal length, terminalAt? (text ++ rest) = some (terminal, length) ∧
      text.length ≤ length := by
  cases matched with
  | lexeme spelled =>
    obtain ⟨terminal, length, found, reaches, _⟩ := spelled.scanned rest
    exact ⟨terminal, length, found, reaches⟩
  | space nonempty all =>
    obtain ⟨char, text, rfl⟩ := List.exists_cons_of_ne_nil nonempty
    simp [gapLength, all char List.mem_cons_self] at solid
  | comment line =>
    have slash : isSpace '/' = false := by decide
    simp [gapLength, slash] at solid

section
variable {lexeme : Lexeme} {text rest : List Char}

/-- The longest text of a lexeme is what the scanner finds. -/
theorem Munched.scanned (munched : Munched lexeme text rest) :
    ∃ terminal, terminalAt? (text ++ rest) = some (terminal, text.length) ∧
      (¬ Oversized text → terminal.read text = .ok lexeme) := by
  obtain ⟨terminal, length, found, reaches, _, reads⟩ := munched.spelled.scanned rest
  obtain ⟨other, text', rest', split, same, spelled, _⟩ := terminalAt?_spelled found
  have shorter := munched.longest text' ⟨rest', split.symm⟩ (.lexeme spelled)
  have equal : length = text.length := by omega
  exact ⟨terminal, equal ▸ found, reads equal munched.preferred⟩

theorem Munched.solid (munched : Munched lexeme text rest) :
    gapLength false (text ++ rest) = 0 := by
  apply Decidable.byContradiction
  intro gapped
  obtain ⟨terminal, length, found, reaches, _⟩ := munched.spelled.scanned rest
  obtain ⟨gap, start, matched, longer⟩ := exists_matched_of_gapLength gapped
  have := munched.longest gap start matched
  have := longer terminal length found
  omega

end

private theorem exists_munched (solid : gapLength false source = 0)
    (found : terminalAt? source = some (terminal, length)) :
    ∃ lexeme text rest, source = text ++ rest ∧ Munched lexeme text rest := by
  obtain ⟨lexeme, text, rest, rfl, same, spelled, preferred⟩ := terminalAt?_spelled found
  refine ⟨lexeme, text, rest, rfl, spelled, ?_, preferred⟩
  rintro other ⟨tail, split⟩ matched
  rw [← split] at found solid
  obtain ⟨terminal', length', found', reaches⟩ := matched.scanned solid
  rw [found] at found'
  cases found'
  omega

/-- `Stuck source`: there is no text of any terminal at the start. -/
def Stuck (source : List Char) : Prop := ∀ text, text <+: source → ¬ Matched text

theorem stuck_iff (source : List Char) :
    Stuck source ↔ gapLength false source = 0 ∧ terminalAt? source = none := by
  constructor
  · intro stuck
    constructor
    · apply Decidable.byContradiction
      intro gapped
      obtain ⟨text, start, matched, _⟩ := exists_matched_of_gapLength gapped
      exact stuck text start matched
    · apply Option.eq_none_iff_forall_ne_some.mpr
      rintro ⟨terminal, length⟩ found
      obtain ⟨lexeme, text, rest, split, _, spelled, _⟩ := terminalAt?_spelled found
      exact stuck text ⟨rest, split.symm⟩ (.lexeme spelled)
  · rintro ⟨solid, missing⟩ text ⟨rest, rfl⟩ matched
    obtain ⟨terminal, length, found, _⟩ := matched.scanned solid
    rw [missing] at found
    cases found

/-- Every text is pieces and a gap, up to its end or to where no terminal has a text. -/
theorem exists_splits (source : List Char) :
    ∃ pieces gap rest, Splits source pieces (gap ++ rest) ∧ Gap gap rest ∧
      (rest = [] ∨ ∃ char more, rest = char :: more ∧ Stuck rest) := by
  induction bound : source.length using Nat.strongRecOn generalizing source with
  | _ length ih =>
  subst bound
  obtain ⟨gap, rest, rfl, between, solid⟩ := exists_gap source
  cases found : terminalAt? rest with
  | none =>
    refine ⟨[], gap, rest, .nil, between, ?_⟩
    cases rest with
    | nil => exact .inl rfl
    | cons char more => exact .inr ⟨char, more, rfl, (stuck_iff _).mpr ⟨solid, found⟩⟩
  | some first =>
    obtain ⟨lexeme, text, rest, rfl, munched⟩ := exists_munched solid found
    have := List.length_pos_iff.mpr munched.spelled.ne_nil
    obtain ⟨pieces, gap', rest', splits, between', ended⟩ :=
      ih rest.length (by simp; omega) rest rfl
    exact ⟨_ :: pieces, gap', rest', .cons between munched splits, between', ended⟩

/-- The scanner passes over a gap that no other follows. -/
theorem Gap.passed (between : Gap gap rest) (solid : gapLength false rest = 0) :
    (gap ++ rest).take (gapLength false (gap ++ rest)) = gap ∧
      (gap ++ rest).drop (gapLength false (gap ++ rest)) = rest := by
  rw [between.length_eq solid]
  exact ⟨List.take_left, List.drop_left⟩

section
variable {gap rest : List Char} (position : Position)

/-- One round of the scanner. -/
theorem tokensFrom_passed : Gap gap rest → gapLength false rest = 0 →
    tokensFrom position (gap ++ rest) =
      match rest with
      | [] => .ok ⟨[], position.advance gap⟩
      | char :: _ =>
        match terminalAt? rest with
        | none => .error (.unexpected (position.advance gap) char)
        | some (terminal, length) => do
          let lexeme ← terminal.read (rest.take length)
          let following ← tokensFrom (position.advance (gap ++ rest.take length)) (rest.drop length)
          return ⟨⟨lexeme, position.advance gap⟩ :: following.tokens, following.stop⟩ := by
  intro between solid
  obtain ⟨taken, dropped⟩ := between.passed solid
  rw [tokensFrom]
  split
  · rename_i remaining
    rw [dropped] at remaining
    subst remaining
    rw [taken]
  · rename_i remaining
    rw [dropped] at remaining
    subst remaining
    rw [taken]
    simp only [Position.advance, List.foldl_append]
    split
    · rename_i found
      rw [found]
    · rename_i found
      rw [found]

/-- What follows a gap is read as if it stood alone at its place. -/
theorem tokensFrom_gap (between : Gap gap rest) (solid : gapLength false rest = 0) :
    tokensFrom position (gap ++ rest) = tokensFrom (position.advance gap) rest := by
  have alone := tokensFrom_passed (position.advance gap) .nil solid
  rw [List.nil_append] at alone
  rw [tokensFrom_passed position between solid, alone]
  simp only [List.nil_append, Position.advance, List.foldl_append, List.foldl_nil]

theorem tokensFrom_end (between : Gap gap []) :
    tokensFrom position gap = .ok ⟨[], position.advance gap⟩ := by
  have reads := tokensFrom_passed position between rfl
  rwa [List.append_nil] at reads

theorem tokensFrom_stuck (between : Gap gap (char :: rest)) (stuck : Stuck (char :: rest)) :
    tokensFrom position (gap ++ char :: rest) = .error (.unexpected (position.advance gap) char) := by
  obtain ⟨solid, missing⟩ := (stuck_iff _).mp stuck
  rw [tokensFrom_passed position between solid, missing]

theorem tokensFrom_munched (between : Gap gap (text ++ rest)) (munched : Munched lexeme text rest)
    (fits : ¬ Oversized text) :
    tokensFrom position (gap ++ (text ++ rest)) =
      (tokensFrom (position.advance (gap ++ text)) rest).map fun following =>
        ⟨⟨lexeme, position.advance gap⟩ :: following.tokens, following.stop⟩ := by
  obtain ⟨terminal, scanned, reads⟩ := munched.scanned
  obtain ⟨char, others, rfl⟩ := List.exists_cons_of_ne_nil munched.spelled.ne_nil
  rw [tokensFrom_passed position between munched.solid]
  simp only [List.cons_append] at scanned ⊢
  rw [scanned]
  simp only [← List.cons_append, List.take_left, List.drop_left, reads fits]
  cases tokensFrom _ rest <;> rfl

end

/-- Pieces of a text that stands after `before` are read as their tokens. -/
theorem Splits.tokensFrom_eq (splits : Splits source pieces rest)
    (fits : ∀ piece ∈ pieces, ¬ Oversized piece.text) (before : List Char) :
    ∃ covered, source = covered ++ rest ∧
      tokensFrom (placeAfter before) source =
        (tokensFrom (placeAfter (before ++ covered)) rest).map fun following =>
          ⟨tokensAfter before pieces ++ following.tokens, following.stop⟩ := by
  induction splits generalizing before with
  | @nil rest =>
    refine ⟨[], rfl, ?_⟩
    rw [List.append_nil]
    cases tokensFrom (placeAfter before) rest <;> rfl
  | @cons gap text source lexeme pieces rest between munched others ih =>
    obtain ⟨covered, rfl, reads⟩ := ih
      (fun piece member => fits piece (List.mem_cons_of_mem _ member)) (before ++ gap ++ text)
    refine ⟨gap ++ text ++ covered, by simp, ?_⟩
    rw [tokensFrom_munched _ between munched (fits _ List.mem_cons_self), placeAfter_advance,
      placeAfter_advance, ← List.append_assoc, reads]
    simp only [List.append_assoc]
    cases tokensFrom _ rest <;> simp [Except.map, tokensAfter]

section
variable {source : List Char} {pieces : List Piece} {gap : List Char}

/-- A text that is pieces and a gap is read as the tokens of the pieces. -/
theorem Splits.tokensFrom_ok (splits : Splits source pieces gap) (between : Gap gap [])
    (fits : ∀ piece ∈ pieces, ¬ Oversized piece.text) :
    tokensFrom .start source = .ok ⟨tokensAfter [] pieces, placeAfter source⟩ := by
  obtain ⟨covered, split, reads⟩ := splits.tokensFrom_eq fits []
  rw [tokensFrom_end _ between, placeAfter_advance, List.nil_append, ← split, Except.map,
    List.append_nil] at reads
  exact reads

/-- A text is not read where no terminal has a text. -/
theorem Splits.tokensFrom_error (splits : Splits source pieces (gap ++ char :: rest))
    (between : Gap gap (char :: rest)) (stuck : Stuck (char :: rest))
    (fits : ∀ piece ∈ pieces, ¬ Oversized piece.text) :
    ∃ before, source = before ++ char :: rest ∧
      tokensFrom .start source = .error (.unexpected (placeAfter before) char) := by
  obtain ⟨covered, split, reads⟩ := splits.tokensFrom_eq fits []
  rw [tokensFrom_stuck _ between stuck, placeAfter_advance, List.nil_append] at reads
  exact ⟨covered ++ gap, by simp [split], reads⟩

end

theorem Splits.text_length_le (splits : Splits source pieces rest) (member : piece ∈ pieces) :
    piece.text.length ≤ source.length := by
  induction splits with
  | nil => cases member
  | cons between munched others ih =>
    rcases List.mem_cons.mp member with rfl | member
    · simp
      omega
    · have := ih member
      simp
      omega

/-- In a short text no integer has too many digits. -/
theorem Splits.fits_of_length_le (short : source.length ≤ integerDigitLimit)
    (splits : Splits source pieces rest) (member : piece ∈ pieces) : ¬ Oversized piece.text := by
  rintro ⟨_, long⟩
  have := splits.text_length_le member
  omega

/-- Reading gives tokens exactly for a text that is gaps and lexemes, each the longest where it
starts, and the tokens are those lexemes at their places. It fails exactly where, after such pieces
and a gap, no terminal has a text, and the error is of the character there. -/
theorem TokenStream.ofSource_munches (source : String) (file : Option String)
    (fits : ∀ pieces rest, Splits source.toList pieces rest →
      ∀ piece ∈ pieces, ¬ Oversized piece.text) :
    (∀ stream, ofSource source = .ok stream ↔
      ∃ pieces gap, Splits source.toList pieces gap ∧ Gap gap [] ∧
        stream = ⟨tokensAfter [] pieces, placeAfter source.toList⟩) ∧
    (∀ fault, ofSource source = .error fault ↔
      ∃ before char rest pieces gap, source.toList = before ++ char :: rest ∧
        Splits source.toList pieces (gap ++ char :: rest) ∧ Gap gap (char :: rest) ∧
        Stuck (char :: rest) ∧ fault = .unexpected (placeAfter before) char) ∧
    ∀ before char, (LexFault.unexpected (placeAfter before) char).toSourceFault file =
      .reported
        { phase := .lexing
          cause := if char = '"' then .unterminatedString
            else .invalidCharacter (String.singleton char)
          span := some ⟨placeAfter before, ⟨(placeAfter before).line, (placeAfter before).column + 1⟩⟩
          file := file } := by
  obtain ⟨pieces, gap, rest, splits, between, ended⟩ := exists_splits source.toList
  have outcome : ofSource source = .ok ⟨tokensAfter [] pieces, placeAfter source.toList⟩ ∧ rest = [] ∨
      ∃ before char more, ofSource source = .error (.unexpected (placeAfter before) char) ∧
        source.toList = before ++ char :: more ∧ rest = char :: more ∧ Stuck rest := by
    rcases ended with rfl | ⟨char, more, rfl, stuck⟩
    · rw [List.append_nil] at splits
      exact .inl ⟨splits.tokensFrom_ok between (fits pieces _ splits), rfl⟩
    · obtain ⟨before, split, reads⟩ :=
        splits.tokensFrom_error between stuck (fits pieces _ splits)
      exact .inr ⟨before, char, more, reads, split, rfl, stuck⟩
  refine ⟨fun stream => ⟨fun success => ?_, ?_⟩, fun fault => ⟨fun failure => ?_, ?_⟩, fun _ _ => rfl⟩
  · rcases outcome with ⟨reads, rfl⟩ | ⟨_, _, _, reads, _⟩
    · rw [List.append_nil] at splits
      exact ⟨pieces, gap, splits, between, Except.ok.inj (success.symm.trans reads)⟩
    · cases success.symm.trans reads
  · rintro ⟨pieces, gap, splits, between, rfl⟩
    exact splits.tokensFrom_ok between (fits pieces _ splits)
  · rcases outcome with ⟨reads, _⟩ | ⟨before, char, more, reads, split, rfl, stuck⟩
    · cases failure.symm.trans reads
    · exact ⟨before, char, more, pieces, gap, split, splits, between, stuck,
        Except.error.inj (failure.symm.trans reads)⟩
  · rintro ⟨before, char, rest, pieces, gap, split, splits, between, stuck, rfl⟩
    obtain ⟨before', split', reads⟩ :=
      splits.tokensFrom_error between stuck (fits pieces _ splits)
    rw [List.append_cancel_right (split.symm.trans split')]
    exact reads

theorem TokenStream.ofSource_munches_quote :
    (∀ pieces rest, Splits "x==1.5 //\n \"".toList pieces rest →
      ∀ piece ∈ pieces, ¬ Oversized piece.text) ∧
    ∃ before char rest pieces gap, "x==1.5 //\n \"".toList = before ++ char :: rest ∧
      Splits "x==1.5 //\n \"".toList pieces (gap ++ char :: rest) ∧ Gap gap (char :: rest) ∧
      Stuck (char :: rest) ∧
      LexFault.unexpected ⟨2, 2⟩ '"' = .unexpected (placeAfter before) char := by
  have fits (pieces : List Piece) (rest : List Char)
      (splits : Splits "x==1.5 //\n \"".toList pieces rest) (piece : Piece)
      (member : piece ∈ pieces) : ¬ Oversized piece.text :=
    splits.fits_of_length_le (by decide) member
  have failure : ofSource "x==1.5 //\n \"" = .error (.unexpected ⟨2, 2⟩ '"') := by decide +kernel
  exact ⟨fits, ((ofSource_munches _ none fits).2.1 _).mp failure⟩

end ScriptKit
