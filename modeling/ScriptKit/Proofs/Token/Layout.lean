import ScriptKit.Proofs.Token.Lexing

/-!
Gaps carry no meaning. The scanner looks one character beyond a lexeme, and white space there never
continues one; so with other gaps, as long as they start with white space, a text has the same lexemes.
-/
namespace ScriptKit

/-- White space and comments that are closed by their line feeds. -/
inductive Filler : List Char → Prop where
  | nil : Filler []
  | space (blank : isSpace char = true) (more : Filler rest) : Filler (char :: rest)
  | comment (line : '\n' ∉ body) (more : Filler rest) :
      Filler ('/' :: '/' :: (body ++ '\n' :: rest))

/-- A filler that starts with white space. -/
def Spacer (gap : List Char) : Prop :=
  Filler gap ∧ ∃ char rest, gap = char :: rest ∧ isSpace char = true

/-- The same lexemes with the same texts; before each is the same gap, or a spacer. -/
inductive Regapped : List Piece → List Piece → Prop where
  | nil : Regapped [] []
  | kept (others : Regapped pieces pieces') : Regapped (piece :: pieces) (piece :: pieces')
  | spaced (spacer : Spacer gap) (others : Regapped pieces pieces') :
      Regapped (piece :: pieces) ({ piece with gap := gap } :: pieces')

/-- The text of pieces, with a gap at the end. -/
def written (last : List Char) : List Piece → List Char
  | [] => last
  | piece :: pieces => piece.gap ++ (piece.text ++ written last pieces)

/-- One source is the other with spacers in the place of some of its gaps: between tokens, before the
first or after the last. -/
def Relaid (source source' : String) : Prop :=
  ∃ pieces last pieces' last', Splits source.toList pieces last ∧ Gap last [] ∧
    Regapped pieces pieces' ∧ (last' = last ∨ Spacer last') ∧ source'.toList = written last' pieces'

theorem Filler.gap (filler : Filler filling) (rest : List Char) : Gap filling rest := by
  induction filler with
  | nil => exact .nil
  | space blank more ih => exact .space blank ih
  | comment line more ih =>
    exact .comment line (fun _ first => (Option.some.inj first).symm) (.space rfl ih)

/-- Of what comes after a gap, only the first character matters. -/
theorem Gap.before (between : Gap gap (text ++ rest)) (nonempty : text ≠ []) (rest' : List Char) :
    Gap gap (text ++ rest') := by
  obtain ⟨char, others, rfl⟩ := List.exists_cons_of_ne_nil nonempty
  generalize same : char :: others ++ rest = following at between
  induction between with
  | nil => exact .nil
  | space blank more ih => exact .space blank (ih same)
  | @comment body gap following line stop more ih =>
    refine .comment line ?_ (ih same)
    subst same
    cases gap with
    | nil => exact stop
    | cons first gap => exact stop

theorem NameText.start (named : NameText (text ++ rest)) (nonempty : text ≠ []) : NameText text := by
  obtain ⟨first, others, rfl⟩ := List.exists_cons_of_ne_nil nonempty
  cases named with
  | intro start all => exact .intro start fun char member => all char (List.mem_append_left rest member)

/-- A lexeme that starts with a quote has another one. -/
theorem Lexeme.Spelled.quoted {lexeme : Lexeme} (spelled : lexeme.Spelled ('"' :: others)) :
    '"' ∈ others := by
  apply Decidable.byContradiction
  intro unquoted
  have inside : ∀ char ∈ others, (char != '"') = true := by
    intro char member
    rw [bne_iff_ne]
    rintro rfl
    exact unquoted member
  have whole := @List.takeWhile_append_of_pos _ (· != '"') others [] inside
  rw [List.takeWhile_nil, List.append_nil] at whole
  obtain ⟨terminal, length, found, _⟩ := spelled.scanned []
  rw [List.append_nil, terminalAt?_quote, whole, if_neg (Nat.lt_irrefl _)] at found
  cases found

section
variable {lexeme : Lexeme} {text : List Char}

/-- If a text goes on after a lexeme to become a longer one, it is a terminal already with the next
character. -/
theorem Lexeme.Spelled.next {longer : Lexeme} (spelled : lexeme.Spelled text)
    (spelled' : longer.Spelled (text ++ char :: more)) : Matched (text ++ [char]) := by
  have worded (named : NameText (text ++ char :: more)) : Matched (text ++ [char]) := by
    rw [List.append_cons] at named
    obtain ⟨_, found, _⟩ := (named.start (by simp)).spells
    exact .lexeme found
  generalize same : text ++ char :: more = whole at spelled'
  have covered : text ++ [char] ++ more = whole := by simpa using same
  cases spelled' with
  | integer nonempty all =>
    refine .lexeme (.integer (by simp) fun digit member => all digit ?_)
    rw [← covered]
    exact List.mem_append_left more member
  | @decimal whole fraction nonempty all all' =>
    rcases List.append_eq_append_iff.mp covered with ⟨digits, split, _⟩ | ⟨tail, split, tail'⟩
    · refine .lexeme (.integer (by simp) fun digit member => all digit ?_)
      rw [split]
      exact List.mem_append_left digits member
    · cases tail with
      | nil =>
        rw [split, List.append_nil]
        exact .lexeme (.integer nonempty all)
      | cons point digits =>
        obtain ⟨rfl, rfl⟩ := List.cons.inj tail'
        rw [split]
        exact .lexeme (.decimal nonempty all fun digit member =>
          all' digit (List.mem_append_left more member))
  | @string body unquoted =>
    obtain ⟨first, others, rfl⟩ := List.exists_cons_of_ne_nil spelled.ne_nil
    obtain ⟨rfl, split⟩ := List.cons.inj same
    have inside : others ⊆ body := by
      rcases List.append_eq_append_iff.mp split with ⟨tail, rfl, _⟩ | ⟨tail, rfl, tail'⟩
      · exact List.subset_append_left others tail
      · cases tail with
        | nil =>
          rw [List.append_nil]
          exact List.Subset.refl body
        | cons head tail => simp at tail'
    exact absurd (inside spelled.quoted) unquoted
  | name start all => exact worded (same ▸ .intro start all)
  | truth => exact worded (same ▸ .intro rfl (List.all_eq_true.mp rfl))
  | falsehood => exact worded (same ▸ .intro rfl (List.all_eq_true.mp rfl))
  | @keyword word => exact worded (same ▸ word.nameText)
  | @symbol sign =>
    -- A symbol has at most two characters, so the next one is its last.
    have short : sign.text.toList.length ≤ 2 := by cases sign <;> decide
    have long := List.length_pos_iff.mpr spelled.ne_nil
    have none : more.length = 0 := by
      rw [← same, List.length_append, List.length_cons] at short
      omega
    rw [List.eq_nil_of_length_eq_zero none] at same
    rw [same]
    exact .lexeme .symbol

theorem Lexeme.Spelled.not_space (spelled : lexeme.Spelled (first :: others)) :
    isSpace first = false := by
  rw [← Bool.not_eq_true]
  intro blank
  obtain ⟨_, _, found, _⟩ := spelled.scanned []
  rw [List.cons_append, terminalAt?_space blank] at found
  cases found

/-- The same for a text that goes on to become any terminal. -/
theorem Matched.next (matched : Matched (text ++ char :: more)) (spelled : lexeme.Spelled text) :
    Matched (text ++ [char]) := by
  generalize same : text ++ char :: more = whole at matched
  cases matched with
  | lexeme spelled' => exact spelled.next (same ▸ spelled')
  | space nonempty all =>
    obtain ⟨first, others, rfl⟩ := List.exists_cons_of_ne_nil spelled.ne_nil
    have blank := all first (same ▸ List.mem_cons_self)
    rw [spelled.not_space] at blank
    cases blank
  | @comment body line =>
    obtain ⟨first, others, rfl⟩ := List.exists_cons_of_ne_nil spelled.ne_nil
    obtain ⟨rfl, split⟩ := List.cons.inj same
    -- The lexeme is the division sign, which is a comment with the next character.
    obtain ⟨_, length, found, reaches, _⟩ := spelled.scanned []
    have divide : terminalAt? ('/' :: (others ++ [])) = some (.symbol .divide, 1) :=
      terminalAt?_symbol rfl
    obtain ⟨_, rfl⟩ := Prod.mk.inj (Option.some.inj (found.symm.trans divide))
    obtain rfl := List.eq_nil_of_length_eq_zero (Nat.le_zero.mp (Nat.le_of_succ_le_succ reaches))
    obtain ⟨rfl, _⟩ := List.cons.inj split
    exact .comment List.not_mem_nil

/-- Of what comes after a lexeme, only the first character matters. -/
theorem Munched.before (munched : Munched lexeme text rest) (same : rest'.head? = rest.head?) :
    Munched lexeme text rest' := by
  refine ⟨munched.spelled, ?_, munched.preferred⟩
  rintro other ⟨tail, split⟩ matched
  apply Nat.le_of_not_lt
  intro longer
  rcases List.append_eq_append_iff.mp split with ⟨_, rfl, _⟩ | ⟨more, rfl, split'⟩
  · rw [List.length_append] at longer
    omega
  · cases more with
    | nil => simp at longer
    | cons char more =>
      obtain ⟨following, rfl⟩ : ∃ following, rest = char :: following := by
        apply List.head?_eq_some_iff.mp
        rw [← same, split']
        rfl
      have start : text ++ [char] <+: text ++ char :: following := ⟨following, by simp⟩
      have bounded := munched.longest _ start (matched.next munched.spelled)
      rw [List.length_append, List.length_singleton] at bounded
      omega

end

private theorem apart_space (blank : isSpace char = true) : Apart (char :: rest) := by
  simp only [isSpace, Bool.or_eq_true, beq_iff_eq] at blank
  rcases blank with (((rfl | rfl) | rfl) | rfl) | rfl <;> exact fun _ same => by cases same; decide

theorem Spacer.head (spacer : Spacer gap) (rest : List Char) :
    ∃ char more, gap ++ rest = char :: more ∧ isSpace char = true := by
  obtain ⟨_, char, more, rfl, blank⟩ := spacer
  exact ⟨char, more ++ rest, rfl, blank⟩

/-- A lexeme is the longest also before other pieces, if these start as the old ones do or with white
space. -/
theorem Munched.relaid {lexeme : Lexeme} (munched : Munched lexeme text rest)
    (start : rest'.head? = rest.head? ∨ ∃ char more, rest' = char :: more ∧ isSpace char = true) :
    Munched lexeme text rest' := by
  rcases start with same | ⟨char, more, rfl, blank⟩
  · exact munched.before same
  · exact munched.spelled.munched munched.preferred (apart_space blank)

/-- With other gaps, pieces are still those of their text. -/
theorem Regapped.splits (regapped : Regapped pieces pieces') (splits : Splits source pieces last)
    (ended : last' = last ∨ Spacer last') :
    Splits (written last' pieces') pieces' last' ∧
      ((written last' pieces').head? = source.head? ∨
        ∃ char more, written last' pieces' = char :: more ∧ isSpace char = true) := by
  induction regapped generalizing source with
  | nil =>
    cases splits
    refine ⟨.nil, ended.imp (congrArg List.head?) fun spacer => ?_⟩
    have start := spacer.head []
    rwa [List.append_nil] at start
  | @kept pieces pieces' piece others ih =>
    cases splits with
    | @cons gap text source lexeme _ _ between munched following =>
      obtain ⟨splits', start⟩ := ih following
      have nonempty := munched.spelled.ne_nil
      refine ⟨.cons (between.before nonempty _) (munched.relaid start) splits', .inl ?_⟩
      obtain ⟨char, others, split⟩ := List.exists_cons_of_ne_nil
        (by simp [nonempty] : gap ++ text ≠ [])
      simp only [written, ← List.append_assoc, split]
      rfl
  | @spaced gap pieces pieces' piece spacer others ih =>
    cases splits with
    | @cons gap' text source lexeme _ _ between munched following =>
      obtain ⟨splits', start⟩ := ih following
      exact ⟨.cons (spacer.1.gap _) (munched.relaid start) splits', .inr (spacer.head _)⟩

theorem Regapped.texts (regapped : Regapped pieces pieces') :
    pieces'.map Piece.text = pieces.map Piece.text ∧
      pieces'.map Piece.lexeme = pieces.map Piece.lexeme := by
  induction regapped with
  | nil => exact ⟨rfl, rfl⟩
  | kept others ih | spaced spacer others ih =>
    exact ⟨congrArg (List.cons _) ih.1, congrArg (List.cons _) ih.2⟩

theorem lexemes_tokensAfter (before : List Char) (pieces : List Piece) :
    lexemes (tokensAfter before pieces) = pieces.map Piece.lexeme := by
  induction pieces generalizing before with
  | nil => rfl
  | cons piece pieces ih => exact congrArg (List.cons _) (ih _)

/-- In a text that is read no integer has too many digits. -/
theorem Splits.fits_of_ok (splits : Splits source.toList pieces rest)
    (read : TokenStream.ofSource source = .ok stream) :
    ∀ piece ∈ pieces, ¬ Oversized piece.text := by
  cases first : pieces.find? fun piece => decide (Oversized piece.text) with
  | none => simpa using first
  | some piece =>
    obtain ⟨long, earlier, later, rfl, fits⟩ := List.find?_eq_some_iff_append.mp first
    rw [List.append_cons] at splits
    obtain ⟨_, splits, _⟩ := splits_append.mp splits
    have excessive : Excessive source piece.text.length :=
      ⟨earlier, piece, _, splits, by simpa using fits, of_decide_eq_true long, rfl⟩
    cases read.symm.trans excessive.refused

/-- A source with other gaps is read as the same lexemes. -/
theorem Relaid.ofSource (relaid : Relaid source source')
    (read : TokenStream.ofSource source = .ok stream) :
    ∃ stream', TokenStream.ofSource source' = .ok stream' ∧
      lexemes stream'.tokens = lexemes stream.tokens := by
  obtain ⟨pieces, last, pieces', last', splits, between, regapped, ended, text⟩ := relaid
  have fits := splits.fits_of_ok read
  have same := read.symm.trans (splits.tokensFrom_ok between fits)
  obtain ⟨splits', _⟩ := regapped.splits splits ended
  rw [← text] at splits'
  have between' : Gap last' [] := by
    rcases ended with rfl | spacer
    · exact between
    · exact spacer.1.gap []
  have fits' : ∀ piece ∈ pieces', ¬ Oversized piece.text := by
    intro piece member
    have member' := List.mem_map_of_mem (f := Piece.text) member
    rw [regapped.texts.1] at member'
    obtain ⟨old, present, same⟩ := List.mem_map.mp member'
    exact same ▸ fits old present
  refine ⟨_, splits'.tokensFrom_ok between' fits', ?_⟩
  rw [Except.ok.inj same, lexemes_tokensAfter, lexemes_tokensAfter, regapped.texts.2]

end ScriptKit
