import ScriptKit.Proofs.Program.Recognition

/-!
Reading looks at lexemes and not at where they stand. Two lists of tokens with the same lexemes give
trees that differ in their spans only, or rejections of the same lexeme.
-/
namespace ScriptKit

/-- Two results that are related, or two rejections that expect the same before the same lexemes. -/
def Alike {α β : Type} (related : α → β → Prop) : Except Rejection α → Except Rejection β → Prop
  | .ok value, .ok value' => related value value'
  | .error rejection, .error rejection' =>
    rejection.expected = rejection'.expected ∧ lexemes rejection.rest = lexemes rejection'.rest
  | _, _ => False

/-- The same value up to spans, and the same lexemes after it. -/
def Parsed.Alike {α β : Type} {bound bound' : Nat} (bare : α → β) (parsed : Parsed α bound)
    (parsed' : Parsed α bound') : Prop :=
  bare parsed.value = bare parsed'.value ∧ lexemes parsed.rest = lexemes parsed'.rest

theorem Alike.bind {α β α' β' : Type} {related : α → β → Prop} {related' : α' → β' → Prop}
    {reading : Except Rejection α} {reading' : Except Rejection β}
    {next : α → Except Rejection α'} {next' : β → Except Rejection β'}
    (first : Alike related reading reading')
    (rest : ∀ value value', related value value' → Alike related' (next value) (next' value')) :
    Alike related' (reading >>= next) (reading' >>= next') := by
  cases reading with
  | ok value =>
    cases reading' with
    | ok value' => exact rest value value' first
    | error rejection' => exact first.elim
  | error rejection =>
    cases reading' with
    | ok value' => exact first.elim
    | error rejection' => exact first

section
variable {tokens tokens' : List Token}

private theorem lexemes_cons_eq {token : Token}
    (same : lexemes (token :: tokens) = lexemes tokens') :
    ∃ position rest, tokens' = ⟨token.lexeme, position⟩ :: rest ∧ lexemes tokens = lexemes rest := by
  obtain ⟨position, rest, split, covered⟩ := lexemes_eq_cons.mp same.symm
  exact ⟨position, rest, split, covered.symm⟩

private theorem lexemes_nil_eq (same : lexemes [] = lexemes tokens') : tokens' = [] :=
  List.map_eq_nil_iff.mp same.symm

private theorem expectSymbol_alike (symbol : Symbol) (same : lexemes tokens = lexemes tokens') :
    Alike (Parsed.Alike id) (expectSymbol symbol tokens) (expectSymbol symbol tokens') := by
  cases tokens with
  | nil =>
    obtain rfl := lexemes_nil_eq same
    exact ⟨rfl, rfl⟩
  | cons token rest =>
    obtain ⟨position, rest', rfl, same'⟩ := lexemes_cons_eq same
    unfold expectSymbol
    by_cases found : token.lexeme = .symbol symbol
    · simp only [found, if_true]
      exact ⟨rfl, same'⟩
    · simp only [found, if_false]
      exact ⟨rfl, same⟩

private theorem expectIdentifier_alike (same : lexemes tokens = lexemes tokens') :
    Alike (Parsed.Alike id) (expectIdentifier tokens) (expectIdentifier tokens') := by
  cases tokens with
  | nil =>
    obtain rfl := lexemes_nil_eq same
    exact ⟨rfl, rfl⟩
  | cons token rest =>
    obtain ⟨position, rest', rfl, same'⟩ := lexemes_cons_eq same
    obtain ⟨lexeme, position'⟩ := token
    cases lexeme with
    | identifier name => exact ⟨rfl, same'⟩
    | _ => exact ⟨rfl, same⟩

private theorem expectString_alike (same : lexemes tokens = lexemes tokens') :
    Alike (Parsed.Alike id) (expectString tokens) (expectString tokens') := by
  cases tokens with
  | nil =>
    obtain rfl := lexemes_nil_eq same
    exact ⟨rfl, rfl⟩
  | cons token rest =>
    obtain ⟨position, rest', rfl, same'⟩ := lexemes_cons_eq same
    obtain ⟨lexeme, position'⟩ := token
    cases lexeme with
    | string text => exact ⟨rfl, same'⟩
    | _ => exact ⟨rfl, same⟩

end

mutual

theorem parseTiers_alike {tiers : Nat} {tokens tokens' : List Token}
    (same : lexemes tokens = lexemes tokens') :
    Alike (Parsed.Alike Expression.bare) (parseTiers tiers tokens) (parseTiers tiers tokens') := by
  match tiers, tokens with
  | 0, tokens =>
    rw [parseTiers, parseTiers]
    exact parsePrimary_alike same
  | tier + 1, [] =>
    obtain rfl := lexemes_nil_eq same
    rw [parseTiers]
    exact ⟨rfl, rfl⟩
  | tier + 1, token :: rest =>
    obtain ⟨position, rest', rfl, _⟩ := lexemes_cons_eq same
    rw [parseTiers, parseTiers]
    refine (parseTiers_alike same).bind fun left left' first => ?_
    refine (parseChain_alike first.1 first.2).bind fun chain chain' others => ?_
    exact others
termination_by (tokens.length, tiers + 1)
decreasing_by all_goals grind

theorem parseChain_alike {tier : Nat} {start last start' last' : Position} {left left' : Expression}
    {tokens tokens' : List Token} (first : left.bare = left'.bare)
    (same : lexemes tokens = lexemes tokens') :
    Alike (Parsed.Alike Expression.bare) (parseChain tier start left last tokens)
      (parseChain tier start' left' last' tokens') := by
  match tokens with
  | [] =>
    obtain rfl := lexemes_nil_eq same
    rw [parseChain, parseChain]
    exact ⟨first, rfl⟩
  | token :: rest =>
    obtain ⟨position, rest', rfl, same'⟩ := lexemes_cons_eq same
    rw [parseChain, parseChain]
    cases infixOf? tier token.lexeme with
    | none => exact ⟨first, same⟩
    | some infixed =>
      refine (parseTiers_alike same').bind fun right right' second => ?_
      have joined : (infixed.apply ⟨start, right.last⟩ left right.value).bare =
          (infixed.apply ⟨start', right'.last⟩ left' right'.value).bare := by
        rw [Infix.bare_apply, Infix.bare_apply, first, second.1]
      refine (parseChain_alike joined second.2).bind fun chain chain' others => ?_
      exact others
termination_by (tokens.length, 0)
decreasing_by all_goals grind

theorem parsePrimary_alike {tokens tokens' : List Token}
    (same : lexemes tokens = lexemes tokens') :
    Alike (Parsed.Alike Expression.bare) (parsePrimary tokens) (parsePrimary tokens') := by
  match tokens with
  | [] =>
    obtain rfl := lexemes_nil_eq same
    rw [parsePrimary.eq_def]
    exact ⟨rfl, rfl⟩
  | [⟨.identifier name, position⟩] =>
    obtain ⟨position', rest', rfl, same'⟩ := lexemes_cons_eq same
    obtain rfl := lexemes_nil_eq same'
    rw [parsePrimary.eq_def, parsePrimary.eq_def]
    exact ⟨rfl, rfl⟩
  | ⟨.identifier name, position⟩ :: ⟨lexeme, _⟩ :: others =>
    obtain ⟨position', rest', rfl, same'⟩ := lexemes_cons_eq same
    obtain ⟨_, others', rfl, same''⟩ := lexemes_cons_eq same'
    rw [parsePrimary.eq_def, parsePrimary.eq_def]
    cases lexeme with
    | symbol sign =>
      cases sign with
      | leftParen =>
        refine (parseArguments_alike same'').bind fun arguments arguments' inner => ?_
        exact ⟨congrArg (Bare.Expression.call name) inner.1, inner.2⟩
      | _ => exact ⟨rfl, same'⟩
    | _ => exact ⟨rfl, same'⟩
  | ⟨.symbol sign, position⟩ :: rest =>
    obtain ⟨position', rest', rfl, same'⟩ := lexemes_cons_eq same
    rw [parsePrimary.eq_def, parsePrimary.eq_def]
    cases sign with
    | leftParen =>
      refine (parseTiers_alike same').bind fun inner inner' read => ?_
      refine (expectSymbol_alike .rightParen read.2).bind fun close close' closed => ?_
      exact ⟨read.1, closed.2⟩
    | _ => exact ⟨rfl, same⟩
  | ⟨.number _, _⟩ :: _ | ⟨.string _, _⟩ :: _ | ⟨.boolean _, _⟩ :: _ =>
    obtain ⟨position', rest', rfl, same'⟩ := lexemes_cons_eq same
    rw [parsePrimary.eq_def, parsePrimary.eq_def]
    exact ⟨rfl, same'⟩
  | ⟨.keyword _, _⟩ :: _ =>
    obtain ⟨position', rest', rfl, _⟩ := lexemes_cons_eq same
    rw [parsePrimary.eq_def, parsePrimary.eq_def]
    exact ⟨rfl, same⟩
termination_by (tokens.length, 0)
decreasing_by all_goals grind

theorem parseArguments_alike {tokens tokens' : List Token}
    (same : lexemes tokens = lexemes tokens') :
    Alike (Parsed.Alike Expression.bareAll) (parseArguments tokens) (parseArguments tokens') := by
  have listed : Alike (Parsed.Alike Expression.bareAll)
      (do
        let first ← parseTiers tierCount tokens
        let others ← parseMoreArguments first.rest
        return (⟨first.value :: others.value, others.last, others.rest, by grind⟩ :
          Parsed (List Expression) tokens.length))
      (do
        let first ← parseTiers tierCount tokens'
        let others ← parseMoreArguments first.rest
        return (⟨first.value :: others.value, others.last, others.rest, by grind⟩ :
          Parsed (List Expression) tokens'.length)) := by
    refine (parseTiers_alike same).bind fun first first' head => ?_
    refine (parseMoreArguments_alike head.2).bind fun others others' tail => ?_
    exact ⟨by rw [Expression.bareAll, Expression.bareAll, head.1, tail.1], tail.2⟩
  rw [parseArguments.eq_def, parseArguments.eq_def]
  match tokens, same, listed with
  | [], same, listed =>
    obtain rfl := lexemes_nil_eq same
    exact listed
  | ⟨lexeme, position⟩ :: rest, same, listed =>
    obtain ⟨position', rest', rfl, same'⟩ := lexemes_cons_eq same
    cases lexeme with
    | symbol sign =>
      cases sign with
      | rightParen => exact ⟨rfl, same'⟩
      | _ => exact listed
    | _ => exact listed
termination_by (tokens.length, tierCount + 2)
decreasing_by all_goals grind

theorem parseMoreArguments_alike {tokens tokens' : List Token}
    (same : lexemes tokens = lexemes tokens') :
    Alike (Parsed.Alike Expression.bareAll) (parseMoreArguments tokens)
      (parseMoreArguments tokens') := by
  have closed : Alike (Parsed.Alike Expression.bareAll)
      (do
        let close ← expectSymbol .rightParen tokens
        return (⟨[], close.last, close.rest, by grind⟩ : Parsed (List Expression) tokens.length))
      (do
        let close ← expectSymbol .rightParen tokens'
        return (⟨[], close.last, close.rest, by grind⟩ : Parsed (List Expression) tokens'.length)) := by
    refine (expectSymbol_alike .rightParen same).bind fun close close' closed => ?_
    exact ⟨rfl, closed.2⟩
  rw [parseMoreArguments.eq_def, parseMoreArguments.eq_def]
  match tokens, same, closed with
  | [], same, closed =>
    obtain rfl := lexemes_nil_eq same
    exact closed
  | ⟨lexeme, position⟩ :: rest, same, closed =>
    obtain ⟨position', rest', rfl, same'⟩ := lexemes_cons_eq same
    cases lexeme with
    | symbol sign =>
      cases sign with
      | comma =>
        refine (parseTiers_alike same').bind fun next next' head => ?_
        refine (parseMoreArguments_alike head.2).bind fun others others' tail => ?_
        exact ⟨by rw [Expression.bareAll, Expression.bareAll, head.1, tail.1], tail.2⟩
      | _ => exact closed
    | _ => exact closed
termination_by (tokens.length, 0)
decreasing_by all_goals grind

end

section
variable {tokens tokens' : List Token}

private theorem parseExpression_alike (same : lexemes tokens = lexemes tokens') :
    Alike (Parsed.Alike Expression.bare) (parseExpression tokens) (parseExpression tokens') :=
  parseTiers_alike same

private theorem parseCondition_alike (same : lexemes tokens = lexemes tokens') :
    Alike (Parsed.Alike Expression.bare) (parseCondition tokens) (parseCondition tokens') := by
  unfold parseCondition
  refine (expectSymbol_alike .leftParen same).bind fun opening opening' opened => ?_
  refine (parseExpression_alike opened.2).bind fun test test' read => ?_
  refine (expectSymbol_alike .rightParen read.2).bind fun close close' closed => ?_
  exact ⟨read.1, closed.2⟩

end

private theorem parseMoreParameters_alike {tokens tokens' : List Token}
    (same : lexemes tokens = lexemes tokens') :
    Alike (Parsed.Alike id) (parseMoreParameters tokens) (parseMoreParameters tokens') := by
  have closed {tokens tokens' : List Token} (same : lexemes tokens = lexemes tokens') :
      Alike (Parsed.Alike id)
        (do
          let close ← expectSymbol .rightParen tokens
          return (⟨[], close.last, close.rest, by grind⟩ : Parsed (List String) tokens.length))
        (do
          let close ← expectSymbol .rightParen tokens'
          return (⟨[], close.last, close.rest, by grind⟩ : Parsed (List String) tokens'.length)) := by
    refine (expectSymbol_alike .rightParen same).bind fun close close' closed => ?_
    exact ⟨rfl, closed.2⟩
  rw [parseMoreParameters.eq_def, parseMoreParameters.eq_def]
  match tokens with
  | [] =>
    obtain rfl := lexemes_nil_eq same
    exact closed same
  | ⟨lexeme, position⟩ :: rest =>
    obtain ⟨position', rest', rfl, same'⟩ := lexemes_cons_eq same
    cases lexeme with
    | symbol sign =>
      cases sign with
      | comma =>
        refine (expectIdentifier_alike same').bind fun next next' head => ?_
        refine (parseMoreParameters_alike head.2).bind fun others others' tail => ?_
        exact ⟨(congr (congrArg List.cons head.1) tail.1 :), tail.2⟩
      | _ => exact closed same
    | _ => exact closed same
termination_by tokens.length
decreasing_by grind

private theorem parseParameters_alike {tokens tokens' : List Token}
    (same : lexemes tokens = lexemes tokens') :
    Alike (Parsed.Alike id) (parseParameters tokens) (parseParameters tokens') := by
  have listed : Alike (Parsed.Alike id)
      (do
        let first ← expectIdentifier tokens
        let others ← parseMoreParameters first.rest
        return (⟨first.value :: others.value, others.last, others.rest, by grind⟩ :
          Parsed (List String) tokens.length))
      (do
        let first ← expectIdentifier tokens'
        let others ← parseMoreParameters first.rest
        return (⟨first.value :: others.value, others.last, others.rest, by grind⟩ :
          Parsed (List String) tokens'.length)) := by
    refine (expectIdentifier_alike same).bind fun first first' head => ?_
    refine (parseMoreParameters_alike head.2).bind fun others others' tail => ?_
    exact ⟨(congr (congrArg List.cons head.1) tail.1 :), tail.2⟩
  cases tokens with
  | nil =>
    obtain rfl := lexemes_nil_eq same
    exact listed
  | cons token rest =>
    obtain ⟨position', rest', rfl, same'⟩ := lexemes_cons_eq same
    obtain ⟨lexeme, position⟩ := token
    cases lexeme with
    | symbol sign =>
      cases sign with
      | rightParen => exact ⟨rfl, same'⟩
      | _ => exact listed
    | _ => exact listed

mutual

theorem parseStatement_alike {tokens tokens' : List Token}
    (same : lexemes tokens = lexemes tokens') :
    Alike (Parsed.Alike Statement.bare) (parseStatement tokens) (parseStatement tokens') := by
  match tokens with
  | [] =>
    obtain rfl := lexemes_nil_eq same
    rw [parseStatement.eq_def]
    exact ⟨rfl, rfl⟩
  | ⟨.keyword word, start⟩ :: rest =>
    obtain ⟨start', rest', rfl, same'⟩ := lexemes_cons_eq same
    rw [parseStatement.eq_def, parseStatement.eq_def]
    cases word with
    | letWord =>
      refine (expectIdentifier_alike same').bind fun name name' named => ?_
      refine (expectSymbol_alike .assign named.2).bind fun sign sign' signed => ?_
      refine (parseExpression_alike signed.2).bind fun value value' read => ?_
      refine (expectSymbol_alike .semicolon read.2).bind fun close close' closed => ?_
      exact ⟨(congr (congrArg Bare.Statement.declare named.1) read.1 :), closed.2⟩
    | ifWord =>
      refine (parseCondition_alike same').bind fun test test' tested => ?_
      refine (parseStatement_alike tested.2).bind fun consequent consequent' first => ?_
      have covered := first.2
      split
      · rename_i place others following
        rw [following] at covered
        obtain ⟨place', others', following', covered'⟩ := lexemes_cons_eq covered
        split
        · rename_i _ unread here
          obtain ⟨_, rfl⟩ := List.cons.inj (following'.symm.trans here)
          refine (parseStatement_alike covered').bind fun alternate alternate' second => ?_
          refine ⟨?_, second.2⟩
          rw [Statement.bare, Statement.bare, tested.1, first.1, second.1]
        · rename_i closed
          exact (closed _ _ following').elim
      · rename_i closed
        split
        · rename_i place others following
          rw [following] at covered
          obtain ⟨place', others', following', _⟩ := lexemes_cons_eq covered.symm
          exact (closed _ _ following').elim
        · refine ⟨?_, first.2⟩
          rw [Statement.bare, Statement.bare, tested.1, first.1]
    | whileWord =>
      refine (parseCondition_alike same').bind fun test test' tested => ?_
      refine (parseStatement_alike tested.2).bind fun body body' inner => ?_
      exact ⟨(congr (congrArg Bare.Statement.loop tested.1) inner.1 :), inner.2⟩
    | functionWord =>
      refine (expectIdentifier_alike same').bind fun name name' named => ?_
      refine (expectSymbol_alike .leftParen named.2).bind fun opening opening' opened => ?_
      refine (parseParameters_alike opened.2).bind fun parameters parameters' listed => ?_
      refine (parseStatement_alike listed.2).bind fun body body' inner => ?_
      exact ⟨(congr (congr (congrArg Bare.Statement.function named.1) listed.1) inner.1 :), inner.2⟩
    | returnWord =>
      refine (parseExpression_alike same').bind fun argument argument' read => ?_
      refine (expectSymbol_alike .semicolon read.2).bind fun close close' closed => ?_
      exact ⟨congrArg Bare.Statement.giveBack read.1, closed.2⟩
    | printWord =>
      refine (parseCondition_alike same').bind fun argument argument' read => ?_
      refine (expectSymbol_alike .semicolon read.2).bind fun close close' closed => ?_
      exact ⟨congrArg Bare.Statement.print read.1, closed.2⟩
    | importWord =>
      refine (expectSymbol_alike .leftParen same').bind fun opening opening' opened => ?_
      refine (expectString_alike opened.2).bind fun path path' read => ?_
      refine (expectSymbol_alike .rightParen read.2).bind fun closing closing' closed => ?_
      refine (expectSymbol_alike .semicolon closed.2).bind fun close close' ended => ?_
      exact ⟨congrArg Bare.Statement.importFile read.1, ended.2⟩
    | elseWord => exact ⟨rfl, same⟩
  | [⟨.identifier name, start⟩] =>
    obtain ⟨start', rest', rfl, same'⟩ := lexemes_cons_eq same
    obtain rfl := lexemes_nil_eq same'
    rw [parseStatement.eq_def, parseStatement.eq_def]
    exact ⟨rfl, rfl⟩
  | ⟨.identifier name, start⟩ :: ⟨lexeme, _⟩ :: others =>
    obtain ⟨start', rest', rfl, same'⟩ := lexemes_cons_eq same
    obtain ⟨_, others', rfl, same''⟩ := lexemes_cons_eq same'
    rw [parseStatement.eq_def, parseStatement.eq_def]
    cases lexeme with
    | symbol sign =>
      cases sign with
      | assign =>
        refine (parseExpression_alike same'').bind fun value value' read => ?_
        refine (expectSymbol_alike .semicolon read.2).bind fun close close' closed => ?_
        exact ⟨congrArg (Bare.Statement.assign name) read.1, closed.2⟩
      | leftParen =>
        refine (parseArguments_alike same'').bind fun arguments arguments' inner => ?_
        refine (expectSymbol_alike .semicolon inner.2).bind fun close close' closed => ?_
        exact ⟨congrArg (Bare.Statement.call name) inner.1, closed.2⟩
      | _ => exact ⟨rfl, same'⟩
    | _ => exact ⟨rfl, same'⟩
  | ⟨.symbol sign, start⟩ :: rest =>
    obtain ⟨start', rest', rfl, same'⟩ := lexemes_cons_eq same
    rw [parseStatement.eq_def, parseStatement.eq_def]
    cases sign with
    | leftBrace =>
      refine (parseBlock_alike same').bind fun body body' inner => ?_
      exact ⟨congrArg Bare.Statement.block inner.1, inner.2⟩
    | _ => exact ⟨rfl, same⟩
  | ⟨.number _, _⟩ :: _ | ⟨.string _, _⟩ :: _ | ⟨.boolean _, _⟩ :: _ =>
    obtain ⟨start', rest', rfl, _⟩ := lexemes_cons_eq same
    rw [parseStatement.eq_def, parseStatement.eq_def]
    exact ⟨rfl, same⟩
termination_by (tokens.length, 0)
decreasing_by all_goals grind

theorem parseBlock_alike {tokens tokens' : List Token} (same : lexemes tokens = lexemes tokens') :
    Alike (Parsed.Alike Statement.bareAll) (parseBlock tokens) (parseBlock tokens') := by
  match tokens with
  | [] =>
    obtain rfl := lexemes_nil_eq same
    rw [parseBlock.eq_def]
    exact ⟨rfl, rfl⟩
  | ⟨lexeme, position⟩ :: rest =>
    obtain ⟨position', rest', rfl, same'⟩ := lexemes_cons_eq same
    have listed : Alike (Parsed.Alike Statement.bareAll)
        (do
          let first ← parseStatement (⟨lexeme, position⟩ :: rest)
          let others ← parseBlock first.rest
          return (⟨first.value :: others.value, others.last, others.rest, by grind⟩ :
            Parsed (List Statement) (⟨lexeme, position⟩ :: rest).length))
        (do
          let first ← parseStatement (⟨lexeme, position'⟩ :: rest')
          let others ← parseBlock first.rest
          return (⟨first.value :: others.value, others.last, others.rest, by grind⟩ :
            Parsed (List Statement) (⟨lexeme, position'⟩ :: rest').length)) := by
      refine (parseStatement_alike same).bind fun first first' head => ?_
      refine (parseBlock_alike head.2).bind fun others others' tail => ?_
      exact ⟨by rw [Statement.bareAll, Statement.bareAll, head.1, tail.1], tail.2⟩
    rw [parseBlock.eq_def, parseBlock.eq_def]
    cases lexeme with
    | symbol sign =>
      cases sign with
      | rightBrace => exact ⟨rfl, same'⟩
      | _ => exact listed
    | _ => exact listed
termination_by (tokens.length, 1)
decreasing_by all_goals grind

end

private theorem parseStatements_alike {last last' : Position} {tokens tokens' : List Token}
    (same : lexemes tokens = lexemes tokens') :
    Alike (fun read read' => Statement.bareAll read.1 = Statement.bareAll read'.1)
      (parseStatements last tokens) (parseStatements last' tokens') := by
  match tokens with
  | [] =>
    obtain rfl := lexemes_nil_eq same
    rw [parseStatements, parseStatements]
    rfl
  | token :: rest =>
    obtain ⟨position', rest', rfl, _⟩ := lexemes_cons_eq same
    rw [parseStatements, parseStatements]
    · refine (parseStatement_alike same).bind fun first first' head => ?_
      refine (parseStatements_alike head.2).bind fun others others' tail => ?_
      change Statement.bareAll (first.value :: others.1) = Statement.bareAll (first'.value :: others'.1)
      rw [Statement.bareAll, Statement.bareAll, head.1, tail]
    · exact List.cons_ne_nil _ _
    · exact List.cons_ne_nil _ _
termination_by tokens.length
decreasing_by grind

/-- An error that no longer says where. -/
def Error.unplaced (error : Error) : Error :=
  { error with span := error.span.map fun _ => default }

def SourceFault.unplaced : SourceFault → SourceFault
  | .reported error => .reported error.unplaced
  | .oversizedInteger digits => .oversizedInteger digits

section
variable {rejection rejection' : Rejection}

/-- The kind of the offending lexeme is all that a rejection says of it. -/
theorem Rejection.actual_alike (same : lexemes rejection.rest = lexemes rejection'.rest) :
    rejection.actual = rejection'.actual := by
  unfold actual
  cases offending : rejection.rest with
  | nil =>
    rw [offending] at same
    rw [lexemes_nil_eq same]
  | cons token rest =>
    rw [offending] at same
    obtain ⟨_, _, offending', _⟩ := lexemes_cons_eq same
    rw [offending']

theorem Rejection.unplaced_toError_alike (expects : rejection.expected = rejection'.expected)
    (same : lexemes rejection.rest = lexemes rejection'.rest) (stop stop' : Position)
    (file : Option String) :
    (rejection.toError stop file).unplaced = (rejection'.toError stop' file).unplaced := by
  have caused : rejection.cause = rejection'.cause := by
    unfold cause
    rw [expects, actual_alike same]
  simp only [Error.unplaced, toError, caused, Option.map_some]

end

/-- Streams with the same lexemes are programs that differ in their spans only, or have errors that
differ in their places only. -/
theorem Program.ofStream_alike {stream stream' : TokenStream}
    (same : lexemes stream.tokens = lexemes stream'.tokens) (file : Option String) :
    ((ofStream stream file).map Program.bare).mapError SourceFault.unplaced =
      ((ofStream stream' file).map Program.bare).mapError SourceFault.unplaced := by
  have parsed : Alike (fun program program' => program.bare = program'.bare)
      (parseProgram stream) (parseProgram stream') :=
    (parseStatements_alike same).bind fun _ _ statements => statements
  unfold ofStream
  cases first : parseProgram stream with
  | ok program =>
    cases second : parseProgram stream' with
    | ok program' =>
      rw [first, second] at parsed
      exact congrArg Except.ok parsed
    | error rejection' =>
      rw [first, second] at parsed
      exact parsed.elim
  | error rejection =>
    cases second : parseProgram stream' with
    | ok program' =>
      rw [first, second] at parsed
      exact parsed.elim
    | error rejection' =>
      rw [first, second] at parsed
      exact congrArg (fun error => Except.error (SourceFault.reported error))
        (Rejection.unplaced_toError_alike parsed.1 parsed.2 _ _ file)

end ScriptKit
