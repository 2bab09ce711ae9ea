import ScriptKit.Emission
import ScriptKit.Proofs.Yields

/-!
Other statements in the place of imports. In a list of statements an import stands for any number of
them. As the body of a function it stands for a block, and in any other place, where there is room
for one statement only, for that one or a block.

Emission goes along: the text of the new statements is the old text with the texts of the others at
the sites, as long as the places for one statement get exactly one.
-/
namespace ScriptKit

namespace Statement

/-- What an import stands at and imports. -/
def import? : Statement → Option (Span × String)
  | .importFile span path => some (span, path)
  | _ => none

theorem import?_eq_some {statement : Statement} (found : statement.import? = some (span, path)) :
    statement = .importFile span path := by
  cases statement with
  | importFile place name =>
    cases found
    rfl
  | _ => cases found

/-- One statement for some: itself if it is the only one, a block otherwise. -/
def gathered (span : Span) : List Statement → Statement
  | [statement] => statement
  | statements => .block span statements

mutual

/-- A statement with `parts` in the place of the imports inside. -/
def splice (parts : String → List Statement) : Statement → Statement
  | .block span body => .block span (spliceAll parts body)
  | .branch span test consequent none => .branch span test (consequent.splice parts) none
  | .branch span test consequent (some alternate) =>
    .branch span test (consequent.splice parts) (some (alternate.splice parts))
  | .loop span test body => .loop span test (body.splice parts)
  | .function span name parameters body =>
    .function span name parameters
      (match body.import? with
      | some (place, path) => .block place (parts path)
      | none => body.splice parts)
  | .importFile span path => gathered span (parts path)
  | other => other

def spliceAll (parts : String → List Statement) : List Statement → List Statement
  | [] => []
  | statement :: rest =>
    (match statement.import? with
    | some (_, path) => parts path
    | none => [statement.splice parts]) ++ spliceAll parts rest

end

/-- What a statement of a list stands for. -/
def spread (parts : String → List Statement) (statement : Statement) : List Statement :=
  match statement.import? with
  | some (_, path) => parts path
  | none => [statement.splice parts]

theorem spliceAll_cons (parts : String → List Statement) (statement : Statement)
    (rest : List Statement) :
    spliceAll parts (statement :: rest) = spread parts statement ++ spliceAll parts rest := rfl

mutual

/-- The files that are imported in places for one statement, this one's included, but for the bodies
of functions. -/
def lone : Statement → List String
  | .block _ body => loneAll body
  | .branch _ _ consequent none => consequent.lone
  | .branch _ _ consequent (some alternate) => consequent.lone ++ alternate.lone
  | .loop _ _ body => body.lone
  | .function _ _ _ body => if body.import?.isSome then [] else body.lone
  | .importFile _ path => [path]
  | _ => []

def loneAll : List Statement → List String
  | [] => []
  | statement :: rest => (if statement.import?.isSome then [] else statement.lone) ++ loneAll rest

end

end Statement

/-- The text of fragments, with a text at each site. -/
def filled (codes : String → String) : List Fragment → String
  | [] => ""
  | .text code :: rest => code ++ filled codes rest
  | .site _ path :: rest => codes path ++ filled codes rest

theorem filled_append (codes : String → String) (fragments more : List Fragment) :
    filled codes (fragments ++ more) = filled codes fragments ++ filled codes more := by
  induction fragments with
  | nil => simp [filled]
  | cons fragment rest ih =>
    cases fragment <;> simp [filled, ih, String.append_assoc]

theorem filled_eq_of_standalone (codes : String → String)
    (alone : standaloneText file fragments = .ok code) : filled codes fragments = code := by
  induction fragments generalizing code with
  | nil => exact Except.ok.inj alone
  | cons fragment rest ih =>
    cases fragment with
    | site span path => cases alone
    | text front =>
      obtain ⟨following, rest, joined⟩ := bind_eq_ok.mp alone
      obtain rfl := Except.ok.inj joined
      rw [filled, ih rest]

/-- No site is left open. -/
def Sealed (fragments : List Fragment) : Prop := ∀ span path, .site span path ∉ fragments

namespace Sealed

theorem nil : Sealed [] := fun _ _ => List.not_mem_nil

theorem text (sealed' : Sealed rest) : Sealed (.text code :: rest) := by
  intro span path member
  rcases List.mem_cons.mp member with impossible | member
  · cases impossible
  · exact sealed' span path member

theorem append (first : Sealed fragments) (second : Sealed more) : Sealed (fragments ++ more) := by
  intro span path member
  rcases List.mem_append.mp member with member | member
  · exact first span path member
  · exact second span path member

/-- What has no open site is a text of its own. -/
theorem standalone (sealed' : Sealed fragments) (file : Option String) (codes : String → String) :
    standaloneText file fragments = .ok (filled codes fragments) := by
  induction fragments with
  | nil => rfl
  | cons fragment rest ih =>
    cases fragment with
    | site span path => exact absurd List.mem_cons_self (sealed' span path)
    | text code =>
      have following := ih fun span path member =>
        sealed' span path (List.mem_cons_of_mem _ member)
      rw [standaloneText, following]
      rfl

theorem filled_eq (sealed' : Sealed fragments) (codes codes' : String → String) :
    filled codes fragments = filled codes' fragments :=
  Except.ok.inj ((sealed'.standalone none codes).symm.trans (sealed'.standalone none codes'))

end Sealed

/-- The second fragments have the text of the first, and no open site. -/
structure Seals (codes : String → String) (fragments sealed' : List Fragment) : Prop where
  closed : Sealed sealed'
  same : filled codes sealed' = filled codes fragments

namespace Seals

variable {codes : String → String}

theorem nil : Seals codes [] [] := ⟨.nil, rfl⟩

theorem text (code : String) (rest : Seals codes fragments fragments') :
    Seals codes (.text code :: fragments) (.text code :: fragments') :=
  ⟨rest.closed.text, congrArg (code ++ ·) rest.same⟩

theorem append (first : Seals codes fragments fragments') (second : Seals codes more more') :
    Seals codes (fragments ++ more) (fragments' ++ more') := by
  refine ⟨first.closed.append second.closed, ?_⟩
  rw [filled_append, filled_append, first.same, second.same]

theorem braced (inner : Seals codes fragments fragments') :
    Seals codes (braced fragments) (braced fragments') :=
  (inner.append (nil.text "\n\x7d")).text "\x7b\n"

end Seals

namespace Statement

private theorem emitAll_append {statements more : List Statement} (some' : statements ≠ [])
    (others : more ≠ []) :
    emitAll (statements ++ more) = emitAll statements ++ .text "\n" :: emitAll more := by
  induction statements with
  | nil => exact absurd rfl some'
  | cons statement rest ih =>
    cases rest with
    | nil =>
      obtain ⟨next, more, rfl⟩ := List.exists_cons_of_ne_nil others
      rfl
    | cons next rest =>
      have following := ih (List.cons_ne_nil next rest)
      simp only [List.cons_append, emitAll, List.append_assoc] at following ⊢
      rw [following]

/-- What an import stands for, in statements and in text: some statements without imports, and their
text. -/
structure Stands (parts : String → List Statement) (codes : String → String) (path : String) :
    Prop where
  present : parts path ≠ []
  closed : Sealed (emitAll (parts path))
  text : filled codes (emitAll (parts path)) = codes path

section
variable {parts : String → List Statement} {codes : String → String}

theorem Stands.seals (stands : Stands parts codes path) (span : Span) :
    Seals codes [.site span path] (emitAll (parts path)) :=
  ⟨stands.closed, stands.text.trans String.append_empty.symm⟩

theorem isBlock_splice (apart : body.import? = none) : (splice parts body).isBlock = body.isBlock := by
  cases body with
  | importFile span path => cases apart
  | branch span test consequent alternate => cases alternate <;> rfl
  | _ => rfl

private theorem spread_ne_nil
    (sites : ∀ span path, .site span path ∈ emit statement → parts path ≠ []) :
    spread parts statement ≠ [] := by
  unfold spread
  cases found : statement.import? with
  | some imported =>
    cases import?_eq_some found
    exact sites imported.1 imported.2 List.mem_cons_self
  | none => exact List.cons_ne_nil _ _

theorem emit_subset_emitAll (statement : Statement) (rest : List Statement) :
    statement.emit ⊆ emitAll (statement :: rest) := by
  cases rest with
  | nil => exact List.Subset.refl _
  | cons next rest => exact List.subset_append_left _ _

theorem emitAll_subset_cons (statement : Statement) (rest : List Statement) :
    emitAll rest ⊆ emitAll (statement :: rest) := by
  cases rest with
  | nil => exact List.nil_subset _
  | cons next rest => exact List.subset_append_of_subset_right _ (List.subset_cons_self _ _)

mutual

/-- Imports in places for one statement are imports. -/
theorem exists_site_of_lone : (statement : Statement) → path ∈ statement.lone →
    ∃ span, .site span path ∈ statement.emit
  | .block _ body, member => by
    obtain ⟨span, site⟩ := exists_site_of_loneAll body member
    exact ⟨span, by simp [emit, braced, site]⟩
  | .branch _ _ consequent none, member => by
    obtain ⟨span, site⟩ := exists_site_of_lone consequent member
    exact ⟨span, List.mem_cons_of_mem _ site⟩
  | .branch _ _ consequent (some alternate), member => by
    rcases List.mem_append.mp member with member | member
    · obtain ⟨span, site⟩ := exists_site_of_lone consequent member
      exact ⟨span, by simp [emit, site]⟩
    · obtain ⟨span, site⟩ := exists_site_of_lone alternate member
      exact ⟨span, by simp [emit, site]⟩
  | .loop _ _ body, member => by
    obtain ⟨span, site⟩ := exists_site_of_lone body member
    exact ⟨span, List.mem_cons_of_mem _ site⟩
  | .function _ _ _ body, member => by
    rw [lone] at member
    split at member
    · cases member
    · obtain ⟨span, site⟩ := exists_site_of_lone body member
      refine ⟨span, ?_⟩
      rw [emit]
      split <;> simp [braced, site]
  | .importFile span _, member => ⟨span, List.mem_singleton.mp member ▸ List.mem_cons_self⟩

theorem exists_site_of_loneAll : (statements : List Statement) → path ∈ loneAll statements →
    ∃ span, .site span path ∈ emitAll statements
  | statement :: rest, member => by
    rcases List.mem_append.mp member with member | member
    · split at member
      · cases member
      · obtain ⟨span, site⟩ := exists_site_of_lone statement member
        exact ⟨span, emit_subset_emitAll statement rest site⟩
    · obtain ⟨span, site⟩ := exists_site_of_loneAll rest member
      exact ⟨span, emitAll_subset_cons statement rest site⟩

end

theorem spliceAll_ne_nil {statements : List Statement} (present : statements ≠ [])
    (sites : ∀ span path, .site span path ∈ emitAll statements → parts path ≠ []) :
    spliceAll parts statements ≠ [] := by
  obtain ⟨statement, rest, rfl⟩ := List.exists_cons_of_ne_nil present
  rw [spliceAll_cons]
  exact List.append_ne_nil_of_left_ne_nil (spread_ne_nil fun span path member =>
    sites span path (emit_subset_emitAll statement rest member)) _

mutual

/-- Splicing keeps the text, with the texts of the parts at the sites. -/
theorem seals_splice : (statement : Statement) →
    (∀ span path, .site span path ∈ statement.emit → Stands parts codes path) →
    (∀ path ∈ statement.lone, ∃ only, parts path = [only]) →
    Seals codes statement.emit (statement.splice parts).emit
  | .block _ body, stands, single => by
    have inner := sealsAll_splice body (fun span path member => stands span path (by
      simp [emit, braced, member])) single
    exact inner.braced
  | .branch _ test consequent none, stands, single => by
    have inner := seals_splice consequent (fun span path member => stands span path (by
      simp [emit, member])) single
    exact inner.text _
  | .branch _ test consequent (some alternate), stands, single => by
    have first := seals_splice consequent (fun span path member => stands span path (by
      simp [emit, member])) fun path member => single path (List.mem_append_left _ member)
    have second := seals_splice alternate (fun span path member => stands span path (by
      simp [emit, member])) fun path member => single path (List.mem_append_right _ member)
    exact (first.append (second.text " else ")).text _
  | .loop _ test body, stands, single => by
    have inner := seals_splice body (fun span path member => stands span path (by
      simp [emit, member])) single
    exact inner.text _
  | .function _ name parameters body, stands, single => by
    rw [splice, emit, emit]
    cases found : body.import? with
    | some imported =>
      cases import?_eq_some found
      have stands := stands imported.1 imported.2 (by simp [emit, isBlock, braced])
      exact (stands.seals imported.1).braced.text _
    | none =>
      have inner := seals_splice body (fun span path member => stands span path (by
        rw [emit]
        split <;> simp [braced, member])) (by simpa [lone, found] using single)
      dsimp only
      rw [isBlock_splice found]
      split
      · exact inner.text _
      · exact inner.braced.text _
  | .importFile span path, stands, single => by
    obtain ⟨only, same⟩ := single path List.mem_cons_self
    have seals := (stands span path List.mem_cons_self).seals span
    rw [splice, same, gathered]
    rwa [same] at seals
  | .declare .., _, _ | .assign .., _, _ | .giveBack .., _, _ | .print .., _, _ | .call .., _, _ =>
    Seals.nil.text _

theorem sealsAll_splice : (statements : List Statement) →
    (∀ span path, .site span path ∈ emitAll statements → Stands parts codes path) →
    (∀ path ∈ loneAll statements, ∃ only, parts path = [only]) →
    Seals codes (emitAll statements) (emitAll (spliceAll parts statements))
  | [], _, _ => .nil
  | statement :: rest, stands, single => by
    have here : ∀ span path, .site span path ∈ statement.emit → Stands parts codes path :=
      fun span path member => stands span path (emit_subset_emitAll statement rest member)
    have first : Seals codes statement.emit (emitAll (spread parts statement)) := by
      unfold spread
      cases found : statement.import? with
      | some imported =>
        cases import?_eq_some found
        exact (here imported.1 imported.2 List.mem_cons_self).seals imported.1
      | none =>
        refine seals_splice statement here fun path member => single path ?_
        simp [loneAll, found, member]
    cases rest with
    | nil =>
      rw [spliceAll_cons, spliceAll, List.append_nil]
      exact first
    | cons next rest =>
      have there : ∀ span path, .site span path ∈ emitAll (next :: rest) → Stands parts codes path :=
        fun span path member => stands span path (emitAll_subset_cons statement _ member)
      have others := sealsAll_splice (next :: rest) there fun path member =>
        single path (List.mem_append_right _ member)
      have some' : spread parts statement ≠ [] := spread_ne_nil fun span path member =>
        (here span path member).present
      have more : spliceAll parts (next :: rest) ≠ [] :=
        spliceAll_ne_nil (List.cons_ne_nil next rest) fun span path member =>
          (there span path member).present
      rw [spliceAll_cons, emitAll_append some' more]
      exact first.append (others.text "\n")

end

end

section
variable {parts parts' : String → List Statement}

mutual

/-- Only what stands for the imports inside counts. -/
theorem splice_congr : (statement : Statement) →
    (∀ span path, .site span path ∈ statement.emit → parts path = parts' path) →
    statement.splice parts = statement.splice parts'
  | .block _ body, same => by
    have inner := spliceAll_congr body fun span path member => same span path (by
      simp [emit, braced, member])
    rw [splice, splice, inner]
  | .branch _ test consequent none, same => by
    have inner := splice_congr consequent fun span path member => same span path (by
      simp [emit, member])
    rw [splice, splice, inner]
  | .branch _ test consequent (some alternate), same => by
    have first := splice_congr consequent fun span path member => same span path (by
      simp [emit, member])
    have second := splice_congr alternate fun span path member => same span path (by
      simp [emit, member])
    rw [splice, splice, first, second]
  | .loop _ test body, same => by
    have inner := splice_congr body fun span path member => same span path (by simp [emit, member])
    rw [splice, splice, inner]
  | .function _ name parameters body, same => by
    rw [splice, splice]
    cases found : body.import? with
    | some imported =>
      cases import?_eq_some found
      have part := same imported.1 imported.2 (by simp [emit, isBlock, braced])
      dsimp only
      rw [part]
    | none =>
      have inner := splice_congr body fun span path member => same span path (by
        rw [emit]
        split <;> simp [braced, member])
      dsimp only
      rw [inner]
  | .importFile span path, same => by rw [splice, splice, same span path List.mem_cons_self]
  | .declare .., _ | .assign .., _ | .giveBack .., _ | .print .., _ | .call .., _ => rfl

theorem spliceAll_congr : (statements : List Statement) →
    (∀ span path, .site span path ∈ emitAll statements → parts path = parts' path) →
    spliceAll parts statements = spliceAll parts' statements
  | [], _ => rfl
  | statement :: rest, same => by
    have here : ∀ span path, .site span path ∈ statement.emit → parts path = parts' path :=
      fun span path member => same span path (emit_subset_emitAll statement rest member)
    have first : spread parts statement = spread parts' statement := by
      unfold spread
      cases found : statement.import? with
      | some imported =>
        cases import?_eq_some found
        exact here imported.1 imported.2 List.mem_cons_self
      | none => rw [splice_congr statement here]
    have others := spliceAll_congr rest fun span path member =>
      same span path (emitAll_subset_cons statement rest member)
    rw [spliceAll_cons, spliceAll_cons, first, others]

end

end

/-- The text of a statement is not empty. -/
theorem filled_emit_ne (codes : String → String) {statement : Statement}
    (apart : statement.import? = none) : filled codes statement.emit ≠ "" := by
  cases statement with
  | importFile span path => cases apart
  | branch span test consequent alternate => cases alternate <;> simp [emit, filled]
  | _ => simp [emit, filled, braced]

theorem filled_emitAll_ne {codes : String → String} {statements : List Statement}
    (present : statements ≠ [])
    (sites : ∀ span path, .site span path ∈ emitAll statements → codes path ≠ "") :
    filled codes (emitAll statements) ≠ "" := by
  obtain ⟨statement, rest, rfl⟩ := List.exists_cons_of_ne_nil present
  have first : filled codes statement.emit ≠ "" := by
    cases found : statement.import? with
    | none => exact filled_emit_ne codes found
    | some imported =>
      cases import?_eq_some found
      have text : filled codes [.site imported.1 imported.2] = codes imported.2 :=
        String.append_empty
      rw [emit, text]
      exact sites imported.1 imported.2 (emit_subset_emitAll _ rest List.mem_cons_self)
  cases rest with
  | nil => exact first
  | cons next rest =>
    rw [emitAll, filled_append]
    simp [first]

end Statement
end ScriptKit
