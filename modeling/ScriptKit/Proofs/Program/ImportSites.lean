import ScriptKit.Emission
import ScriptKit.Proofs.Program.Accepted
import ScriptKit.Proofs.Program.Parts
import ScriptKit.Proofs.Program.Splicing

/-!
The imports of a program. They are the open sites of its emission. For a program that was read, the
sites start at the `import` words of its tokens, in the same order, and the first of them is what
stands in the way of an emission of its own.
-/
namespace ScriptKit

def Token.importStart? : Token → Option Position
  | ⟨.keyword .importWord, position⟩ => some position
  | _ => none

/-- Where the `import` words among tokens stand. -/
def importStarts (tokens : List Token) : List Position := tokens.filterMap Token.importStart?

def Fragment.start? : Fragment → Option Position
  | .text _ => none
  | .site span _ => some span.first

/-- Where the open sites among fragments start. -/
def siteStarts (fragments : List Fragment) : List Position := fragments.filterMap Fragment.start?

private theorem importStarts_append (tokens more : List Token) :
    importStarts (tokens ++ more) = importStarts tokens ++ importStarts more :=
  List.filterMap_append

private theorem importStarts_parameters (listed : lexemes list = Grammar.parameters names) :
    importStarts list = [] := by
  refine List.filterMap_eq_nil_iff.mpr fun ⟨lexeme, position⟩ member => ?_
  have member : lexeme ∈ Grammar.parameters names := listed ▸ List.mem_map_of_mem member
  rcases Grammar.mem_parameters member with rfl | ⟨_, rfl⟩ <;> rfl

private theorem siteStarts_append (fragments more : List Fragment) :
    siteStarts (fragments ++ more) = siteStarts fragments ++ siteStarts more :=
  List.filterMap_append

private theorem siteStarts_text (code : String) (rest : List Fragment) :
    siteStarts (.text code :: rest) = siteStarts rest := rfl

private theorem siteStarts_braced (inner : List Fragment) :
    siteStarts (braced inner) = siteStarts inner := by
  rw [braced, siteStarts_text, siteStarts_append]
  exact List.append_nil _

private theorem siteStarts_function (span : Span) (name : String) (parameters : List String)
    (body : Statement) :
    siteStarts (Statement.function span name parameters body).emit = siteStarts body.emit := by
  rw [Statement.emit]
  split
  · rfl
  · exact siteStarts_braced body.emit

private theorem siteStarts_emitAll_cons (statement : Statement) (rest : List Statement) :
    siteStarts (Statement.emitAll (statement :: rest)) =
      siteStarts statement.emit ++ siteStarts (Statement.emitAll rest) := by
  cases rest with
  | nil => exact (List.append_nil _).symm
  | cons next rest => rw [Statement.emitAll, siteStarts_append, siteStarts_text]

namespace Located

mutual

/-- No `import` word stands in an expression. -/
theorem Level.starts_nil : Level level phrase stretch tree → importStarts phrase = []
  | .primary inner => inner.starts_nil
  | .operand inner => inner.starts_nil
  | .join left found right => by
    obtain ⟨_, sign, _, _, rfl⟩ := infixOf?_eq_some.mp found
    rw [importStarts_append, left.starts_nil]
    exact right.starts_nil

theorem Primary.starts_nil : Primary phrase stretch tree → importStarts phrase = []
  | .number | .string | .boolean | .identifier => rfl
  | .call inner => by
    refine (importStarts_append _ _).trans ?_
    rw [inner.starts_nil]
    rfl
  | .parentheses inner => by
    refine (importStarts_append _ _).trans ?_
    rw [inner.starts_nil]
    rfl

theorem Arguments.starts_nil : Arguments phrase trees → importStarts phrase = []
  | .none => rfl
  | .some first others => by
    rw [importStarts_append, first.starts_nil, others.starts_nil, List.append_nil]

theorem MoreArguments.starts_nil : MoreArguments phrase trees → importStarts phrase = []
  | .none => rfl
  | .some next others => by
    refine (importStarts_append _ _).trans ?_
    rw [next.starts_nil, others.starts_nil, List.append_nil]

end

mutual

/-- The sites of a statement start where its `import` words stand. -/
theorem Statement.starts : Statement next phrase stretch tree →
    importStarts phrase = siteStarts tree.emit
  | .declare value | .assign value | .giveBack value | .print value => by
    refine (importStarts_append _ _).trans ?_
    rw [value.starts_nil]
    rfl
  | .call inner => by
    refine (importStarts_append _ _).trans ?_
    rw [inner.starts_nil]
    rfl
  | .importFile => rfl
  | .block body => by
    rw [Statement.emit, siteStarts_braced, ← body.starts]
    exact (importStarts_append _ _).trans (List.append_nil _)
  | .branch test consequent _ => by
    refine (importStarts_append _ _).trans ?_
    rw [test.starts_nil]
    exact consequent.starts
  | .alternative test consequent alternate => by
    rw [Statement.emit, siteStarts_text, siteStarts_append, siteStarts_text, ← consequent.starts,
      ← alternate.starts]
    refine (importStarts_append _ _).trans ?_
    rw [test.starts_nil]
    exact importStarts_append _ _
  | .loop test body => by
    refine (importStarts_append _ _).trans ?_
    rw [test.starts_nil]
    exact body.starts
  | .function listed body => by
    rw [siteStarts_function, ← body.starts]
    refine (importStarts_append _ _).trans ?_
    rw [importStarts_parameters listed]
    rfl

theorem Statements.starts : Statements next phrase trees →
    importStarts phrase = siteStarts (Statement.emitAll trees)
  | .nil => rfl
  | .cons first others => by
    rw [importStarts_append, first.starts, others.starts, siteStarts_emitAll_cons]

end
end Located

private theorem parseProgram_starts (success : parseProgram stream = .ok program) :
    importStarts stream.tokens = siteStarts program.emit := by
  obtain ⟨statements, read, success⟩ := bind_eq_ok.mp success
  cases success
  exact (Located.parseStatements_located read).starts

private theorem mem_braced_site {inner : List Fragment} :
    .site span path ∈ braced inner ↔ .site span path ∈ inner := by
  simp [braced]

mutual

/-- A site stands for an import of the program. -/
theorem Program.Part.of_site {program : Program} : {statement : Statement} →
    program.Part (.statement statement) → .site place path ∈ statement.emit →
    program.Part (.statement (.importFile place path))
  | .block _ body, part, site =>
    of_sites (fun _ member => .inner part (List.mem_map_of_mem member)) (mem_braced_site.mp site)
  | .branch _ _ consequent none, part, site => by
    have taken : program.Part (.statement consequent) := .inner part (by simp [Node.children])
    exact of_site taken (by simpa [Statement.emit] using site)
  | .branch _ _ consequent (some alternate), part, site => by
    have taken : program.Part (.statement consequent) := .inner part (by simp [Node.children])
    have other : program.Part (.statement alternate) := .inner part (by simp [Node.children])
    have either : .site place path ∈ consequent.emit ∨ .site place path ∈ alternate.emit := by
      simpa [Statement.emit] using site
    exact either.elim (of_site taken) (of_site other)
  | .loop _ _ body, part, site => by
    have repeated : program.Part (.statement body) := .inner part (by simp [Node.children])
    exact of_site repeated (by simpa [Statement.emit] using site)
  | .function _ _ _ body, part, site => by
    have inside : program.Part (.statement body) := .inner part (by simp [Node.children])
    refine of_site inside ?_
    rw [Statement.emit] at site
    split at site
    · simpa using site
    · exact mem_braced_site.mp (by simpa using site)
  | .importFile _ _, part, site => by
    cases List.mem_singleton.mp site
    exact part
  | .declare .., _, site | .assign .., _, site | .giveBack .., _, site | .print .., _, site
  | .call .., _, site => by
    cases List.mem_singleton.mp site

theorem Program.Part.of_sites {program : Program} : {statements : List Statement} →
    (∀ statement ∈ statements, program.Part (.statement statement)) →
    .site place path ∈ Statement.emitAll statements →
    program.Part (.statement (.importFile place path))
  | [], _, site => nomatch site
  | [_], parts, site => of_site (parts _ List.mem_cons_self) site
  | _ :: _ :: _, parts, site => by
    obtain ⟨first, others⟩ := List.forall_mem_cons.mp parts
    rcases List.mem_append.mp site with site | site
    · exact of_site first site
    · exact of_sites others (by simpa using site)

end

theorem Statement.emit_subset_of_mem {statements : List Statement}
    (member : statement ∈ statements) : emit statement ⊆ emitAll statements := by
  induction member with
  | head rest => exact emit_subset_emitAll statement rest
  | tail first _ ih =>
    exact List.Subset.trans ih (emitAll_subset_cons first _)

/-- The import is one of the open sites of the node. -/
def Node.Opens (place : Span) (path : String) : Node → Prop
  | .statement value => .site place path ∈ value.emit
  | .program value => .site place path ∈ value.emit
  | .expression _ | .span _ => False

/-- A node leaves open what its children do. -/
theorem Node.Opens.outer {place : Span} {part : Node} (opens : part.Opens place path) :
    {node : Node} → part ∈ node.children → node.Opens place path
  | .program value, child => by
    obtain ⟨statement, member, rfl⟩ := List.mem_map.mp child
    exact Statement.emit_subset_of_mem member opens
  | .statement (.block _ body), child => by
    obtain ⟨statement, member, rfl⟩ := List.mem_map.mp child
    exact mem_braced_site.mpr (Statement.emit_subset_of_mem member opens)
  | .statement (.branch _ _ consequent alternate), child => by
    rcases List.mem_cons.mp child with rfl | child
    · exact opens.elim
    rcases List.mem_cons.mp child with rfl | child
    · cases alternate with
      | none => exact List.mem_cons_of_mem _ opens
      | some alternate => exact List.mem_cons_of_mem _ (List.mem_append_left _ opens)
    · cases alternate with
      | none => cases child
      | some alternate =>
        cases List.mem_singleton.mp child
        exact List.mem_cons_of_mem _ (List.mem_append_right _ (List.mem_cons_of_mem _ opens))
  | .statement (.loop _ _ body), child => by
    rcases List.mem_cons.mp child with rfl | child
    · exact opens.elim
    · cases List.mem_singleton.mp child
      exact List.mem_cons_of_mem _ opens
  | .statement (.function _ _ _ body), child => by
    cases List.mem_singleton.mp child
    refine List.mem_cons_of_mem _ ?_
    split
    · exact opens
    · exact mem_braced_site.mpr opens
  | .statement (.declare ..), child | .statement (.assign ..), child
  | .statement (.giveBack ..), child | .statement (.print ..), child => by
    cases List.mem_singleton.mp child
    exact opens.elim
  | .statement (.call ..), child | .expression (.call ..), child => by
    obtain ⟨argument, _, rfl⟩ := List.mem_map.mp child
    exact opens.elim
  | .expression (.binary ..), child | .expression (.logical ..), child => by
    rcases List.mem_cons.mp child with rfl | child
    · exact opens.elim
    · cases List.mem_singleton.mp child
      exact opens.elim
  | .statement (.importFile ..), child | .expression (.literal ..), child
  | .expression (.identifier ..), child | .span _, child => by
    cases child

/-- The open sites of a program are its imports. -/
theorem Program.mem_emit_site {program : Program} :
    .site place path ∈ program.emit ↔ program.Part (.statement (.importFile place path)) := by
  constructor
  · intro site
    exact .of_sites (fun _ member => .inner .whole (List.mem_map_of_mem member)) site
  · intro part
    have opens : (Node.statement (.importFile place path)).Opens place path := List.mem_cons_self
    generalize Node.statement (.importFile place path) = node at part opens
    induction part with
    | whole => exact opens
    | inner outer child ih => exact ih (opens.outer child)

/-- The first site is the error, and without sites there is a text. -/
theorem standaloneText_first (file : Option String) (fragments : List Fragment) :
    match siteStarts fragments with
    | [] => ∃ code, standaloneText file fragments = .ok code
    | start :: _ => ∃ span path, .site span path ∈ fragments ∧ span.first = start ∧
        standaloneText file fragments =
          .error ⟨.importing, .importRequiresBuild path, some span, file⟩ := by
  induction fragments with
  | nil => exact ⟨"", rfl⟩
  | cons fragment rest ih =>
    cases fragment with
    | site span path => exact ⟨span, path, List.mem_cons_self, rfl, rfl⟩
    | text code =>
      rw [siteStarts_text]
      split at ih
      · obtain ⟨following, written⟩ := ih
        exact ⟨code ++ following, by rw [standaloneText, written]; rfl⟩
      · obtain ⟨span, path, member, start, failed⟩ := ih
        exact ⟨span, path, List.mem_cons_of_mem _ member, start, by rw [standaloneText, failed]; rfl⟩

/-- A program that was read has a text of its own unless it imports; then the import at the first
`import` word is the error. -/
theorem Program.emitStandalone_first (success : parseProgram stream = .ok program)
    (file : Option String) :
    match importStarts stream.tokens with
    | [] => ∃ code, program.emitStandalone file = .ok code
    | start :: _ => ∃ place path, program.Part (.statement (.importFile place path)) ∧
        place.first = start ∧ program.emitStandalone file =
          .error ⟨.importing, .importRequiresBuild path, some place, file⟩ := by
  have first := standaloneText_first file program.emit
  rw [← parseProgram_starts success] at first
  split at first
  · exact first
  · obtain ⟨place, path, site, start, failed⟩ := first
    exact ⟨place, path, .of_sites (fun _ member => .inner .whole (List.mem_map_of_mem member)) site,
      start, failed⟩

end ScriptKit
