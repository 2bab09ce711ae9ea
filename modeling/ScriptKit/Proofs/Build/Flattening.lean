import ScriptKit.Proofs.Build.Refinement
import ScriptKit.Proofs.Program.Splicing

/-!
A build flattens programs. The text of a file is that of one program without imports, which has the
statements of the imported files in the place of the imports, all the way down.
-/
namespace ScriptKit.Build

/-- The one program for a file and all that it imports. -/
inductive Flattens (workspace : Workspace) : String → Program → Prop where
  | loaded {parts : String → Program} (load : SourceFile.load workspace path = .ok program)
      (inner : ∀ span name, .site span name ∈ program.emit →
        Flattens workspace (importTarget path name) (parts name)) :
      Flattens workspace path
        { program with body := Statement.spliceAll (fun name => (parts name).body) program.body }

theorem Flattens.unique (flattens : Flattens workspace path flat)
    (flattens' : Flattens workspace path flat') : flat' = flat := by
  induction flattens generalizing flat' with
  | loaded load inner ih =>
    cases flattens' with
    | loaded load' inner' =>
      cases load.symm.trans load'
      have same := Statement.spliceAll_congr _ fun span name member =>
        congrArg Program.body (ih span name member (inner' span name member))
      rw [same]

/-- A project of files that can all be loaded, of which the imported ones have statements. Imports go
around in no circle, no two files have one output, and no output is a file to be read. The current
directory is an absolute path. -/
structure Complete (settings : BuildSettings) (workspace : Workspace) (roots : List String) :
    Prop where
  rooted : Path.isAbsolute workspace.directory = true
  acyclic : ∀ path, Reachable workspace roots path →
    ¬ Relation.TransGen (Imports workspace) path path
  distinct : ∀ path other, Reachable workspace roots path → Reachable workspace roots other →
    workspace.location (settings.outputPath path) = workspace.location (settings.outputPath other) →
      path = other
  apart : ∀ path other, Reachable workspace roots path → Reachable workspace roots other →
    workspace.location (settings.outputPath path) ≠ workspace.location other
  loads : ∀ path, Reachable workspace roots path →
    ∃ program, SourceFile.load workspace path = .ok program
  present : ∀ file target program, Reachable workspace roots file →
    Imports workspace file target → SourceFile.load workspace target = .ok program →
      program.body ≠ []

/-- Every output can be written at all times. -/
def Writable (settings : BuildSettings) (workspace : Workspace) (roots : List String) : Prop :=
  ∀ path reached code, Reachable workspace roots path →
    Written settings workspace roots reached →
      ∃ after, reached.Stores (settings.outputPath path) code after

/-- Whatever a file imports where there is room for one statement only comes to one statement. -/
def Tight (workspace : Workspace) (file : String) : Prop :=
  ∀ program name flat, SourceFile.load workspace file = .ok program →
    name ∈ Statement.loneAll program.body →
    Flattens workspace (importTarget file name) flat → ∃ only, flat.body = [only]

section
variable {settings : BuildSettings} {start : Workspace} {roots : List String}

/-- Files that can be loaded stay what they are as outputs are written. -/
theorem Complete.load (complete : Complete settings start roots)
    (reachable : Reachable start roots path) (written : Written settings start roots reached)
    (load : SourceFile.load reached path = .ok program) :
    SourceFile.load start path = .ok program := by
  obtain ⟨before, load'⟩ := complete.loads path reachable
  obtain ⟨content, found⟩ := SourceFile.read_of_load load'
  have same : reached.read path = start.read path := by
    rw [found]
    refine written.grows.read found ?_
    rintro ⟨other, reachable', shared⟩
    exact complete.apart other path reachable' reachable shared
  unfold SourceFile.load SourceFile.read at load ⊢
  rwa [same] at load

/-- The induction is on how many files the chain of imports that led here can still take in. -/
theorem Complete.flattens_within (complete : Complete settings start roots)
    (normal : ∀ path, Reachable start roots path → ∃ slashes list, Path.Normal path slashes list)
    (room : Nat) {chain : List String} (reachable : Reachable start roots path)
    (distinct : chain.Nodup)
    (leads : ∀ outer ∈ chain, Reachable start roots outer ∧
      Relation.TransGen (Imports start) outer path)
    (enough : 2 * start.files.entries.length < chain.length + room) :
    ∃ flat, Flattens start path flat := by
  induction room generalizing path chain with
  | zero =>
    have found : ∀ outer ∈ chain, ∃ content, start.files.read outer = .ok content := by
      intro outer member
      obtain ⟨reachable', _⟩ := leads outer member
      obtain ⟨program, load⟩ := complete.loads outer reachable'
      obtain ⟨content, read⟩ := SourceFile.read_of_load load
      obtain ⟨slashes, list, normal⟩ := normal outer reachable'
      rw [Workspace.read, start.rooted_normal normal] at read
      exact ⟨content, read⟩
    have fewer := FileTree.length_le_of_normal distinct
      (fun outer member => normal outer (leads outer member).1) found
    omega
  | succ room ih =>
    obtain ⟨program, load⟩ := complete.loads path reachable
    have fresh : path ∉ chain := fun member =>
      complete.acyclic path reachable (leads path member).2
    have inner : ∀ name, ∃ flat, ∀ span, .site span name ∈ program.emit →
        Flattens start (importTarget path name) flat := by
      intro name
      by_cases imported : ∃ span, .site span name ∈ program.emit
      · obtain ⟨span, member⟩ := imported
        have imports : Imports start path (importTarget path name) :=
          ⟨program, span, name, load, member, rfl⟩
        have leads' : ∀ outer ∈ path :: chain, Reachable start roots outer ∧
            Relation.TransGen (Imports start) outer (importTarget path name) := by
          intro outer member
          rcases List.mem_cons.mp member with rfl | member
          · exact ⟨reachable, .single imports⟩
          · exact ⟨(leads outer member).1, (leads outer member).2.tail imports⟩
        have enough' : 2 * start.files.entries.length < (path :: chain).length + room := by
          rw [List.length_cons]
          omega
        obtain ⟨flat, flattens⟩ := ih (reachable.imports imports)
          (List.nodup_cons.mpr ⟨fresh, distinct⟩) leads' enough'
        exact ⟨flat, fun _ _ => flattens⟩
      · exact ⟨⟨program.span, []⟩, fun span member => absurd ⟨span, member⟩ imported⟩
    obtain ⟨parts, flattens⟩ := Classical.skolem.mp inner
    exact ⟨_, .loaded load fun span name member => flattens name span member⟩

theorem inlinesAll_filled {codes : String → String}
    (inner : ∀ span name, .site span name ∈ fragments →
      Inlines start (importTarget file name) (.ok (codes name)) ∧ codes name ≠ "") :
    InlinesAll start file fragments (.ok (filled codes fragments)) := by
  induction fragments with
  | nil => exact .nil
  | cons fragment rest ih =>
    have following := ih fun span name member =>
      inner span name (List.mem_cons_of_mem fragment member)
    cases fragment with
    | text code => exact .text following
    | site span name =>
      obtain ⟨imported, present⟩ := inner span name List.mem_cons_self
      have code : spliced (importTarget file name) (codes name) = codes name := if_neg present
      rw [filled, ← code]
      exact .site imported following

/-- The text of a file is that of its flattened program. -/
theorem Flattens.inlines (complete : Complete settings start roots)
    (tight : ∀ file, Reachable start roots file → Tight start file)
    (flattens : Flattens start path flat) (reachable : Reachable start roots path) :
    Sealed flat.emit ∧ Inlines start path (.ok (filled (fun _ => "") flat.emit)) ∧
      ∀ program, SourceFile.load start path = .ok program → program.body ≠ [] → flat.body ≠ [] := by
  induction flattens with
  | @loaded path program parts load inner ih =>
    let statements (name : String) : List Statement := (parts name).body
    let codes (name : String) : String := filled (fun _ => "") (parts name).emit
    have imports (span : Span) (name : String) (member : .site span name ∈ program.emit) :
        Imports start path (importTarget path name) := ⟨program, span, name, load, member, rfl⟩
    have stands : ∀ span name, .site span name ∈ program.emit →
        Statement.Stands statements codes name := by
      intro span name member
      have reachable' := reachable.imports (imports span name member)
      obtain ⟨closed, _, present⟩ := ih span name member reachable'
      obtain ⟨imported, load'⟩ := complete.loads _ reachable'
      have some' := complete.present path _ imported reachable (imports span name member) load'
      exact ⟨present imported load' some', closed, closed.filled_eq _ _⟩
    have single : ∀ name ∈ Statement.loneAll program.body, ∃ only, statements name = [only] := by
      intro name member
      obtain ⟨span, site⟩ := Statement.exists_site_of_loneAll program.body member
      exact tight path reachable program name (parts name) load member (inner span name site)
    have seals := Statement.sealsAll_splice program.body stands single
    have filled' : InlinesAll start path program.emit (.ok (filled codes program.emit)) := by
      refine inlinesAll_filled fun span name member => ?_
      have reachable' := reachable.imports (imports span name member)
      obtain ⟨closed, inlines, _⟩ := ih span name member reachable'
      exact ⟨inlines, Statement.filled_emitAll_ne (stands span name member).present
        fun span path site => absurd site (closed span path)⟩
    refine ⟨seals.closed, ?_, ?_⟩
    · have same : filled (fun _ => "") (Statement.emitAll (Statement.spliceAll statements
          program.body)) = filled codes program.emit := (seals.closed.filled_eq _ _).trans seals.same
      exact same ▸ Inlines.loaded load filled'
    · intro program' load' present
      cases load.symm.trans load'
      exact Statement.spliceAll_ne_nil present fun span name member =>
        (stands span name member).present

mutual

/-- A compilation that succeeds gives the inlined text, whether or not outputs can be written at other
times. -/
theorem Compiles.inlines (complete : Complete settings start roots)
    (normal : ∀ path, Reachable start roots path → ∃ slashes list, Path.Normal path slashes list) :
    Compiles settings depth path before events result after → Refined settings start roots before →
    Nested start roots 0 depth path before → ∀ code, result = .ok code →
      Refined settings start roots after ∧ Inlines start path (.ok code)
  | .exhausted, _, _ => nofun
  | .cached known read, refined, nested => by
    rintro code rfl
    have shown := readOutput_shows read
    exact ⟨refined.shown shown.files shown.directory shown.compiled,
      refined.read known (normal path nested.reachable) read⟩
  | .cyclic _ started _, _, nested =>
    absurd (nested.leads path started).2 (complete.acyclic path nested.reachable)
  | .unloaded _ _ _, _, _ => nofun
  | .unfilled _ _ _ _, _, _ => nofun
  | .unwritten _ _ _ _ _, _, _ => nofun
  | .written _ _ load filled wrote told, refined, nested => by
    rintro _ ⟨⟩
    have load := complete.load nested.reachable refined.written load
    obtain ⟨reached, inlines⟩ := filled.inlines complete normal (refined.shown rfl rfl rfl)
      (nested.enter load) _ rfl
    have whole := Inlines.loaded load inlines
    obtain ⟨_, stores, rfl⟩ := writeOutput_ok wrote
    have stored := reached.stored complete.distinct nested.reachable whole stores
    have shown := info_shows told
    exact ⟨stored.shown shown.files shown.directory shown.compiled, whole⟩

theorem Fills.inlines (complete : Complete settings start roots)
    (normal : ∀ path, Reachable start roots path → ∃ slashes list, Path.Normal path slashes list) :
    Fills settings depth file fragments before events result after →
    Refined settings start roots before → Inside start roots 0 depth file fragments before →
    ∀ code, result = .ok code →
      Refined settings start roots after ∧ InlinesAll start file fragments (.ok code)
  | .nil, refined, _ => by
    rintro _ ⟨⟩
    exact ⟨refined, .nil⟩
  | .text following, refined, inside => by
    intro code same
    obtain ⟨text, found, rfl⟩ := map_eq_ok same
    obtain ⟨reached, inlines⟩ := following.inlines complete normal refined (inside.rest rfl) text found
    exact ⟨reached, .text inlines⟩
  | .failed _, _, _ => nofun
  | .site imported following, refined, inside => by
    intro code same
    obtain ⟨text, found, rfl⟩ := map_eq_ok same
    obtain ⟨middle, inlines⟩ := imported.inlines complete normal refined inside.site _ rfl
    obtain ⟨reached, inlines'⟩ := following.inlines complete normal middle
      (inside.rest imported.effect.inProgress) text found
    exact ⟨reached, .site inlines inlines'⟩

end

end

section
variable {settings : BuildSettings} {workspace : Workspace} {path : String}

theorem Complete.exists_flattens
    (complete : Complete settings workspace [workspace.absolute path]) :
    ∃ flat, Flattens workspace (workspace.absolute path) flat := by
  have normal : ∀ other, Reachable workspace ([path].map workspace.absolute) other →
      ∃ slashes list, Path.Normal other slashes list := fun _ => Reachable.normal complete.rooted
  exact complete.flattens_within normal (2 * workspace.files.entries.length + 1)
    ⟨_, List.mem_cons_self, .refl⟩ List.nodup_nil nofun (by rw [List.length_nil]; omega)

/-- A call on a fresh build that returns a text returns the inlined one. -/
theorem Complete.inlines_of_compile
    (complete : Complete settings workspace [workspace.absolute path])
    (returned : ((compile settings path).run.run (.fresh workspace)).1 = .ok code) :
    Inlines workspace (workspace.absolute path) (.ok code) := by
  have normal : ∀ other, Reachable workspace ([path].map workspace.absolute) other →
      ∃ slashes list, Path.Normal other slashes list := fun _ => Reachable.normal complete.rooted
  have run := (yields_run (compile settings path) (.fresh workspace)).rest
    .get
  obtain ⟨events, called⟩ := compileWithin_traced run
  have nested : Nested workspace [workspace.absolute path] 0 (depthLimit workspace.files)
      (workspace.absolute path) (.fresh workspace) :=
    ⟨⟨_, List.mem_cons_self, .refl⟩, nofun, Nat.zero_le _⟩
  exact (called.inlines complete normal .fresh nested code returned).2

/-- If outputs can be written, a call on a fresh build does what inlining does. -/
theorem Complete.compile_eq (complete : Complete settings workspace [workspace.absolute path])
    (writable : Writable settings workspace [workspace.absolute path])
    (inlines : Inlines workspace (workspace.absolute path) result) :
    ((compile settings path).run.run (.fresh workspace)).1 = result := by
  have separate : Separate settings workspace ([path].map workspace.absolute) :=
    ⟨complete.rooted, complete.acyclic, complete.distinct, writable, complete.apart⟩
  have missing : MissingStay settings workspace ([path].map workspace.absolute) := by
    intro other reached reachable _ missing
    obtain ⟨program, load⟩ := complete.loads other reachable
    cases load.symm.trans missing
  obtain ⟨_, _, inlines'⟩ := compile_refines separate missing (.start workspace) .fresh
    List.mem_cons_self (yields_run (compile settings path) _)
  exact inlines'.unique inlines

/-- Where every import stands in a list of statements or is the body of a function, a build flattens
the program: there is one program without imports for the file and all that it imports, and what
compiling the file returns is its text. If outputs can be written, that text is returned. -/
theorem compile_flattens (complete : Complete settings workspace [workspace.absolute path])
    (placed : ∀ file program, Reachable workspace [workspace.absolute path] file →
      SourceFile.load workspace file = .ok program → Statement.loneAll program.body = []) :
    ∃ flat code, (∀ other, Flattens workspace (workspace.absolute path) other ↔ other = flat) ∧
      flat.emitStandalone none = .ok code ∧
      (∀ text, ((compile settings path).run.run (.fresh workspace)).1 = .ok text → text = code) ∧
      (Writable settings workspace [workspace.absolute path] →
        ((compile settings path).run.run (.fresh workspace)).1 = .ok code) := by
  obtain ⟨flat, flattens⟩ := complete.exists_flattens
  have tight : ∀ file, Reachable workspace [workspace.absolute path] file →
      Tight workspace file := by
    intro file reachable program name _ load member
    rw [placed file program reachable load] at member
    cases member
  obtain ⟨closed, inlines, _⟩ :=
    flattens.inlines complete tight ⟨_, List.mem_cons_self, .refl⟩
  refine ⟨flat, filled (fun _ => "") flat.emit, fun other => ⟨flattens.unique, ?_⟩,
    closed.standalone none _, ?_, ?_⟩
  · rintro rfl
    exact flattens
  · intro text returned
    exact Except.ok.inj ((complete.inlines_of_compile returned).unique inlines)
  · intro writable
    exact complete.compile_eq writable inlines

end

/-- Two files in the root directory. -/
def duoProject (outer inner : String) : Workspace :=
  ⟨⟨[(["q.as"], .file inner.toUTF8), (["p.as"], .file outer.toUTF8)]⟩, "/", "", ""⟩

theorem duo_absolute (outer inner : String) :
    (duoProject outer inner).absolute "p.as" = "/p.as" := by
  have absolute : Path.absolute "/" "p.as" = "/p.as" := by decide
  exact absolute

theorem duo_read {outer inner : String} (plain : Text.Plain outer) (plain' : Text.Plain inner) :
    SourceFile.read (duoProject outer inner) "/p.as" = .ok outer ∧
      SourceFile.read (duoProject outer inner) "/q.as" = .ok inner := by
  have first : FileTree.Shallow "/p.as" "p.as" := by decide
  have second : FileTree.Shallow "/q.as" "q.as" := by decide
  refine ⟨SourceFile.read_shallow first ?_ plain, SourceFile.read_shallow second ?_ plain'⟩
  · simp [duoProject, FileTree.get?, List.lookup_cons]
  · simp [duoProject, FileTree.get?]

/-- The first file imports nothing but the second, which imports nothing. -/
structure Duo (outer inner : String) (program program' : Program) : Prop where
  first : SourceFile.load (duoProject outer inner) "/p.as" = .ok program
  second : SourceFile.load (duoProject outer inner) "/q.as" = .ok program'
  only : ∀ span name, .site span name ∈ program.emit → name = "q.as"
  closed : Sealed program'.emit
  present : program'.body ≠ []

/-- A program that imports nothing, flattened: anything can stand for its imports. -/
def lastFlat (program : Program) : Program :=
  { program with body := Statement.spliceAll (fun _ => []) program.body }

def duoFlat (program program' : Program) : Program :=
  { program with body := Statement.spliceAll (fun _ => (lastFlat program').body) program.body }

namespace Duo

variable {outer inner : String} {program program' : Program}

theorem imports (duo : Duo outer inner program program') (known : file = "/p.as" ∨ file = "/q.as")
    (imports : Imports (duoProject outer inner) file target) : file = "/p.as" ∧ target = "/q.as" := by
  obtain ⟨_, span, name, load, member, rfl⟩ := imports
  rcases known with rfl | rfl
  · cases duo.first.symm.trans load
    cases duo.only span name member
    exact ⟨rfl, pair_targets.1⟩
  · cases duo.second.symm.trans load
    exact absurd member (duo.closed span name)

theorem reachable (duo : Duo outer inner program program')
    (reachable : Reachable (duoProject outer inner) ["/p.as"] path) :
    path = "/p.as" ∨ path = "/q.as" := by
  obtain ⟨root, member, leads⟩ := reachable
  induction leads with
  | refl => exact .inl (List.mem_singleton.mp member)
  | tail _ imports ih => exact .inr (duo.imports ih imports).2

theorem slot (duo : Duo outer inner program program')
    (reachable : Reachable (duoProject outer inner) ["/p.as"] path) :
    Slot "out" (pairName path) ((pairSettings "out").outputPath path) := by
  refine pair_slot (by decide) ?_
  rcases duo.reachable reachable with rfl | rfl <;> decide

theorem complete (duo : Duo outer inner program program') :
    Complete (pairSettings "out") (duoProject outer inner) ["/p.as"] := by
  have rooted : Path.isAbsolute "/" = true := by decide
  refine ⟨rooted, ?_, ?_, ?_, ?_, ?_⟩
  · intro path reachable circle
    obtain ⟨next, first, _⟩ := Relation.TransGen.head'_iff.mp circle
    obtain ⟨rfl, _⟩ := duo.imports (duo.reachable reachable) first
    obtain ⟨file, leads, last⟩ := Relation.TransGen.tail'_iff.mp circle
    obtain ⟨root, member, way⟩ := reachable
    have known := duo.reachable ⟨root, member, way.trans leads⟩
    exact absurd (duo.imports known last).2 (by decide)
  · intro path other reachable reachable' same
    rw [(duo.slot reachable).location, (duo.slot reachable').location] at same
    have named : pairName path = pairName other := (List.cons.inj (List.cons.inj same).2).1
    rcases duo.reachable reachable with rfl | rfl <;>
      rcases duo.reachable reachable' with rfl | rfl <;> revert named <;> decide
  · intro path other reachable reachable' same
    have short : (pairProject.location other).length = 1 := by
      rcases duo.reachable reachable' with rfl | rfl <;> decide
    rw [(duo.slot reachable).location, show (duoProject outer inner).location other =
      pairProject.location other from rfl] at same
    rw [← same] at short
    cases short
  · intro path reachable
    rcases duo.reachable reachable with rfl | rfl
    · exact ⟨program, duo.first⟩
    · exact ⟨program', duo.second⟩
  · intro file target loaded reachable imports load
    obtain ⟨_, rfl⟩ := duo.imports (duo.reachable reachable) imports
    cases duo.second.symm.trans load
    exact duo.present

theorem writable (duo : Duo outer inner program program') :
    Writable (pairSettings "out") (duoProject outer inner) ["/p.as"] := by
  have free : Free "out" (duoProject outer inner).files := by
    refine ⟨.inl ?_, ?_⟩
    · simp [duoProject, FileTree.get?, List.lookup_cons, List.lookup_nil]
    · simp [duoProject, FileTree.get?, List.lookup_cons, List.lookup_nil]
  intro path reached code reachable written
  obtain ⟨free, _⟩ := written_free free (fun path reachable => ⟨_, duo.slot reachable⟩) written
  obtain ⟨after, stores, _⟩ := free.stores (duo.slot reachable) code
  exact ⟨after, stores⟩

/-- The text of the first file, if the outputs are put into a directory of their own. -/
theorem compile_eq (duo : Duo outer inner program program') :
    ((compile (pairSettings "out") "p.as").run.run (.fresh (duoProject outer inner))).1 =
      .ok (filled (fun _ => filled (fun _ => "") program'.emit) program.emit) := by
  have second : Inlines (duoProject outer inner) "/q.as"
      (.ok (filled (fun _ => "") program'.emit)) :=
    .loaded duo.second (inlinesAll_filled fun span name member =>
      absurd member (duo.closed span name))
  have present : filled (fun _ => "") program'.emit ≠ "" :=
    Statement.filled_emitAll_ne duo.present fun span name member =>
      absurd member (duo.closed span name)
  have first : Inlines (duoProject outer inner) "/p.as"
      (.ok (filled (fun _ => filled (fun _ => "") program'.emit) program.emit)) := by
    refine .loaded duo.first (inlinesAll_filled fun span name member => ⟨?_, present⟩)
    cases duo.only span name member
    exact pair_targets.1 ▸ second
  apply Complete.compile_eq
  · rw [duo_absolute]
    exact duo.complete
  · rw [duo_absolute]
    exact duo.writable
  · rw [duo_absolute]
    exact first

theorem flattens_second (duo : Duo outer inner program program') :
    Flattens (duoProject outer inner) "/q.as" (lastFlat program') :=
  @Flattens.loaded _ _ _ (fun _ => ⟨default, []⟩) duo.second fun span name member =>
    absurd member (duo.closed span name)

theorem flattens (duo : Duo outer inner program program') :
    Flattens (duoProject outer inner) "/p.as" (duoFlat program program') := by
  refine @Flattens.loaded _ _ _ (fun _ => lastFlat program') duo.first fun span name member => ?_
  cases duo.only span name member
  exact pair_targets.1 ▸ duo.flattens_second

end Duo

def twiceText : String := "import(\"q.as\"); function f() import(\"q.as\");"

def twoText : String := "let x = true; let y = false;"

def twiceProgram : Program :=
  ⟨⟨⟨1, 1⟩, ⟨1, 44⟩⟩, [.importFile ⟨⟨1, 1⟩, ⟨1, 15⟩⟩ "q.as",
    .function ⟨⟨1, 17⟩, ⟨1, 44⟩⟩ "f" [] (.importFile ⟨⟨1, 30⟩, ⟨1, 44⟩⟩ "q.as")]⟩

def twoProgram : Program :=
  ⟨⟨⟨1, 1⟩, ⟨1, 28⟩⟩, [.declare ⟨⟨1, 1⟩, ⟨1, 13⟩⟩ "x" (.literal (.point ⟨1, 9⟩) (.boolean true)),
    .declare ⟨⟨1, 15⟩, ⟨1, 28⟩⟩ "y" (.literal (.point ⟨1, 23⟩) (.boolean false))]⟩

def twiceCode : String :=
  "let x = true;\nlet y = false;\nfunction f() \x7b\nlet x = true;\nlet y = false;\n\x7d"

private theorem twice_parsed (file : Option String) :
    Program.ofSource twiceText file = .ok twiceProgram := by
  have tokens : TokenStream.ofSource twiceText = .ok
      ⟨[⟨.keyword .importWord, ⟨1, 1⟩⟩, ⟨.symbol .leftParen, ⟨1, 7⟩⟩, ⟨.string "q.as", ⟨1, 8⟩⟩,
        ⟨.symbol .rightParen, ⟨1, 14⟩⟩, ⟨.symbol .semicolon, ⟨1, 15⟩⟩,
        ⟨.keyword .functionWord, ⟨1, 17⟩⟩, ⟨.identifier "f", ⟨1, 26⟩⟩, ⟨.symbol .leftParen, ⟨1, 27⟩⟩,
        ⟨.symbol .rightParen, ⟨1, 28⟩⟩, ⟨.keyword .importWord, ⟨1, 30⟩⟩,
        ⟨.symbol .leftParen, ⟨1, 36⟩⟩, ⟨.string "q.as", ⟨1, 37⟩⟩, ⟨.symbol .rightParen, ⟨1, 43⟩⟩,
        ⟨.symbol .semicolon, ⟨1, 44⟩⟩], ⟨1, 45⟩⟩ := by decide +kernel
  simp [Program.ofSource, tokens, Program.ofStream, parseProgram, parseStatements, parseStatement,
    expectSymbol, expectString, expectIdentifier, parseParameters, bind, Except.bind, pure,
    Except.pure, twiceProgram]

theorem two_parsed (file : Option String) : Program.ofSource twoText file = .ok twoProgram := by
  have tokens : TokenStream.ofSource twoText = .ok
      ⟨[⟨.keyword .letWord, ⟨1, 1⟩⟩, ⟨.identifier "x", ⟨1, 5⟩⟩, ⟨.symbol .assign, ⟨1, 7⟩⟩,
        ⟨.boolean true, ⟨1, 9⟩⟩, ⟨.symbol .semicolon, ⟨1, 13⟩⟩, ⟨.keyword .letWord, ⟨1, 15⟩⟩,
        ⟨.identifier "y", ⟨1, 19⟩⟩, ⟨.symbol .assign, ⟨1, 21⟩⟩, ⟨.boolean false, ⟨1, 23⟩⟩,
        ⟨.symbol .semicolon, ⟨1, 28⟩⟩], ⟨1, 29⟩⟩ := by decide +kernel
  simp [Program.ofSource, tokens, Program.ofStream, parseProgram, parseStatements, parseStatement,
    expectSymbol, expectIdentifier, parseExpression, tierCount, parseTiers, parsePrimary, parseChain,
    infixOf?, bind, Except.bind, pure, Except.pure, twoProgram]

theorem duo_twice : Duo twiceText twoText twiceProgram twoProgram := by
  obtain ⟨first, second⟩ := @duo_read twiceText twoText (by decide) (by decide)
  refine ⟨SourceFile.load_eq first (twice_parsed _), SourceFile.load_eq second (two_parsed _), ?_, ?_,
    List.cons_ne_nil _ _⟩
  · intro span name member
    simp [twiceProgram, Program.emit, Statement.emitAll, Statement.emit, Statement.isBlock,
      braced] at member
    rcases member with ⟨_, same⟩ | ⟨_, same⟩ <;> exact same
  · intro span name member
    simp [twoProgram, Program.emit, Statement.emitAll, Statement.emit] at member

/-- The statements of the second file come twice, once as they are and once as a body. -/
theorem compile_flattens_twice :
    Complete (pairSettings "out") (duoProject twiceText twoText) ["/p.as"] ∧
    Statement.loneAll twiceProgram.body ++ Statement.loneAll twoProgram.body = [] ∧
    ((compile (pairSettings "out") "p.as").run.run (.fresh (duoProject twiceText twoText))).1 =
      .ok twiceCode := by
  have complete := duo_twice.complete
  have placed : ∀ file program, Reachable (duoProject twiceText twoText) ["/p.as"] file →
      SourceFile.load (duoProject twiceText twoText) file = .ok program →
        Statement.loneAll program.body = [] := by
    intro file program reachable load
    rcases duo_twice.reachable reachable with rfl | rfl
    · cases duo_twice.first.symm.trans load
      rfl
    · cases duo_twice.second.symm.trans load
      rfl
  have absolute := duo_absolute twiceText twoText
  obtain ⟨flat, code, exactly, emitted, _, returned⟩ := @compile_flattens (pairSettings "out")
    (duoProject twiceText twoText) "p.as" (absolute ▸ complete) (absolute ▸ placed)
  obtain rfl := (exactly _).mp (absolute ▸ duo_twice.flattens)
  have text : (duoFlat twiceProgram twoProgram).emitStandalone none = .ok twiceCode := by rfl
  cases emitted.symm.trans text
  exact ⟨complete, rfl, returned (absolute ▸ duo_twice.writable)⟩

end ScriptKit.Build
