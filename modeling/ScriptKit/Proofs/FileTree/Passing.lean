import Mathlib.Data.List.TakeWhile
import ScriptKit.Proofs.FileTree.Lookup

/-!
The places that a path passes, from the root to where it leads. They are told by the parts that lead
on: dots and empty parts go nowhere. A path is cut into its last part and what stands above it, and
passes what that passes and one place more.
-/
namespace ScriptKit

namespace Path

private theorem parts_slashed (path : List Char) (count : Nat) :
    parts (path ++ List.replicate count '/') = parts path ++ List.replicate count [] := by
  cases count with
  | zero => simp
  | succ count =>
    have rest := parts_slashes count []
    rw [List.append_nil] at rest
    rw [List.replicate_succ, parts_append, rest]
    simp [parts, List.replicate_succ']

/-- The last part stands after the last slash. -/
theorem parts_cut (path : List Char) :
    ∃ front, parts path = front ++ [baseChars path] ∧
      front.filter (fun part => part ≠ [] ∧ part ≠ ['.']) = names (headChars path) := by
  have whole := headChars_append_baseChars path
  have single := parts_eq_singleton (slash_not_mem_baseChars path)
  cases turned : path.reverse.dropWhile (· != '/') with
  | nil =>
    have head : headChars path = [] := by rw [headChars, turned, List.reverse_nil]
    rw [head, List.nil_append] at whole
    refine ⟨[], ?_, ?_⟩
    · rw [whole] at single ⊢
      exact single
    · rw [head]
      rfl
  | cons char rest =>
    have slash : char = '/' := by
      have first := List.head?_dropWhile_not (p := (· != '/')) path.reverse
      rw [turned] at first
      simpa using first
    subst slash
    have head : headChars path = rest.reverse ++ ['/'] := by
      rw [headChars, turned, List.reverse_cons]
    refine ⟨parts rest.reverse, ?_, ?_⟩
    · rw [← single, ← parts_append, List.append_cons, ← head, whole]
    · rw [head]
      exact (names_slashed rest.reverse 1).symm

theorem baseChars_slash (front more : List Char) :
    baseChars (front ++ '/' :: more) = baseChars more := by
  obtain ⟨one, first, _⟩ := parts_cut (front ++ '/' :: more)
  obtain ⟨two, second, _⟩ := parts_cut more
  rw [parts_append, second, ← List.append_assoc] at first
  exact (List.cons.inj (List.append_inj' first rfl).2).1.symm

/-- What a directory puts before the paths that are seen from it. A slash at its end is not doubled. -/
theorem join_relative (rooted : isAbsolute base = true) :
    ∃ front, (base.toList = front ∧ front.getLast? ≠ some '/' ∨ base.toList = front ++ ['/']) ∧
      ∀ path, isAbsolute path = false → (join base path).toList = front ++ '/' :: path.toList := by
  have nonempty : base ≠ "" := by
    rintro rfl
    cases rooted
  by_cases ends : base.toList.getLast? = some '/'
  · obtain ⟨before, same⟩ := List.getLast?_eq_some_iff.mp ends
    refine ⟨before, .inr same, fun path relative => ?_⟩
    have joined : join base path = base ++ path := by simp [join, relative, ends]
    rw [joined, String.toList_append, same, List.append_assoc]
    rfl
  · refine ⟨base.toList, .inl ⟨rfl, ends⟩, fun path relative => ?_⟩
    have joined : join base path = base ++ "/" ++ path := by simp [join, relative, ends, nonempty]
    rw [joined, String.toList_append, String.toList_append, List.append_assoc]
    rfl

theorem directory_prefix (path : String) : (directory path).toList <+: path.toList := by
  have head : headChars path.toList <+: path.toList :=
    ⟨_, headChars_append_baseChars path.toList⟩
  have trimmed : ((headChars path.toList).reverse.dropWhile (· == '/')).reverse <+:
      headChars path.toList := by
    have suffix := List.dropWhile_suffix (· == '/') (l := (headChars path.toList).reverse)
    simpa using List.reverse_prefix.mpr suffix
  unfold directory
  rw [String.toList_ofList]
  split
  · exact head
  · exact trimmed.trans head

theorem utf8ByteSize_le_of_prefix {front path : String} (within : front.toList <+: path.toList) :
    front.utf8ByteSize ≤ path.utf8ByteSize := by
  obtain ⟨rest, same⟩ := within
  have whole : path = front ++ String.ofList rest := by
    apply String.toList_injective
    rw [String.toList_append, String.toList_ofList, same]
  rw [whole, String.utf8ByteSize_append]
  exact Nat.le_add_right _ _

private theorem directory_length_le (path : String) :
    (directory path).length + (baseName path).length ≤ path.length := by
  have whole := congrArg List.length (headChars_append_baseChars path.toList)
  have trimmed := (List.dropWhile_sublist (· == '/') (l := (headChars path.toList).reverse)).length_le
  rw [List.length_append] at whole
  rw [List.length_reverse] at trimmed
  unfold directory baseName
  rw [← String.length_toList, ← String.length_toList, ← String.length_toList, String.toList_ofList,
    String.toList_ofList]
  split
  · omega
  · rw [List.length_reverse]
    omega

/-- A path that ends in a slash is its directory with slashes after it. -/
theorem directory_slashed (ends : baseName path = "") :
    ∃ count, path.toList = (directory path).toList ++ List.replicate count '/' ∧
      (baseName (directory path) = "" → (directory path).toList = List.replicate
        (directory path).toList.length '/') := by
  have base : baseChars path.toList = [] := by
    simpa [baseName] using congrArg String.toList ends
  have whole := headChars_append_baseChars path.toList
  rw [base, List.append_nil] at whole
  have cut := List.takeWhile_append_dropWhile (p := (· == '/')) (l := path.toList.reverse)
  have slashes : ∀ char ∈ path.toList.reverse.takeWhile (· == '/'), char = '/' := by
    intro char member
    simpa using List.all_eq_true.mp List.all_takeWhile char member
  have front : (directory path).toList =
      if (path.toList.reverse.dropWhile (· == '/')).reverse.isEmpty then path.toList
      else (path.toList.reverse.dropWhile (· == '/')).reverse := by
    rw [directory, String.toList_ofList, whole]
  cases turned : path.toList.reverse.dropWhile (· == '/') with
  | nil =>
    rw [turned] at cut front
    rw [List.append_nil] at cut
    rw [cut] at slashes
    refine ⟨0, front.symm.trans (List.append_nil _).symm, fun _ => ?_⟩
    refine List.eq_replicate_iff.mpr ⟨rfl, fun char member => slashes char ?_⟩
    rw [front] at member
    exact List.mem_reverse.mpr member
  | cons last rest =>
    rw [turned] at cut front
    rw [if_neg (by simp)] at front
    refine ⟨(path.toList.reverse.takeWhile (· == '/')).length, ?_, ?_⟩
    · have reversed := congrArg List.reverse cut
      rw [List.reverse_append, List.reverse_reverse, List.eq_replicate_iff.mpr ⟨rfl, slashes⟩,
        List.reverse_replicate] at reversed
      rw [front]
      exact reversed.symm
    · have other : last ≠ '/' := by
        have first := List.head?_dropWhile_not (p := (· == '/')) path.toList.reverse
        rw [turned] at first
        simpa using first
      intro none
      have none := congrArg String.toList none
      rw [baseName, String.toList_ofList, front, baseChars, List.reverse_reverse] at none
      simp [other] at none

end Path

namespace FileTree

/-- The parts that lead somewhere: neither empty nor a dot. -/
def leading (parts : List String) : List String :=
  parts.filter fun part => part ≠ "" ∧ part ≠ "."

theorem leading_append (parts more : List String) :
    leading (parts ++ more) = leading parts ++ leading more :=
  List.filter_append parts more

private theorem leading_map_ofList (parts : List (List Char)) :
    leading (parts.map String.ofList) =
      (parts.filter fun part => part ≠ [] ∧ part ≠ ['.']).map String.ofList := by
  have alike (part : List Char) : (String.ofList part ≠ "" ∧ String.ofList part ≠ ".") ↔
      (part ≠ [] ∧ part ≠ ['.']) := by
    simp [← String.toList_inj]
  rw [leading, List.filter_map]
  congr 2
  funext part
  simp only [Function.comp, alike]

theorem leading_pathParts (path : String) :
    leading (pathParts path) = (Path.names path.toList).map String.ofList :=
  leading_map_ofList _

theorem leading_blank (blank : ∀ part ∈ parts, part = "") : leading parts = [] := by
  refine List.filter_eq_nil_iff.mpr fun part member => ?_
  simp [blank part member]

theorem follow_leading (place : Location) (parts : List String) :
    follow place (leading parts) = follow place parts := by
  induction parts generalizing place with
  | nil => rfl
  | cons part rest ih =>
    by_cases leads : part ≠ "" ∧ part ≠ "."
    · rw [leading, List.filter_cons_of_pos (by simpa using leads)]
      exact ih (advance place part)
    · have stays : advance place part = place := if_pos (by grind)
      rw [leading, List.filter_cons_of_neg (by simpa using leads)]
      refine (ih place).trans ?_
      rw [follow, follow, List.foldl_cons, stays]

theorem pathParts_cut (path : String) :
    ∃ front, pathParts path = front ++ [Path.baseName path] ∧
      leading front = leading (pathParts (Path.directory path)) := by
  obtain ⟨front, parts, named⟩ := Path.parts_cut path.toList
  refine ⟨front.map String.ofList, ?_, ?_⟩
  · rw [pathParts, parts, List.map_append]
    rfl
  · rw [leading_map_ofList, leading_pathParts, Path.names_directory, named]

/-- The last part of a path, what stands before it, and slashes after it. -/
structure Ends (path : String) (front : List String) (name : String) (blanks : List String) :
    Prop where
  parts : pathParts path = front ++ name :: blanks
  named : name ≠ ""
  blank : ∀ part ∈ blanks, part = ""

theorem pathParts_split (path : String) :
    ((splitPath path).2 = "" ∧ ∀ part ∈ pathParts path, part = "") ∨
      ∃ front blanks, Ends path front (splitPath path).2 blanks ∧
        leading front = leading (pathParts (splitPath path).1) := by
  unfold splitPath
  by_cases ends : Path.baseName path = ""
  · rw [if_pos ends]
    obtain ⟨count, spelled, slashes⟩ := Path.directory_slashed ends
    have parts : pathParts path = pathParts (Path.directory path) ++ List.replicate count "" := by
      rw [pathParts, spelled, Path.parts_slashed, List.map_append, List.map_replicate]
      rfl
    obtain ⟨front, cut, same⟩ := pathParts_cut (Path.directory path)
    by_cases none : Path.baseName (Path.directory path) = ""
    · refine .inl ⟨none, fun part member => ?_⟩
      have all : pathParts (Path.directory path) =
          List.replicate ((Path.directory path).toList.length + 1) "" := by
        have rest := Path.parts_slashes (Path.directory path).toList.length []
        rw [List.append_nil, ← slashes none] at rest
        rw [pathParts, rest, List.map_append, List.map_replicate, List.replicate_succ']
        rfl
      rw [parts, all] at member
      rcases List.mem_append.mp member with member | member <;> exact List.eq_of_mem_replicate member
    · refine .inr ⟨front, List.replicate count "", ⟨?_, none, ?_⟩, same⟩
      · rw [parts, cut, List.append_assoc]
        rfl
      · exact fun part member => List.eq_of_mem_replicate member
  · rw [if_neg ends]
    obtain ⟨front, cut, same⟩ := pathParts_cut path
    exact .inr ⟨front, [], ⟨cut, ends, List.forall_mem_nil _⟩, same⟩

theorem leading_cut (path : String) :
    leading (pathParts path) =
      leading (pathParts (Path.directory path)) ++ leading [Path.baseName path] := by
  obtain ⟨front, cut, same⟩ := pathParts_cut path
  rw [cut, leading_append, same]

theorem leading_split (path : String) :
    leading (pathParts path) =
      leading (pathParts (splitPath path).1) ++ leading [(splitPath path).2] := by
  unfold splitPath
  by_cases ends : Path.baseName path = ""
  · rw [if_pos ends, leading_cut path, ends, ← leading_cut (Path.directory path)]
    exact List.append_nil _
  · rw [if_neg ends]
    exact leading_cut path

theorem leading_split_prefix (path : String) :
    leading (pathParts (splitPath path).1) <+: leading (pathParts (Path.directory path)) := by
  unfold splitPath
  by_cases ends : Path.baseName path = ""
  · rw [if_pos ends, leading_cut (Path.directory path)]
    exact List.prefix_append _ _
  · simp [ends]

theorem splitPath_length (named : (splitPath path).2 ≠ "") :
    (splitPath path).1.length < path.length := by
  have first := Path.directory_length_le path
  have second := Path.directory_length_le (Path.directory path)
  have positive {text : String} (nonempty : text ≠ "") : 0 < text.length := by
    rw [← String.length_toList]
    exact List.length_pos_iff.mpr (by simpa using nonempty)
  unfold splitPath at named ⊢
  split
  · rename_i ends
    rw [if_pos ends] at named
    have : 0 < (Path.baseName (Path.directory path)).length := positive named
    dsimp only
    omega
  · rename_i ends
    have := positive ends
    dsimp only
    omega

theorem splitPath_prefix (path : String) : (splitPath path).1.toList <+: path.toList := by
  unfold splitPath
  split
  · exact (Path.directory_prefix _).trans (Path.directory_prefix path)
  · exact Path.directory_prefix path

/-- The places that a path passes, from the root to where it leads. -/
def Passes (path : String) (place : Location) : Prop :=
  ∃ list, list <+: leading (pathParts path) ∧ follow [] list = place

theorem passes_location (path : String) : Passes path (location path) :=
  ⟨leading (pathParts path), List.prefix_rfl, follow_leading [] _⟩

theorem Passes.of_split (passes : Passes (splitPath path).1 place) : Passes path place := by
  obtain ⟨list, front, same⟩ := passes
  refine ⟨list, front.trans ?_, same⟩
  rw [leading_split path]
  exact List.prefix_append _ _

theorem location_split (path : String) :
    location path = advance (location (splitPath path).1) (splitPath path).2 := by
  rw [location, ← follow_leading, leading_split, follow_append, follow_leading, follow_leading]
  rfl

theorem Passes.split (passes : Passes path place) :
    Passes (splitPath path).1 place ∨ place = location path := by
  obtain ⟨list, front, rfl⟩ := passes
  have place : location path = follow [] (leading (pathParts path)) := (follow_leading [] _).symm
  rw [place]
  rw [leading_split] at front ⊢
  by_cases leads : (splitPath path).2 ≠ "" ∧ (splitPath path).2 ≠ "."
  · have single : leading [(splitPath path).2] = [(splitPath path).2] :=
      List.filter_cons_of_pos (by simpa using leads)
    rw [single] at front ⊢
    rcases List.prefix_concat_iff.mp front with whole | front
    · exact .inr (congrArg _ whole)
    · exact .inl ⟨list, front, rfl⟩
  · have none : leading [(splitPath path).2] = [] := List.filter_cons_of_neg (by simpa using leads)
    rw [none, List.append_nil] at front
    exact .inl ⟨list, front, rfl⟩

/-- Parts lead somewhere if they pass nothing but directories. -/
theorem walk_passing {tree : FileTree}
    (passing : ∀ list, list <+: leading parts → tree.get? (follow start list) = some .directory)
    (short : ∀ part ∈ leading parts, part.utf8ByteSize ≤ nameLimit) :
    tree.walk start parts = .ok (follow start parts) := by
  induction parts generalizing start with
  | nil => rfl
  | cons part rest ih =>
    have here := passing [] List.nil_prefix
    rw [walk_cons]
    by_cases leads : part ≠ "" ∧ part ≠ "."
    · have cut : leading (part :: rest) = part :: leading rest :=
        List.filter_cons_of_pos (by simpa using leads)
      rw [cut] at passing short
      have next := passing [part] ⟨leading rest, rfl⟩
      refine bind_eq_ok.mpr ⟨advance start part, step_eq_ok.mpr ⟨here, rfl, fun _ => ?_⟩, ?_⟩
      · exact ⟨short part List.mem_cons_self, _, next⟩
      · refine ih (fun list front => ?_) fun other member =>
          short other (List.mem_cons_of_mem part member)
        exact passing (part :: list) (List.cons_prefix_cons.mpr ⟨rfl, front⟩)
    · have cut : leading (part :: rest) = leading rest :=
        List.filter_cons_of_neg (by simpa using leads)
      have stays : advance start part = start := if_pos (by grind)
      rw [cut] at passing short
      refine bind_eq_ok.mpr ⟨start, step_eq_ok.mpr ⟨here, stays.symm, fun names => ?_⟩, ?_⟩
      · exact absurd ⟨names.1, names.2.1⟩ leads
      · rw [ih passing short, follow, follow, List.foldl_cons, stays]

/-- Parts that lead somewhere pass directories on the way. -/
theorem passing_of_walk {tree : FileTree} (walked : tree.walk start parts = .ok reached)
    (front : list <+: leading parts) (before : list ≠ leading parts) :
    tree.get? (follow start list) = some .directory := by
  induction parts generalizing start list with
  | nil => exact absurd (List.prefix_nil.mp front) before
  | cons part rest ih =>
    rw [walk_cons] at walked
    obtain ⟨next, stepped, walked⟩ := bind_eq_ok.mp walked
    obtain ⟨here, rfl, _⟩ := step_eq_ok.mp stepped
    by_cases leads : part ≠ "" ∧ part ≠ "."
    · have cut : leading (part :: rest) = part :: leading rest :=
        List.filter_cons_of_pos (by simpa using leads)
      rw [cut] at front before
      cases list with
      | nil => exact here
      | cons first list =>
        obtain ⟨rfl, further⟩ := List.cons_prefix_cons.mp front
        have next := ih walked further fun same => before (congrArg _ same)
        exact next
    · have cut : leading (part :: rest) = leading rest :=
        List.filter_cons_of_neg (by simpa using leads)
      have stays : advance start part = start := if_pos (by grind)
      rw [cut] at front before
      rw [stays] at walked
      exact ih walked front before

/-- What is above a place that parts pass is passed as well. -/
theorem exists_follow_dropLast (parts : List String) :
    ∃ list, list <+: parts ∧ follow [] list = (follow [] parts).dropLast := by
  induction bound : parts.length using Nat.strongRecOn generalizing parts with
  | _ length ih =>
  subst bound
  rcases List.eq_nil_or_concat parts with rfl | ⟨parts, part, rfl⟩
  · exact ⟨[], List.prefix_rfl, rfl⟩
  rw [List.concat_eq_append] at *
  have front := List.prefix_append parts [part]
  have shorter : parts.length < (parts ++ [part]).length := by simp
  obtain ⟨list, within, above⟩ := ih _ shorter parts rfl
  have last : follow [] (parts ++ [part]) = advance (follow [] parts) part := by
    rw [follow_append]
    rfl
  rw [last]
  unfold advance
  split
  · exact ⟨list, within.trans front, above⟩
  split
  · have fewer : list.length < (parts ++ [part]).length :=
      Nat.lt_of_le_of_lt within.length_le shorter
    obtain ⟨list', within', above'⟩ := ih _ fewer list rfl
    exact ⟨list', (within'.trans within).trans front, above'.trans (congrArg List.dropLast above)⟩
  · exact ⟨parts, front, (List.dropLast_concat).symm⟩

theorem nonempty_of_ends (ends : Ends path front name blanks) : path ≠ "" := by
  rintro rfl
  have parts := ends.parts
  have single : pathParts "" = [""] := rfl
  rw [single] at parts
  cases front with
  | nil => exact ends.named (List.cons.inj parts).1.symm
  | cons first front => simp at parts

theorem checkPath_cases (nonempty : path ≠ "") :
    Usable path ∨ checkPath path = .error .nameTooLong := by
  by_cases long : pathLimit < path.utf8ByteSize
  · exact .inr (by rw [checkPath, if_neg nonempty, if_pos long])
  · exact .inl ⟨nonempty, Nat.le_of_not_lt long⟩

theorem destination_of_checkPath {tree : FileTree} (barred : checkPath path = .error error) :
    tree.destination path = .error error := by
  unfold destination
  rw [barred]
  rfl

theorem destination_of_ends {tree : FileTree} (usable : Usable path)
    (ends : Ends path front name blanks) :
    tree.destination path = tree.walk [] front >>= fun directory =>
      if tree.isDirectoryAt directory then .ok (some ⟨directory, name, !blanks.isEmpty⟩)
      else .error .notDirectory := by
  have turned : (pathParts path).reverse.dropWhile (· = "") = name :: front.reverse := by
    have blank : ∀ part ∈ blanks.reverse, decide (part = "") = true := by
      intro part member
      simpa using ends.blank part (List.mem_reverse.mp member)
    rw [ends.parts, List.reverse_append, List.reverse_cons, List.append_assoc,
      List.dropWhile_append_of_pos blank]
    simp [ends.named]
  have slashed : decide ((pathParts path).reverse.head? = some "") = !blanks.isEmpty := by
    rw [ends.parts, List.reverse_append, List.reverse_cons]
    cases turned : blanks.reverse with
    | nil => simp [List.reverse_eq_nil_iff.mp turned, ends.named]
    | cons last rest =>
      have blank : last = "" := ends.blank last (List.mem_reverse.mp (turned ▸ List.mem_cons_self))
      have some : blanks ≠ [] := by
        rintro rfl
        cases turned
      simp [blank, some]
  unfold destination
  rw [checkPath_usable usable]
  dsimp only [bind, Except.bind]
  rw [turned, slashed]
  dsimp only
  rw [List.reverse_reverse]
  rcases tree.walk [] front with error | directory
  · rfl
  · cases found : tree.isDirectoryAt directory <;>
      simp [found, pure, Except.pure, throw, throwThe, MonadExceptOf.throw]

theorem destination_of_blank {tree : FileTree} (usable : Usable path)
    (blank : ∀ part ∈ pathParts path, part = "") : tree.destination path = .ok none := by
  have turned : (pathParts path).reverse.dropWhile (· = "") = [] := by
    refine List.dropWhile_eq_nil_iff.mpr fun part member => ?_
    simpa using blank part (List.mem_reverse.mp member)
  unfold destination
  rw [checkPath_usable usable]
  dsimp only [bind, Except.bind]
  rw [turned]
  rfl

theorem exists_walk_of_contains {tree : FileTree} (found : tree.contains path = true) :
    ∃ place, tree.walk [] (pathParts path) = .ok place ∧ ∃ entry, tree.get? place = some entry := by
  unfold contains entryAt? at found
  split at found
  · cases found
  · split at found
    · rename_i place entry located
      obtain ⟨_, walked, present⟩ := locate_eq_ok.mp located
      exact ⟨place, walked, entry, present⟩
    · cases found

theorem contains_of_hasDirectory {tree : FileTree} (found : tree.hasDirectory path = true) :
    tree.contains path = true := by
  unfold hasDirectory at found
  unfold contains
  cases present : tree.entryAt? path with
  | none =>
    rw [present] at found
    cases found
  | some entry => rfl

private theorem step_missing {tree : FileTree} (missing : tree.step place part = .error .notFound) :
    Names part ∧ tree.get? (place ++ [part]) = none := by
  unfold step at missing
  split at missing
  · cases missing
  split at missing
  · cases missing
  rename_i leads
  split at missing
  · cases missing
  rename_i notUp
  split at missing
  · cases missing
  split at missing
  · rw [not_or] at leads
    exact ⟨⟨leads.1, leads.2, notUp⟩, by assumption⟩
  · cases missing

/-- Parts that do not lead on miss nothing. -/
theorem walk_missing_iff {tree : FileTree} (start : Location) (parts : List String) :
    tree.walk start parts = .error .notFound ↔ tree.walk start (leading parts) = .error .notFound := by
  induction parts generalizing start with
  | nil => exact Iff.rfl
  | cons part rest ih =>
    by_cases leads : part ≠ "" ∧ part ≠ "."
    · have cut : leading (part :: rest) = part :: leading rest :=
        List.filter_cons_of_pos (by simpa using leads)
      rw [cut, walk_cons, walk_cons]
      cases tree.step start part with
      | error error => exact Iff.rfl
      | ok next => exact ih next
    · have cut : leading (part :: rest) = leading rest :=
        List.filter_cons_of_neg (by simpa using leads)
      have stays : part = "" ∨ part = "." := by grind
      rw [cut, walk_cons, step]
      cases directory : tree.isDirectoryAt start with
      | true =>
        rw [if_pos stays]
        exact ih start
      | false =>
        constructor
        · intro missing
          cases missing
        · intro missing
          -- The first part that leads on is refused for another reason.
          cases further : leading rest with
          | nil =>
            rw [further] at missing
            cases missing
          | cons first others =>
            rw [further, walk_cons, step, directory] at missing
            cases missing

theorem walk_missing_append {tree : FileTree} (missing : tree.walk start parts = .error .notFound)
    (more : List String) : tree.walk start (parts ++ more) = .error .notFound := by
  rw [walk_append, missing]
  rfl

/-- Nothing is missing on a path, or the last part is. -/
theorem Ends.missing {tree : FileTree} (ends : Ends path front name blanks)
    (missing : tree.walk [] (leading (pathParts path)) = .error .notFound) :
    tree.walk [] front = .error .notFound ∨
      ∃ place, tree.walk [] front = .ok place ∧ Names name ∧ tree.get? (place ++ [name]) = none := by
  have whole := (walk_missing_iff [] (pathParts path)).mpr missing
  rw [ends.parts, walk_append] at whole
  rcases walked : tree.walk [] front with error | place
  · rw [walked] at whole
    cases whole
    exact .inl rfl
  · rw [walked] at whole
    refine .inr ⟨place, rfl, ?_⟩
    have last : tree.walk place [name] = .error .notFound := by
      rw [walk_missing_iff]
      have rest : tree.walk place (name :: blanks) = .error .notFound := whole
      rw [walk_missing_iff, ← List.singleton_append, leading_append, leading_blank ends.blank,
        List.append_nil] at rest
      exact rest
    rw [walk_cons] at last
    apply step_missing
    rcases stepped : tree.step place name with error | next
    · rw [stepped] at last
      cases last
      rfl
    · rw [stepped] at last
      cases last

end FileTree
end ScriptKit
