import ScriptKit.Proofs.FileTree.Listing

/-!
Going down from a directory. The names below a directory, put after any path to it, lead to what is
there; and the absolute form of such a path has the names on the way from the root of the tree, whatever
steps up there are in the path to the directory.
-/
namespace ScriptKit

namespace Path

private theorem leadingSlashes_append (nonempty : path ≠ []) (other : more.head? ≠ some '/') :
    leadingSlashes (path ++ more) = leadingSlashes path := by
  fun_cases leadingSlashes path with
  | case1 rest => rfl
  | case2 rest _ | case3 rest _ => cases rest <;> cases more <;> simp_all [leadingSlashes]
  | case4 => cases path <;> simp_all [leadingSlashes]

theorem isAbsolute_name (named : Name name.toList) : isAbsolute name = false := by
  refine beq_eq_false_iff_ne.mpr fun slash => ?_
  exact named.single (List.mem_of_head? slash)

theorem names_name (named : Name name) : names name = [name] :=
  @names_joinParts [name] (by simpa using named)

theorem leadingSlashes_join (rooted : isAbsolute base = true) (named : Name name.toList) :
    leadingSlashes (join base name).toList = leadingSlashes base.toList := by
  have relative := isAbsolute_name named
  have first : base.toList.head? = some '/' := eq_of_beq rooted
  obtain ⟨front, shape, joined⟩ := join_relative rooted
  rw [joined name relative]
  rcases shape with ⟨same, ends⟩ | same
  -- The last character is no slash, so the slashes at the start end before the one that is put in.
  · rw [same] at first ⊢
    obtain ⟨before, last, rfl⟩ : ∃ before last, front = before ++ [last] := by
      rcases List.eq_nil_or_concat front with rfl | ⟨before, last, rfl⟩
      · cases first
      · exact ⟨before, last, List.concat_eq_append⟩
    have other : last ≠ '/' := fun slash => ends (by rw [slash, List.getLast?_concat])
    have nonempty : before ≠ [] := by
      rintro rfl
      exact other (Option.some.inj first)
    have apart (rest : List Char) : (last :: rest).head? ≠ some '/' := fun slash =>
      other (Option.some.inj slash)
    rw [List.append_assoc, List.singleton_append, leadingSlashes_append nonempty (apart _),
      leadingSlashes_append nonempty (apart _)]
  · rw [same, List.append_cons]
    exact leadingSlashes_append (by simp) (beq_eq_false_iff_ne.mp relative)

theorem ne_empty_of_isAbsolute (rooted : isAbsolute path = true) : path ≠ "" := by
  rintro rfl
  cases rooted

theorem isAbsolute_descend (rooted : isAbsolute root = true) (way : Location) :
    isAbsolute (descend root way) = true := by
  induction way generalizing root with
  | nil => exact rooted
  | cons name rest ih => exact ih (isAbsolute_join rooted name)

end Path

namespace FileTree

/-- Where names and steps up lead is what is left once each step up has cancelled a name. -/
theorem follow_resolveUps {kept list : List (List Char)}
    (straight : ∀ part ∈ kept, Path.isUp part = false)
    (leads : ∀ part ∈ list, part ≠ [] ∧ part ≠ ['.']) :
    follow (kept.reverse.map String.ofList) (list.map String.ofList) =
      (Path.resolveUps true kept list).map String.ofList := by
  induction list generalizing kept with
  | nil => rfl
  | cons part rest ih =>
    obtain ⟨⟨nonempty, notDot⟩, leads⟩ := List.forall_mem_cons.mp leads
    have stays : ¬ (String.ofList part = "" ∨ String.ofList part = ".") := by
      simpa [← String.toList_inj] using ⟨nonempty, notDot⟩
    rw [List.map_cons, follow, List.foldl_cons, ← follow, advance, if_neg stays]
    by_cases up : Path.isUp part
    · have above : String.ofList part = ".." := congrArg String.ofList (eq_of_beq up)
      rw [if_pos above, ← List.map_dropLast, List.dropLast_reverse]
      cases kept with
      | nil =>
        rw [Path.resolveUps, if_pos up]
        exact ih straight leads
      | cons last before =>
        obtain ⟨notUp, straight⟩ := List.forall_mem_cons.mp straight
        rw [Path.resolveUps, if_pos up]
        simp only [notUp]
        exact ih straight leads
    · have below : String.ofList part ≠ ".." := by
        simpa [← String.toList_inj, Path.isUp] using up
      rw [if_neg below, Path.resolveUps_keep (by simpa using up)]
      have next := ih
        (List.forall_mem_cons.mpr ⟨by simpa using up, straight⟩) leads
      rwa [List.reverse_cons, List.map_append] at next

private theorem location_eq (path : String) :
    location path = (Path.resolveUps true [] (Path.names path.toList)).map String.ofList := by
  rw [location, ← follow_leading, leading_pathParts]
  refine @follow_resolveUps [] _ (List.forall_mem_nil _) fun part member => ?_
  simpa using (List.mem_filter.mp member).2

/-- The path of a directory in its absolute form, with the names on the way to it. -/
theorem normal_absolute (rooted : Path.isAbsolute path = true) :
    Path.Normal (Path.absolute "/" path) (Path.leadingSlashes path.toList)
      ((location path).map String.toList) := by
  have normal := Path.normalize_normal rooted
  have spelled : (location path).map String.toList =
      Path.resolveUps true [] (Path.names path.toList) := by
    simp [location_eq, Function.comp_def]
  rw [Path.absolute, if_pos rooted, spelled]
  exact normal

private theorem location_join (rooted : Path.isAbsolute base = true) (named : EntryName name) :
    location (Path.join base name) = location base ++ [name] := by
  rw [location_eq, location_eq, Path.names_join rooted (Path.isAbsolute_name named.toName),
    Path.names_name named.toName, Path.resolveUps_concat named.toName.notUp, List.map_append,
    List.map_singleton, String.ofList_toList]

/-- The absolute form of a path that leads down from a directory. -/
theorem normal_descend (rooted : Path.isAbsolute base = true)
    (named : ∀ name ∈ way, EntryName name) :
    Path.Normal (Path.absolute "/" (Path.descend base way)) (Path.leadingSlashes base.toList)
      ((location base ++ way).map String.toList) := by
  induction way generalizing base with
  | nil =>
    rw [List.append_nil]
    exact normal_absolute rooted
  | cons name rest ih =>
    obtain ⟨first, named⟩ := List.forall_mem_cons.mp named
    have below := ih (Path.isAbsolute_join rooted name) named
    rwa [Path.leadingSlashes_join rooted first.toName, location_join rooted first,
      ← List.append_cons] at below

theorem hasNull_join (sound : hasNull base = false) (clear : hasNull name = false) :
    hasNull (Path.join base name) = false := by
  simp only [hasNull, Path.join] at sound clear ⊢
  split
  · exact clear
  · split <;> simp_all

theorem hasNull_descend (sound : hasNull base = false) (named : ∀ name ∈ way, EntryName name) :
    hasNull (Path.descend base way) = false := by
  induction way generalizing base with
  | nil => exact sound
  | cons name rest ih =>
    obtain ⟨first, named⟩ := List.forall_mem_cons.mp named
    exact ih (hasNull_join sound first.sound) named

theorem pathParts_join (rooted : Path.isAbsolute base = true) (named : Path.Name name.toList) :
    pathParts (Path.join base name) = pathParts base ++ [name] ∨
      ∃ front, pathParts base = front ++ [""] ∧ pathParts (Path.join base name) = front ++ [name] := by
  have single := Path.parts_eq_singleton named.single
  obtain ⟨front, shape, joined⟩ := Path.join_relative rooted
  have parts : pathParts (Path.join base name) = (Path.parts front).map String.ofList ++ [name] := by
    rw [pathParts, joined name (Path.isAbsolute_name named), Path.parts_append, single,
      List.map_append, List.map_singleton, String.ofList_toList]
  rcases shape with ⟨same, _⟩ | same
  · exact .inl (by rw [parts, pathParts, same])
  · refine .inr ⟨_, ?_, parts⟩
    rw [pathParts, same, Path.parts_append, List.map_append]
    rfl

variable {tree : FileTree}

theorem hasDirectory_iff : tree.hasDirectory path = true ↔
    hasNull path = false ∧ tree.locate path = .ok (location path, .directory) := by
  unfold hasDirectory entryAt?
  cases hasNull path with
  | true => simp
  | false =>
    rcases located : tree.locate path with error | ⟨place, _ | _⟩
    · simp
    · simp [Entry.isDirectory]
    · simp [Entry.isDirectory, place_of_locate located]

/-- A name after a path is one step more, from where the path leads. -/
theorem walk_join (rooted : Path.isAbsolute base = true) (named : Path.Name name.toList)
    (walked : tree.walk [] (pathParts base) = .ok place) :
    tree.walk [] (pathParts (Path.join base name)) = tree.step place name := by
  have once : tree.walk place [name] = tree.step place name := by
    rw [walk_cons]
    cases tree.step place name <;> rfl
  rcases pathParts_join rooted named with parts | ⟨front, blank, parts⟩
  · rw [parts, walk_append, walked]
    exact once
  · rw [blank, walk_append] at walked
    obtain ⟨reached, walked, stays⟩ := bind_eq_ok.mp walked
    have here : place = reached := walk_eq_follow stays
    rw [parts, walk_append, walked, ← here]
    exact once

private theorem walk_descend (proper : tree.Proper) (rooted : Path.isAbsolute base = true)
    (walked : tree.walk [] (pathParts base) = .ok place)
    (directory : tree.get? place = some .directory)
    (found : tree.get? (place ++ way) = some entry) :
    tree.walk [] (pathParts (Path.descend base way)) = .ok (place ++ way) := by
  induction way generalizing base place with
  | nil =>
    rw [List.append_nil]
    exact walked
  | cons name rest ih =>
    have named := proper.entryName found name (by simp)
    have arrives : advance place name = place ++ [name] := by
      simp [advance, named.names.1, named.names.2.1, named.names.2.2]
    have next {entry : Entry} (found : tree.get? (place ++ [name]) = some entry) :
        tree.walk [] (pathParts (Path.join base name)) = .ok (place ++ [name]) :=
      (walk_join rooted named.toName walked).trans (step_eq_ok.mpr
        ⟨directory, arrives.symm, fun _ => ⟨named.short, entry, found⟩⟩)
    rw [List.append_cons] at found ⊢
    cases rest with
    | nil =>
      rw [List.append_nil] at found ⊢
      exact next found
    | cons other others =>
      have directory := proper.standing.above found
      exact ih (Path.isAbsolute_join rooted name) (next directory) directory found

/-- The names below a directory, put after a path to it, lead to what is there, unless they make the
path too long. -/
theorem locate_descend (proper : tree.Proper) (rooted : Path.isAbsolute base = true)
    (located : tree.locate base = .ok (place, .directory))
    (found : tree.get? (place ++ way) = some entry)
    (short : (Path.descend base way).utf8ByteSize ≤ pathLimit) :
    tree.locate (Path.descend base way) = .ok (place ++ way, entry) := by
  obtain ⟨_, walked, directory⟩ := locate_eq_ok.mp located
  exact locate_eq_ok.mpr ⟨⟨Path.ne_empty_of_isAbsolute (Path.isAbsolute_descend rooted way), short⟩,
    walk_descend proper rooted walked directory found, found⟩

end FileTree

end ScriptKit
