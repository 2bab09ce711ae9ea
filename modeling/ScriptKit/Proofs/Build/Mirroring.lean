import Mathlib.Data.List.TakeWhile
import ScriptKit.Build
import ScriptKit.Proofs.Path.Relative

/-!
Where outputs go. The output of a file below the project root is in the same way below the output
directory, under a name that depends on the name of the file alone. So two files share an output only if
their names do, and that happens exactly when one of them is the other with the source extension put on.
-/
namespace ScriptKit

namespace Path

/-- A name without its extension, and the extension with its dot. -/
def splitName (name : List Char) : List Char × List Char :=
  let extension := (name.reverse.takeWhile (· != '.')).reverse
  let stem := name.take (name.length - extension.length - 1)
  if extension.length < name.length ∧ stem.any (· != '.') then (stem, '.' :: extension)
  else (name, [])

/-- Only the last part of a path plays a part in its extension. -/
theorem splitExtension_eq (path : String) :
    splitExtension path =
      (String.ofList (headChars path.toList ++ (splitName (baseChars path.toList)).1),
        String.ofList (splitName (baseChars path.toList)).2) := by
  unfold splitExtension splitName
  dsimp only
  split
  · rfl
  · rw [headChars_append_baseChars, String.ofList_toList]

/-- A name is a stem and an extension, which may be nothing. If it is something, the stem has something
other than dots. -/
theorem splitName_cases (name : List Char) :
    splitName name = (name, []) ∨ ∃ stem extension, name = stem ++ '.' :: extension ∧
      (∃ char ∈ stem, char ≠ '.') ∧ splitName name = (stem, '.' :: extension) := by
  unfold splitName
  dsimp only
  split
  · rename_i found
    obtain ⟨shorter, other⟩ := found
    have cut := List.takeWhile_append_dropWhile (p := (· != '.')) (l := name.reverse)
    rcases rest : name.reverse.dropWhile (· != '.') with _ | ⟨dot, before⟩
    · rw [rest, List.append_nil] at cut
      rw [cut, List.reverse_reverse] at shorter
      exact absurd shorter (Nat.lt_irrefl _)
    · have first := List.head?_dropWhile_not (· != '.') name.reverse
      rw [rest] at first cut
      obtain rfl : dot = '.' := by simpa using first
      have whole := congrArg List.reverse cut
      rw [List.reverse_append, List.reverse_cons, List.reverse_reverse, List.append_assoc] at whole
      generalize (name.reverse.takeWhile (· != '.')).reverse = extension at *
      have stem : name.take (name.length - extension.length - 1) = before.reverse := by
        have count : name.length - extension.length - 1 = before.reverse.length := by
          simp only [← whole, List.length_append, List.length_singleton]
          omega
        rw [count, ← whole, List.take_left]
      rw [stem] at other ⊢
      exact .inr ⟨before.reverse, extension, whole.symm, by simpa using other, rfl⟩
  · exact .inl rfl

private theorem splitName_append (name : List Char) :
    (splitName name).1 ++ (splitName name).2 = name := by
  rcases splitName_cases name with same | ⟨stem, extension, whole, _, same⟩
  · rw [same, List.append_nil]
  · rw [same, whole]

private theorem stem_eq_iff (has : (splitName name).2 = extension) :
    (splitName name).1 = other ↔ name = other ++ extension := by
  have whole := splitName_append name
  rw [has] at whole
  constructor
  · rintro rfl
    exact whole.symm
  · intro same
    exact List.append_cancel_right (whole.trans same)

theorem Normal.extension_eq_iff (normal : Normal path slashes (list ++ [name])) :
    (splitExtension path).2 = extension ↔ (splitName name).2 = extension.toList := by
  rw [splitExtension_eq, normal.concat.1, ← String.toList_inj, String.toList_ofList]

theorem Name.append (named : Name name) (slashless : '/' ∉ more) : Name (name ++ more) := by
  obtain ⟨nonempty, notDot, notUp, single⟩ := named
  refine ⟨by simp [nonempty], ?_, ?_, by simp [single, slashless]⟩
  · intro same
    rcases List.append_eq_singleton_iff.mp same with ⟨empty, _⟩ | ⟨dot, _⟩
    · exact nonempty empty
    · exact notDot dot
  · refine beq_eq_false_iff_ne.mpr fun same => ?_
    rcases name with _ | ⟨first, _ | ⟨second, rest⟩⟩
    · exact nonempty rfl
    · exact notDot (by simpa using (List.cons.inj same).1)
    · obtain ⟨rfl, rfl, empty⟩ : first = '.' ∧ second = '.' ∧ rest ++ more = [] := by simpa using same
      rw [(List.append_eq_nil_iff.mp empty).1] at notUp
      cases notUp

/-- What is put on at the end of a path goes to its last name. -/
theorem Normal.append (normal : Normal path slashes (list ++ [name])) (slashless : '/' ∉ more.toList) :
    Normal (path ++ more) slashes (list ++ [name ++ more.toList]) := by
  obtain ⟨before, last⟩ := List.forall_mem_append.mp normal.named
  have named := (List.forall_mem_singleton.mp last).append slashless
  refine ⟨normal.start, List.forall_mem_append.mpr ⟨before, List.forall_mem_singleton.mpr named⟩, ?_⟩
  rw [String.toList_append, normal.spelled, joinParts_concat, joinParts_concat]
  split <;> simp

/-- A path that is another one with its own extension put on is in the same directory. -/
theorem Normal.extends_iff (one : Normal path slashes (list ++ [name]))
    (two : Normal other slashes (list' ++ [name'])) :
    (path = other ++ extension ∧ (splitExtension path).2 = extension ∧
        (splitExtension other).2 ≠ extension) ↔
      list = list' ∧ name = name' ++ extension.toList ∧ (splitName name).2 = extension.toList ∧
        (splitName name').2 ≠ extension.toList := by
  rw [one.extension_eq_iff, ne_eq, two.extension_eq_iff, ← and_assoc (b := name = _)]
  refine and_congr_left fun ⟨has, _⟩ => ?_
  have slashless : '/' ∉ extension.toList := by
    intro slash
    have whole := splitName_append name
    exact (one.named name (by simp)).single (whole ▸ List.mem_append_right _ (has ▸ slash))
  rw [one.eq_iff (two.append slashless), List.append_singleton_inj]

theorem Name.of_mem (other : ∃ char ∈ name, char ≠ '.') (single : '/' ∉ name) : Name name := by
  obtain ⟨char, member, other⟩ := other
  refine ⟨List.ne_nil_of_mem member, ?_, beq_eq_false_iff_ne.mpr ?_, single⟩
  · rintro rfl
    exact other (List.mem_singleton.mp member)
  · rintro rfl
    exact other (by simpa using member)

/-- The last name of a way down can be exchanged. -/
theorem cut_joinParts (single : '/' ∉ name) (before : List (List Char)) :
    baseChars (joinParts (before ++ [name])) = name ∧
      ∀ other, headChars (joinParts (before ++ [name])) ++ other = joinParts (before ++ [other]) := by
  simp only [joinParts_concat]
  split
  · have all : ∀ char ∈ name.reverse, (char != '/') = true := by
      intro char member
      rw [bne_iff_ne]
      rintro rfl
      exact single (List.mem_reverse.mp member)
    unfold baseChars headChars
    rw [List.takeWhile_eq_self_iff.mpr all, List.dropWhile_eq_nil_iff.mpr all]
    simp
  · obtain ⟨base, head⟩ := baseChars_append single (joinParts before)
    rw [base, head]
    simp

end Path

namespace BuildSettings

variable {settings : BuildSettings}

/-- The name of an output. -/
def mirroredName (settings : BuildSettings) (name : List Char) : List Char :=
  (if (Path.splitName name).2 = settings.sourceExtension.toList then (Path.splitName name).1
    else name) ++ settings.outputExtension.toList

theorem mirroredName_named (slashless : '/' ∉ settings.outputExtension.toList)
    (named : Path.Name name) : Path.Name (settings.mirroredName name) := by
  unfold mirroredName
  split
  · rcases Path.splitName_cases name with same | ⟨stem, extension, whole, other, same⟩
    · rw [same]
      exact named.append slashless
    · rw [same]
      have single : '/' ∉ stem := by
        intro slash
        exact named.single (whole ▸ List.mem_append_left _ slash)
      exact (Path.Name.of_mem other single).append slashless
  · exact named.append slashless

/-- An output has the name of the file exchanged on the way to it. -/
theorem outputPath_eq (relative : Path.relative path settings.projectRoot =
      String.ofList (Path.joinParts (before ++ [name]))) (single : '/' ∉ name) :
    settings.outputPath path = Path.join settings.outDir
      (String.ofList (Path.joinParts (before ++ [settings.mirroredName name]))) := by
  obtain ⟨base, change⟩ := Path.cut_joinParts single before
  unfold outputPath
  rw [relative]
  dsimp only
  rw [Path.splitExtension_eq, String.toList_ofList, base]
  refine congrArg (Path.join settings.outDir) ?_
  apply String.toList_injective
  rw [String.toList_append, String.toList_ofList]
  unfold mirroredName
  simp only [← String.toList_inj, String.toList_ofList]
  split
  · rw [String.toList_ofList, List.append_assoc]
    exact change _
  · rw [String.toList_ofList, ← change (name ++ _), ← List.append_assoc, change name]

section
variable {root out : List (List Char)}

/-- The output of a file in a directory below the root is in the same directory below the output
directory. -/
theorem outputPath_normal (start : Path.Normal settings.projectRoot slashes root)
    (target : Path.Normal settings.outDir slashes' out)
    (slashless : '/' ∉ settings.outputExtension.toList)
    (normal : Path.Normal path count (root ++ (directory ++ [name]))) :
    Path.Normal (settings.outputPath path) slashes'
      (out ++ (directory ++ [settings.mirroredName name])) := by
  obtain ⟨before, last⟩ := List.forall_mem_append.mp (List.forall_mem_append.mp normal.named).2
  have named := List.forall_mem_singleton.mp last
  have relative : Path.relative path settings.projectRoot =
      String.ofList (Path.joinParts (directory ++ [name])) := by
    rw [start.relative_eq normal, if_neg (by simp)]
  rw [outputPath_eq relative named.single]
  refine target.join (List.forall_mem_append.mpr ⟨before, List.forall_mem_singleton.mpr ?_⟩) (by simp)
  exact mirroredName_named slashless named

/-- Different names become one only if one of them is the other with the source extension put on, and
the other does not have that extension already. -/
theorem mirroredName_eq_iff (distinct : name ≠ name') :
    settings.mirroredName name = settings.mirroredName name' ↔
      (name = name' ++ settings.sourceExtension.toList ∧
        (Path.splitName name).2 = settings.sourceExtension.toList ∧
        (Path.splitName name').2 ≠ settings.sourceExtension.toList) ∨
      (name' = name ++ settings.sourceExtension.toList ∧
        (Path.splitName name').2 = settings.sourceExtension.toList ∧
        (Path.splitName name).2 ≠ settings.sourceExtension.toList) := by
  unfold mirroredName
  rw [List.append_left_inj]
  by_cases has : (Path.splitName name).2 = settings.sourceExtension.toList
  · by_cases has' : (Path.splitName name').2 = settings.sourceExtension.toList
    · have apart : (Path.splitName name).1 ≠ (Path.splitName name').1 := by
        intro same
        have whole := (Path.stem_eq_iff has).mp same
        exact distinct (whole.trans ((Path.stem_eq_iff has').mp rfl).symm)
      simp [has, has', apart]
    · simp [has, has', Path.stem_eq_iff has]
  · by_cases has' : (Path.splitName name').2 = settings.sourceExtension.toList
    · simp [has, has', eq_comm (a := name), Path.stem_eq_iff has']
    · simp [has, has', distinct]

/-- Of two different files below the root, each has its output in the same directory below the output
directory as it is in below the root; and the outputs are one exactly if one of the files is the other
with the source extension put on, which is then its extension, and not that of the other. -/
theorem outputPath_mirrors (start : Path.Normal settings.projectRoot slashes root)
    (target : Path.Normal settings.outDir slashes' out)
    (slashless : '/' ∉ settings.outputExtension.toList)
    (first : Path.Normal path 1 (root ++ below)) (second : Path.Normal other 1 (root ++ below'))
    (inside : below ≠ []) (inside' : below' ≠ []) (distinct : path ≠ other) :
    (∃ directory name name', below = directory ++ [name] ∧
      Path.Normal (settings.outputPath path) slashes' (out ++ (directory ++ [name']))) ∧
    Path.relative (Path.directory (settings.outputPath path)) settings.outDir =
      Path.relative (Path.directory path) settings.projectRoot ∧
    (settings.outputPath path = settings.outputPath other ↔
      (path = other ++ settings.sourceExtension ∧
        (Path.splitExtension path).2 = settings.sourceExtension ∧
        (Path.splitExtension other).2 ≠ settings.sourceExtension) ∨
      (other = path ++ settings.sourceExtension ∧
        (Path.splitExtension other).2 = settings.sourceExtension ∧
        (Path.splitExtension path).2 ≠ settings.sourceExtension)) := by
  rcases List.eq_nil_or_concat below with rfl | ⟨directory, name, rfl⟩
  · exact absurd rfl inside
  rcases List.eq_nil_or_concat below' with rfl | ⟨directory', name', rfl⟩
  · exact absurd rfl inside'
  simp only [List.concat_eq_append] at first second ⊢
  have output := outputPath_normal start target slashless first
  have output' := outputPath_normal start target slashless second
  refine ⟨⟨directory, name, _, rfl, output⟩, ?_, ?_⟩
  · rw [← List.append_assoc] at first output
    rw [target.relative_eq output.directory, start.relative_eq first.directory]
  · rw [← List.append_assoc] at first second
    rw [first.extends_iff second, second.extends_iff first, output.eq_iff output',
      List.append_cancel_left_eq, List.append_cancel_left_eq, List.append_cancel_left_eq,
      List.append_singleton_inj]
    by_cases same : directory = directory'
    · subst same
      have apart : name ≠ name' := by
        rintro rfl
        exact distinct (first.unique second)
      simpa using mirroredName_eq_iff apart
    · simp [same, Ne.symm same]

/-- Two hidden files, one of them without an extension, in a directory that has a dot in its name. -/
theorem outputPath_mirrors_hidden :
    Path.Normal "/work/src" 1 ["work".toList, "src".toList] ∧
    Path.Normal "//dist" 2 ["dist".toList] ∧
    Path.Normal "/work/src/lib.d/.a.as" 1
      (["work".toList, "src".toList] ++ ["lib.d".toList, ".a.as".toList]) ∧
    Path.Normal "/work/src/lib.d/.a" 1
      (["work".toList, "src".toList] ++ ["lib.d".toList, ".a".toList]) ∧
    (BuildSettings.mk "/work/src" "//dist" ".as" ".js" false).outputPath "/work/src/lib.d/.a.as" =
      (BuildSettings.mk "/work/src" "//dist" ".as" ".js" false).outputPath "/work/src/lib.d/.a" := by
  have start : Path.Normal "/work/src" 1 ["work".toList, "src".toList] := by decide
  have target : Path.Normal "//dist" 2 ["dist".toList] := by decide
  have first : Path.Normal "/work/src/lib.d/.a.as" 1
    (["work".toList, "src".toList] ++ ["lib.d".toList, ".a.as".toList]) := by decide
  have second : Path.Normal "/work/src/lib.d/.a" 1
    (["work".toList, "src".toList] ++ ["lib.d".toList, ".a".toList]) := by decide
  refine ⟨start, target, first, second, Iff.mpr (And.right (And.right
    (outputPath_mirrors start target ?_ first second ?_ ?_ ?_))) ?_⟩ <;> decide

end

end BuildSettings

end ScriptKit
