import ScriptKit.Proofs.Path.Normal

/-!
Ways between absolute paths in normal form. The way down from a directory to what is below it is
spelled by the names in between; taken from another directory, it leads to a path in normal form again.
-/
namespace ScriptKit.Path

private theorem commonLength_append (list more : List (List Char)) :
    commonLength list (list ++ more) = list.length := by
  induction list with
  | nil => cases more <;> rfl
  | cons name list ih =>
    rw [List.cons_append, commonLength, if_pos rfl, ih, List.length_cons]

/-- Two lists agree up to their common length. -/
theorem take_commonLength (list other : List (List Char)) :
    list.take (commonLength list other) = other.take (commonLength list other) := by
  fun_induction commonLength list other with
  | case1 first rest others ih =>
    rw [List.take_succ_cons, List.take_succ_cons, ih]
  | case2 => rfl
  | case3 => rfl

theorem joinParts_append (nonempty : list ≠ []) (nonempty' : more ≠ []) :
    joinParts (list ++ more) = joinParts list ++ '/' :: joinParts more := by
  match list, more with
  | [part], first :: rest => rfl
  | part :: next :: list, first :: rest =>
    have following := joinParts_append (List.cons_ne_nil next list) nonempty'
    rw [List.cons_append, List.cons_append, joinParts, ← List.cons_append, following, joinParts]
    simp

/-- Steps up are parts of a way as names are. -/
theorem names_joinParts_ups (named : ∀ part ∈ list, Name part) (nonempty : list ≠ []) (count : Nat) :
    names (joinParts (List.replicate count ['.', '.'] ++ list)) =
      List.replicate count ['.', '.'] ++ list := by
  induction count with
  | zero => exact names_joinParts named
  | succ count ih =>
    have following : List.replicate count ['.', '.'] ++ list ≠ [] := by simp [nonempty]
    rw [List.replicate_succ, List.cons_append, ← List.singleton_append,
      joinParts_append (List.cons_ne_nil _ _) following, names_append, ih]
    rfl

/-- The last character of a way down is not a slash. -/
theorem joinParts_ends (named : ∀ part ∈ list, Name part) (nonempty : list ≠ []) :
    ∃ front char, char ≠ '/' ∧ joinParts list = front ++ [char] := by
  obtain ⟨before, name, rfl⟩ := List.eq_nil_or_concat list |>.resolve_left nonempty
  rw [List.concat_eq_append] at named ⊢
  have last := named name (by simp)
  obtain ⟨start, char, rfl⟩ := List.eq_nil_or_concat name |>.resolve_left last.nonempty
  rw [List.concat_eq_append] at last ⊢
  have other : char ≠ '/' := by
    rintro rfl
    exact last.single (by simp)
  rw [joinParts_concat]
  split
  · exact ⟨start, char, other, rfl⟩
  · exact ⟨joinParts before ++ '/' :: start, char, other, by simp⟩

instance (name : List Char) : Decidable (Name name) :=
  decidable_of_iff (name ≠ [] ∧ name ≠ ['.'] ∧ isUp name = false ∧ '/' ∉ name)
    ⟨fun ⟨nonempty, notDot, notUp, single⟩ => ⟨nonempty, notDot, notUp, single⟩,
      fun named => ⟨named.nonempty, named.notDot, named.notUp, named.single⟩⟩

instance (path : String) (slashes : Nat) (list : List (List Char)) :
    Decidable (Normal path slashes list) :=
  decidable_of_iff ((slashes = 1 ∨ slashes = 2) ∧ (∀ name ∈ list, Name name) ∧
      path.toList = List.replicate slashes '/' ++ joinParts list)
    ⟨fun ⟨start, named, spelled⟩ => ⟨start, named, spelled⟩,
      fun normal => ⟨normal.start, normal.named, normal.spelled⟩⟩

namespace Normal

theorem names_eq (normal : Normal path slashes list) : names path.toList = list := by
  rw [normal.spelled, names_slashes, names_joinParts normal.named]

theorem eq_iff (one : Normal path slashes list) (two : Normal other slashes list') :
    path = other ↔ list = list' := by
  constructor
  · rintro rfl
    exact one.names_eq.symm.trans two.names_eq
  · rintro rfl
    exact one.unique two

theorem normalizeChars_eq (normal : Normal path slashes list) :
    normalizeChars path.toList = path.toList := by
  have same := normal.absolute_eq path
  rw [absolute, if_pos normal.isAbsolute, normalize] at same
  have chars := congrArg String.toList same
  rwa [String.toList_ofList] at chars

/-- The way down from a directory. -/
theorem relative_eq {directory : String} (start : Normal directory slashes list)
    (normal : Normal path slashes' (list ++ below)) :
    relative path directory = if below = [] then "." else String.ofList (joinParts below) := by
  unfold relative
  rw [normal.normalizeChars_eq, normal.names_eq, start.normalizeChars_eq, start.names_eq]
  simp only [commonLength_append, Nat.sub_self, List.drop_left, List.replicate_zero, List.nil_append,
    List.isEmpty_iff]

/-- The way between two paths goes up to what they have in common and down from there. -/
theorem relative_split {directory : String} (start : Normal directory slashes list)
    (normal : Normal path slashes' list') :
    ∃ common up down, list = common ++ up ∧ list' = common ++ down ∧
      (down ≠ [] → relative path directory =
        String.ofList (joinParts (List.replicate up.length ['.', '.'] ++ down))) := by
  refine ⟨list.take (commonLength list list'), list.drop (commonLength list list'),
    list'.drop (commonLength list list'), (List.take_append_drop _ _).symm, ?_, ?_⟩
  · rw [take_commonLength, List.take_append_drop]
  · intro below
    unfold relative
    rw [normal.normalizeChars_eq, normal.names_eq, start.normalizeChars_eq, start.names_eq]
    rw [List.length_drop, if_neg (by simp [below])]

/-- A way down, taken from a directory. -/
theorem join (normal : Normal base slashes list) (named : ∀ part ∈ more, Name part)
    (nonempty : more ≠ []) :
    Normal (Path.join base (String.ofList (joinParts more))) slashes (list ++ more) := by
  refine ⟨normal.start, List.forall_mem_append.mpr ⟨normal.named, named⟩, ?_⟩
  have relative : Path.isAbsolute (String.ofList (joinParts more)) = false := by
    rw [Path.isAbsolute, String.toList_ofList]
    exact beq_eq_false_iff_ne.mpr (head?_joinParts named)
  have present : base ≠ "" := by
    rintro rfl
    cases normal.isAbsolute
  unfold Path.join
  rw [if_neg (by simp [relative])]
  by_cases root : list = []
  · have ends : base.toList.getLast? = some '/' := by
      rw [normal.spelled, root]
      rcases normal.start with rfl | rfl <;> rfl
    rw [if_pos (.inr ends), String.toList_append, normal.spelled, root, String.toList_ofList]
    exact congrArg (· ++ joinParts more) (List.append_nil _)
  · have ends : base.toList.getLast? ≠ some '/' := by
      obtain ⟨front, char, other, same⟩ := joinParts_ends normal.named root
      rw [normal.spelled, same, ← List.append_assoc, List.getLast?_concat]
      exact fun slash => other (Option.some.inj slash)
    rw [if_neg (by simp [present, ends]), String.toList_append, String.toList_append,
      normal.spelled, String.toList_ofList, joinParts_append root nonempty]
    simp

/-- What stands above the last name of a path. -/
theorem directory (normal : Normal path slashes (list ++ [name])) :
    Normal (Path.directory path) slashes list := by
  have named : ∀ part ∈ list, Name part := fun part member =>
    normal.named part (List.mem_append_left _ member)
  have single := (normal.named name (by simp)).single
  have spelled := normal.spelled
  rw [joinParts_concat] at spelled
  refine ⟨normal.start, named, ?_⟩
  unfold Path.directory
  rw [String.toList_ofList]
  by_cases root : list = []
  · have head : headChars path.toList = List.replicate slashes '/' := by
      rw [spelled, if_pos root]
      rcases normal.start with rfl | rfl
      · exact (baseChars_append single []).2
      · exact (baseChars_append single ['/']).2
    rw [head, root]
    rcases normal.start with rfl | rfl <;> rfl
  · obtain ⟨front, char, other, same⟩ := joinParts_ends named root
    have head : headChars path.toList = List.replicate slashes '/' ++ joinParts list ++ ['/'] := by
      rw [spelled, if_neg root, ← List.append_assoc]
      exact (baseChars_append single _).2
    rw [head, same]
    simp [other]

end Normal

end ScriptKit.Path
