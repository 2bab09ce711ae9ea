import ScriptKit.Path

/-!
Absolute paths in normal form: one or two slashes, then names. Such a path is known by its slashes
and its names. Where a path leads from the directory of a file is a path of this kind, and its last
name is one of the path's own, unless it leads back to a directory above the file.
-/
namespace ScriptKit.Path

theorem parts_ne_nil (path : List Char) : parts path ≠ [] := by
  cases path with
  | nil => simp [parts]
  | cons char rest =>
    rw [parts]
    split
    · simp
    · split <;> simp

private theorem parts_slash (path : List Char) : parts ('/' :: path) = [] :: parts path := by
  rw [parts]
  split
  · rename_i none
    exact absurd none (parts_ne_nil path)
  · rename_i first others same
    rw [if_pos rfl, same]

theorem parts_append (path more : List Char) :
    parts (path ++ '/' :: more) = parts path ++ parts more := by
  induction path with
  | nil => exact parts_slash more
  | cons char rest ih =>
    rw [List.cons_append, parts, parts, ih]
    cases same : parts rest with
    | nil => exact absurd same (parts_ne_nil rest)
    | cons first others => by_cases slash : char = '/' <;> simp [slash]

theorem slash_not_mem_part (member : part ∈ parts path) : '/' ∉ part := by
  induction path generalizing part with
  | nil =>
    rw [List.mem_singleton.mp member]
    exact List.not_mem_nil
  | cons char rest ih =>
    rw [parts] at member
    split at member
    · rename_i none
      exact absurd none (parts_ne_nil rest)
    · rename_i first others same
      rw [same] at ih
      have firstFree := ih List.mem_cons_self
      split at member
      · rcases List.mem_cons.mp member with rfl | member
        · exact List.not_mem_nil
        · exact ih member
      · rename_i other
        rcases List.mem_cons.mp member with rfl | member
        · exact List.not_mem_cons_of_ne_of_not_mem (Ne.symm other) firstFree
        · exact ih (List.mem_cons_of_mem first member)

theorem mem_of_mem_part (member : part ∈ parts path) (char : Char) (within : char ∈ part) :
    char ∈ path := by
  induction path generalizing part with
  | nil =>
    rw [List.mem_singleton.mp member] at within
    cases within
  | cons first rest ih =>
    rw [parts] at member
    split at member
    · rename_i none
      exact absurd none (parts_ne_nil rest)
    · rename_i part' others same
      rw [same] at ih
      split at member
      · rcases List.mem_cons.mp member with rfl | member
        · cases within
        · exact List.mem_cons_of_mem first (ih member within)
      · rcases List.mem_cons.mp member with rfl | member
        · rcases List.mem_cons.mp within with rfl | within
          · exact List.mem_cons_self
          · exact List.mem_cons_of_mem first (ih List.mem_cons_self within)
        · exact List.mem_cons_of_mem first
            (ih (List.mem_cons_of_mem part' member) within)

theorem parts_eq_singleton (single : '/' ∉ name) : parts name = [name] := by
  induction name with
  | nil => rfl
  | cons char rest ih =>
    have other := List.ne_of_not_mem_cons single
    rw [parts, ih (List.not_mem_of_not_mem_cons single)]
    exact if_neg (Ne.symm other)

theorem parts_slashes (count : Nat) (path : List Char) :
    parts (List.replicate count '/' ++ path) = List.replicate count [] ++ parts path := by
  induction count with
  | zero => rfl
  | succ count ih =>
    rw [List.replicate_succ, List.cons_append, parts_slash, ih]
    rfl

theorem names_append (path more : List Char) :
    names (path ++ '/' :: more) = names path ++ names more := by
  rw [names, parts_append, List.filter_append]
  rfl

theorem names_slashes (count : Nat) (path : List Char) :
    names (List.replicate count '/' ++ path) = names path := by
  rw [names, parts_slashes, List.filter_append, List.filter_replicate_of_neg (by simp)]
  rfl

/-- A part that is neither empty nor made to stay or go up. -/
structure Name (name : List Char) : Prop where
  nonempty : name ≠ []
  notDot : name ≠ ['.']
  notUp : isUp name = false
  single : '/' ∉ name

private theorem mem_names (member : name ∈ names path) (notUp : isUp name = false) : Name name := by
  obtain ⟨member, kept⟩ := List.mem_filter.mp member
  obtain ⟨nonempty, notDot⟩ : name ≠ [] ∧ name ≠ ['.'] := by simpa using kept
  exact ⟨nonempty, notDot, notUp, slash_not_mem_part member⟩

theorem parts_joinParts (named : ∀ part ∈ list, Name part) (nonempty : list ≠ []) :
    parts (joinParts list) = list := by
  match list with
  | [part] => exact parts_eq_singleton (named part List.mem_cons_self).single
  | part :: next :: rest =>
    have following : parts (joinParts (next :: rest)) = next :: rest :=
      parts_joinParts (fun other member => named other (List.mem_cons_of_mem part member)) (by simp)
    have single := (named part List.mem_cons_self).single
    rw [joinParts, parts_append, parts_eq_singleton single, following]
    rfl

theorem names_joinParts (named : ∀ part ∈ list, Name part) : names (joinParts list) = list := by
  by_cases empty : list = []
  · subst empty
    rfl
  rw [names, parts_joinParts named empty]
  refine List.filter_eq_self.mpr fun part member => ?_
  simp [(named part member).nonempty, (named part member).notDot]

theorem resolveUps_keep (notUp : isUp part = false) (kept rest : List (List Char)) :
    resolveUps true kept (part :: rest) = resolveUps true (part :: kept) rest := by
  rw [resolveUps.eq_def]
  exact if_neg (by simp [notUp])

/-- Names are kept as they are. -/
theorem resolveUps_names (named : ∀ part ∈ list, Name part) (kept rest : List (List Char)) :
    resolveUps true kept (list ++ rest) = resolveUps true (list.reverse ++ kept) rest := by
  induction list generalizing kept with
  | nil => rfl
  | cons part list ih =>
    have first := named part List.mem_cons_self
    rw [List.cons_append, resolveUps_keep first.notUp,
      ih fun other member => named other (List.mem_cons_of_mem part member),
      List.reverse_cons, List.append_assoc]
    rfl

theorem resolveUps_concat (notUp : isUp name = false) (rooted : Bool) (kept list : List (List Char)) :
    resolveUps rooted kept (list ++ [name]) = resolveUps rooted kept list ++ [name] := by
  fun_induction resolveUps rooted kept list with
  | case1 kept => simp [resolveUps, notUp]
  | _ => simp_all [resolveUps]

/-- The names left after a way down and a way on: either they end in a name of the way on, or there
is nothing left but a beginning of the way down. -/
theorem resolveUps_cases (kept rest : List (List Char)) (named : ∀ part ∈ kept, Name part)
    (proper : ∀ part ∈ rest, isUp part = false → Name part) :
    (∀ part ∈ resolveUps true kept rest, Name part) ∧
      (resolveUps true kept rest <+: kept.reverse ∨
        ∃ before, ∃ last ∈ rest, resolveUps true kept rest = before ++ [last]) := by
  induction rest generalizing kept with
  | nil => exact ⟨by simpa [resolveUps] using named, .inl (List.prefix_rfl)⟩
  | cons part rest ih =>
    have later : ∀ other ∈ rest, isUp other = false → Name other :=
      fun other member => proper other (List.mem_cons_of_mem part member)
    have widen {list : List (List Char)} (ends : ∃ before, ∃ last ∈ rest, list = before ++ [last]) :
        ∃ before, ∃ last ∈ part :: rest, list = before ++ [last] := by
      obtain ⟨before, last, member, same⟩ := ends
      exact ⟨before, last, List.mem_cons_of_mem part member, same⟩
    cases up : isUp part with
    | true =>
      cases kept with
      | nil =>
        rw [resolveUps, if_pos up]
        obtain ⟨all, ends⟩ := ih [] named later
        exact ⟨all, ends.imp_right widen⟩
      | cons last before =>
        have lastNamed := named last List.mem_cons_self
        have shape : resolveUps true (last :: before) (part :: rest) =
            resolveUps true before rest := by
          rw [resolveUps, if_pos up]
          exact if_neg (by simp [lastNamed.notUp])
        rw [shape]
        obtain ⟨all, ends⟩ := ih before
          (fun other member => named other (List.mem_cons_of_mem last member)) later
        refine ⟨all, ends.imp ?_ widen⟩
        intro below
        rw [List.reverse_cons]
        exact below.trans (List.prefix_append _ _)
    | false =>
      rw [resolveUps_keep up]
      have first := proper part List.mem_cons_self up
      obtain ⟨all, ends⟩ := ih (part :: kept)
        (List.forall_mem_cons.mpr ⟨first, named⟩) later
      refine ⟨all, ?_⟩
      rcases ends with below | ends
      · rw [List.reverse_cons] at below
        rcases List.prefix_concat_iff.mp below with same | below
        · exact .inr ⟨kept.reverse, part, List.mem_cons_self, same⟩
        · exact .inl below
      · exact .inr (widen ends)

theorem leadingSlashes_cases (rooted : path.head? = some '/') :
    leadingSlashes path = 1 ∨ leadingSlashes path = 2 := by
  unfold leadingSlashes
  split
  · exact .inl rfl
  · exact .inr rfl
  · exact .inl rfl
  · rename_i none
    cases path with
    | nil => cases rooted
    | cons char rest =>
      cases rooted
      exact absurd rfl (none rest)

/-- An absolute path in normal form, with its slashes at the start and its names. -/
structure Normal (path : String) (slashes : Nat) (list : List (List Char)) : Prop where
  start : slashes = 1 ∨ slashes = 2
  named : ∀ name ∈ list, Name name
  spelled : path.toList = List.replicate slashes '/' ++ joinParts list

theorem head?_joinParts (named : ∀ part ∈ list, Name part) : (joinParts list).head? ≠ some '/' := by
  intro slash
  match list with
  | [] => cases slash
  | [part] => exact (named part List.mem_cons_self).single (List.mem_of_head? slash)
  | part :: next :: rest =>
    have first := named part List.mem_cons_self
    cases part with
    | nil => exact first.nonempty rfl
    | cons char part =>
      cases slash
      exact first.single List.mem_cons_self

namespace Normal

theorem unique (one : Normal path slashes list) (two : Normal other slashes list) : path = other :=
  String.toList_injective (one.spelled.trans two.spelled.symm)

theorem leadingSlashes (normal : Normal path slashes list) :
    leadingSlashes path.toList = slashes := by
  have first := head?_joinParts normal.named
  rw [normal.spelled]
  cases spelled : joinParts list with
  | nil => rcases normal.start with rfl | rfl <;> rfl
  | cons char rest =>
    have other : char ≠ '/' := by
      rintro rfl
      exact first (by rw [spelled]; rfl)
    rcases normal.start with rfl | rfl <;> simp [Path.leadingSlashes, other]

theorem isAbsolute (normal : Normal path slashes list) : isAbsolute path = true := by
  unfold Path.isAbsolute
  rw [normal.spelled]
  rcases normal.start with rfl | rfl <;> rfl

end Normal

theorem normalize_normal (rooted : isAbsolute path = true) :
    Normal (normalize path) (leadingSlashes path.toList)
      (resolveUps true [] (names path.toList)) := by
  have start := leadingSlashes_cases (eq_of_beq rooted)
  refine ⟨start, (resolveUps_cases [] _ nofun fun _ => mem_names).1, ?_⟩
  rw [normalize, String.toList_ofList, normalizeChars]
  rcases start with same | same <;> rw [same] <;> rfl

theorem isAbsolute_join (rooted : isAbsolute base = true) (path : String) :
    isAbsolute (join base path) = true := by
  have front (more : String) : isAbsolute (base ++ more) = true := by
    unfold isAbsolute at rooted ⊢
    rw [String.toList_append, List.head?_append, eq_of_beq rooted]
    rfl
  unfold join
  split
  · assumption
  split
  · exact front path
  · rw [String.append_assoc]
    exact front ("/" ++ path)

theorem absolute_normal (rooted : isAbsolute base = true) (path : String) :
    ∃ slashes list, Normal (absolute base path) slashes list := by
  unfold absolute
  split
  · rename_i rooted'
    exact ⟨_, _, normalize_normal rooted'⟩
  · exact ⟨_, _, normalize_normal (isAbsolute_join rooted path)⟩

/-- A normal path stands for itself. -/
theorem Normal.absolute_eq (normal : Normal path slashes list) (base : String) :
    absolute base path = path := by
  have again := normalize_normal normal.isAbsolute
  have kept := resolveUps_names normal.named [] []
  rw [List.append_nil, List.append_nil] at kept
  rw [normal.leadingSlashes, normal.spelled, names_slashes, names_joinParts normal.named, kept,
    resolveUps, List.reverse_reverse] at again
  rw [absolute, if_pos normal.isAbsolute]
  exact again.unique normal

theorem names_slashed (path : List Char) (count : Nat) :
    names (path ++ List.replicate count '/') = names path := by
  cases count with
  | zero => exact congrArg names (List.append_nil path)
  | succ count =>
    have rest := names_slashes count []
    rw [List.append_nil] at rest
    rw [List.replicate_succ, names_append, rest]
    exact List.append_nil _

theorem names_join (rooted : isAbsolute base = true) (relative : isAbsolute path = false) :
    names (join base path).toList = names base.toList ++ names path.toList := by
  have nonempty : base ≠ "" := by
    rintro rfl
    cases rooted
  unfold join
  rw [if_neg (by simp [relative])]
  split
  · rename_i ends
    have last : base.toList.getLast? = some '/' := by simpa [nonempty] using ends
    obtain ⟨before, same⟩ := List.getLast?_eq_some_iff.mp last
    have trimmed : names (before ++ ['/']) = names before := names_slashed before 1
    rw [String.toList_append, same, List.append_assoc, trimmed]
    exact names_append before path.toList
  · rw [String.toList_append, String.toList_append, List.append_assoc]
    exact names_append base.toList path.toList

theorem names_directory (path : String) :
    names (directory path).toList = names (headChars path.toList) := by
  unfold directory
  rw [String.toList_ofList]
  split
  · rfl
  have cut := List.takeWhile_append_dropWhile (p := (· == '/'))
    (l := (headChars path.toList).reverse)
  have slashes : (headChars path.toList).reverse.takeWhile (· == '/') =
      List.replicate ((headChars path.toList).reverse.takeWhile (· == '/')).length '/' := by
    refine List.eq_replicate_iff.mpr ⟨rfl, fun char member => ?_⟩
    simpa using List.all_eq_true.mp List.all_takeWhile char member
  rw [slashes] at cut
  have whole := congrArg List.reverse cut
  rw [List.reverse_append, List.reverse_reverse, List.reverse_replicate] at whole
  rw [← names_slashed _ _, whole]

theorem headChars_append_baseChars (path : List Char) : headChars path ++ baseChars path = path := by
  unfold headChars baseChars
  rw [← List.reverse_append, List.takeWhile_append_dropWhile, List.reverse_reverse]

theorem slash_not_mem_baseChars (path : List Char) : '/' ∉ baseChars path := by
  intro member
  have other := List.all_eq_true.mp List.all_takeWhile '/' (List.mem_reverse.mp member)
  simp at other

theorem isAbsolute_directory (rooted : isAbsolute path = true) :
    isAbsolute (directory path) = true := by
  have first : path.toList.head? = some '/' := eq_of_beq rooted
  have head : (headChars path.toList).head? = some '/' := by
    have whole := headChars_append_baseChars path.toList
    rw [← whole, List.head?_append] at first
    cases found : (headChars path.toList).head? with
    | none =>
      rw [found] at first
      exact absurd (List.mem_of_head? first) (slash_not_mem_baseChars path.toList)
    | some char =>
      rw [found] at first
      exact first
  unfold directory isAbsolute
  rw [String.toList_ofList]
  split
  · rw [head]
    rfl
  · rename_i trimmed
    have front : ((headChars path.toList).reverse.dropWhile (· == '/')).reverse <+:
        headChars path.toList := by
      have suffix := List.dropWhile_suffix (· == '/') (l := (headChars path.toList).reverse)
      simpa using List.reverse_prefix.mpr suffix
    obtain ⟨rest, same⟩ := front
    rw [← same, List.head?_append] at head
    cases found : ((headChars path.toList).reverse.dropWhile (· == '/')).reverse.head? with
    | none => exact absurd (List.head?_eq_none_iff.mp found) (by simpa using trimmed)
    | some char =>
      rw [found] at head
      cases head
      rfl

theorem baseChars_append (single : '/' ∉ name) (path : List Char) :
    baseChars (path ++ '/' :: name) = name ∧ headChars (path ++ '/' :: name) = path ++ ['/'] := by
  have free : ∀ char ∈ name.reverse, (char != '/') = true := by
    intro char member
    simp only [bne_iff_ne]
    rintro rfl
    exact single (List.mem_reverse.mp member)
  unfold baseChars headChars
  rw [List.reverse_append, List.reverse_cons, List.append_assoc]
  rw [List.takeWhile_append_of_pos free, List.dropWhile_append_of_pos free]
  simp

theorem joinParts_concat (before : List (List Char)) (name : List Char) :
    joinParts (before ++ [name]) =
      if before = [] then name else joinParts before ++ '/' :: name := by
  match before with
  | [] => rfl
  | [part] => rfl
  | part :: next :: rest =>
    have following := joinParts_concat (next :: rest) name
    rw [if_neg (by simp)] at following ⊢
    rw [List.cons_append, List.cons_append, joinParts, ← List.cons_append, following, joinParts]
    simp

namespace Normal

/-- The last name of a path stands after its last slash. -/
theorem concat (normal : Normal path slashes (before ++ [name])) :
    baseChars path.toList = name ∧ names (headChars path.toList) = before := by
  have named := (normal.named name (by simp)).single
  have cut : ∃ front, path.toList = front ++ '/' :: name ∧ names front = before := by
    have spelled := normal.spelled
    rw [joinParts_concat] at spelled
    split at spelled
    · rename_i empty
      subst empty
      refine ⟨List.replicate (slashes - 1) '/', ?_, ?_⟩
      · rw [spelled]
        rcases normal.start with rfl | rfl <;> rfl
      · have none := names_slashes (slashes - 1) []
        rwa [List.append_nil] at none
    · refine ⟨List.replicate slashes '/' ++ joinParts before, by simpa using spelled, ?_⟩
      rw [names_slashes]
      exact names_joinParts fun part member => normal.named part (List.mem_append_left _ member)
  obtain ⟨front, same, names_eq⟩ := cut
  rw [same]
  obtain ⟨base, head⟩ := baseChars_append named front
  refine ⟨base, ?_⟩
  rw [head, ← names_eq]
  exact names_slashed front 1

theorem root (normal : Normal path slashes []) :
    baseChars path.toList = [] ∧ names (headChars path.toList) = [] := by
  rw [normal.spelled]
  rcases normal.start with rfl | rfl <;> exact ⟨rfl, rfl⟩

/-- What stands above a path is a beginning of its names. -/
theorem head_le (normal : Normal path slashes list) : names (headChars path.toList) <+: list := by
  rcases List.eq_nil_or_concat list with rfl | ⟨before, name, rfl⟩
  · exact normal.root.2 ▸ List.prefix_rfl
  · rw [List.concat_eq_append] at normal ⊢
    rw [normal.concat.2]
    exact List.prefix_append before [name]

end Normal

/-- Where a path leads from the directory of a file: either its last name is one of the path's, or
there is nothing left but a directory above the file. -/
theorem target_cases (normal : Normal file slashes list) (path : String) :
    ∃ slashes' list', Normal (absolute "/" (join (directory file) path)) slashes' list' ∧
      (list' <+: names (headChars file.toList) ∨
        ∃ before, ∃ last ∈ names path.toList, list' = before ++ [last]) := by
  have above := isAbsolute_directory normal.isAbsolute
  have whole := isAbsolute_join above path
  have target : absolute "/" (join (directory file) path) = normalize (join (directory file) path) :=
    congrArg normalize (if_pos whole)
  refine ⟨_, _, target ▸ normalize_normal whole, ?_⟩
  cases rooted : isAbsolute path with
  | true =>
    have same : join (directory file) path = path := if_pos rooted
    rw [same]
    rcases (resolveUps_cases [] (names path.toList) nofun fun _ => mem_names).2 with none | ends
    · exact .inl (none.trans List.nil_prefix)
    · exact .inr ends
  | false =>
    have named : ∀ name ∈ names (headChars file.toList), Name name :=
      fun name member => normal.named name (normal.head_le.subset member)
    rw [names_join above rooted, names_directory, resolveUps_names named, List.append_nil]
    have cases' := (resolveUps_cases (names (headChars file.toList)).reverse (names path.toList)
      (fun name member => named name (List.mem_reverse.mp member)) fun _ => mem_names).2
    rwa [List.reverse_reverse] at cases'

/-- A name seen from a directory is the last one of its normal form. -/
theorem absolute_name (rooted : isAbsolute base = true) (named : Name name) :
    ∃ slashes list, Normal (absolute base (String.ofList name)) slashes (list ++ [name]) := by
  have relative : isAbsolute (String.ofList name) = false := by
    rw [isAbsolute, String.toList_ofList]
    exact beq_eq_false_iff_ne.mpr (@head?_joinParts [name] (by simpa using named))
  have normal := normalize_normal (isAbsolute_join rooted (String.ofList name))
  rw [names_join rooted relative, String.toList_ofList, ← joinParts.eq_2 name,
    names_joinParts (by simpa using named), resolveUps_concat named.notUp] at normal
  rw [absolute, if_neg (by simp [relative])]
  exact ⟨_, _, normal⟩

end ScriptKit.Path
