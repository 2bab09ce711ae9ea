import Mathlib.Data.String.Basic

/-!
Lists of texts in the order of their characters. Texts that differ are in strictly ascending order once
they are sorted, and removing repetitions leaves them as they are.
-/
namespace ScriptKit

theorem nodup_eraseDups (names : List String) : names.eraseDups.Nodup := by
  induction bound : names.length using Nat.strongRecOn generalizing names with
  | _ length ih =>
  subst bound
  cases names with
  | nil => simp
  | cons name names =>
    rw [List.eraseDups_cons, List.nodup_cons]
    refine ⟨?_, ih _ (Nat.lt_succ_of_le (List.length_filter_le ..)) _ rfl⟩
    simp [List.mem_eraseDups]

theorem eraseDups_of_nodup {names : List String} (distinct : names.Nodup) :
    names.eraseDups = names := by
  induction names with
  | nil => rfl
  | cons name names ih =>
    obtain ⟨absent, distinct⟩ := List.nodup_cons.mp distinct
    have kept : names.filter (fun other => !other == name) = names := by
      refine List.filter_eq_self.mpr fun other member => ?_
      have apart : other ≠ name := fun same => absent (same ▸ member)
      simpa using apart
    rw [List.eraseDups_cons, kept, ih distinct]

theorem ascending_mergeSort {names : List String} (distinct : names.Nodup) :
    (names.mergeSort fun first second => decide (first ≤ second)).Pairwise (· < ·) := by
  have sorted : (names.mergeSort fun first second => decide (first ≤ second)).Pairwise
      fun first second => decide (first ≤ second) = true :=
    List.pairwise_mergeSort (by simpa using fun _ _ _ => le_trans) (by simpa using le_total) _
  have still : (names.mergeSort fun first second => decide (first ≤ second)).Nodup :=
    (List.mergeSort_perm _ _).nodup_iff.mpr distinct
  refine (sorted.and still).imp fun both => ?_
  exact lt_of_le_of_ne (of_decide_eq_true both.1) both.2

end ScriptKit
