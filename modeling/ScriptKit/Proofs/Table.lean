import Mathlib.Data.List.Nodup
import ScriptKit.Table

/-!
What is in a table after a key was given a value. The other keys keep their values, and all keys
their order.
-/
namespace ScriptKit.Table

variable [DecidableEq κ] {table : List (κ × α)}

theorem lookup_put [BEq κ] [LawfulBEq κ] (key other : κ) (value : α) (table : List (κ × α)) :
    (put key value table).lookup other = if other = key then some value else table.lookup other := by
  induction table with
  | nil => grind [put]
  | cons first rest ih => grind [put]

theorem keys_put (key : κ) (value : α) (table : List (κ × α)) :
    (put key value table).map Prod.fst =
      table.map Prod.fst ++ if key ∈ table.map Prod.fst then [] else [key] := by
  induction table with
  | nil => rfl
  | cons first rest ih =>
    obtain ⟨other, old⟩ := first
    by_cases same : other = key
    · subst same
      simp [put]
    · have other : (key = other) = False := eq_false (Ne.symm same)
      simp only [put, same, if_false, List.map_cons, ih, List.mem_cons, other, false_or,
        List.cons_append]

theorem nodup_put (distinct : (table.map Prod.fst).Nodup) (key : κ) (value : α) :
    ((put key value table).map Prod.fst).Nodup := by
  rw [keys_put]
  split
  next => rwa [List.append_nil]
  next new => exact List.concat_eq_append ▸ distinct.concat new

theorem put_new (new : key ∉ table.map Prod.fst) (value : α) :
    put key value table = table ++ [(key, value)] := by
  induction table with
  | nil => rfl
  | cons first rest ih =>
    rw [List.map_cons, List.mem_cons, not_or] at new
    rw [put, if_neg (Ne.symm new.1), ih new.2, List.cons_append]

theorem mem_of_mem_put (member : entry ∈ put key value table) :
    entry = (key, value) ∨ entry ∈ table := by
  induction table with
  | nil => exact .inl (List.mem_singleton.mp member)
  | cons first rest ih =>
    rw [put] at member
    split at member
    · exact (List.mem_cons.mp member).imp_right (List.mem_cons_of_mem _)
    · rcases List.mem_cons.mp member with rfl | member
      · exact .inr List.mem_cons_self
      · exact (ih member).imp_right (List.mem_cons_of_mem _)

theorem mem_put (distinct : (table.map Prod.fst).Nodup) : entry ∈ put key value table ↔
    entry = (key, value) ∨ entry ∈ table ∧ entry.1 ≠ key := by
  induction table with
  | nil => simp [put]
  | cons first rest ih =>
    obtain ⟨once, distinct⟩ := List.nodup_cons.mp distinct
    have ih := ih distinct
    rw [put]
    split
    next same =>
      have others : ∀ other ∈ rest, other.1 ≠ key := fun other member =>
        same ▸ ne_of_mem_of_not_mem (List.mem_map_of_mem member) once
      grind
    next => grind

end ScriptKit.Table
