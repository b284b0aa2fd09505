import Mathlib.Data.List.Basic

set_option autoImplicit false

/-! Lists taken apart at a separator. -/

namespace Serial

variable {α : Type} {separator : α} {left left' right right' : List α}

theorem not_mem_of_append_cons {head tail : List α} (free : separator ∉ head ++ separator :: tail) :
    False :=
  free (List.mem_append_right head List.mem_cons_self)

/-- What stands before the last separator and after it is determined. -/
theorem split_at_last (same : left ++ separator :: right = left' ++ separator :: right')
    (free : separator ∉ right) (free' : separator ∉ right') : left = left' ∧ right = right' := by
  rcases List.append_eq_append_iff.mp same with ⟨between, rfl, rest⟩ | ⟨between, rfl, rest⟩
  · cases between with
    | nil => exact ⟨(List.append_nil left).symm, List.tail_eq_of_cons_eq rest⟩
    | cons first between =>
        rw [List.tail_eq_of_cons_eq rest] at free
        exact (not_mem_of_append_cons free).elim
  · cases between with
    | nil => exact ⟨List.append_nil left', (List.tail_eq_of_cons_eq rest).symm⟩
    | cons first between =>
        rw [List.tail_eq_of_cons_eq rest] at free'
        exact (not_mem_of_append_cons free').elim

/-- What ends in a separator and starts a list with no later one ends at the last
separator of the list, or before it. -/
theorem prefix_at_last (starts : left ++ [separator] <+: left' ++ separator :: right')
    (free' : separator ∉ right') : left = left' ∨ left ++ [separator] <+: left' := by
  obtain ⟨rest, same⟩ := starts
  rcases List.append_eq_append_iff.mp same with ⟨between, whole, -⟩ | ⟨between, whole, tail⟩
  · exact Or.inr ⟨between, whole.symm⟩
  · cases between with
    | nil =>
        rw [List.append_nil] at whole
        exact Or.inr ⟨[], by rw [List.append_nil, whole]⟩
    | cons first between =>
        obtain ⟨rfl, later⟩ := List.cons.inj tail
        rcases List.eq_nil_or_concat between with rfl | ⟨between, last, rfl⟩
        · exact Or.inl (List.append_inj_left' whole rfl)
        · rw [List.concat_eq_append, ← List.cons_append, ← List.append_assoc] at whole
          cases List.append_inj_right' whole rfl
          rw [later, List.concat_eq_append] at free'
          exact absurd (List.mem_append_left rest (List.mem_append_right between
            List.mem_cons_self)) free'

/-- Nonempty parts without separators can be told from their joined list. -/
theorem intercalate_injective [DecidableEq α] {parts parts' : List (List α)}
    (free : ∀ part ∈ parts, separator ∉ part) (free' : ∀ part ∈ parts', separator ∉ part)
    (ne_nil : ∀ part ∈ parts, part ≠ []) (ne_nil' : ∀ part ∈ parts', part ≠ [])
    (same : [separator].intercalate parts = [separator].intercalate parts') : parts = parts' := by
  have split : ∀ {parts : List (List α)}, (∀ part ∈ parts, separator ∉ part) →
      (∀ part ∈ parts, part ≠ []) →
      parts = if [separator].intercalate parts = [] then []
        else ([separator].intercalate parts).splitOn separator := by
    intro parts free ne_nil
    cases parts with
    | nil => rfl
    | cons part parts =>
        have whole : [separator].intercalate (part :: parts) ≠ [] := by
          intro empty
          cases parts with
          | nil =>
              rw [List.intercalate_singleton] at empty
              exact ne_nil part List.mem_cons_self empty
          | cons next parts =>
              rw [List.intercalate_cons_cons, List.append_assoc] at empty
              exact ne_nil part List.mem_cons_self (List.append_eq_nil_iff.mp empty).1
        rw [if_neg whole, List.splitOn_intercalate separator free (List.cons_ne_nil part parts)]
  rw [split free ne_nil, split free' ne_nil', same]

end Serial
