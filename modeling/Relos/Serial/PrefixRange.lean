import Std.Data.ExtTreeMap
import Mathlib.Data.List.Basic

set_option autoImplicit false

/-! In lexicographic order the keys that start with one list stand together. -/

namespace Serial

variable {α β : Type} [Ord α] [Std.LawfulEqOrd α]

theorem not_lt_of_startsWith {start key : List α} (starts : start <+: key) :
    compare key start ≠ .lt := by
  induction start generalizing key with
  | nil => cases key <;> exact fun less => nomatch less
  | cons first start ih =>
      obtain ⟨rest, rfl⟩ := starts
      rw [List.cons_append, List.compare_cons_cons, Std.ReflOrd.compare_self]
      exact ih (List.prefix_append start rest)

/-- A key between the start and one that starts with it starts with it too. -/
theorem startsWith_of_between {start key later : List α} (above : compare key start ≠ .lt)
    (below : compare key later = .lt) (starts : start <+: later) : start <+: key := by
  induction start generalizing key later with
  | nil => exact List.nil_prefix
  | cons first start ih =>
      obtain ⟨rest, rfl⟩ := starts
      cases key with
      | nil => exact absurd rfl above
      | cons head key =>
          rw [List.compare_cons_cons] at above
          rw [List.cons_append, List.compare_cons_cons] at below
          cases order : compare head first with
          | lt =>
              rw [order] at above
              exact absurd rfl above
          | gt =>
              rw [order] at below
              cases show Ordering.gt = Ordering.lt from below
          | eq =>
              rw [order] at above below
              cases Std.LawfulEqOrd.eq_of_compare order
              have tail := ih above below (List.prefix_append start rest)
              exact List.cons_prefix_cons.mpr ⟨rfl, tail⟩

omit [Std.LawfulEqOrd α] in
/-- Over sorted keys, skipping what is below the start skips nothing else. -/
theorem dropWhile_eq_filter [Std.TransOrd α] {pairs : List (List α × β)} {start : List α}
    (sorted : pairs.Pairwise fun left right => compare left.1 right.1 = .lt) :
    (pairs.dropWhile fun pair => (compare pair.1 start).isLT) =
      pairs.filter fun pair => !(compare pair.1 start).isLT := by
  induction pairs with
  | nil => rfl
  | cons pair pairs ih =>
      obtain ⟨first, rest⟩ := List.pairwise_cons.mp sorted
      cases less : (compare pair.1 start).isLT with
      | true =>
          simp only [List.dropWhile_cons, List.filter_cons, less, if_true, Bool.not_true]
          exact ih rest
      | false =>
          have kept : ∀ other ∈ pair :: pairs, (!(compare other.1 start).isLT) = true := by
            intro other member
            rcases List.mem_cons.mp member with same | later
            · rw [same, less]
              rfl
            · cases order : (compare other.1 start).isLT with
              | false => rfl
              | true =>
                  have below := Std.TransCmp.lt_trans (first other later)
                    (Ordering.isLT_iff_eq_lt.mp order)
                  rw [below] at less
                  cases less
          rw [List.filter_eq_self.mpr kept]
          simp only [List.dropWhile_cons, less]
          rfl

section Scan

variable [BEq α] [LawfulBEq α] {pairs : List (List α × β)} {start : List α}

theorem takeWhile_eq_filter (sorted : pairs.Pairwise fun left right => compare left.1 right.1 = .lt)
    (above : ∀ pair ∈ pairs, compare pair.1 start ≠ .lt) :
    pairs.takeWhile (fun pair => start.isPrefixOf pair.1) =
      pairs.filter fun pair => start.isPrefixOf pair.1 := by
  induction pairs with
  | nil => rfl
  | cons pair pairs ih =>
      obtain ⟨first, rest⟩ := List.pairwise_cons.mp sorted
      cases starts : start.isPrefixOf pair.1 with
      | true =>
          simp only [List.takeWhile_cons, List.filter_cons, starts, if_true]
          rw [ih rest fun other member => above other (List.mem_cons_of_mem pair member)]
      | false =>
          simp only [List.takeWhile_cons, starts]
          refine (List.filter_eq_nil_iff.mpr ?_).symm
          intro other member found
          rcases List.mem_cons.mp member with same | later
          · rw [same, starts] at found
            cases found
          · have between := startsWith_of_between (above pair List.mem_cons_self) (first other later)
              (List.isPrefixOf_iff_prefix.mp found)
            rw [List.isPrefixOf_iff_prefix.mpr between] at starts
            cases starts

/-- Over sorted keys, what stands from the start on while it starts with it is all
that starts with it. -/
theorem range_eq_filter [Std.TransOrd α]
    (sorted : pairs.Pairwise fun left right => compare left.1 right.1 = .lt) :
    ((pairs.dropWhile fun pair => (compare pair.1 start).isLT).takeWhile fun pair =>
      start.isPrefixOf pair.1) = pairs.filter fun pair => start.isPrefixOf pair.1 := by
  rw [dropWhile_eq_filter sorted, takeWhile_eq_filter (sorted.filter _) ?_, List.filter_filter]
  · apply List.filter_congr
    intro pair _
    cases starts : start.isPrefixOf pair.1 with
    | false => rfl
    | true =>
        cases order : (compare pair.1 start).isLT with
        | false => rfl
        | true =>
            exact absurd (Ordering.isLT_iff_eq_lt.mp order)
              (not_lt_of_startsWith (List.isPrefixOf_iff_prefix.mp starts))
  · intro pair member order
    have kept := (List.mem_filter.mp member).2
    rw [order] at kept
    cases kept

end Scan

section Order

/-- The order of a sorted map is the lexicographic order of lists. -/
theorem compare_eq_lt_iff [LT α] [LE α] [Std.LawfulOrderOrd α] [Std.LawfulOrderLT α]
    {left right : List α} : compare left right = .lt ↔ left < right := by
  induction left generalizing right with
  | nil =>
      cases right with
      | nil => exact ⟨fun less => (nomatch less), fun less => absurd less (List.not_lt_nil [])⟩
      | cons head right => exact ⟨fun _ => List.nil_lt_cons head right, fun _ => rfl⟩
  | cons first left ih =>
      cases right with
      | nil => exact ⟨fun less => (nomatch less), fun less => absurd less (List.not_lt_nil _)⟩
      | cons head right =>
          rw [List.compare_cons_cons, List.cons_lt_cons_iff, ← ih, Ordering.then_eq_lt,
            Std.compare_eq_lt, Std.compare_eq_iff_eq]

/-- Two strictly increasing lists with the same pairs are the same list. -/
theorem eq_of_rising {κ : Type} [LT κ] [Std.Asymm fun left right : κ => left < right]
    {pairs pairs' : List (κ × β)} (rising : pairs.Pairwise fun left right => left.1 < right.1)
    (rising' : pairs'.Pairwise fun left right => left.1 < right.1)
    (same : ∀ pair, pair ∈ pairs ↔ pair ∈ pairs') : pairs = pairs' := by
  have asymm : ∀ {left right : κ}, left < right → ¬ right < left :=
    fun less => Std.Asymm.asymm _ _ less
  have distinct : ∀ {left right : κ × β}, left.1 < right.1 → left ≠ right := by
    intro left right less equal
    rw [equal] at less
    exact asymm less less
  have perm : pairs.Perm pairs' :=
    (List.perm_ext_iff_of_nodup (rising.imp distinct) (rising'.imp distinct)).mpr same
  exact perm.eq_of_pairwise (fun _ _ _ _ less more => absurd more (asymm less)) rising rising'

end Order

end Serial
