import Relos.Log.Chain
import Mathlib.Data.List.Basic

set_option autoImplicit false

/-! The chain as a function of the positions at which its segments were closed.
Epoch `k` is the `k`-th segment; closing it at `ends[k]` opens epoch `k + 1`. -/

namespace Relos.Epochs

def idAt (initial : String) : Nat → String
  | 0 => initial
  | index + 1 => generatedId (index + 1)

def startAt (ends : List Nat) : Nat → Nat
  | 0 => logPosBegin
  | index + 1 => ends[index]?.getD 0

def segmentAt (initial : String) (ends : List Nat) (index : Nat) : ChainSegment :=
  { logletId := idAt initial index, startPos := startAt ends index, endPos := ends[index]? }

def chainOf (initial : String) (ends : List Nat) : LogChain :=
  { segments := (List.range (ends.length + 1)).map (segmentAt initial ends) }

def closedEnds (chain : LogChain) : List Nat := chain.segments.filterMap ChainSegment.endPos

/-- Segments are closed at or after their start. -/
structure Ordered (ends : List Nat) : Prop where
  step : ∀ index, index < ends.length → startAt ends index ≤ startAt ends (index + 1)

variable {initial : String} {ends : List Nat}

theorem idAt_injective (foreign : ∀ index, initial ≠ generatedId (index + 1)) {left right : Nat}
    (same : idAt initial left = idAt initial right) : left = right := by
  cases left with
  | zero =>
      cases right with
      | zero => rfl
      | succ right => exact absurd same (foreign right)
  | succ left =>
      cases right with
      | zero => exact absurd same.symm (foreign left)
      | succ right => exact generatedId_injective same

theorem foreign_of_head (head : initial.toList.head? ≠ some 'l') (index : Nat) :
    initial ≠ generatedId (index + 1) := by
  rintro rfl
  simp [generatedId] at head

theorem startAt_append (more : List Nat) {index : Nat} (inside : index ≤ ends.length) :
    startAt (ends ++ more) index = startAt ends index := by
  cases index with
  | zero => rfl
  | succ index =>
      simp only [startAt]
      rw [List.getElem?_append_left (by omega)]

theorem startAt_prefix {longer : List Nat} (grown : ends <+: longer) {index : Nat}
    (inside : index ≤ ends.length) : startAt longer index = startAt ends index := by
  obtain ⟨more, rfl⟩ := grown
  exact startAt_append more inside

theorem startAt_take {count index : Nat} (inside : index ≤ count) (bound : count ≤ ends.length) :
    startAt (ends.take count) index = startAt ends index := by
  have whole : startAt (ends.take count ++ ends.drop count) index = startAt (ends.take count) index :=
    startAt_append (ends.drop count) (by rw [List.length_take]; omega)
  rw [List.take_append_drop] at whole
  exact whole.symm

theorem startAt_succ {index endPos : Nat} (closed : ends[index]? = some endPos) :
    startAt ends (index + 1) = endPos := by
  simp only [startAt, closed, Option.getD_some]

theorem chainOf_length : (chainOf initial ends).segments.length = ends.length + 1 := by
  simp only [chainOf, List.length_map, List.length_range]

theorem chainOf_getElem? {index : Nat} (inside : index ≤ ends.length) :
    (chainOf initial ends).segments[index]? = some (segmentAt initial ends index) := by
  simp only [chainOf, List.getElem?_map, List.getElem?_range (Nat.lt_succ_of_le inside),
    Option.map_some]

theorem chainOf_getElem {index : Nat} (inside : index < (chainOf initial ends).segments.length) :
    (chainOf initial ends).segments[index] = segmentAt initial ends index := by
  simp only [chainOf, List.getElem_map, List.getElem_range]

theorem chainOf_drop {count : Nat} (inside : count ≤ ends.length) :
    (chainOf initial ends).segments.drop count =
      segmentAt initial ends count :: (chainOf initial ends).segments.drop (count + 1) := by
  have bound : count < (chainOf initial ends).segments.length := by
    rw [chainOf_length]
    omega
  rw [List.drop_eq_getElem_cons bound, chainOf_getElem]

theorem mem_chainOf {segment : ChainSegment}
    (member : segment ∈ (chainOf initial ends).segments) :
    ∃ index, index ≤ ends.length ∧ segment = segmentAt initial ends index := by
  obtain ⟨index, inside, rfl⟩ := List.mem_map.mp member
  exact ⟨index, Nat.lt_succ_iff.mp (List.mem_range.mp inside), rfl⟩

/-- A chain ends in its open segment, after the closed ones. -/
theorem chainOf_segments : (chainOf initial ends).segments =
    (List.range ends.length).map (segmentAt initial ends) ++
      [⟨idAt initial ends.length, startAt ends ends.length, none⟩] := by
  simp only [chainOf, List.range_succ, List.map_append, List.map_cons, List.map_nil, segmentAt,
    List.getElem?_eq_none (Nat.le_refl ends.length)]

theorem closeLast_append (sealPos : Nat) (closed : List ChainSegment) (last : ChainSegment) :
    closeLast sealPos (closed ++ [last]) = closed ++ closeLast sealPos [last] := by
  induction closed with
  | nil => rfl
  | cons segment rest ih =>
      cases rest with
      | nil => rfl
      | cons next rest =>
          simp only [List.cons_append, closeLast] at ih ⊢
          rw [ih]

theorem generateLogletId_chainOf :
    generateLogletId (chainOf initial ends) = idAt initial (ends.length + 1) := by
  unfold generateLogletId
  rw [chainOf_length]
  rfl

/-- Extending a chain closes its epoch and opens the next. -/
theorem chainOf_extend (sealPos : Nat) :
    (chainOf initial ends).extend sealPos (idAt initial (ends.length + 1)) =
      chainOf initial (ends ++ [sealPos]) := by
  have earlier : (List.range ends.length).map (segmentAt initial ends) =
      (List.range ends.length).map (segmentAt initial (ends ++ [sealPos])) := by
    apply List.map_congr_left
    intro index member
    have inside := List.mem_range.mp member
    simp only [segmentAt]
    rw [startAt_append [sealPos] (Nat.le_of_lt inside), List.getElem?_append_left inside]
  have closed : segmentAt initial (ends ++ [sealPos]) ends.length =
      ⟨idAt initial ends.length, startAt ends ends.length, some sealPos⟩ := by
    simp only [segmentAt]
    rw [startAt_append [sealPos] (Nat.le_refl _), List.getElem?_concat_length]
  have opened : startAt (ends ++ [sealPos]) (ends.length + 1) = sealPos :=
    startAt_succ List.getElem?_concat_length
  unfold LogChain.extend
  rw [chainOf_segments, closeLast_append, earlier]
  change LogChain.mk _ = LogChain.mk (chainOf initial (ends ++ [sealPos])).segments
  rw [chainOf_segments, List.length_append, List.length_singleton, List.range_succ,
    List.map_append, List.map_singleton, closed, opened]
  rfl

/-- What names a segment, whether it is closed or open. -/
def lastSegment (segments : List ChainSegment) : Option (String × Nat) :=
  segments.getLast?.map fun segment => (segment.logletId, segment.startPos)

theorem lastSegment_closeLast (sealPos : Nat) (segments : List ChainSegment) :
    lastSegment (closeLast sealPos segments) = lastSegment segments := by
  rcases List.eq_nil_or_concat' segments with rfl | ⟨closed, last, rfl⟩
  · rfl
  · rw [closeLast_append]
    unfold lastSegment closeLast
    rw [List.getLast?_concat, List.getLast?_concat]
    split <;> rfl

/-- An extension closes the last segment and keeps its name. -/
theorem lastSegment_extend (chain : LogChain) (sealPos : Nat) (newLogletId : String) :
    lastSegment (chain.extend sealPos newLogletId).segments.dropLast =
      lastSegment chain.segments := by
  unfold LogChain.extend
  rw [List.dropLast_concat, lastSegment_closeLast]

theorem lastSegment_chainOf : lastSegment (chainOf initial ends).segments =
    some (idAt initial ends.length, startAt ends ends.length) := by
  unfold lastSegment
  rw [chainOf_segments, List.getLast?_concat]
  rfl

theorem activeSegment_chainOf : (chainOf initial ends).activeSegment =
    some ⟨idAt initial ends.length, startAt ends ends.length, none⟩ := by
  unfold LogChain.activeSegment
  rw [chainOf_segments, List.getLast?_concat]
  rfl

theorem filterMap_range_getElem? (items : List Nat) (count : Nat) :
    (List.range count).filterMap (fun index => items[index]?) = items.take count := by
  induction count with
  | zero => rfl
  | succ count ih =>
      rw [List.range_succ, List.filterMap_append, ih, List.take_add_one]
      cases found : items[count]? with
      | none => simp [found]
      | some item => simp [found]

theorem closedEnds_chainOf : closedEnds (chainOf initial ends) = ends := by
  have whole := filterMap_range_getElem? ends (ends.length + 1)
  rw [List.take_of_length_le (Nat.le_succ _)] at whole
  unfold closedEnds chainOf
  rw [List.filterMap_map]
  exact whole

/-! ### Positions -/

theorem Ordered.nil : Ordered [] := ⟨fun _ impossible => absurd impossible (Nat.not_lt_zero _)⟩

theorem Ordered.concat (ordered : Ordered ends) {sealPos : Nat}
    (after : startAt ends ends.length ≤ sealPos) : Ordered (ends ++ [sealPos]) := by
  refine ⟨fun index inside => ?_⟩
  rw [List.length_append, List.length_singleton] at inside
  rw [startAt_append [sealPos] (Nat.lt_succ_iff.mp inside)]
  rcases Nat.lt_succ_iff_lt_or_eq.mp inside with before | rfl
  · rw [startAt_append [sealPos] before]
    exact ordered.step index before
  · rw [startAt_succ List.getElem?_concat_length]
    exact after

theorem Ordered.take (ordered : Ordered ends) (count : Nat) : Ordered (ends.take count) := by
  refine ⟨fun index inside => ?_⟩
  rw [List.length_take] at inside
  have shorter : ends.take count = ends.take (min count ends.length) := by
    rw [List.take_eq_take_iff]
    omega
  rw [shorter, startAt_take (by omega) (by omega), startAt_take (by omega) (by omega)]
  exact ordered.step index (by omega)

theorem Ordered.startAt_mono (ordered : Ordered ends) {left right : Nat} (before : left ≤ right)
    (inside : right ≤ ends.length) : startAt ends left ≤ startAt ends right := by
  induction right with
  | zero => exact Nat.le_of_eq (congrArg _ (Nat.le_zero.mp before))
  | succ right ih =>
      rcases Nat.le_succ_iff.mp before with earlier | same
      · exact Nat.le_trans (ih earlier (by omega)) (ordered.step right (by omega))
      · exact Nat.le_of_eq (congrArg _ same)

theorem Ordered.startAt_pos (ordered : Ordered ends) {index : Nat} (inside : index ≤ ends.length) :
    logPosBegin ≤ startAt ends index :=
  ordered.startAt_mono (Nat.zero_le index) inside

theorem segmentAt_contains {index globalPos : Nat} :
    (segmentAt initial ends index).contains globalPos = true ↔
      startAt ends index ≤ globalPos ∧ ∀ endPos, ends[index]? = some endPos → globalPos < endPos := by
  unfold ChainSegment.contains segmentAt
  cases ends[index]? <;> simp

/-- The segment of a position is unique, so the first match is the match. -/
theorem findSegment_chainOf (ordered : Ordered ends) {index globalPos : Nat}
    (inside : index ≤ ends.length) (after : startAt ends index ≤ globalPos)
    (before : ∀ endPos, ends[index]? = some endPos → globalPos < endPos) :
    (chainOf initial ends).findSegment globalPos = some (segmentAt initial ends index) := by
  unfold LogChain.findSegment chainOf
  rw [List.find?_map, Option.map_eq_some_iff]
  refine ⟨index, List.find?_range_eq_some.mpr ⟨?_, ?_, ?_⟩, rfl⟩
  · exact segmentAt_contains.mpr ⟨after, before⟩
  · exact List.mem_range.mpr (Nat.lt_succ_of_le inside)
  · intro earlier smaller
    have known : ends[earlier]? = some ends[earlier] := List.getElem?_eq_getElem (by omega)
    have later : startAt ends (earlier + 1) ≤ startAt ends index :=
      ordered.startAt_mono smaller inside
    rw [startAt_succ known] at later
    have missed : ¬ (segmentAt initial ends earlier).contains globalPos = true := by
      intro found
      have bound := (segmentAt_contains.mp found).2 _ known
      omega
    simpa using missed

/-- Every position lies in an epoch. -/
theorem exists_epoch (ends : List Nat) {globalPos : Nat} (positive : logPosBegin ≤ globalPos) :
    ∃ index, index ≤ ends.length ∧ startAt ends index ≤ globalPos ∧
      ∀ endPos, ends[index]? = some endPos → globalPos < endPos := by
  have search : ∀ count, count ≤ ends.length → startAt ends count ≤ globalPos ∨
      ∃ index, index ≤ ends.length ∧ startAt ends index ≤ globalPos ∧
        ∀ endPos, ends[index]? = some endPos → globalPos < endPos := by
    intro count
    induction count with
    | zero => exact fun _ => Or.inl positive
    | succ count ih =>
        intro inside
        rcases ih (Nat.le_of_succ_le inside) with starts | found
        · have closed : ends[count]? = some ends[count] := List.getElem?_eq_getElem inside
          by_cases before : globalPos < ends[count]
          · refine Or.inr ⟨count, Nat.le_of_succ_le inside, starts, fun endPos known => ?_⟩
            rw [closed] at known
            cases known
            exact before
          · rw [startAt_succ closed]
            exact Or.inl (Nat.not_lt.mp before)
        · exact Or.inr found
  rcases search _ (Nat.le_refl _) with starts | found
  · refine ⟨ends.length, Nat.le_refl _, starts, fun endPos impossible => ?_⟩
    rw [List.getElem?_eq_none (Nat.le_refl _)] at impossible
    cases impossible
  · exact found

theorem findSegment_some {globalPos : Nat} {segment : ChainSegment}
    (found : (chainOf initial ends).findSegment globalPos = some segment) :
    ∃ index, index ≤ ends.length ∧ segment = segmentAt initial ends index ∧
      startAt ends index ≤ globalPos ∧
      ∀ endPos, ends[index]? = some endPos → globalPos < endPos := by
  unfold LogChain.findSegment at found
  have held : segment.contains globalPos = true := by simpa using List.find?_some found
  obtain ⟨index, inside, rfl⟩ := mem_chainOf (List.mem_of_find?_eq_some found)
  obtain ⟨after, before⟩ := segmentAt_contains.mp held
  exact ⟨index, inside, rfl, after, before⟩

end Relos.Epochs
