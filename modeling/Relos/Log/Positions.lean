import Relos.Log.Chain
import Mathlib.Data.Set.Function

set_option autoImplicit false

/-! The segments of a chain divide the global positions among them, and each numbers its
own from one. -/

namespace Relos

/-- The segments from a position on: a closed one ends where the next one starts, and the
last one is open. -/
inductive Linked : Nat → List ChainSegment → Prop where
  | last (logletId : String) (startPos : Nat) : Linked startPos [⟨logletId, startPos, none⟩]
  | closed (logletId : String) (startPos : Nat) {endPos : Nat} {rest : List ChainSegment} :
      Linked endPos rest → Linked startPos (⟨logletId, startPos, some endPos⟩ :: rest)

/-- No segment ends before it starts. -/
def Rising (segments : List ChainSegment) : Prop :=
  ∀ segment ∈ segments, ∀ endPos, segment.endPos = some endPos → segment.startPos ≤ endPos

variable {startPos sealPos pos : Nat} {segments : List ChainSegment} {segment next : ChainSegment}
  {index other : Nat} {chain : LogChain}

theorem ChainSegment.contains_iff : segment.contains pos = true ↔
    segment.startPos ≤ pos ∧ ∀ endPos, segment.endPos = some endPos → pos < endPos := by
  unfold contains
  cases segment.endPos <;> simp

namespace Linked

theorem ne_nil (linked : Linked startPos segments) : segments ≠ [] := by
  cases linked <;> exact List.cons_ne_nil _ _

/-- `extend` closes the last segment where the new one starts. -/
theorem extend (linked : Linked startPos segments) (sealPos : Nat) (logletId : String) :
    Linked startPos (closeLast sealPos segments ++ [⟨logletId, sealPos, none⟩]) := by
  induction linked with
  | last id startPos => exact .closed id startPos (.last logletId sealPos)
  | @closed id startPos endPos rest tail ih =>
      cases rest with
      | nil => exact absurd rfl tail.ne_nil
      | cons head rest => exact .closed id startPos ih

theorem open_iff (linked : Linked startPos segments) (found : segments[index]? = some segment) :
    segment.endPos = none ↔ index + 1 = segments.length := by
  induction linked generalizing index with
  | last id startPos =>
      cases index with
      | zero =>
          cases found
          simp
      | succ index => cases found
  | closed id startPos tail ih =>
      cases index with
      | zero =>
          cases found
          have rest := List.length_pos_iff.mpr tail.ne_nil
          simp only [List.length_cons, reduceCtorEq, false_iff]
          omega
      | succ index =>
          rw [List.length_cons, Nat.add_right_cancel_iff]
          exact ih found

theorem getElem?_zero (linked : Linked startPos segments) (found : segments[0]? = some segment) :
    segment.startPos = startPos := by
  cases linked <;> cases found <;> rfl

theorem ends_at_next (linked : Linked startPos segments) (found : segments[index]? = some segment)
    (after : segments[index + 1]? = some next) : segment.endPos = some next.startPos := by
  induction linked generalizing index with
  | last id startPos => cases after
  | closed id startPos tail ih =>
      cases index with
      | zero =>
          cases found
          exact congrArg some (tail.getElem?_zero after).symm
      | succ index => exact ih found after

/-- Every position from the start on lies in a segment, whatever the order of the ends. -/
theorem exists_contains (linked : Linked startPos segments) (from_start : startPos ≤ pos) :
    ∃ (index : Nat) (segment : ChainSegment), segments[index]? = some segment ∧
      segment.contains pos = true := by
  induction linked with
  | last id startPos =>
      refine ⟨0, _, rfl, ChainSegment.contains_iff.mpr ⟨from_start, ?_⟩⟩
      intro endPos impossible
      cases impossible
  | @closed id startPos endPos rest tail ih =>
      by_cases before : pos < endPos
      · refine ⟨0, _, rfl, ChainSegment.contains_iff.mpr ⟨from_start, ?_⟩⟩
        intro found same
        cases same
        exact before
      · obtain ⟨index, segment, found, contains⟩ := ih (Nat.not_lt.mp before)
        exact ⟨index + 1, segment, found, contains⟩

theorem startPos_le (linked : Linked startPos segments) (rising : Rising segments)
    (member : segment ∈ segments) : startPos ≤ segment.startPos := by
  induction linked with
  | last id startPos =>
      rw [List.mem_singleton.mp member]
  | @closed id startPos endPos rest tail ih =>
      rcases List.mem_cons.mp member with rfl | later
      · exact Nat.le_refl _
      · have first : startPos ≤ endPos := rising _ List.mem_cons_self endPos rfl
        have rest := ih (fun segment inside => rising segment (List.mem_cons_of_mem _ inside)) later
        exact Nat.le_trans first rest

/-- A position lies in one segment only. -/
theorem contains_unique (linked : Linked startPos segments) (rising : Rising segments)
    (found : segments[index]? = some segment) (contains : segment.contains pos = true)
    (found' : segments[other]? = some next) (contains' : next.contains pos = true) :
    index = other := by
  induction linked generalizing index other with
  | last id startPos =>
      cases index with
      | zero =>
          cases other with
          | zero => rfl
          | succ other => cases found'
      | succ index => cases found
  | @closed id startPos endPos rest tail ih =>
      have rising' : Rising rest := fun segment inside =>
        rising segment (List.mem_cons_of_mem _ inside)
      -- the first segment ends where all later ones have not begun
      have later : ∀ {segment : ChainSegment} {index : Nat}, rest[index]? = some segment →
          segment.contains pos = true → ¬ pos < endPos := by
        intro segment index found contains
        have starts := tail.startPos_le rising' (List.mem_of_getElem? found)
        exact Nat.not_lt.mpr (Nat.le_trans starts (ChainSegment.contains_iff.mp contains).1)
      cases index with
      | zero =>
          cases found
          have before := (ChainSegment.contains_iff.mp contains).2 endPos rfl
          cases other with
          | zero => rfl
          | succ other => exact absurd before (later found' contains')
      | succ index =>
          cases other with
          | zero =>
              cases found'
              exact absurd ((ChainSegment.contains_iff.mp contains').2 endPos rfl)
                (later found contains)
          | succ other => exact congrArg Nat.succ (ih rising' found found')

end Linked

/-- Rising segments that are extended no earlier than where the last one starts. -/
theorem Rising.extend (rising : Rising segments) (linked : Linked startPos segments)
    (after : ∀ segment, segments.getLast? = some segment → segment.startPos ≤ sealPos)
    (logletId : String) :
    Rising (closeLast sealPos segments ++ [⟨logletId, sealPos, none⟩]) := by
  induction linked with
  | last id startPos =>
      intro segment member endPos closed
      rcases List.mem_cons.mp member with rfl | opened
      · cases closed
        exact after ⟨id, startPos, none⟩ rfl
      · rw [List.mem_singleton.mp opened] at closed
        cases closed
  | @closed id startPos endPos rest tail ih =>
      cases rest with
      | nil => exact absurd rfl tail.ne_nil
      | cons head rest =>
          have earlier : Rising (head :: rest) := fun segment inside =>
            rising segment (List.mem_cons_of_mem _ inside)
          intro segment member
          rcases List.mem_cons.mp member with rfl | later
          · exact rising _ List.mem_cons_self
          · exact ih earlier after segment later

namespace LogChain

def ids (chain : LogChain) : List String := chain.segments.map ChainSegment.logletId

theorem closeLast_ids (sealPos : Nat) (segments : List ChainSegment) :
    (closeLast sealPos segments).map ChainSegment.logletId =
      segments.map ChainSegment.logletId := by
  induction segments with
  | nil => rfl
  | cons segment rest ih =>
      cases rest with
      | nil =>
          unfold closeLast
          split <;> rfl
      | cons next rest => exact congrArg (segment.logletId :: ·) ih

theorem extend_ids (chain : LogChain) (sealPos : Nat) (newLogletId : String) :
    (chain.extend sealPos newLogletId).ids = chain.ids ++ [newLogletId] := by
  unfold extend ids
  rw [List.map_append, closeLast_ids]
  rfl

/-- The chains that `new` and `extend` make, when no segment is closed before its start. -/
inductive Extended : LogChain → Prop where
  | new (initialLogletId : String) : Extended (.new initialLogletId)
  | extend {chain : LogChain} (sealPos : Nat) (newLogletId : String) : Extended chain →
      (∀ segment, chain.activeSegment = some segment → segment.startPos ≤ sealPos) →
      Extended (chain.extend sealPos newLogletId)

theorem activeSegment_linked (linked : Linked startPos chain.segments) :
    chain.activeSegment = chain.segments.getLast? := by
  have last := List.getLast?_eq_some_getLast linked.ne_nil
  have found : chain.segments[chain.segments.length - 1]? =
      some (chain.segments.getLast linked.ne_nil) := by
    rw [← List.getLast?_eq_getElem?, last]
  have isOpen := (linked.open_iff found).mpr
    (Nat.sub_add_cancel (List.length_pos_iff.mpr linked.ne_nil))
  unfold activeSegment
  rw [last, Option.filter_some, if_pos (by rw [isOpen]; rfl)]

theorem Extended.linked_rising (extended : chain.Extended) :
    Linked logPosBegin chain.segments ∧ Rising chain.segments := by
  induction extended with
  | new id =>
      constructor
      · exact .last id logPosBegin
      · intro segment member endPos closed
        rw [List.mem_singleton.mp member] at closed
        cases closed
  | extend sealPos id _ after ih =>
      obtain ⟨linked, rising⟩ := ih
      rw [activeSegment_linked linked] at after
      exact ⟨linked.extend sealPos id, rising.extend linked after id⟩

/-- A place is the index of a segment and a local position within its bounds. -/
def Within (chain : LogChain) (place : Nat × Nat) : Prop :=
  ∃ segment, chain.segments[place.1]? = some segment ∧ 1 ≤ place.2 ∧
    ∀ endPos, segment.endPos = some endPos → place.2 ≤ endPos - segment.startPos

def globalPos (chain : LogChain) (place : Nat × Nat) : Nat :=
  match chain.segments[place.1]? with
  | some segment => localToGlobal segment.startPos place.2
  | none => 0

theorem globalPos_eq {place : Nat × Nat} (found : chain.segments[place.1]? = some segment) :
    chain.globalPos place = localToGlobal segment.startPos place.2 := by
  unfold globalPos
  rw [found]

theorem localToGlobal_globalToLocal (starts : segment.startPos ≤ pos) :
    localToGlobal segment.startPos (globalToLocal segment.startPos pos) = pos := by
  unfold localToGlobal globalToLocal
  omega

/-- What a segment contains has a place in it. -/
theorem within_of_contains (found : chain.segments[index]? = some segment)
    (contains : segment.contains pos = true) :
    chain.Within (index, globalToLocal segment.startPos pos) := by
  obtain ⟨starts, ends⟩ := ChainSegment.contains_iff.mp contains
  refine ⟨segment, found, Nat.le_add_left 1 _, fun endPos closed => ?_⟩
  have before := ends endPos closed
  unfold globalToLocal
  omega

theorem Within.contains {place : Nat × Nat} (within : chain.Within place)
    (found : chain.segments[place.1]? = some segment) :
    segment.contains (chain.globalPos place) = true := by
  obtain ⟨segment', found', positive, bounded⟩ := within
  cases found.symm.trans found'
  rw [globalPos_eq found, ChainSegment.contains_iff]
  unfold localToGlobal
  constructor
  · omega
  · intro endPos closed
    have inside := bounded endPos closed
    omega

/-- The first match is the only one. -/
theorem Extended.findSegment (extended : chain.Extended)
    (found : chain.segments[index]? = some segment) (contains : segment.contains pos = true) :
    chain.findSegment pos = some segment := by
  obtain ⟨linked, rising⟩ := extended.linked_rising
  unfold LogChain.findSegment
  cases search : chain.segments.find? fun segment => segment.contains pos with
  | none =>
      have missed := List.find?_eq_none.mp search segment (List.mem_of_getElem? found)
      exact absurd contains missed
  | some first =>
      have contains' : first.contains pos = true := by simpa using List.find?_some search
      obtain ⟨other, found'⟩ := List.getElem?_of_mem (List.mem_of_find?_eq_some search)
      have same := linked.contains_unique rising found' contains' found contains
      rw [same] at found'
      rw [← found', found]

theorem Extended.globalPos_positive (extended : chain.Extended) {place : Nat × Nat}
    (within : chain.Within place) : logPosBegin ≤ chain.globalPos place := by
  obtain ⟨linked, rising⟩ := extended.linked_rising
  obtain ⟨segment, found, -⟩ := id within
  have starts := linked.startPos_le rising (List.mem_of_getElem? found)
  exact Nat.le_trans starts (ChainSegment.contains_iff.mp (within.contains found)).1

theorem Extended.globalPos_injective (extended : chain.Extended) {place place' : Nat × Nat}
    (within : chain.Within place) (within' : chain.Within place')
    (same : chain.globalPos place = chain.globalPos place') : place = place' := by
  obtain ⟨linked, rising⟩ := extended.linked_rising
  obtain ⟨segment, found, positive, -⟩ := id within
  obtain ⟨segment', found', positive', -⟩ := id within'
  have contains := within.contains found
  rw [same] at contains
  have segments := linked.contains_unique rising found contains found' (within'.contains found')
  rw [segments, found'] at found
  cases found
  rw [globalPos_eq (segments ▸ found'), globalPos_eq found'] at same
  unfold localToGlobal at same
  exact Prod.ext segments (by omega)

theorem Extended.bijective (extended : chain.Extended) :
    Set.BijOn chain.globalPos {place | chain.Within place} {pos | logPosBegin ≤ pos} := by
  refine ⟨?_, ?_, ?_⟩
  · intro place within
    exact extended.globalPos_positive within
  · intro place within place' within' same
    exact extended.globalPos_injective within within' same
  · intro pos positive
    obtain ⟨index, segment, found, contains⟩ :=
      extended.linked_rising.1.exists_contains positive
    refine ⟨(index, globalToLocal segment.startPos pos), within_of_contains found contains, ?_⟩
    rw [globalPos_eq found]
    exact localToGlobal_globalToLocal (ChainSegment.contains_iff.mp contains).1

end LogChain

/-! ### On machine words -/

/-- The conversions as a `u64` computes them: both wrap. -/
def localToGlobalWord (segmentStart localPos : UInt64) : UInt64 := segmentStart + localPos - 1

def globalToLocalWord (segmentStart globalPos : UInt64) : UInt64 := globalPos - segmentStart + 1

theorem localToGlobalWord_globalToLocalWord (segmentStart globalPos : UInt64) :
    localToGlobalWord segmentStart (globalToLocalWord segmentStart globalPos) = globalPos := by
  unfold localToGlobalWord globalToLocalWord
  grind

theorem toNat_globalToLocalWord {segmentStart : Nat} {globalPos : UInt64} (positive : 1 ≤ segmentStart)
    (starts : segmentStart ≤ globalPos.toNat) :
    (globalToLocalWord (.ofNat segmentStart) globalPos).toNat =
      globalToLocal segmentStart globalPos.toNat := by
  have bound := globalPos.toNat_lt
  have small : (UInt64.ofNat segmentStart).toNat = segmentStart :=
    UInt64.toNat_ofNat_of_lt (Nat.lt_of_le_of_lt starts bound)
  unfold globalToLocalWord globalToLocal
  have inside : UInt64.ofNat segmentStart ≤ globalPos := by
    rw [UInt64.le_iff_toNat_le, small]
    exact starts
  have one : UInt64.toNat 1 = 1 := rfl
  rw [UInt64.toNat_add, UInt64.toNat_sub_of_le _ _ inside, small, one]
  omega

/-- The first segment that contains a position is the only one, and the numbering of the
positions in it and back is exact, on words of 64 bits as well. -/
theorem LogChain.positions_divided {chain : LogChain} (extended : chain.Extended) :
    chain.segments ≠ [] ∧
    (∀ index segment, chain.segments[index]? = some segment →
      (segment.endPos = none ↔ index + 1 = chain.segments.length)) ∧
    (∀ index segment next, chain.segments[index]? = some segment →
      chain.segments[index + 1]? = some next → segment.endPos = some next.startPos) ∧
    (∀ pos, logPosBegin ≤ pos → ∃ index segment, chain.segments[index]? = some segment ∧
      segment.contains pos = true ∧
      (∀ other found, chain.segments[other]? = some found → found.contains pos = true →
        other = index) ∧
      chain.findSegment pos = some segment ∧
      (∀ endPos, segment.endPos = some endPos → segment.startPos < endPos) ∧
      chain.Within (index, globalToLocal segment.startPos pos) ∧
      localToGlobal segment.startPos (globalToLocal segment.startPos pos) = pos) ∧
    Set.BijOn chain.globalPos {place | chain.Within place} {pos | logPosBegin ≤ pos} ∧
    ∀ pos : UInt64, ∀ segment, chain.findSegment pos.toNat = some segment →
      (globalToLocalWord (.ofNat segment.startPos) pos).toNat =
        globalToLocal segment.startPos pos.toNat ∧
      localToGlobalWord (.ofNat segment.startPos)
        (globalToLocalWord (.ofNat segment.startPos) pos) = pos := by
  obtain ⟨linked, rising⟩ := extended.linked_rising
  refine ⟨linked.ne_nil, ?_, ?_, ?_, extended.bijective, ?_⟩
  · intro index segment found
    exact linked.open_iff found
  · intro index segment next found after
    exact linked.ends_at_next found after
  · intro pos positive
    obtain ⟨index, segment, found, contains⟩ := linked.exists_contains positive
    obtain ⟨starts, ends⟩ := ChainSegment.contains_iff.mp contains
    refine ⟨index, segment, found, contains, ?_, extended.findSegment found contains, ?_,
      within_of_contains found contains, localToGlobal_globalToLocal starts⟩
    · intro other segment' found' contains'
      exact linked.contains_unique rising found' contains' found contains
    · intro endPos closed
      exact Nat.lt_of_le_of_lt starts (ends endPos closed)
  · intro pos segment found
    have contains : segment.contains pos.toNat = true := by simpa using List.find?_some found
    have positive := linked.startPos_le rising (List.mem_of_find?_eq_some found)
    have starts := (ChainSegment.contains_iff.mp contains).1
    exact ⟨toNat_globalToLocalWord positive starts, localToGlobalWord_globalToLocalWord _ pos⟩

/-- Two reconfigurations at the same position leave an empty segment between them. -/
theorem LogChain.positions_divided_empty :
    (((LogChain.new "a").extend 3 "b").extend 3 "c").findSegment 3 = some ⟨"c", 3, none⟩ ∧
      Set.BijOn (((LogChain.new "a").extend 3 "b").extend 3 "c").globalPos
        {place | (((LogChain.new "a").extend 3 "b").extend 3 "c").Within place}
        {pos | logPosBegin ≤ pos} := by
  refine ⟨by decide, (LogChain.positions_divided ?_).2.2.2.2.1⟩
  refine .extend 3 "c" (.extend 3 "b" (.new "a") ?_) ?_
  · rintro segment ⟨⟩
    decide
  · rintro segment ⟨⟩
    decide

end Relos
