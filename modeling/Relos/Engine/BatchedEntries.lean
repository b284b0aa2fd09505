import Relos.Engine.BatchResults
import Mathlib.Data.List.Induction

set_option autoImplicit false

/-! The entries that the inner applicator is called with, and those that were proposed.
A queued proposal is only a payload, so an entry comes out of its batch without its
headers. -/

namespace Relos

/-- A caller of the batching engine, or the end of a wait of its flush loop. -/
inductive BatchingCall where
  | propose (entry : Entry)
  | sync
  | timeout
  | closed

/-- What `propose` and `sync` submit. A result channel is named by the place of its call. -/
def BatchingCall.submit (index : Nat) : BatchingCall → FlushEvent
  | .propose entry => .request (.propose { payload := entry.payload, resultTx := index })
  | .sync => .request (.sync index)
  | .timeout => .timeout
  | .closed => .closed

/-- An applicator with the calls that it has got, which only statements read. -/
def Applicator.recorded {Memory Choice : Type} (inner : Applicator Memory Choice) :
    Applicator (Memory × List (Entry × Nat)) Choice where
  apply choice memory txn entry pos :=
    let applied := inner.apply choice memory.1 txn entry pos
    ((applied.1, memory.2 ++ [(entry, pos)]), applied.2)

namespace Batching

variable {Memory Choice : Type} {inner : Applicator Memory Choice} {codec : BatchingCodec}

theorem applyAll_recorded {choice : Choice} {pos : Nat} {payloads : List Bytes}
    {first rv : ReturnValue} {memory memory' : Memory × List (Entry × Nat)}
    {txn txn' : MemoryWriteTx}
    (applied : applyAll inner.recorded choice pos payloads first memory txn =
      (memory', .ok (txn', rv))) :
    memory'.2 = memory.2 ++ payloads.map fun payload => (.new payload, pos) := by
  induction payloads generalizing first memory txn with
  | nil =>
      cases applied
      exact (List.append_nil _).symm
  | cons payload payloads ih =>
      unfold applyAll at applied
      rcases ran : inner.recorded.apply choice memory txn (.new payload) pos with
        ⟨middle, error | ⟨txn, value⟩⟩
      · rw [ran] at applied
        cases applied
      · rw [ran] at applied
        have called : middle.2 = memory.2 ++ [(.new payload, pos)] := by
          have same := congrArg Prod.fst ran
          cases same
          rfl
        rw [ih applied, called, List.append_assoc]
        rfl

end Batching

namespace FlushLoop

open Batching

variable {Memory Choice : Type} {codec : BatchingCodec} {inner : Applicator Memory Unit}
  {loop due : FlushLoop Memory}

theorem flushBatch_pending : (loop.flushBatch codec inner).1.pending = [] := by
  unfold flushBatch
  split
  · rename_i empty
    exact empty
  · split <;> rfl

theorem step_pending {maxBatchSize : Nat} {event : FlushEvent} {pending : PendingPropose}
    (member : pending ∈ (step codec inner maxBatchSize loop event).1.pending) :
    pending ∈ loop.pending ∨ event = .request (.propose pending) := by
  have flushed : ∀ other : FlushLoop Memory,
      pending ∉ (other.flushBatch codec inner).1.pending := by
    intro other
    rw [flushBatch_pending]
    exact List.not_mem_nil
  cases event with
  | request request =>
      cases request with
      | propose added =>
          dsimp only [step] at member
          split at member
          · split at member
            · exact absurd member (flushed _)
            · rcases List.mem_append.mp member with earlier | last
              · exact Or.inl earlier
              · rw [List.mem_singleton.mp last]
                exact Or.inr rfl
          · exact Or.inl member
      | sync resultTx =>
          dsimp only [step] at member
          split at member
          · exact absurd member (flushed loop)
          · exact Or.inl member
  | timeout =>
      dsimp only [step] at member
      split at member
      · exact absurd member (flushed loop)
      · exact Or.inl member
  | closed =>
      dsimp only [step] at member
      split at member
      · exact absurd member (flushed loop)
      · exact Or.inl member

/-- A proposal waits with the payload of the entry of its call, and nothing else of it. -/
def Submitted (calls : List BatchingCall) (pending : PendingPropose) : Prop :=
  ∃ entry, calls[pending.resultTx]? = some (.propose entry) ∧ pending.payload = entry.payload

theorem Submitted.later {calls : List BatchingCall} {pending : PendingPropose}
    (submitted : Submitted calls pending) (call : BatchingCall) :
    Submitted (calls ++ [call]) pending := by
  obtain ⟨entry, called, payload⟩ := submitted
  refine ⟨entry, ?_, payload⟩
  rw [List.getElem?_append_left (List.getElem?_eq_some_iff.mp called).1]
  exact called

theorem submitted_last {calls : List BatchingCall} {call : BatchingCall} {pending : PendingPropose}
    (submits : call.submit calls.length = .request (.propose pending)) :
    Submitted (calls ++ [call]) pending := by
  cases call with
  | propose entry =>
      cases submits
      exact ⟨entry, List.getElem?_concat_length, rfl⟩
  | sync | timeout | closed => cases submits

theorem run_submitted (maxBatchSize : Nat) (downstream : ApplyLoop Memory)
    (calls : List BatchingCall) (pending : PendingPropose)
    (member : pending ∈ (run codec inner maxBatchSize (new downstream)
      (calls.mapIdx BatchingCall.submit)).pending) : Submitted calls pending := by
  induction calls using List.reverseRecOn with
  | nil => cases member
  | append_singleton calls call ih =>
      rw [List.mapIdx_concat, run_concat] at member
      rcases step_pending member with earlier | submits
      · exact (ih earlier).later call
      · exact submitted_last submits

theorem flushing_pending {maxBatchSize : Nat} {event : FlushEvent} {pending : PendingPropose}
    (flushes : flushing maxBatchSize loop event = some due) (member : pending ∈ due.pending) :
    pending ∈ loop.pending ∨ event = .request (.propose pending) := by
  have whole : (if loop.running ∧ loop.pending ≠ [] then some loop else none) = some due →
      pending ∈ loop.pending := by
    intro found
    split at found
    · cases found
      exact member
    · cases found
  cases event with
  | request request =>
      cases request with
      | propose added =>
          dsimp only [flushing] at flushes
          split at flushes
          · cases flushes
            rcases List.mem_append.mp member with earlier | last
            · exact Or.inl earlier
            · rw [List.mem_singleton.mp last]
              exact Or.inr rfl
          · cases flushes
      | sync => exact Or.inl (whole flushes)
  | timeout | closed => exact Or.inl (whole flushes)

/-- At every flush of every run, wherever the batch is applied: the inner applicator is
called with the entry that was proposed if and only if the entry has no headers. -/
theorem entry_kept_iff (lawful : codec.Lawful) (maxBatchSize : Nat) (downstream : ApplyLoop Memory)
    (calls : List BatchingCall) (call : BatchingCall)
    (flushes : flushing maxBatchSize (run codec inner maxBatchSize (new downstream)
      (calls.mapIdx BatchingCall.submit)) (call.submit calls.length) = some due)
    {place : Nat} {pending : PendingPropose} (queued : due.pending[place]? = some pending)
    {entry : Entry} (proposed : (calls ++ [call])[pending.resultTx]? = some (.propose entry)) :
    ∃ batched, batchedEntry codec due.pending = .ok batched ∧
      ∀ {Memory' Choice : Type} (upstream : Applicator Memory' Choice) choice memory txn pos
        memory' txn' rv, (applicator codec upstream.recorded).apply choice memory txn batched pos =
          (memory', .ok (txn', rv)) →
        (memory'.2[memory.2.length + place]? = some (entry, pos) ↔ entry.headers = ∅) := by
  obtain ⟨entry', called, payload⟩ : Submitted (calls ++ [call]) pending := by
    rcases flushing_pending flushes (List.mem_of_getElem? queued) with earlier | submits
    · exact (run_submitted maxBatchSize downstream calls pending earlier).later call
    · exact submitted_last submits
  cases proposed.symm.trans called
  obtain ⟨batched, same, -⟩ := batchedEntry_lawful inner lawful due.pending
  refine ⟨batched, same, fun upstream choice memory txn pos memory' txn' rv applied => ?_⟩
  obtain ⟨batched', same', unbatches⟩ := batchedEntry_lawful upstream.recorded lawful due.pending
  cases same.symm.trans same'
  rw [unbatches] at applied
  rw [applyAll_recorded applied, List.getElem?_append_right (Nat.le_add_right _ _),
    Nat.add_sub_cancel_left, List.getElem?_map, List.getElem?_map, queued]
  dsimp only [Option.map_some]
  rw [payload]
  constructor
  · intro kept
    have rebuilt : Entry.new entry.payload = entry := (Prod.mk.inj (Option.some.inj kept)).1
    rw [← rebuilt]
    rfl
  · intro bare
    cases entry
    cases bare
    rfl

/-- An applicator that takes every entry. -/
def accepting : Applicator Unit Unit where
  apply _ _ txn entry _ := ((), .ok (txn, .data entry.payload))

def tagged : Entry := (Entry.new [5]).withHeader "view_tracking" [1]

/-- The header of an entry is gone when the inner applicator is called. -/
theorem not_entry_kept : ∃ due batched memory txn rv,
    flushing 1 (run .standard accepting 1 (new (.new ())) [])
      (BatchingCall.submit 0 (.propose tagged)) = some due ∧
    due.pending = [⟨tagged.payload, 0⟩] ∧ batchedEntry .standard due.pending = .ok batched ∧
    (applicator .standard accepting.recorded).apply () ((), []) ⟨∅⟩ batched 1 =
      (memory, .ok (txn, rv)) ∧
    memory.2 = [(.new [5], 1)] ∧ memory.2[0]? ≠ some (tagged, 1) := by
  refine ⟨{ pending := [⟨tagged.payload, 0⟩], downstream := .new (), running := true }, _,
    ((), [(.new [5], 1)]), ⟨∅⟩, .data [5], rfl, rfl, rfl, by decide +kernel, rfl, ?_⟩
  decide +kernel

/-- Two calls of `propose`, the first with a header. -/
def proposals : List BatchingCall := [.propose tagged, .propose (.new [6])]

/-- Of a batch of two the second entry, which has no headers, is kept. -/
theorem entry_kept_second : ∃ due batched memory txn rv,
    flushing 100 (run .standard accepting 100 (new (.new ()))
      (proposals.mapIdx BatchingCall.submit)) (BatchingCall.submit 2 .timeout) = some due ∧
    due.pending = [⟨[5], 0⟩, ⟨[6], 1⟩] ∧ batchedEntry .standard due.pending = .ok batched ∧
    (applicator .standard accepting.recorded).apply () ((), [(.new [4], 2)]) ⟨∅⟩ batched 3 =
      (memory, .ok (txn, rv)) ∧
    memory.2[2]? = some (.new [6], 3) := by
  have flushes : flushing 100 (run .standard accepting 100 (new (.new ()))
      (proposals.mapIdx BatchingCall.submit)) (BatchingCall.submit 2 .timeout) =
        some { pending := [⟨[5], 0⟩, ⟨[6], 1⟩], downstream := .new (), running := true } := rfl
  have queued : ([⟨[5], 0⟩, ⟨[6], 1⟩] : List PendingPropose)[1]? = some ⟨[6], 1⟩ := rfl
  have proposed : (proposals ++ [.timeout])[1]? = some (.propose (.new [6])) := rfl
  obtain ⟨batched, same, kept⟩ := entry_kept_iff BatchingCodec.standard_lawful 100 (.new ())
    proposals .timeout flushes queued proposed
  have encoded : batchedEntry .standard [⟨[5], 0⟩, ⟨[6], 1⟩] = .ok batched := same
  have applied : (applicator .standard accepting.recorded).apply () ((), [(.new [4], 2)]) ⟨∅⟩
      batched 3 = (((), [(.new [4], 2), (.new [5], 3), (.new [6], 3)]), .ok (⟨∅⟩, .data [6])) := by
    cases encoded
    decide +kernel
  exact ⟨_, batched, _, _, _, flushes, rfl, same, applied,
    (kept accepting () ((), [(.new [4], 2)]) ⟨∅⟩ 3 _ _ _ applied).mpr rfl⟩

end FlushLoop

end Relos
