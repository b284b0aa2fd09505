import Relos.Engine.BatchResults

set_option autoImplicit false

/-! However the proposals are cut into batches, the store is the one that they leave
when proposed one by one, beside the cursor. -/

namespace Relos

open BaseEngine

/-- An applicator that never fails, and acts by its payload alone. Of the store it reads
all but the cursor, which is a position. -/
def Applicator.Steps {Memory : Type} (inner : Applicator Memory Unit)
    (advance : Memory × StoreData → Bytes → Memory × StoreData) : Prop :=
  ∀ memory txn entry pos, ∃ memory' txn' rv,
    inner.apply () memory txn entry pos = (memory', .ok (txn', rv)) ∧
      (memory', txn'.working.erase cursorKey) =
        advance (memory, txn.working.erase cursorKey) entry.payload

namespace ApplyLoop

variable {Memory : Type}

/-- What the loop holds beside its cursor. -/
def contents (loop : ApplyLoop Memory) : Memory × StoreData :=
  (loop.memory, loop.store.data.erase cursorKey)

/-- The payloads proposed one by one. -/
def proposeAll (applicator : Applicator Memory Unit) (loop : ApplyLoop Memory)
    (payloads : List Bytes) : ApplyLoop Memory :=
  payloads.foldl (fun loop payload => (loop.handlePropose applicator (.new payload)).1) loop

variable {applicator : Applicator Memory Unit} {loop : ApplyLoop Memory} {entries : List Entry}

/-- A propose whose apply succeeds leaves the store of that apply. -/
theorem handlePropose_contents (caughtUp : loop.CaughtUp entries) {entry : Entry}
    {memory : Memory} {txn : MemoryWriteTx} {rv : ReturnValue}
    (ran : applicator.apply () loop.memory loop.store.beginWriteTxn entry loop.cursor =
      (memory, .ok (txn, rv))) :
    (loop.handlePropose applicator entry).1.CaughtUp (entries ++ [entry]) ∧
      (loop.handlePropose applicator entry).1.contents =
        (memory, txn.working.erase cursorKey) := by
  rw [handlePropose_caughtUp caughtUp, ran]
  refine ⟨⟨rfl, ?_⟩, ?_⟩
  · dsimp only
    rw [caughtUp.cursor, List.length_append]
    rfl
  · exact congrArg (Prod.mk memory) erase_insert_self

theorem proposeAll_contents {advance : Memory × StoreData → Bytes → Memory × StoreData}
    (steps : applicator.Steps advance) (caughtUp : loop.CaughtUp entries) (payloads : List Bytes) :
    (loop.proposeAll applicator payloads).contents = payloads.foldl advance loop.contents := by
  induction payloads generalizing loop entries with
  | nil => rfl
  | cons payload payloads ih =>
      obtain ⟨memory, txn, rv, ran, advanced⟩ :=
        steps loop.memory loop.store.beginWriteTxn (.new payload) loop.cursor
      obtain ⟨caughtUp', contents⟩ := handlePropose_contents caughtUp ran
      unfold proposeAll
      rw [List.foldl_cons, List.foldl_cons]
      refine (ih caughtUp').trans ?_
      rw [contents, advanced]
      rfl

end ApplyLoop

namespace FlushLoop

open Batching

/-- The payloads that arrive before the channel closes. -/
def received : List FlushEvent → List Bytes
  | [] => []
  | .request (.propose pending) :: events => pending.payload :: received events
  | .request (.sync _) :: events => received events
  | .timeout :: events => received events
  | .closed :: _ => []

variable {Memory : Type} {codec : BatchingCodec} {inner : Applicator Memory Unit}
  {advance : Memory × StoreData → Bytes → Memory × StoreData} {loop : FlushLoop Memory}

theorem applyAll_contents (steps : inner.Steps advance) (pos : Nat) (payloads : List Bytes)
    (first : ReturnValue) (memory : Memory) (txn : MemoryWriteTx) :
    ∃ memory' txn' rv, applyAll inner () pos payloads first memory txn =
        (memory', .ok (txn', rv)) ∧
      (memory', txn'.working.erase cursorKey) =
        payloads.foldl advance (memory, txn.working.erase cursorKey) := by
  induction payloads generalizing first memory txn with
  | nil => exact ⟨memory, txn, first, rfl, rfl⟩
  | cons payload payloads ih =>
      obtain ⟨memory', txn', rv, ran, advanced⟩ := steps memory txn (.new payload) pos
      obtain ⟨memory'', txn'', last, rest, folded⟩ := ih rv memory' txn'
      refine ⟨memory'', txn'', last, ?_, ?_⟩
      · rw [applyAll, ran]
        exact rest
      · rw [folded, advanced]
        rfl

/-- What the engine below holds once the pending payloads are flushed. -/
def drained (advance : Memory × StoreData → Bytes → Memory × StoreData) (loop : FlushLoop Memory) :
    Memory × StoreData :=
  (loop.pending.map PendingPropose.payload).foldl advance loop.downstream.contents

theorem flushBatch_drained (lawful : codec.Lawful) (steps : inner.Steps advance)
    (caughtUp : ∃ entries, loop.downstream.CaughtUp entries) :
    (∃ entries, (loop.flushBatch codec inner).1.downstream.CaughtUp entries) ∧
      (loop.flushBatch codec inner).1.downstream.contents = loop.drained advance ∧
      (loop.flushBatch codec inner).1.pending = [] ∧
      (loop.flushBatch codec inner).1.running = loop.running := by
  obtain ⟨entries, caughtUp⟩ := caughtUp
  unfold flushBatch drained
  by_cases empty : loop.pending = []
  · rw [if_pos empty]
    exact ⟨⟨entries, caughtUp⟩, by rw [empty]; rfl, empty, rfl⟩
  · obtain ⟨entry, batched, unbatches⟩ := batchedEntry_lawful inner lawful loop.pending
    obtain ⟨memory, txn, rv, ran, advanced⟩ := applyAll_contents steps loop.downstream.cursor
      (loop.pending.map PendingPropose.payload) .success loop.downstream.memory
      loop.downstream.store.beginWriteTxn
    rw [← unbatches] at ran
    obtain ⟨caughtUp', contents⟩ := ApplyLoop.handlePropose_contents caughtUp ran
    rw [if_neg empty, batched]
    exact ⟨⟨_, caughtUp'⟩, contents.trans advanced, rfl, rfl⟩

/-- A loop on its way: what it will hold, and whether it takes more. -/
structure Holds (advance : Memory × StoreData → Bytes → Memory × StoreData)
    (loop : FlushLoop Memory) (held : Memory × StoreData) (running : Bool) : Prop where
  caughtUp : ∃ entries, loop.downstream.CaughtUp entries
  drained : loop.drained advance = held
  running : loop.running = running

theorem Holds.flushBatch (lawful : codec.Lawful) (steps : inner.Steps advance)
    {held : Memory × StoreData} {running : Bool} (holds : Holds advance loop held running) :
    Holds advance (loop.flushBatch codec inner).1 held running := by
  obtain ⟨caughtUp, contents, pending, kept⟩ := flushBatch_drained lawful steps holds.caughtUp
  refine ⟨caughtUp, ?_, kept.trans holds.running⟩
  unfold FlushLoop.drained
  rw [pending, contents]
  exact holds.drained

/-- One event adds the payload that it brings. -/
theorem Holds.step (lawful : codec.Lawful) (steps : inner.Steps advance) (maxBatchSize : Nat)
    {held : Memory × StoreData} (holds : Holds advance loop held true) (event : FlushEvent) :
    Holds advance (step codec inner maxBatchSize loop event).1
      ((received [event]).foldl advance held) (decide (event ≠ .closed)) := by
  have flushed := holds.flushBatch lawful steps
  cases event with
  | request request =>
      cases request with
      | propose pending =>
          have pushed : Holds advance { loop with pending := loop.pending ++ [pending] }
              (advance held pending.payload) true := by
            refine ⟨holds.caughtUp, ?_, holds.running⟩
            unfold FlushLoop.drained
            dsimp only
            rw [List.map_append, List.foldl_append]
            exact congrArg (advance · pending.payload) holds.drained
          dsimp only [FlushLoop.step]
          rw [if_pos holds.running]
          split
          · exact pushed.flushBatch lawful steps
          · exact pushed
      | sync resultTx =>
          obtain ⟨entries, caughtUp⟩ := flushed.caughtUp
          dsimp only [FlushLoop.step]
          rw [if_pos holds.running]
          dsimp only
          rw [ApplyLoop.handleSync_caughtUp caughtUp]
          exact flushed
  | timeout =>
      dsimp only [FlushLoop.step]
      rw [if_pos holds.running]
      exact flushed
  | closed =>
      dsimp only [FlushLoop.step]
      rw [if_pos holds.running]
      exact ⟨flushed.caughtUp, flushed.drained, rfl⟩

/-- A loop that has stopped takes no more requests. -/
theorem run_stopped (maxBatchSize : Nat) (stopped : loop.running = false)
    (events : List FlushEvent) : run codec inner maxBatchSize loop events = loop := by
  have stays : ∀ event, (step codec inner maxBatchSize loop event).1 = loop := by
    intro event
    rcases event with (pending | resultTx) | _ | _ <;>
    · dsimp only [step]
      rw [stopped]
      rfl
  induction events with
  | nil => rfl
  | cons event events ih =>
      unfold run at ih ⊢
      rw [List.foldl_cons, stays]
      exact ih

theorem Holds.run (lawful : codec.Lawful) (steps : inner.Steps advance) (maxBatchSize : Nat)
    {held : Memory × StoreData} (holds : Holds advance loop held true) (events : List FlushEvent) :
    ∃ running, Holds advance (run codec inner maxBatchSize loop events)
      ((received events).foldl advance held) running := by
  induction events generalizing loop held with
  | nil => exact ⟨true, holds⟩
  | cons event events ih =>
      have next := holds.step lawful steps maxBatchSize event
      cases event with
      | closed =>
          refine ⟨false, ?_⟩
          have stopped : FlushLoop.run codec inner maxBatchSize loop (.closed :: events) = _ :=
            run_stopped maxBatchSize next.running events
          rw [stopped]
          exact next
      | timeout => exact ih next
      | request request => cases request with
        | propose pending => exact ih next
        | sync resultTx => exact ih next

/-- Once all is flushed, the store is that of the payloads proposed one by one to the
engine below, beside the cursor. -/
theorem batched_store (lawful : codec.Lawful) (steps : inner.Steps advance) (maxBatchSize : Nat)
    {start : ApplyLoop Memory} {entries : List Entry} (caughtUp : start.CaughtUp entries)
    (events : List FlushEvent) :
    ((run codec inner maxBatchSize (new start) events).flushBatch codec
        inner).1.downstream.store.data.erase cursorKey =
      (start.proposeAll inner (received events)).store.data.erase cursorKey := by
  have holds : Holds advance (new start) start.contents true := ⟨⟨entries, caughtUp⟩, rfl, rfl⟩
  obtain ⟨running, held⟩ : ∃ running, Holds advance (run codec inner maxBatchSize (new start) events)
      ((received events).foldl advance start.contents) running :=
    holds.run lawful steps maxBatchSize events
  obtain ⟨-, contents, -⟩ := flushBatch_drained lawful steps held.caughtUp
  have same := contents.trans (held.drained.trans
    (ApplyLoop.proposeAll_contents steps caughtUp (received events)).symm)
  exact congrArg Prod.snd same

/-- Keeps every payload under a key of its own. -/
def keeper : Applicator Unit Unit where
  apply _ memory txn entry _ := (memory, .ok (txn.put (0 :: entry.payload) entry.payload, .success))

theorem keeper_steps :
    keeper.Steps fun held payload => (held.1, held.2.insert (0 :: payload) payload) := by
  intro memory txn entry pos
  refine ⟨memory, _, .success, rfl, congrArg (Prod.mk memory) (erase_insert_of_ne ?_)⟩
  intro same
  have first : some (0 : UInt8) = some 95 := congrArg List.head? same
  exact absurd first (by decide)

theorem batched_store_keeper :
    ((run .standard keeper 2 (new (.new ())) [.request (.propose ⟨[1], 0⟩),
      .request (.propose ⟨[2], 1⟩), .request (.propose ⟨[3], 2⟩), .closed]).flushBatch .standard
        keeper).1.downstream.store.data.erase cursorKey =
      ((ApplyLoop.new ()).proposeAll keeper [[1], [2], [3]]).store.data.erase cursorKey :=
  batched_store BatchingCodec.standard_lawful keeper_steps 2 (.new ()) _

end FlushLoop

end Relos
