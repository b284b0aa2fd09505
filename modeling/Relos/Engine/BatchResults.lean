import Relos.Engine.Batching
import Relos.Table.Bincode
import Relos.Table.TableApplicator

set_option autoImplicit false

/-! What a proposer in a batch is told, and what the inner applicator returned for
its sub-entry. -/

namespace Relos

open Serial

namespace Batching

variable {Memory Choice : Type} (inner : Applicator Memory Choice)

/-- The values that the inner applicator returns in turn, up to its first error. -/
def innerResults (choice : Choice) (pos : Nat) :
    List Bytes → Memory → MemoryWriteTx → List ReturnValue
  | [], _, _ => []
  | payload :: payloads, memory, txn =>
      match inner.apply choice memory txn (.new payload) pos with
      | (memory, .ok (txn, rv)) => rv :: innerResults choice pos payloads memory txn
      | (_, .error _) => []

variable {inner}

/-- Of a batch that is applied each sub-entry was, and the last value is left. -/
theorem applyAll_ok {choice : Choice} {pos : Nat} {payloads : List Bytes} {first rv : ReturnValue}
    {memory memory' : Memory} {txn txn' : MemoryWriteTx}
    (applied : applyAll inner choice pos payloads first memory txn = (memory', .ok (txn', rv))) :
    (innerResults inner choice pos payloads memory txn).length = payloads.length ∧
      (innerResults inner choice pos payloads memory txn).getLast?.getD first = rv := by
  induction payloads generalizing first memory txn with
  | nil =>
      cases applied
      exact ⟨rfl, rfl⟩
  | cons payload payloads ih =>
      unfold applyAll at applied
      unfold innerResults
      rcases ran : inner.apply choice memory txn (.new payload) pos with
        ⟨memory, error | ⟨txn, value⟩⟩
      · rw [ran] at applied
        cases applied
      · rw [ran] at applied
        obtain ⟨length, last⟩ := ih applied
        constructor
        · simp only [List.length_cons, length]
        · rw [List.getLast?_cons, Option.getD_some]
          exact last

end Batching

namespace FlushLoop

open Batching

variable {Memory : Type} (codec : BatchingCodec) (inner : Applicator Memory Unit)

/-- The loop as it stands when this event makes it flush. -/
def flushing (maxBatchSize : Nat) (loop : FlushLoop Memory) : FlushEvent → Option (FlushLoop Memory)
  | .request (.propose pending) =>
      if loop.running ∧ maxBatchSize ≤ (loop.pending ++ [pending]).length then
        some { loop with pending := loop.pending ++ [pending] }
      else none
  | .request (.sync _) | .timeout | .closed =>
      if loop.running ∧ loop.pending ≠ [] then some loop else none

/-- The engine below comes to the batch and applies it. -/
def Applied (loop : FlushLoop Memory) : Prop :=
  loop.downstream.cursor ≤ loop.downstream.loglet.tail ∧
    ∃ entry rv, batchedEntry codec loop.pending = .ok entry ∧
      (loop.downstream.handlePropose (applicator codec inner) entry).2 = .ok rv

/-- What the inner applicator returns for the sub-entries of the batch, in the state
that the engine comes to it in. -/
def ownResults (loop : FlushLoop Memory) : List ReturnValue :=
  match batchedEntry codec loop.pending with
  | .ok entry =>
      let reached := (loop.downstream.reaching (applicator codec inner) entry).1
      innerResults inner () reached.cursor (loop.pending.map PendingPropose.payload) reached.memory
        reached.store.beginWriteTxn
  | .error _ => []

/-- The proposer of each sub-entry gets the value returned for that sub-entry. -/
def ToldOwn (loop : FlushLoop Memory) (replies : List Reply) : Prop :=
  ∀ (index : Nat) (pending : PendingPropose), loop.pending[index]? = some pending →
    ∃ rv, (loop.ownResults codec inner)[index]? = some rv ∧
      replies[index]? = some (pending.resultTx, .ok (.returned rv))

/-- All sub-entries are given one value. -/
def OneResult (loop : FlushLoop Memory) : Prop :=
  ∀ rv ∈ loop.ownResults codec inner, (loop.ownResults codec inner).getLast? = some rv

variable {codec inner} {loop due : FlushLoop Memory}

variable (codec inner) in
/-- Such a loop has proposals waiting, and the replies of its flush come first. -/
theorem flushing_eq_some {maxBatchSize : Nat} {event : FlushEvent}
    (flushes : flushing maxBatchSize loop event = some due) :
    due.pending ≠ [] ∧
      (due.flushBatch codec inner).2 <+: (step codec inner maxBatchSize loop event).2 := by
  have waits : (if loop.running ∧ loop.pending ≠ [] then some loop else none) = some due →
      loop.running ∧ loop.pending ≠ [] ∧ loop = due := by
    intro found
    split at found
    · rename_i going
      exact ⟨going.1, going.2, Option.some.inj found⟩
    · cases found
  cases event with
  | request request =>
      cases request with
      | propose pending =>
          dsimp only [flushing] at flushes
          split at flushes
          · rename_i going
            cases flushes
            constructor
            · simp
            · dsimp only [step]
              rw [if_pos going.1, if_pos going.2]
          · cases flushes
      | sync resultTx =>
          obtain ⟨running, waiting, rfl⟩ := waits flushes
          refine ⟨waiting, ?_⟩
          dsimp only [step]
          rw [if_pos running]
          exact List.prefix_append _ _
  | timeout =>
      obtain ⟨running, waiting, rfl⟩ := waits flushes
      refine ⟨waiting, ?_⟩
      dsimp only [step]
      rw [if_pos running]
  | closed =>
      obtain ⟨running, waiting, rfl⟩ := waits flushes
      refine ⟨waiting, ?_⟩
      dsimp only [step]
      rw [if_pos running]

theorem flushBatch_applied (lawful : codec.Lawful) (waiting : loop.pending ≠ [])
    (applied : loop.Applied codec inner) :
    ∃ rv, (loop.ownResults codec inner).length = loop.pending.length ∧
      (loop.ownResults codec inner).getLast? = some rv ∧
      (loop.flushBatch codec inner).2 = reply loop.pending (.ok rv) := by
  obtain ⟨behind, entry, rv, batched, handled⟩ := applied
  obtain ⟨reached, memory, txn, comes, ran⟩ := ApplyLoop.handlePropose_last behind handled
  obtain ⟨entry', batched', unbatches⟩ := batchedEntry_lawful inner lawful loop.pending
  rw [batched] at batched'
  cases batched'
  rw [unbatches] at ran
  obtain ⟨length, last⟩ := applyAll_ok ran
  rw [List.length_map] at length
  have values : loop.ownResults codec inner =
      innerResults inner () reached.cursor (loop.pending.map PendingPropose.payload) reached.memory
        reached.store.beginWriteTxn := by
    unfold ownResults
    rw [batched]
    dsimp only
    rw [comes]
  refine ⟨rv, values ▸ length, ?_, ?_⟩
  · cases ends : (loop.ownResults codec inner).getLast? with
    | none =>
        rw [values, List.getLast?_eq_none_iff] at ends
        rw [ends] at length
        exact absurd (List.length_eq_zero_iff.mp length.symm) waiting
    | some value =>
        rw [← values, ends] at last
        exact congrArg some last
  · unfold flushBatch
    rw [if_neg waiting, batched]
    dsimp only
    rw [handled]

/-- At every flush of every run: if the batch is applied, its proposers are told their
own results if and only if all sub-entries were given the same one. -/
theorem toldOwn_iff (lawful : codec.Lawful) (maxBatchSize : Nat) (start : FlushLoop Memory)
    (events : List FlushEvent) (event : FlushEvent)
    (flushes : flushing maxBatchSize (run codec inner maxBatchSize start events) event = some due)
    (applied : due.Applied codec inner) :
    due.ToldOwn codec inner
        (step codec inner maxBatchSize (run codec inner maxBatchSize start events) event).2 ↔
      due.OneResult codec inner := by
  obtain ⟨waiting, first⟩ := flushing_eq_some codec inner flushes
  obtain ⟨rv, length, last, told⟩ := flushBatch_applied lawful waiting applied
  rw [told] at first
  have replied : ∀ (index : Nat) (pending : PendingPropose), due.pending[index]? = some pending →
      (step codec inner maxBatchSize (run codec inner maxBatchSize start events) event).2[index]? =
        some (pending.resultTx, .ok (.returned rv)) := by
    intro index pending found
    obtain ⟨rest, same⟩ := first
    have inside := (List.getElem?_eq_some_iff.mp found).1
    unfold reply at same
    rw [← same, List.getElem?_append_left (by rwa [List.length_map]), List.getElem?_map, found]
    rfl
  constructor
  · intro own value member
    obtain ⟨index, found⟩ := List.getElem?_of_mem member
    have inside : index < due.pending.length := by
      rw [← length]
      exact (List.getElem?_eq_some_iff.mp found).1
    obtain ⟨value', found', heard⟩ := own index _ (List.getElem?_eq_getElem inside)
    rw [found] at found'
    rw [replied index _ (List.getElem?_eq_getElem inside)] at heard
    cases found'
    cases heard
    exact last
  · intro one index pending found
    have inside : index < (due.ownResults codec inner).length := by
      rw [length]
      exact (List.getElem?_eq_some_iff.mp found).1
    have same := one _ (List.getElem_mem inside)
    rw [last] at same
    cases same
    exact ⟨_, List.getElem?_eq_getElem inside, replied index pending found⟩

/-- A batch of one entry has one result. -/
theorem oneResult_single (lawful : codec.Lawful) {pending : PendingPropose}
    (single : loop.pending = [pending]) (applied : loop.Applied codec inner) :
    loop.OneResult codec inner := by
  obtain ⟨rv, length, last, -⟩ := flushBatch_applied lawful (by rw [single]; simp) applied
  rw [single] at length
  obtain ⟨value, only⟩ := List.length_eq_one_iff.mp length
  intro value' member
  rw [only] at member ⊢
  rw [List.mem_singleton.mp member]
  rfl

/-! ### A put that is rejected beside one that is accepted -/

def create : Bytes :=
  Bincode.command.encode (.createTable ⟨"users", [⟨"id", .int64, false⟩], ["id"]⟩)

def rejectedPut : Bytes := Bincode.command.encode (.put "users" ⟨[]⟩)

def put (id : Int64) : Bytes := Bincode.command.encode (.put "users" ⟨[.int64 id]⟩)

def puts : List FlushEvent :=
  [.request (.propose ⟨create, 0⟩), .timeout, .request (.propose ⟨rejectedPut, 1⟩),
    .request (.propose ⟨put 1, 2⟩)]

def acceptedPuts : List FlushEvent :=
  [.request (.propose ⟨create, 0⟩), .timeout, .request (.propose ⟨put 1, 1⟩),
    .request (.propose ⟨put 2, 2⟩)]

end FlushLoop

def BatchingCodec.standard : BatchingCodec where
  metadata := .ofFormat (Format.count.map BatchMetadata.count (fun count => some ⟨count⟩) fun _ => rfl)
  payloads := .ofFormat (.list (.list Bincode.byte))

theorem BatchingCodec.standard_lawful : BatchingCodec.standard.Lawful :=
  ⟨Bincode.ofFormat_lawful _, Bincode.ofFormat_lawful _⟩

namespace FlushLoop

/-- A flush loop over an engine of tables, after these events. -/
def tables (maxBatchSize : Nat) (events : List FlushEvent) : FlushLoop Unit :=
  run .standard (tableApplicator .standard) maxBatchSize (new (.new ())) events

/-- Both puts of the batch are accepted, each for a row of its own. -/
theorem toldOwn_accepted : ∃ due, flushing 100 (tables 100 acceptedPuts) .timeout = some due ∧
    due.pending = [⟨put 1, 1⟩, ⟨put 2, 2⟩] ∧
    due.Applied .standard (tableApplicator .standard) ∧
    due.ToldOwn .standard (tableApplicator .standard)
      (step .standard (tableApplicator .standard) 100 (tables 100 acceptedPuts) .timeout).2 := by
  have flushes : flushing 100 (tables 100 acceptedPuts) .timeout = some (tables 100 acceptedPuts) := by
    dsimp only [flushing]
    exact if_pos ⟨by decide +kernel, by decide +kernel⟩
  have applied : (tables 100 acceptedPuts).Applied .standard (tableApplicator .standard) :=
    ⟨by decide +kernel, _, .data (Bincode.response.encode .ok), rfl, by decide +kernel⟩
  have one : (tables 100 acceptedPuts).OneResult .standard (tableApplicator .standard) := by
    unfold OneResult
    decide +kernel
  exact ⟨_, flushes, by decide +kernel, applied,
    (toldOwn_iff BatchingCodec.standard_lawful 100 _ acceptedPuts .timeout flushes applied).mpr one⟩

/-- Both proposers are told that their put was accepted. -/
theorem not_toldOwn : ¬ ∀ (maxBatchSize : Nat) (events : List FlushEvent) (event : FlushEvent)
    (due : FlushLoop Unit), flushing maxBatchSize (tables maxBatchSize events) event = some due →
      due.Applied .standard (tableApplicator .standard) →
      due.ToldOwn .standard (tableApplicator .standard)
        (step .standard (tableApplicator .standard) maxBatchSize (tables maxBatchSize events)
          event).2 := by
  intro own
  have flushes : flushing 100 (tables 100 puts) .timeout = some (tables 100 puts) := by
    dsimp only [flushing]
    exact if_pos ⟨by decide +kernel, by decide +kernel⟩
  have applied : (tables 100 puts).Applied .standard (tableApplicator .standard) :=
    ⟨by decide +kernel, _, .data (Bincode.response.encode .ok), rfl, by decide +kernel⟩
  obtain ⟨rv, result, told⟩ := own 100 puts .timeout _ flushes applied 0 ⟨rejectedPut, 1⟩
    (by decide +kernel)
  have rejected : ((tables 100 puts).ownResults .standard (tableApplicator .standard))[0]? =
      some (.data (Bincode.response.encode
        (.error "row has 0 values but schema has 1 columns"))) := by
    decide +kernel
  have accepted : (step .standard (tableApplicator .standard) 100 (tables 100 puts) .timeout).2[0]? =
      some (1, .ok (.returned (.data (Bincode.response.encode .ok)))) := by
    decide +kernel
  rw [rejected] at result
  rw [accepted] at told
  cases result
  exact absurd told (by decide +kernel)

end FlushLoop

end Relos
