import Relos.Engine.ApplyLoop

set_option autoImplicit false

/-! The engine that collects proposals and passes them on as one entry, and the
applicator that takes such an entry apart again. -/

namespace Relos

structure BatchMetadata where
  count : Nat
deriving DecidableEq

/-- `bincode` at the types of a batched entry. -/
structure BatchingCodec where
  metadata : Bincode BatchMetadata
  payloads : Bincode (List Bytes)

structure BatchingCodec.Lawful (codec : BatchingCodec) : Prop where
  metadata : codec.metadata.Lawful
  payloads : codec.payloads.Lawful

structure PendingPropose where
  payload : Bytes
  resultTx : Nat
deriving DecidableEq

inductive BatchRequest where
  | propose (pending : PendingPropose)
  | sync (resultTx : Nat)
deriving DecidableEq

/-- What the flush loop wakes up for. -/
inductive FlushEvent where
  | request (request : BatchRequest)
  | timeout
  | closed
deriving DecidableEq

namespace Batching

variable {Memory Choice : Type}

def header : String := "batching"

/-- The sub-entries of a batch in order. The last return value is that of the batch. -/
def applyAll (inner : Applicator Memory Choice) (choice : Choice) (pos : Nat) :
    List Bytes → ReturnValue → Memory → MemoryWriteTx →
      Memory × Result (MemoryWriteTx × ReturnValue)
  | [], lastRv, memory, txn => (memory, .ok (txn, lastRv))
  | payload :: payloads, _, memory, txn =>
      match inner.apply choice memory txn (.new payload) pos with
      | (memory, .ok (txn, rv)) => applyAll inner choice pos payloads rv memory txn
      | (memory, .error error) => (memory, .error error)

def applicator (codec : BatchingCodec) (inner : Applicator Memory Choice) :
    Applicator Memory Choice where
  apply choice memory txn entry pos :=
    match entry.getHeader header with
    | some headerBytes =>
        match codec.metadata.deserialize headerBytes, codec.payloads.deserialize entry.payload with
        | .ok metadata, .ok payloads =>
            if payloads.length ≠ metadata.count then
              (memory, .error (.internal ("batch metadata count " ++ toString metadata.count ++
                " != actual payload count " ++ toString payloads.length)))
            else applyAll inner choice pos payloads .success memory txn
        | .error error, _ => (memory, .error error)
        | .ok _, .error error => (memory, .error error)
    | none => inner.apply choice memory txn entry pos

/-- The entry that a batch is proposed in. -/
def batchedEntry (codec : BatchingCodec) (batch : List PendingPropose) : Result Entry :=
  (codec.payloads.serialize (batch.map PendingPropose.payload)).bind fun batchedPayload =>
    (codec.metadata.serialize { count := batch.length }).map fun headerBytes =>
      (Entry.new batchedPayload).withHeader header headerBytes

end Batching

/-- The locals of the flush loop, and the engine below it. -/
structure FlushLoop (Memory : Type) where
  pending : List PendingPropose
  downstream : ApplyLoop Memory
  running : Bool

namespace FlushLoop

variable {Memory : Type}

abbrev Reply := Nat × EngineResult

def new (downstream : ApplyLoop Memory) : FlushLoop Memory :=
  { pending := [], downstream := downstream, running := true }

/-- Every proposal of a batch gets the one result. -/
def reply (batch : List PendingPropose) (result : Result ReturnValue) : List Reply :=
  batch.map fun pending => (pending.resultTx, result.map .returned)

variable (codec : BatchingCodec) (inner : Applicator Memory Unit)

def flushBatch (loop : FlushLoop Memory) : FlushLoop Memory × List Reply :=
  if loop.pending = [] then (loop, [])
  else
    match Batching.batchedEntry codec loop.pending with
    | .ok entry =>
        let (downstream, result) := loop.downstream.handlePropose (Batching.applicator codec inner) entry
        ({ loop with pending := [], downstream := downstream }, reply loop.pending result)
    | .error error => ({ loop with pending := [] }, reply loop.pending (.error error))

/-- One round of the flush loop. With nothing pending it waits without a timeout. -/
def step (maxBatchSize : Nat) (loop : FlushLoop Memory) : FlushEvent → FlushLoop Memory × List Reply
  | .request (.propose pending) =>
      if loop.running then
        let loop := { loop with pending := loop.pending ++ [pending] }
        if maxBatchSize ≤ loop.pending.length then loop.flushBatch codec inner else (loop, [])
      else (loop, [])
  | .request (.sync resultTx) =>
      if loop.running then
        let (loop, replies) := loop.flushBatch codec inner
        let (downstream, result) := loop.downstream.handleSync (Batching.applicator codec inner)
        ({ loop with downstream := downstream }, replies ++ [(resultTx, result.map .pos)])
      else (loop, [])
  | .timeout => if loop.running then loop.flushBatch codec inner else (loop, [])
  | .closed =>
      if loop.running then
        let (loop, replies) := loop.flushBatch codec inner
        ({ loop with running := false }, replies)
      else (loop, [])

/-- The loop after these events. -/
def run (maxBatchSize : Nat) (loop : FlushLoop Memory) (events : List FlushEvent) :
    FlushLoop Memory :=
  events.foldl (fun loop event => (step codec inner maxBatchSize loop event).1) loop

theorem run_concat (maxBatchSize : Nat) (loop : FlushLoop Memory) (events : List FlushEvent)
    (event : FlushEvent) :
    run codec inner maxBatchSize loop (events ++ [event]) =
      (step codec inner maxBatchSize (run codec inner maxBatchSize loop events) event).1 := by
  unfold run
  rw [List.foldl_append]
  rfl

end FlushLoop

namespace Batching

variable {Memory Choice : Type} {codec : BatchingCodec} {inner : Applicator Memory Choice}

variable (inner) in
theorem batchedEntry_lawful (lawful : codec.Lawful) (batch : List PendingPropose) :
    ∃ entry, batchedEntry codec batch = .ok entry ∧ ∀ choice memory txn pos,
      (applicator codec inner).apply choice memory txn entry pos =
        applyAll inner choice pos (batch.map PendingPropose.payload) .success memory txn := by
  obtain ⟨payload, encoded, decoded⟩ := lawful.payloads (batch.map PendingPropose.payload)
  obtain ⟨headerBytes, encoded', decoded'⟩ := lawful.metadata { count := batch.length }
  refine ⟨(Entry.new payload).withHeader header headerBytes, ?_, fun choice memory txn pos => ?_⟩
  · unfold batchedEntry
    rw [encoded]
    dsimp only [Except.bind]
    rw [encoded']
    rfl
  · have held : ((Entry.new payload).withHeader header headerBytes).getHeader header =
        some headerBytes := Std.ExtTreeMap.getElem?_insert_self
    have held' : ((Entry.new payload).withHeader header headerBytes).payload = payload := rfl
    unfold applicator
    dsimp only
    rw [held]
    dsimp only
    rw [decoded', held', decoded]
    dsimp only
    rw [if_neg (not_not_intro (List.length_map _))]

end Batching

end Relos
