import Relos.Engine.BatchedStore

set_option autoImplicit false

/-! The flush loop over any engine, with what it does written down in order: nothing
that it receives is lost, handed on twice or overtaken. -/

namespace Relos

open Batching

/-- An engine as the flush loop calls it. Its state may hold the answers to come. -/
structure Downstream (State : Type) where
  propose : State → Entry → State × Result ReturnValue
  sync : State → State × Result Nat

/-- What the flush loop does to the world around it. -/
inductive FlushAction where
  | received (request : BatchRequest)
  | proposed (entry : Entry)
  | answered (resultTx : Nat) (result : Result ReturnValue)
  | synced
  | answeredSync (resultTx : Nat) (result : Result Nat)

/-- The locals of the flush loop, and the state of the engine below it. -/
structure BatchLoop (State : Type) where
  pending : List PendingPropose
  downstream : State
  running : Bool

namespace BatchLoop

variable {State : Type}

def new (downstream : State) : BatchLoop State :=
  { pending := [], downstream := downstream, running := true }

def answerAll (batch : List PendingPropose) (result : Result ReturnValue) : List FlushAction :=
  batch.map fun pending => .answered pending.resultTx result

variable (codec : BatchingCodec) (engine : Downstream State)

def flushBatch (loop : BatchLoop State) : BatchLoop State × List FlushAction :=
  if loop.pending = [] then (loop, [])
  else
    match batchedEntry codec loop.pending with
    | .ok entry =>
        let (downstream, result) := engine.propose loop.downstream entry
        ({ loop with pending := [], downstream := downstream },
          .proposed entry :: answerAll loop.pending result)
    | .error error => ({ loop with pending := [] }, answerAll loop.pending (.error error))

/-- One round of the flush loop. With nothing pending it waits without a timeout. -/
def step (maxBatchSize : Nat) (loop : BatchLoop State) :
    FlushEvent → BatchLoop State × List FlushAction
  | .request (.propose pending) =>
      if loop.running then
        let loop := { loop with pending := loop.pending ++ [pending] }
        let (loop, actions) :=
          if maxBatchSize ≤ loop.pending.length then loop.flushBatch codec engine else (loop, [])
        (loop, .received (.propose pending) :: actions)
      else (loop, [])
  | .request (.sync resultTx) =>
      if loop.running then
        let (loop, actions) := loop.flushBatch codec engine
        let (downstream, result) := engine.sync loop.downstream
        ({ loop with downstream := downstream },
          .received (.sync resultTx) :: actions ++ [.synced, .answeredSync resultTx result])
      else (loop, [])
  | .timeout => if loop.running then loop.flushBatch codec engine else (loop, [])
  | .closed =>
      if loop.running then
        let (loop, actions) := loop.flushBatch codec engine
        ({ loop with running := false }, actions)
      else (loop, [])

/-- The loop after these events, and all that it did. -/
def run (maxBatchSize : Nat) (loop : BatchLoop State) :
    List FlushEvent → BatchLoop State × List FlushAction
  | [] => (loop, [])
  | event :: events =>
      let (next, actions) := loop.step codec engine maxBatchSize event
      let (last, rest) := next.run maxBatchSize events
      (last, actions ++ rest)

variable {codec engine} {loop : BatchLoop State} {maxBatchSize : Nat} {pending : PendingPropose}

theorem step_stopped (stopped : loop.running = false) (event : FlushEvent) :
    loop.step codec engine maxBatchSize event = (loop, []) := by
  have idle : ¬ loop.running = true := Bool.eq_false_iff.mp stopped
  unfold step
  cases event with
  | request request => cases request <;> exact if_neg idle
  | timeout => exact if_neg idle
  | closed => exact if_neg idle

theorem step_full (running : loop.running = true)
    (full : maxBatchSize ≤ (loop.pending ++ [pending]).length) :
    loop.step codec engine maxBatchSize (.request (.propose pending)) =
      (({ loop with pending := loop.pending ++ [pending] } : BatchLoop State).flushBatch codec
        engine).map id (.received (.propose pending) :: ·) := by
  unfold step
  dsimp only
  rw [if_pos running, if_pos full]
  rfl

theorem step_kept (running : loop.running = true)
    (room : ¬ maxBatchSize ≤ (loop.pending ++ [pending]).length) :
    loop.step codec engine maxBatchSize (.request (.propose pending)) =
      ({ loop with pending := loop.pending ++ [pending] }, [.received (.propose pending)]) := by
  unfold step
  dsimp only
  rw [if_pos running, if_neg room]

end BatchLoop

/-! ### The loop over an apply loop -/

namespace FlushLoop

variable {Memory : Type} (codec : BatchingCodec) (inner : Applicator Memory Unit)

def engine : Downstream (ApplyLoop Memory) where
  propose loop entry := loop.handlePropose (applicator codec inner) entry
  sync loop := loop.handleSync (applicator codec inner)

def toBatchLoop (loop : FlushLoop Memory) : BatchLoop (ApplyLoop Memory) :=
  { pending := loop.pending, downstream := loop.downstream, running := loop.running }

/-- The answers among what a loop does. -/
def replyOf : FlushAction → Option Reply
  | .answered resultTx result => some (resultTx, result.map .returned)
  | .answeredSync resultTx result => some (resultTx, result.map .pos)
  | .received _ => none
  | .proposed _ => none
  | .synced => none

theorem replyOf_answerAll (batch : List PendingPropose) (result : Result ReturnValue) :
    (BatchLoop.answerAll batch result).filterMap replyOf = reply batch result := by
  unfold BatchLoop.answerAll reply
  induction batch with
  | nil => rfl
  | cons pending batch ih =>
      rw [List.map_cons, List.map_cons, List.filterMap_cons, ih]
      rfl

theorem flushBatch_toBatchLoop (loop : FlushLoop Memory) :
    (loop.toBatchLoop.flushBatch codec (engine codec inner)).1 =
        (loop.flushBatch codec inner).1.toBatchLoop ∧
      (loop.toBatchLoop.flushBatch codec (engine codec inner)).2.filterMap replyOf =
        (loop.flushBatch codec inner).2 := by
  have same : loop.toBatchLoop.pending = loop.pending := rfl
  unfold BatchLoop.flushBatch flushBatch
  rw [same]
  by_cases empty : loop.pending = []
  · rw [if_pos empty, if_pos empty]
    exact ⟨rfl, rfl⟩
  · rw [if_neg empty, if_neg empty]
    cases batchedEntry codec loop.pending with
    | error error =>
        constructor
        · rfl
        · exact replyOf_answerAll loop.pending (.error error)
    | ok entry =>
        constructor
        · rfl
        · exact replyOf_answerAll loop.pending _

/-- Step by step the two loops hold the same, and give the same answers. -/
theorem step_toBatchLoop (maxBatchSize : Nat) (loop : FlushLoop Memory) (event : FlushEvent) :
    (loop.toBatchLoop.step codec (engine codec inner) maxBatchSize event).1 =
        (step codec inner maxBatchSize loop event).1.toBatchLoop ∧
      (loop.toBatchLoop.step codec (engine codec inner) maxBatchSize event).2.filterMap replyOf =
        (step codec inner maxBatchSize loop event).2 := by
  obtain ⟨waiting, downstream, running⟩ := loop
  cases running with
  | false =>
      cases event with
      | request request => cases request <;> exact ⟨rfl, rfl⟩
      | timeout => exact ⟨rfl, rfl⟩
      | closed => exact ⟨rfl, rfl⟩
  | true =>
      have flushed := flushBatch_toBatchLoop codec inner ⟨waiting, downstream, true⟩
      cases event with
      | request request =>
          cases request with
          | propose pending =>
              have flushed := flushBatch_toBatchLoop codec inner
                ⟨waiting ++ [pending], downstream, true⟩
              by_cases full : maxBatchSize ≤ (waiting ++ [pending]).length
              · have cut : step codec inner maxBatchSize ⟨waiting, downstream, true⟩
                    (.request (.propose pending)) = flushBatch codec inner
                      ⟨waiting ++ [pending], downstream, true⟩ := if_pos full
                rw [BatchLoop.step_full rfl full, cut]
                exact flushed
              · have kept : step codec inner maxBatchSize ⟨waiting, downstream, true⟩
                    (.request (.propose pending)) =
                      (⟨waiting ++ [pending], downstream, true⟩, []) := if_neg full
                rw [BatchLoop.step_kept rfl full, kept]
                exact ⟨rfl, rfl⟩
          | sync resultTx =>
              unfold BatchLoop.step step
              simp only [toBatchLoop, if_true] at flushed ⊢
              rw [flushed.1]
              constructor
              · rfl
              · rw [List.filterMap_append, List.filterMap_cons]
                exact congrArg (· ++ _) flushed.2
      | timeout => exact flushed
      | closed =>
          unfold BatchLoop.step step
          simp only [toBatchLoop, if_true] at flushed ⊢
          rw [flushed.1]
          exact ⟨rfl, flushed.2⟩

theorem run_toBatchLoop (maxBatchSize : Nat) (loop : FlushLoop Memory) (events : List FlushEvent) :
    (loop.toBatchLoop.run codec (engine codec inner) maxBatchSize events).1 =
      (run codec inner maxBatchSize loop events).toBatchLoop := by
  induction events generalizing loop with
  | nil => rfl
  | cons event events ih =>
      unfold BatchLoop.run
      dsimp only
      rw [(step_toBatchLoop codec inner maxBatchSize loop event).1]
      exact ih _

end FlushLoop

/-! ### What a loop owes -/

/-- The proposals that wait to be handed downstream, and those that were handed on and
wait for their answer. -/
structure Ledger where
  queued : List PendingPropose
  owed : List PendingPropose

/-- A loop takes nothing while it owes an answer, and syncs with nothing queued or owed. -/
inductive Ledger.Step (codec : BatchingCodec) (bound : Nat) : Ledger → FlushAction → Ledger → Prop
  where
  | accept (queued : List PendingPropose) (pending : PendingPropose) :
      Step codec bound ⟨queued, []⟩ (.received (.propose pending)) ⟨queued ++ [pending], []⟩
  | acceptSync (queued : List PendingPropose) (resultTx : Nat) :
      Step codec bound ⟨queued, []⟩ (.received (.sync resultTx)) ⟨queued, []⟩
  | hand {batch : List PendingPropose} {entry : Entry} (nonempty : batch ≠ [])
      (within : batch.length ≤ bound) (encoded : batchedEntry codec batch = .ok entry) :
      Step codec bound ⟨batch, []⟩ (.proposed entry) ⟨[], batch⟩
  | answer (queued owed : List PendingPropose) (pending : PendingPropose)
      (result : Result ReturnValue) :
      Step codec bound ⟨queued, pending :: owed⟩ (.answered pending.resultTx result) ⟨queued, owed⟩
  | sync : Step codec bound ⟨[], []⟩ .synced ⟨[], []⟩
  | answerSync (resultTx : Nat) (result : Result Nat) :
      Step codec bound ⟨[], []⟩ (.answeredSync resultTx result) ⟨[], []⟩

/-- The ledger after all that was done. -/
inductive Books (codec : BatchingCodec) (bound : Nat) : List FlushAction → Ledger → Prop where
  | start : Books codec bound [] ⟨[], []⟩
  | next {trace : List FlushAction} {action : FlushAction} {ledger ledger' : Ledger}
      (books : Books codec bound trace ledger) (step : ledger.Step codec bound action ledger') :
      Books codec bound (trace ++ [action]) ledger'

def FlushAction.accepted : FlushAction → Option PendingPropose
  | .received (.propose pending) => some pending
  | .received (.sync _) => none
  | .proposed _ => none
  | .answered _ _ => none
  | .synced => none
  | .answeredSync _ _ => none

def FlushAction.handed (codec : BatchingCodec) : FlushAction → List Bytes
  | .proposed entry =>
      match codec.payloads.deserialize entry.payload with
      | .ok payloads => payloads
      | .error _ => []
  | .received _ => []
  | .answered _ _ => []
  | .synced => []
  | .answeredSync _ _ => []

def FlushAction.answer : FlushAction → Option Nat
  | .answered resultTx _ => some resultTx
  | .received _ => none
  | .proposed _ => none
  | .synced => none
  | .answeredSync _ _ => none

/-- The proposals received. -/
def accepted (trace : List FlushAction) : List PendingPropose :=
  trace.filterMap FlushAction.accepted

/-- The payloads of the batches handed downstream. -/
def handed (codec : BatchingCodec) (trace : List FlushAction) : List Bytes :=
  trace.flatMap (FlushAction.handed codec)

/-- The proposals answered. -/
def answers (trace : List FlushAction) : List Nat :=
  trace.filterMap FlushAction.answer

section Account

variable {codec : BatchingCodec} {bound : Nat} {trace : List FlushAction} {ledger : Ledger}

theorem accepted_concat (trace : List FlushAction) (action : FlushAction) :
    accepted (trace ++ [action]) = accepted trace ++ action.accepted.toList := by
  unfold accepted
  rw [List.filterMap_append, List.filterMap_cons]
  cases action.accepted <;> rfl

theorem answers_concat (trace : List FlushAction) (action : FlushAction) :
    answers (trace ++ [action]) = answers trace ++ action.answer.toList := by
  unfold answers
  rw [List.filterMap_append, List.filterMap_cons]
  cases action.answer <;> rfl

theorem handed_concat (trace : List FlushAction) (action : FlushAction) :
    handed codec (trace ++ [action]) = handed codec trace ++ action.handed codec := by
  unfold handed
  rw [List.flatMap_append, List.flatMap_cons, List.flatMap_nil, List.append_nil]

theorem batchedEntry_encodes (lawful : codec.Lawful) (batch : List PendingPropose) :
    ∃ entry, batchedEntry codec batch = .ok entry ∧
      codec.payloads.deserialize entry.payload = .ok (batch.map PendingPropose.payload) := by
  obtain ⟨payload, serialized, decoded⟩ := lawful.payloads (batch.map PendingPropose.payload)
  obtain ⟨headerBytes, serialized', -⟩ := lawful.metadata { count := batch.length }
  refine ⟨(Entry.new payload).withHeader header headerBytes, ?_, decoded⟩
  unfold batchedEntry
  rw [serialized]
  dsimp only [Except.bind]
  rw [serialized']
  rfl

theorem batchedEntry_decodes (lawful : codec.Lawful) {batch : List PendingPropose} {entry : Entry}
    (encoded : batchedEntry codec batch = .ok entry) :
    codec.payloads.deserialize entry.payload = .ok (batch.map PendingPropose.payload) := by
  obtain ⟨entry', encoded', decoded⟩ := batchedEntry_encodes lawful batch
  rw [encoded] at encoded'
  cases encoded'
  exact decoded

/-- What was received is what was answered, is owed or is queued. -/
structure Account (codec : BatchingCodec) (trace : List FlushAction) (ledger : Ledger)
    (settled : List PendingPropose) : Prop where
  received : accepted trace = settled ++ ledger.owed ++ ledger.queued
  passed : handed codec trace = (settled ++ ledger.owed).map PendingPropose.payload
  told : answers trace = settled.map PendingPropose.resultTx

/-- An action that is none of the three leaves the account. -/
theorem Account.idle {settled : List PendingPropose} (account : Account codec trace ledger settled)
    {action : FlushAction} (accepts : action.accepted = none) (hands : action.handed codec = [])
    (answered : action.answer = none) : Account codec (trace ++ [action]) ledger settled := by
  constructor
  · rw [accepted_concat, account.received, accepts]
    exact List.append_nil _
  · rw [handed_concat, account.passed, hands]
    exact List.append_nil _
  · rw [answers_concat, account.told, answered]
    exact List.append_nil _

theorem Account.step (lawful : codec.Lawful) {settled : List PendingPropose} {ledger' : Ledger}
    {action : FlushAction} (account : Account codec trace ledger settled)
    (step : ledger.Step codec bound action ledger') :
    ∃ settled', Account codec (trace ++ [action]) ledger' settled' := by
  obtain ⟨received, passed, told⟩ := account
  cases step with
  | accept queued pending =>
      refine ⟨settled, ?_, ?_, ?_⟩
      · rw [accepted_concat, received]
        exact List.append_assoc _ _ _
      · rw [handed_concat, passed]
        exact List.append_nil _
      · rw [answers_concat, told]
        exact List.append_nil _
  | hand nonempty within encoded =>
      refine ⟨settled, ?_, ?_, ?_⟩
      · rw [accepted_concat, received]
        simp [FlushAction.accepted]
      · rw [handed_concat, passed, FlushAction.handed, batchedEntry_decodes lawful encoded]
        simp
      · rw [answers_concat, told]
        exact List.append_nil _
  | answer queued owed pending result =>
      refine ⟨settled ++ [pending], ?_, ?_, ?_⟩
      · rw [accepted_concat, received]
        simp [FlushAction.accepted]
      · rw [handed_concat, passed]
        simp [FlushAction.handed]
      · rw [answers_concat, told]
        simp [FlushAction.answer]
  | acceptSync queued resultTx => exact ⟨settled, .idle ⟨received, passed, told⟩ rfl rfl rfl⟩
  | sync => exact ⟨settled, .idle ⟨received, passed, told⟩ rfl rfl rfl⟩
  | answerSync resultTx result => exact ⟨settled, .idle ⟨received, passed, told⟩ rfl rfl rfl⟩

end Account

namespace Books

variable {codec : BatchingCodec} {bound : Nat} {trace : List FlushAction} {ledger : Ledger}

theorem account (lawful : codec.Lawful) (books : Books codec bound trace ledger) :
    ∃ settled, Account codec trace ledger settled := by
  induction books with
  | start => exact ⟨[], rfl, rfl, rfl⟩
  | next books step ih =>
      obtain ⟨settled, account⟩ := ih
      exact account.step lawful step

/-- Books are kept from the first action on. -/
theorem prefix_kept {shown : List FlushAction} (books : Books codec bound trace ledger)
    (kept : shown <+: trace) : ∃ ledger', Books codec bound shown ledger' := by
  induction books with
  | start =>
      cases List.prefix_nil.mp kept
      exact ⟨_, .start⟩
  | next books step ih =>
      rcases List.prefix_concat_iff.mp kept with rfl | earlier
      · exact ⟨_, .next books step⟩
      · exact ih earlier

theorem split {before after : List FlushAction} {action : FlushAction}
    (books : Books codec bound (before ++ action :: after) ledger) :
    ∃ earlier later, Books codec bound before earlier ∧ earlier.Step codec bound action later := by
  have kept : before ++ [action] <+: before ++ action :: after := ⟨after, List.append_assoc _ _ _⟩
  obtain ⟨ledger', upto⟩ := books.prefix_kept kept
  generalize shape : before ++ [action] = shown at upto
  cases upto with
  | start => exact absurd shape (List.append_ne_nil_of_right_ne_nil before (List.cons_ne_nil _ _))
  | next earlier step =>
      obtain ⟨rfl, same⟩ := List.append_inj' shape rfl
      cases same
      exact ⟨_, _, earlier, step⟩

end Books

/-! ### The loop keeps the books -/

namespace BatchLoop

variable {State : Type} {codec : BatchingCodec} {engine : Downstream State} {maxBatchSize : Nat}
  {loop : BatchLoop State} {trace : List FlushAction}

theorem answerAll_books {bound : Nat} {queued batch : List PendingPropose}
    (books : Books codec bound trace ⟨queued, batch⟩) (result : Result ReturnValue) :
    Books codec bound (trace ++ answerAll batch result) ⟨queued, []⟩ := by
  induction batch generalizing trace with
  | nil =>
      unfold answerAll
      rw [List.map_nil, List.append_nil]
      exact books
  | cons pending batch ih =>
      have told := ih (.next books (.answer queued batch pending result))
      rw [List.append_assoc] at told
      exact told

theorem flushBatch_books (lawful : codec.Lawful) (engine : Downstream State)
    (loop : BatchLoop State) {bound : Nat} (books : Books codec bound trace ⟨loop.pending, []⟩)
    (within : loop.pending.length ≤ bound) :
    Books codec bound (trace ++ (loop.flushBatch codec engine).2) ⟨[], []⟩ ∧
      (loop.flushBatch codec engine).1.pending = [] ∧
      (loop.flushBatch codec engine).1.running = loop.running := by
  unfold flushBatch
  by_cases empty : loop.pending = []
  · rw [if_pos empty]
    rw [empty] at books
    refine ⟨?_, empty, rfl⟩
    rw [List.append_nil]
    exact books
  · obtain ⟨entry, batched, -⟩ := batchedEntry_encodes lawful loop.pending
    rw [if_neg empty, batched]
    have handed := answerAll_books (.next books (.hand empty within batched))
      (engine.propose loop.downstream entry).2
    rw [List.append_assoc] at handed
    exact ⟨handed, rfl, rfl⟩

/-- Between two rounds the loop owes no answer, and has less than a batch. -/
structure Kept (codec : BatchingCodec) (maxBatchSize : Nat) (loop : BatchLoop State)
    (trace : List FlushAction) : Prop where
  books : Books codec (max 1 maxBatchSize) trace ⟨loop.pending, []⟩
  room : loop.pending.length < max 1 maxBatchSize
  stopped : loop.running = false → loop.pending = []

theorem Kept.flushed {loop' : BatchLoop State}
    (books : Books codec (max 1 maxBatchSize) trace ⟨[], []⟩) (flushed : loop'.pending = []) :
    Kept codec maxBatchSize loop' trace := by
  constructor
  · rw [flushed]
    exact books
  · rw [flushed]
    exact Nat.lt_of_lt_of_le Nat.zero_lt_one (Nat.le_max_left 1 maxBatchSize)
  · exact fun _ => flushed

theorem Kept.step (lawful : codec.Lawful) (kept : Kept codec maxBatchSize loop trace)
    (event : FlushEvent) :
    Kept codec maxBatchSize (loop.step codec engine maxBatchSize event).1
      (trace ++ (loop.step codec engine maxBatchSize event).2) := by
  by_cases running : loop.running = true
  · have within := Nat.le_of_lt kept.room
    obtain ⟨books, pending, -⟩ := flushBatch_books lawful engine loop kept.books within
    cases event with
    | request request =>
        cases request with
        | propose pending =>
            have taken := kept.books.next (.accept loop.pending pending)
            have length : (loop.pending ++ [pending]).length = loop.pending.length + 1 :=
              List.length_append
            by_cases full : maxBatchSize ≤ (loop.pending ++ [pending]).length
            · have within : (loop.pending ++ [pending]).length ≤ max 1 maxBatchSize := by
                rw [length]
                exact kept.room
              obtain ⟨books, flushed, -⟩ := flushBatch_books lawful engine
                { loop with pending := loop.pending ++ [pending] } taken within
              rw [step_full running full]
              rw [List.append_assoc] at books
              exact .flushed books flushed
            · rw [step_kept running full]
              refine ⟨taken, ?_, fun stopped => ?_⟩
              · have most := Nat.le_max_right 1 maxBatchSize
                dsimp only
                omega
              · rw [running] at stopped
                cases stopped
        | sync resultTx =>
            obtain ⟨books, flushed, -⟩ := flushBatch_books lawful engine loop
              (kept.books.next (.acceptSync loop.pending resultTx)) within
            have synced := (books.next .sync).next
              (.answerSync resultTx (engine.sync (loop.flushBatch codec engine).1.downstream).2)
            unfold BatchLoop.step
            dsimp only
            rw [if_pos running]
            rw [List.append_assoc, List.append_assoc, List.append_assoc] at synced
            exact .flushed synced flushed
    | timeout =>
        unfold BatchLoop.step
        dsimp only
        rw [if_pos running]
        exact .flushed books pending
    | closed =>
        unfold BatchLoop.step
        dsimp only
        rw [if_pos running]
        exact .flushed books pending
  · have stopped := Bool.eq_false_iff.mpr running
    rw [step_stopped stopped, List.append_nil]
    exact kept

theorem Kept.run (lawful : codec.Lawful) (kept : Kept codec maxBatchSize loop trace)
    (events : List FlushEvent) :
    Kept codec maxBatchSize (loop.run codec engine maxBatchSize events).1
      (trace ++ (loop.run codec engine maxBatchSize events).2) := by
  induction events generalizing loop trace with
  | nil =>
      unfold BatchLoop.run
      rw [List.append_nil]
      exact kept
  | cons event events ih =>
      unfold BatchLoop.run
      dsimp only
      rw [← List.append_assoc]
      exact ih (kept.step lawful event)

/-- An event that brings no proposal leaves nothing pending. -/
theorem Kept.drained (lawful : codec.Lawful) (kept : Kept codec maxBatchSize loop trace)
    {event : FlushEvent} (other : ∀ pending, event ≠ .request (.propose pending)) :
    (loop.step codec engine maxBatchSize event).1.pending = [] := by
  by_cases running : loop.running = true
  · obtain ⟨-, pending, -⟩ := flushBatch_books lawful engine loop kept.books (Nat.le_of_lt kept.room)
    cases event with
    | request request =>
        cases request with
        | propose pending => exact absurd rfl (other pending)
        | sync resultTx =>
            unfold BatchLoop.step
            dsimp only
            rw [if_pos running]
            exact pending
    | timeout =>
        unfold BatchLoop.step
        dsimp only
        rw [if_pos running]
        exact pending
    | closed =>
        unfold BatchLoop.step
        dsimp only
        rw [if_pos running]
        exact pending
  · have stopped := Bool.eq_false_iff.mpr running
    rw [step_stopped stopped]
    exact kept.stopped stopped

theorem run_stopped (stopped : loop.running = false) (events : List FlushEvent) :
    loop.run codec engine maxBatchSize events = (loop, []) := by
  induction events with
  | nil => rfl
  | cons event events ih =>
      unfold run
      rw [step_stopped stopped event]
      dsimp only
      rw [ih]
      rfl

theorem kept_run (lawful : codec.Lawful) (engine : Downstream State) (maxBatchSize : Nat)
    (downstream : State) (events : List FlushEvent) :
    Kept codec maxBatchSize (run codec engine maxBatchSize (new downstream) events).1
      (run codec engine maxBatchSize (new downstream) events).2 :=
  Kept.run lawful (.flushed .start rfl) events

end BatchLoop

end Relos
