import Relos.Log.NativeTolerance

set_option autoImplicit false

/-! The queues of the log servers. A poll sends at most one request, a task serves the
first one in its queue, and so a read finds what was queued before it. -/

namespace Relos

open Async

theorem LogServer.store_covers {server : LogServer} (isOpen : server.sealed = false) (pos : Nat)
    (entry : Entry) : (server.store pos entry).1.Covers pos := by
  cases stored : (server.store pos entry).2 with
  | error tail =>
      have isSealed := store_error stored
      rw [store_sealed, isOpen] at isSealed
      cases isSealed
  | ok repeated => exact Or.inl (store_ok stored)

theorem LogServer.read_ne_notFound {server : LogServer} {pos : Nat} (covers : server.Covers pos) :
    server.read pos ≠ .notFound :=
  fun absent => not_covers_of_read absent covers

def Request.Seals {n : Nat} : Request n → Prop
  | .sequencer .seal => True
  | .logServer _ .seal => True
  | _ => False

/-- The request, once served, may leave the position covered. -/
def Request.Fills {n : Nat} (pos : Nat) : Request n → Prop
  | .logServer _ (.store stored _) => stored = pos
  | .logServer _ (.trim _) => True
  | _ => False

theorem LogServer.covers_of_handle {n : Nat} {server : LogServer} {asked : LogServerRequest}
    {pos : Nat} (target : Fin n) (covers : (server.handle asked).1.Covers pos) :
    server.Covers pos ∨ (Request.logServer target asked).Fills pos := by
  cases asked with
  | store stored entry =>
      rcases covers with ⟨held, present⟩ | trimmed
      · rcases store_entries present with before | ⟨same, -, -⟩
        · exact Or.inl (Or.inl ⟨held, before⟩)
        · exact Or.inr same.symm
      · have kept : (server.store stored entry).1.trimPos = server.trimPos := store_trimPos
        exact Or.inl (Or.inr (kept ▸ trimmed))
  | read read => exact Or.inl covers
  | «seal» => exact Or.inl covers
  | trim trimmed => exact Or.inr trivial

namespace NativeLoglet

variable {n : Nat} {state next : NativeLoglet n} {index receiver bound pos : Nat} {op : LogletOp}
  {progress : Progress Future LogletResult} {future : Future} {holder : Fin n}

/-! ### Polls and the queues -/

/-- The requests that a future may send. -/
def MaySend : Future → Request n → Prop
  | .nextPos, .sequencer .nextPos => True
  | .checkTail, .sequencer .checkTail => True
  | .sealSequencer, .sequencer .seal => True
  | .fanOutStore pos _, .logServer _ (.store pos' _) => pos' = pos
  | .read pos _, .logServer _ (.read pos') => pos' = pos
  | .fanOutTrim pos _, .logServer _ (.trim pos') => pos' = pos
  | .fanOutSeal _ _, .logServer _ .seal => True
  | _, _ => False

/-- A poll leaves the servers alone and sends at most one request. -/
structure Polls (index : Nat) (op : LogletOp) (future : Future) (state next : NativeLoglet n) :
    Prop where
  sequencer : next.sequencer = state.sequencer
  logServers : next.logServers = state.logServers
  messages : next.messages = state.messages ∨ ∃ request, MaySend future request ∧
    next.messages = state.messages ++ [⟨(index, op), request, .pending⟩]

theorem Polls.still (index : Nat) (op : LogletOp) (future : Future) (state : NativeLoglet n) :
    Polls index op future state state :=
  ⟨rfl, rfl, Or.inl rfl⟩

theorem Polls.flag (index : Nat) (op : LogletOp) (future : Future) (state : NativeLoglet n) :
    Polls index op future state { state with sealed := true } :=
  ⟨rfl, rfl, Or.inl rfl⟩

theorem Polls.send {request : Request n} (may : MaySend future request) :
    Polls index op future state (state.send index op request) :=
  ⟨rfl, rfl, Or.inr ⟨request, may, rfl⟩⟩

theorem fanOut_polls {request : LogServerRequest} {receivers : List Nat} {more : List Nat → Future}
    {sentAll : Future} (may : ∀ server : Fin n, MaySend future (.logServer server request))
    (polled : fanOut state index op request receivers more sentAll = some (next, progress)) :
    Polls index op future state next := by
  unfold fanOut at polled
  split at polled
  · unfold sendTo at polled
    split at polled <;> cases polled
    · exact .send (may _)
    · exact .still ..
  · cases polled
    exact .still ..

theorem poll_polls (polled : poll state index op future = some (next, progress)) :
    Polls index op future state next := by
  cases future with
  | nextPos | checkTail | sealSequencer =>
      cases polled
      exact .send trivial
  | markSealed =>
      cases polled
      exact .flag ..
  | append =>
      simp only [poll] at polled
      split at polled <;> cases polled <;> exact .still ..
  | nextPosReply | checkTailReply | readReply | sealSequencerReply =>
      simp only [poll] at polled
      split at polled <;> cases polled <;> exact .still ..
  | fanOutStore pos receivers =>
      cases op with
      | append entry =>
          refine fanOut_polls ?_ polled
          exact fun _ => rfl
      | checkTail | read | trim | «seal» => cases polled
  | fanOutTrim pos receivers =>
      refine fanOut_polls ?_ polled
      exact fun _ => rfl
  | fanOutSeal sequencerTail receivers =>
      refine fanOut_polls ?_ polled
      exact fun _ => trivial
  | read pos server =>
      simp only [poll] at polled
      split at polled
      · unfold sendTo at polled
        split at polled <;> cases polled
        · exact .send rfl
        · exact .still ..
      · cases polled
        exact .still ..
  | storeReplies pos receivers ackCount sealTail =>
      cases receivers with
      | nil =>
          simp only [poll, acknowledge] at polled
          split at polled
          · cases polled
            exact .still ..
          · split at polled <;> cases polled
            · exact .flag ..
            · exact .still ..
      | cons receiver rest =>
          simp only [poll] at polled
          split at polled <;> cases polled <;> exact .still ..
  | trimReplies receivers =>
      cases receivers with
      | nil =>
          cases polled
          exact .still ..
      | cons receiver rest =>
          simp only [poll] at polled
          split at polled <;> cases polled <;> exact .still ..
  | sealReplies sequencerTail receivers sealedCount maxTail =>
      cases receivers with
      | nil =>
          simp only [poll] at polled
          split at polled <;> cases polled
          · exact .still ..
          · exact .flag ..
      | cons receiver rest =>
          simp only [poll] at polled
          split at polled <;> cases polled <;> exact .still ..

theorem Polls.extends (polls : Polls index op future state next) :
    state.messages <+: next.messages := by
  rcases polls.messages with same | ⟨request, -, same⟩
  · rw [same]
  · rw [same]
    exact List.prefix_append _ _

/-- What is in flight after a poll was before, or has just been sent. -/
theorem Polls.found (polls : Polls index op future state next) {message : Message n}
    (found : next.messages[receiver]? = some message) :
    state.messages[receiver]? = some message ∨
      (MaySend future message.request ∧ message.receipt = .pending) := by
  rcases polls.messages with same | ⟨request, may, same⟩
  · exact Or.inl (same ▸ found)
  · rw [same] at found
    rcases getElem?_of_concat found with before | ⟨-, rfl⟩
    · exact Or.inl before
    · exact Or.inr ⟨may, rfl⟩

/-- A task serves the first request in its queue. -/
theorem serve_first {task : Task n} (served : state.serve task = some next) :
    ∃ receiver sender request, state.messages[receiver]? = some ⟨sender, request, .pending⟩ ∧
      request.task = task ∧ next = state.handle receiver request ∧
      ∀ earlier asked, earlier < receiver → state.Pending earlier asked → asked.task ≠ task := by
  unfold serve at served
  obtain ⟨receiver, first, chosen⟩ := Option.bind_eq_some_iff.mp served
  obtain ⟨⟨sender, request, receipt⟩, found, same⟩ := Option.map_eq_some_iff.mp chosen
  obtain ⟨inside, queued, skipped⟩ := List.findIdx?_eq_some_iff_getElem.mp first
  rw [List.getElem?_eq_getElem inside] at found
  rw [Option.some.inj found] at queued
  simp only [Message.isQueued, Bool.and_eq_true, decide_eq_true_eq] at queued
  obtain ⟨rfl, here⟩ := queued
  refine ⟨receiver, sender, request, ?_, here, same.symm, ?_⟩
  · rw [List.getElem?_eq_getElem inside, found]
  · intro earlier asked before pending same
    obtain ⟨sender', waiting⟩ := pending
    obtain ⟨inside', present⟩ := List.getElem?_eq_some_iff.mp waiting
    apply skipped earlier before
    rw [present]
    simp [Message.isQueued, same]

/-! ### Loglets that nobody seals -/

/-- No log server is sealed, and no request asks for it. -/
structure Unsealed (state : NativeLoglet n) : Prop where
  requests : ∀ (receiver : Nat) (message : Message n), state.messages[receiver]? = some message →
    ¬ message.request.Seals
  logServers : ∀ server, (state.logServers server).sealed = false

theorem Unsealed.new (n : Nat) : (new n).Unsealed :=
  ⟨fun _ _ found => (by cases found), fun _ => rfl⟩

theorem Unsealed.poll {exit : Exit} {trims : Prop} (unsealed : state.Unsealed)
    (other : op ≠ .seal) (running : Running exit trims state index op future)
    (polls : Polls index op future state next) : next.Unsealed := by
  refine ⟨fun receiver message found seals => ?_, fun server => ?_⟩
  · rcases polls.found found with before | ⟨may, -⟩
    · exact unsealed.requests receiver message before seals
    · unfold Request.Seals at seals
      split at seals
      · rename_i asked
        rw [asked] at may
        cases future with
        | sealSequencer => exact other running.1
        | append | nextPos | nextPosReply | markSealed | checkTail | checkTailReply | fanOutStore
        | storeReplies | read | readReply | fanOutTrim | trimReplies | sealSequencerReply
        | fanOutSeal | sealReplies => exact may
      · rename_i asked
        rw [asked] at may
        cases future with
        | fanOutSeal => exact other running.1
        | append | nextPos | nextPosReply | markSealed | checkTail | checkTailReply | fanOutStore
        | storeReplies | read | readReply | fanOutTrim | trimReplies | sealSequencer
        | sealSequencerReply | sealReplies => exact may
      · exact seals
  · rw [polls.logServers]
    exact unsealed.logServers server

theorem Unsealed.serve {task : Task n} (unsealed : state.Unsealed)
    (served : state.serve task = some next) : next.Unsealed := by
  obtain ⟨receiver, sender, request, pending, rfl⟩ := serve_cases served
  refine ⟨fun other message found => ?_, fun server => ?_⟩
  · rw [handle_messages] at found
    rcases answer_messages pending found with ⟨rfl, rfl⟩ | ⟨-, before⟩
    · exact unsealed.requests other ⟨sender, request, .pending⟩ pending
    · exact unsealed.requests other message before
  · cases request with
    | sequencer asked => exact unsealed.logServers server
    | logServer target asked =>
        rcases handle_logServers state receiver target server asked with ⟨rfl, self⟩ | ⟨-, same⟩
        · rw [self]
          cases isSealed : ((state.logServers server).handle asked).1.sealed with
          | false => rfl
          | true =>
              rcases LogServer.handle_sealed isSealed with before | rfl
              · rw [unsealed.logServers] at before
                cases before
              · exact absurd trivial (unsealed.requests receiver _ pending)
        · rw [same]
          exact unsealed.logServers server

/-! ### Stores ahead of a read -/

/-- The server holds the position, or its queue has a store of it before the bound. -/
def Ahead (state : NativeLoglet n) (holder : Fin n) (pos bound : Nat) : Prop :=
  (state.logServers holder).Covers pos ∨
    ∃ earlier entry, earlier < bound ∧ state.Pending earlier (.logServer holder (.store pos entry))

/-- The read has not passed the server, and waits there behind the store. -/
def Behind (state : NativeLoglet n) (holder : Fin n) (pos : Nat) : Future → Prop
  | .read _ server => server ≤ holder.val
  | .readReply _ server receiver => server ≤ holder.val ∧ (server = holder.val →
      ∃ sender receipt, state.messages[receiver]? =
          some ⟨sender, .logServer holder (.read pos), receipt⟩ ∧
        (receipt = .pending → state.Ahead holder pos receiver) ∧ receipt ≠ .sent (.read .notFound))
  | _ => True

theorem Ahead.mono {bound' : Nat} (ahead : state.Ahead holder pos bound) (more : bound ≤ bound') :
    state.Ahead holder pos bound' := by
  rcases ahead with covers | ⟨earlier, entry, before, pending⟩
  · exact Or.inl covers
  · exact Or.inr ⟨earlier, entry, Nat.lt_of_lt_of_le before more, pending⟩

theorem Ahead.poll (ahead : state.Ahead holder pos bound)
    (polls : Polls index op future state next) : next.Ahead holder pos bound := by
  rcases ahead with covers | ⟨earlier, entry, before, sender, found⟩
  · rw [Ahead, polls.logServers]
    exact Or.inl covers
  · exact Or.inr ⟨earlier, entry, before, sender, getElem?_of_longer polls.extends found⟩

theorem Ahead.serve {task : Task n} (unsealed : state.Unsealed)
    (ahead : state.Ahead holder pos bound) (served : state.serve task = some next) :
    next.Ahead holder pos bound := by
  obtain ⟨receiver, sender, request, pending, rfl⟩ := serve_cases served
  have grows : Grows 0 state (state.handle receiver request) := handle_grows pending
  rcases ahead with covers | ⟨earlier, entry, before, waiting⟩
  · exact Or.inl ((grows.logServers holder).covers covers)
  · by_cases same : earlier = receiver
    · subst same
      cases (Pending.unique ⟨sender, pending⟩ waiting)
      refine Or.inl ?_
      rcases handle_logServers state earlier holder holder (.store pos entry) with
        ⟨-, self⟩ | ⟨different, -⟩
      · rw [self]
        exact LogServer.store_covers (unsealed.logServers holder) pos entry
      · exact absurd rfl different
    · exact Or.inr ⟨earlier, entry, before, (pending_handle ⟨sender, pending⟩).mpr ⟨same, waiting⟩⟩

theorem Behind.extends (behind : state.Behind holder pos future)
    {other : Nat} {op' : LogletOp} {future' : Future} (polls : Polls other op' future' state next) :
    next.Behind holder pos future := by
  unfold Behind at behind ⊢
  split
  · exact behind
  · obtain ⟨passed, here⟩ := behind
    refine ⟨passed, fun same => ?_⟩
    obtain ⟨sender, receipt, found, ahead, answered⟩ := here same
    exact ⟨sender, receipt, getElem?_of_longer polls.extends found,
      fun waiting => (ahead waiting).poll polls, answered⟩
  · trivial

/-- The store is served before the read, since the queue of a server is in order. -/
theorem Behind.serve {task : Task n} (unsealed : state.Unsealed)
    (behind : state.Behind holder pos future) (served : state.serve task = some next) :
    next.Behind holder pos future := by
  have later : ∀ {bound : Nat}, state.Ahead holder pos bound → next.Ahead holder pos bound :=
    fun ahead => ahead.serve unsealed served
  obtain ⟨first, asker, request, pending, asked, rfl, skipped⟩ := serve_first served
  unfold Behind at behind ⊢
  split
  · exact behind
  · rename_i server receiver
    obtain ⟨passed, here⟩ := behind
    refine ⟨passed, fun same => ?_⟩
    obtain ⟨sender, receipt, found, ahead, answered⟩ := here same
    by_cases isFirst : receiver = first
    · subst isFirst
      rw [pending] at found
      cases found
      cases asked
      have covers : (state.logServers holder).Covers pos := by
        rcases ahead rfl with covers | ⟨earlier, entry, before, waiting⟩
        · exact covers
        · exact absurd rfl (skipped earlier (.logServer holder (.store pos entry)) before waiting)
      refine ⟨asker, .sent (state.replyTo (.logServer holder (.read pos))), ?_,
        fun impossible => (by cases impossible), ?_⟩
      · rw [handle_messages]
        exact answer_self pending
      · intro absent
        apply LogServer.read_ne_notFound covers
        simp only [replyTo, LogServer.handle, Receipt.sent.injEq, Reply.read.injEq] at absent
        exact absent
    · refine ⟨sender, receipt, ?_, fun waiting => later (ahead waiting), answered⟩
      rw [handle_messages]
      simp only [answer, List.getElem?_modify, if_neg (Ne.symm isFirst), id_map']
      exact found
  · trivial

theorem Behind.poll (live : state.Live) (ahead : state.Ahead holder pos state.receiver)
    (reading : IsReading pos future) (behind : state.Behind holder pos future)
    (polled : poll state index op future = some (next, progress)) :
    progress.Holds (next.Behind holder pos) fun result => result ≠ .ok (.entry none) := by
  rcases reading with ⟨server, rfl⟩ | ⟨server, receiver, rfl⟩
  · simp only [NativeLoglet.poll] at polled
    split at polled
    · rename_i inside
      unfold sendTo at polled
      rw [if_pos (live.1 _)] at polled
      have polls : Polls index op (.read pos server) state
          (state.send index op (.logServer ⟨server, inside⟩ (.read pos))) := .send rfl
      cases polled
      refine ⟨behind, fun same => ⟨(index, op), .pending, ?_, fun _ => ahead.poll polls,
        fun impossible => by cases impossible⟩⟩
      cases same
      exact List.getElem?_concat_length
    · rename_i outside
      have inside := holder.isLt
      exact absurd (Nat.lt_of_le_of_lt behind inside) outside
  · obtain ⟨passed, here⟩ := behind
    simp only [NativeLoglet.poll] at polled
    split at polled
    · cases polled
      intro impossible
      cases impossible
    · cases polled
      intro impossible
      cases impossible
    · rename_i received
      cases polled
      have different : server ≠ holder.val := by
        intro same
        obtain ⟨sender, receipt, found, -, answered⟩ := here same
        have told := receive_sent ⟨receipt, found⟩ received
        rw [found] at told
        cases told
        exact answered rfl
      exact Nat.lt_of_le_of_ne passed different
    · cases polled
      intro impossible
      cases impossible
    · cases polled

/-! ### Positions that nothing is going to fill -/

structure Missing (state : NativeLoglet n) (pos : Nat) : Prop where
  logServers : ∀ server, ¬ (state.logServers server).Covers pos
  requests : ∀ receiver request, state.Pending receiver request → ¬ request.Fills pos

theorem Missing.serve {task : Task n} (missing : state.Missing pos)
    (served : state.serve task = some next) : next.Missing pos := by
  obtain ⟨receiver, sender, request, pending, rfl⟩ := serve_cases served
  refine ⟨fun server covers => ?_, fun other asked waiting => ?_⟩
  · cases request with
    | sequencer asked => exact missing.logServers server covers
    | logServer target asked =>
        rcases handle_logServers state receiver target server asked with ⟨rfl, self⟩ | ⟨-, same⟩
        · rw [self] at covers
          rcases LogServer.covers_of_handle server covers with before | fills
          · exact missing.logServers server before
          · exact missing.requests receiver _ ⟨sender, pending⟩ fills
        · rw [same] at covers
          exact missing.logServers server covers
  · exact missing.requests other asked ((pending_handle ⟨sender, pending⟩).mp waiting).2

theorem IsReading.poll (reading : IsReading pos future)
    (polled : NativeLoglet.poll state index op future = some (next, progress)) :
    progress.Holds (IsReading pos) fun _ => True := by
  rcases reading with ⟨server, rfl⟩ | ⟨server, receiver, rfl⟩
  · simp only [NativeLoglet.poll] at polled
    split at polled
    · unfold sendTo at polled
      split at polled <;> cases polled
      · exact Or.inr ⟨server, state.receiver, rfl⟩
      · trivial
    · cases polled
      trivial
  · simp only [NativeLoglet.poll] at polled
    split at polled <;> cases polled
    · trivial
    · trivial
    · exact Or.inl ⟨server + 1, rfl⟩
    · trivial

theorem Missing.poll (missing : state.Missing pos) {pos' : Nat} (reading : IsReading pos' future)
    (polls : Polls index op future state next) : next.Missing pos := by
  refine ⟨fun server => ?_, fun receiver request waiting fills => ?_⟩
  · rw [polls.logServers]
    exact missing.logServers server
  · obtain ⟨sender, found⟩ := waiting
    rcases polls.found found with before | ⟨may, -⟩
    · exact missing.requests receiver request ⟨sender, before⟩ fills
    · rcases reading with ⟨server, rfl⟩ | ⟨server, awaited, rfl⟩
      · cases request with
        | sequencer asked => exact fills
        | logServer target asked =>
            cases asked with
            | read read => exact fills
            | store | «seal» | trim => exact may
      · exact may

end NativeLoglet

end Relos
