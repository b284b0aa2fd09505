import Relos.Log.NativeReads
import Relos.Log.NativeStages
import Mathlib.Data.Fintype.Basic

set_option autoImplicit false

/-! Replicated loglets whose log servers may stop: what a stop leaves in place, and how
far each call is when some of its requests are lost. -/

namespace Relos

open Async

theorem LogServer.handle_sealed {server : LogServer} {asked : LogServerRequest}
    (isSealed : (server.handle asked).1.sealed = true) : server.sealed = true ∨ asked = .seal := by
  cases asked with
  | store pos entry => exact Or.inl (LogServer.store_sealed.symm.trans isSealed)
  | read pos => exact Or.inl isSealed
  | «seal» => exact Or.inr rfl
  | trim pos =>
      simp only [LogServer.handle, LogServer.trim] at isSealed
      split at isSealed <;> exact Or.inl isSealed

namespace NativeLoglet

variable {n : Nat}

/-- The log servers whose task has ended. -/
def stopped (state : NativeLoglet n) : Finset (Fin n) :=
  Finset.univ.filter fun server => (state.logServers server).alive = false

/-- Fewer servers than a quorum are left. -/
def Exhausted (state : NativeLoglet n) : Prop := n < quorumSize n + state.stopped.card

/-- Only stopped servers lose requests, and the sequencer is sealed first. -/
structure Stops (state : NativeLoglet n) : Prop where
  sealed : ∀ server, (state.logServers server).sealed = true → state.sequencer.sealed = true
  flag : state.sealed = true → state.sequencer.sealed = true
  seals : ∀ {receiver sender server}, state.Sent receiver sender (.logServer server .seal) →
    state.sequencer.sealed = true
  dropped : ∀ {receiver : Nat} {sender : Nat × LogletOp} {request : Request n},
    state.messages[receiver]? = some ⟨sender, request, .dropped⟩ →
    ∃ server asked, request = .logServer server asked ∧ server ∈ state.stopped
  pending : ∀ {receiver : Nat} {sender : Nat × LogletOp} {server : Fin n} {asked : LogServerRequest},
    state.messages[receiver]? = some ⟨sender, .logServer server asked, .pending⟩ →
    (state.logServers server).alive = true

/-- What a call may rely on while servers may stop. -/
def Outlives (index : Nat) (state next : NativeLoglet n) : Prop :=
  Grows index state next ∧ state.stopped ⊆ next.stopped

variable {state next : NativeLoglet n} {index receiver : Nat} {op : LogletOp}
  {sender : Nat × LogletOp} {request : Request n} {reply : Reply} {trims : Prop} {server : Fin n}

theorem mem_stopped : server ∈ state.stopped ↔ (state.logServers server).alive = false := by
  unfold stopped
  rw [Finset.mem_filter]
  exact ⟨fun member => member.2, fun gone => ⟨Finset.mem_univ server, gone⟩⟩

/-! ### A stop -/

theorem stop_message {receipt : Receipt}
    (found : (state.stop server).messages[receiver]? = some ⟨sender, request, receipt⟩) :
    state.messages[receiver]? = some ⟨sender, request, receipt⟩ ∨
      (receipt = .dropped ∧ request.task = .logServer server ∧
        state.messages[receiver]? = some ⟨sender, request, .pending⟩) := by
  simp only [stop, List.getElem?_map] at found
  obtain ⟨⟨sender', request', receipt'⟩, before, same⟩ := Option.map_eq_some_iff.mp found
  split at same
  · rename_i queued
    cases same
    simp only [Message.isQueued, Bool.and_eq_true, decide_eq_true_eq] at queued
    obtain ⟨rfl, asked⟩ := queued
    exact Or.inr ⟨rfl, asked, before⟩
  · cases same
    exact Or.inl before

/-- A pending request to the server is dropped. -/
theorem not_pending_stop (pending : (state.stop server).messages[receiver]? =
    some ⟨sender, request, .pending⟩) : request.task ≠ .logServer server := by
  simp only [stop, List.getElem?_map] at pending
  obtain ⟨⟨sender', request', receipt'⟩, before, same⟩ := Option.map_eq_some_iff.mp pending
  split at same
  · cases same
  · rename_i unqueued
    cases same
    intro asked
    apply unqueued
    simp [Message.isQueued, asked]

theorem answered_of_stop
    (answered : (state.stop server).Answered receiver sender request reply) :
    state.Answered receiver sender request reply := by
  rcases stop_message answered with before | ⟨impossible, -⟩
  · exact before
  · cases impossible

theorem sent_of_stop (sent : (state.stop server).Sent receiver sender request) :
    state.Sent receiver sender request := by
  obtain ⟨receipt, found⟩ := sent
  rcases stop_message found with before | ⟨-, -, before⟩
  · exact ⟨receipt, before⟩
  · exact ⟨.pending, before⟩

theorem stop_logServers (state : NativeLoglet n) (server other : Fin n) :
    ∃ alive, (state.stop server).logServers other = { state.logServers other with alive := alive } ∧
      (alive = true → (state.logServers other).alive = true ∧ other ≠ server) := by
  by_cases same : other = server
  · subst same
    exact ⟨false, Function.update_self .., fun impossible => by cases impossible⟩
  · exact ⟨(state.logServers other).alive, Function.update_of_ne same .., fun alive => ⟨alive, same⟩⟩

theorem stop_grows (index : Nat) (state : NativeLoglet n) (server : Fin n) :
    Grows index state (state.stop server) := by
  refine ⟨.refl _, fun other => ?_, fun flag => flag, fun receiver message found => ?_,
    fun receiver message found _ => ?_, fun pending answered => ?_, fun pending answered => ?_⟩
  · obtain ⟨alive, same, -⟩ := stop_logServers state server other
    rw [same]
    exact ⟨fun kept => kept, Nat.le_refl _, fun isSealed => isSealed, fun _ _ _ held => held⟩
  · simp only [stop, List.getElem?_map, found, Option.map_some]
    split
    · rename_i queued
      simp only [Message.isQueued, Bool.and_eq_true, decide_eq_true_eq] at queued
      exact ⟨.dropped, rfl, fun answered => absurd queued.1 answered⟩
    · exact ⟨message.receipt, rfl, fun _ => rfl⟩
  · obtain ⟨sender, request, receipt⟩ := message
    obtain ⟨receipt', before⟩ := sent_of_stop ⟨receipt, found⟩
    exact ⟨_, before⟩
  · cases pending.symm.trans (answered_of_stop answered)
  · cases pending.symm.trans (answered_of_stop answered)

theorem Inv.stop (inv : state.Inv trims) (server : Fin n) : (state.stop server).Inv trims := by
  have grows : Grows 0 state (state.stop server) := stop_grows 0 state server
  refine ⟨inv.positive, fun given given' => ?_, fun inside below => ?_, fun sent => ?_,
    fun sent => inv.trims (sent_of_stop sent), fun {other pos entry} present => ?_, fun other => ?_,
    fun other => ?_, fun answered => (inv.answered (answered_of_stop answered)).stable grows⟩
  · exact inv.unique (answered_of_stop given) (answered_of_stop given')
  · obtain ⟨receiver, sender, given⟩ := inv.assigned inside below
    exact ⟨receiver, sender, grows.answered given⟩
  · obtain ⟨appends, given⟩ := inv.stores (sent_of_stop sent)
    exact ⟨appends, grows.assigned given⟩
  · obtain ⟨alive, same, -⟩ := stop_logServers state server other
    rw [same] at present
    obtain ⟨owner, placed⟩ := inv.held present
    exact ⟨owner, grows.placed placed⟩
  · obtain ⟨alive, same, -⟩ := stop_logServers state server other
    rw [same]
    exact inv.tail other
  · obtain ⟨alive, same, -⟩ := stop_logServers state server other
    rw [same]
    rcases inv.trimPos other with untrimmed | ⟨receiver, sender, answered⟩
    · exact Or.inl untrimmed
    · exact Or.inr ⟨receiver, sender, grows.answered answered⟩

theorem stop_stopped (state : NativeLoglet n) (server : Fin n) :
    state.stopped ⊆ (state.stop server).stopped ∧ server ∈ (state.stop server).stopped := by
  constructor
  · intro other gone
    obtain ⟨alive, same, still⟩ := stop_logServers state server other
    rw [mem_stopped] at gone ⊢
    rw [same]
    cases alive with
    | false => rfl
    | true => exact absurd (still rfl).1 (by rw [gone]; decide)
  · rw [mem_stopped]
    change (Function.update state.logServers server
      { state.logServers server with alive := false } server).alive = false
    rw [Function.update_self]

/-! ### Stopped servers over steps -/

theorem Stops.new (n : Nat) : (new n).Stops := by
  refine ⟨fun _ impossible => ?_, fun impossible => ?_, ?_, ?_, ?_⟩
  · cases impossible
  · cases impossible
  · rintro _ _ _ ⟨_, impossible⟩
    cases impossible
  · intro _ _ _ impossible
    cases impossible
  · intro _ _ _ _ impossible
    cases impossible

theorem Stops.send (stops : state.Stops)
    (alive : ∀ server asked, request = .logServer server asked →
      (state.logServers server).alive = true)
    (seals : ∀ server, request = .logServer server .seal → state.sequencer.sealed = true) :
    (state.send index op request).Stops := by
  refine ⟨stops.sealed, stops.flag, fun sent => ?_, fun found => ?_, fun found => ?_⟩
  · rcases sent_of_send sent with before | ⟨-, same⟩
    · exact stops.seals before
    · exact seals _ same.symm
  · rcases getElem?_of_concat found with before | ⟨-, impossible⟩
    · exact stops.dropped before
    · cases impossible
  · rcases getElem?_of_concat found with before | ⟨-, same⟩
    · exact stops.pending before
    · cases same
      exact alive _ _ rfl

theorem Stops.flagged (stops : state.Stops) (isSealed : state.sequencer.sealed = true) :
    Stops { state with sealed := true } :=
  ⟨stops.sealed, fun _ => isSealed, stops.seals, stops.dropped, stops.pending⟩

theorem handle_alive (state : NativeLoglet n) (receiver : Nat) (request : Request n)
    (server : Fin n) : ((state.handle receiver request).logServers server).alive =
      (state.logServers server).alive := by
  cases request with
  | sequencer asked => rfl
  | logServer target asked =>
      rcases handle_logServers state receiver target server asked with ⟨rfl, self⟩ | ⟨-, same⟩
      · rw [self, LogServer.handle_alive]
      · rw [same]

theorem handle_stopped (state : NativeLoglet n) (receiver : Nat) (request : Request n) :
    (state.handle receiver request).stopped = state.stopped := by
  ext server
  rw [mem_stopped, mem_stopped, handle_alive]

theorem Stops.serve {task : Task n} (stops : state.Stops) (served : state.serve task = some next) :
    next.Stops ∧ next.stopped = state.stopped := by
  obtain ⟨receiver, sender, request, pending, rfl⟩ := serve_cases served
  have grows : Grows 0 state (state.handle receiver request) := handle_grows pending
  have still : state.sequencer.sealed = true →
      (state.handle receiver request).sequencer.sealed = true := fun isSealed =>
    (grows.sequencer.frozen isSealed).1
  refine ⟨⟨fun server isSealed => ?_, fun flag => ?_, fun sent => ?_, fun found => ?_,
    fun found => ?_⟩, handle_stopped state receiver request⟩
  · cases request with
    | sequencer asked => exact still (stops.sealed server isSealed)
    | logServer target asked =>
        rcases handle_logServers state receiver target server asked with ⟨rfl, self⟩ | ⟨-, same⟩
        · rw [self] at isSealed
          rcases LogServer.handle_sealed isSealed with before | rfl
          · exact still (stops.sealed server before)
          · exact still (stops.seals ⟨_, pending⟩)
        · rw [same] at isSealed
          exact still (stops.sealed server isSealed)
  · refine still (stops.flag ?_)
    cases request <;> exact flag
  · obtain ⟨receipt, found⟩ := sent
    rw [handle_messages] at found
    exact still (stops.seals (sent_of_answer pending found))
  · rw [handle_messages] at found
    rcases answer_messages pending found with ⟨-, impossible⟩ | ⟨-, before⟩
    · cases impossible
    · rw [handle_stopped]
      exact stops.dropped before
  · rw [handle_messages] at found
    rcases answer_messages pending found with ⟨-, impossible⟩ | ⟨-, before⟩
    · cases impossible
    · rw [handle_alive]
      exact stops.pending before

theorem Stops.stop (stops : state.Stops) (server : Fin n) : (state.stop server).Stops := by
  obtain ⟨before, gone⟩ := stop_stopped state server
  refine ⟨fun other isSealed => ?_, stops.flag, fun sent => stops.seals (sent_of_stop sent),
    fun {receiver sender request} found => ?_, fun {receiver sender other asked} found => ?_⟩
  · obtain ⟨alive, same, -⟩ := stop_logServers state server other
    rw [same] at isSealed
    exact stops.sealed other isSealed
  · rcases stop_message found with earlier | ⟨-, asked, -⟩
    · obtain ⟨other, asked, same, member⟩ := stops.dropped earlier
      exact ⟨other, asked, same, before member⟩
    · cases request with
      | sequencer asked' => cases asked
      | logServer other asked' =>
          cases asked
          exact ⟨server, asked', rfl, gone⟩
  · have different : other ≠ server := fun same => not_pending_stop found (congrArg _ same)
    rcases stop_message found with earlier | ⟨impossible, -⟩
    · change (Function.update state.logServers server _ other).alive = true
      rw [Function.update_of_ne different]
      exact stops.pending earlier
    · cases impossible

/-! ### Calls while servers stop -/

/-- A call that ends by asking the sequencer for the tail. -/
def Asking (state : NativeLoglet n) (op : LogletOp) : Prop :=
  op = .checkTail ∨ (op.IsAppend ∧ state.sequencer.sealed = true)

/-- How far a call is. Each receiver that was awaited has counted, or its server has stopped. -/
def Enduring (state : NativeLoglet n) (index : Nat) (op : LogletOp) : Future → Prop
  | .append => op.IsAppend
  | .nextPos => op.IsAppend
  | .nextPosReply receiver => op.IsAppend ∧ state.Sent receiver (index, op) (.sequencer .nextPos)
  | .markSealed => op.IsAppend ∧ state.sequencer.sealed = true
  | .checkTail => state.Asking op
  | .checkTailReply receiver => state.Asking op ∧
      state.Sent receiver (index, op) (.sequencer .checkTail)
  | .fanOutStore pos receivers => ∃ entry, op = .append entry ∧ state.Assigned index entry pos ∧
      state.Receivers (index, op) (.store pos entry) 0 receivers
  | .storeReplies pos receivers ackCount sealTail => ∃ entry first lost, op = .append entry ∧
      first + receivers.length = n ∧ state.Receivers (index, op) (.store pos entry) first receivers ∧
      state.Acks index entry pos first ackCount ∧ Tally (· ∈ state.stopped) first lost ∧
      (sealTail = none → first ≤ ackCount + lost) ∧
      (sealTail ≠ none → state.sequencer.sealed = true)
  | .read pos _ => op = .read pos
  | .readReply pos server receiver => op = .read pos ∧
      ∃ inside : server < n, state.Sent receiver (index, op) (.logServer ⟨server, inside⟩ (.read pos))
  | .fanOutTrim pos receivers => op = .trim pos ∧
      state.Receivers (index, op) (.trim pos) 0 receivers
  | .trimReplies receivers => ∃ pos first, op = .trim pos ∧
      state.Receivers (index, op) (.trim pos) first receivers
  | .sealSequencer => op = .seal
  | .sealSequencerReply receiver => op = .seal ∧ state.Sent receiver (index, op) (.sequencer .seal)
  | .fanOutSeal _ receivers => op = .seal ∧ state.sequencer.sealed = true ∧
      state.Receivers (index, op) .seal 0 receivers
  | .sealReplies _ receivers sealedCount _ => op = .seal ∧ state.sequencer.sealed = true ∧
      ∃ first lost, first + receivers.length = n ∧ state.Receivers (index, op) .seal first receivers ∧
      Tally (· ∈ state.stopped) first lost ∧ first ≤ sealedCount + lost

/-- What a call returns, if it is one whose polls reach their servers. -/
def Endured (chosen : Prop) (state : NativeLoglet n) (index : Nat) (op : LogletOp)
    (result : LogletResult) : Prop :=
  match op, result with
  | .append entry, .ok value => ∃ pos, value = .pos pos ∧ state.Quorum index entry pos
  | .append _, .error error => chosen → state.Exhausted ∨
      (state.sequencer.sealed = true ∧ ∃ tail, error = .sealed tail)
  | .read pos, .ok value => ∃ found, value = .entry found ∧
      ∀ entry, found = some entry → ∃ owner, state.Placed owner entry pos
  | .read pos, .error error => chosen → error = .trimmed pos ∧
      ∃ server, pos < (state.logServers server).trimPos
  | .seal, .ok value => ∃ tail, value = .pos tail
  | .seal, .error _ => chosen → state.Exhausted
  | _, _ => True

theorem Outlives.refl (index : Nat) (state : NativeLoglet n) : Outlives index state state :=
  ⟨.refl index state, fun _ member => member⟩

theorem Exhausted.stable (outlives : Outlives index state next) (exhausted : state.Exhausted) :
    next.Exhausted :=
  Nat.lt_of_lt_of_le exhausted (Nat.add_le_add_left (Finset.card_le_card outlives.2) _)

/-- Servers counted as lost have stopped. -/
theorem Tally.exhausted {first lost : Nat} (tally : Tally (· ∈ state.stopped) first lost)
    (short : n < quorumSize n + lost) : state.Exhausted := by
  obtain ⟨servers, counted, each⟩ := tally
  have inside : servers.card ≤ state.stopped.card :=
    Finset.card_le_card fun server member => (each server member).2
  unfold Exhausted
  omega

theorem Asking.stable (outlives : Outlives index state next) (asking : state.Asking op) :
    next.Asking op :=
  asking.imp (fun same => same) fun appends =>
    ⟨appends.1, (outlives.1.sequencer.frozen appends.2).1⟩

theorem Enduring.stable (outlives : Outlives index state next) {future : Future}
    (enduring : Enduring state index op future) : Enduring next index op future := by
  obtain ⟨grows, lasting⟩ := outlives
  have remains : state.sequencer.sealed = true → next.sequencer.sealed = true := fun isSealed =>
    (grows.sequencer.frozen isSealed).1
  cases future with
  | append => exact enduring
  | nextPos => exact enduring
  | nextPosReply receiver => exact ⟨enduring.1, grows.sent enduring.2⟩
  | markSealed => exact ⟨enduring.1, remains enduring.2⟩
  | checkTail => exact Asking.stable ⟨grows, lasting⟩ enduring
  | checkTailReply receiver =>
      exact ⟨enduring.1.stable ⟨grows, lasting⟩, grows.sent enduring.2⟩
  | fanOutStore pos receivers =>
      obtain ⟨entry, same, assigned, sent⟩ := enduring
      exact ⟨entry, same, grows.assigned assigned, sent.stable grows⟩
  | storeReplies pos receivers ackCount sealTail =>
      obtain ⟨entry, first, lost, same, length, sent, acks, tally, counted, isSealed⟩ := enduring
      exact ⟨entry, first, lost, same, length, sent.stable grows, acks.stable grows,
        tally.imp fun _ member => lasting member, counted, fun refused => remains (isSealed refused)⟩
  | read pos server => exact enduring
  | readReply pos server receiver =>
      obtain ⟨same, inside, sent⟩ := enduring
      exact ⟨same, inside, grows.sent sent⟩
  | fanOutTrim pos receivers => exact ⟨enduring.1, enduring.2.stable grows⟩
  | trimReplies receivers =>
      obtain ⟨pos, first, same, sent⟩ := enduring
      exact ⟨pos, first, same, sent.stable grows⟩
  | sealSequencer => exact enduring
  | sealSequencerReply receiver => exact ⟨enduring.1, grows.sent enduring.2⟩
  | fanOutSeal sequencerTail receivers =>
      exact ⟨enduring.1, remains enduring.2.1, enduring.2.2.stable grows⟩
  | sealReplies sequencerTail receivers sealedCount maxTail =>
      obtain ⟨same, isSealed, first, lost, length, sent, tally, counted⟩ := enduring
      exact ⟨same, remains isSealed, first, lost, length, sent.stable grows,
        tally.imp fun _ member => lasting member, counted⟩

theorem Endured.stable {chosen : Prop} (outlives : Outlives index state next) {result : LogletResult}
    (endured : Endured chosen state index op result) : Endured chosen next index op result := by
  unfold Endured at endured ⊢
  split at endured
  · obtain ⟨pos, same, quorum⟩ := endured
    exact ⟨pos, same, quorum.stable outlives.1⟩
  · intro mine
    rcases endured mine with exhausted | ⟨isSealed, reported⟩
    · exact Or.inl (exhausted.stable outlives)
    · exact Or.inr ⟨(outlives.1.sequencer.frozen isSealed).1, reported⟩
  · obtain ⟨found, same, placed⟩ := endured
    refine ⟨found, same, fun entry present => ?_⟩
    obtain ⟨owner, placed⟩ := placed entry present
    exact ⟨owner, outlives.1.placed placed⟩
  · intro mine
    obtain ⟨same, server, trimmed⟩ := endured mine
    exact ⟨same, server, Nat.lt_of_lt_of_le trimmed (outlives.1.logServers server).trimPos⟩
  · exact endured
  · exact fun mine => (endured mine).stable outlives
  · trivial

end NativeLoglet

end Relos
