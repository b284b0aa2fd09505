import Relos.Log.NativeInvariant
import Mathlib.Data.Finset.Card

set_option autoImplicit false

/-! The outline of the replicated loglet while its log servers stay alive: which
positions a call was given, which servers accepted its entry, and what is left
of an append that failed. -/

namespace Relos

open Async

namespace NativeLoglet

variable {n : Nat}

/-- What a run assumes of the position of an append that ends below its quorum. -/
inductive Exit where
  | any
  | covered
  | unstored
deriving DecidableEq

def Exit.Holds (exit : Exit) (state : NativeLoglet n) (pos : Nat) : Prop :=
  match exit with
  | .any => True
  | .covered => ∃ server, (state.logServers server).Covers pos
  | .unstored => ∀ server, (state.logServers server).entries[pos]? = none

/-- What a call has left in the loglet: its unanswered requests for a position and
for stores are those it still awaits, and its earlier positions have been given up. -/
structure Traces (exit : Exit) (state : NativeLoglet n) (index : Nat) (receivers : List Nat)
    (current : Option Nat) : Prop where
  numbered : ∀ {receiver : Nat} {op : LogletOp},
    state.messages[receiver]? = some ⟨(index, op), .sequencer .nextPos, .pending⟩ →
    some receiver = current
  stored : ∀ {receiver : Nat} {op : LogletOp} {server : Fin n} {pos : Nat} {entry : Entry},
    state.messages[receiver]? = some ⟨(index, op), .logServer server (.store pos entry), .pending⟩ →
    receiver ∈ receivers ∧
      ∃ giver op', current = some giver ∧ state.AssignedBy giver (index, op') pos
  settled : ∀ {receiver : Nat} {op : LogletOp} {pos : Nat},
    state.AssignedBy receiver (index, op) pos → some receiver = current ∨ exit.Holds state pos

/-- The call leaves nothing behind that could still change the loglet. -/
def Settled (exit : Exit) (state : NativeLoglet n) (index : Nat) : Prop :=
  Traces exit state index [] none

/-- The receivers of one request that was sent to consecutive servers. -/
def Receivers (state : NativeLoglet n) (sender : Nat × LogletOp) (request : LogServerRequest)
    (first : Nat) (receivers : List Nat) : Prop :=
  first + receivers.length ≤ n ∧ ∀ (slot receiver : Nat), receivers[slot]? = some receiver →
    ∃ inside : first + slot < n,
      state.Sent receiver sender (.logServer ⟨first + slot, inside⟩ request)

/-- So many of the servers before `first` are known to be of one kind. -/
def Tally (kind : Fin n → Prop) (first count : Nat) : Prop :=
  ∃ servers : Finset (Fin n), servers.card = count ∧ ∀ server, server ∈ servers →
    server.val < first ∧ kind server

/-- The servers before `first` that acknowledged the entry. -/
def Acks (state : NativeLoglet n) (owner : Nat) (entry : Entry) (pos first ackCount : Nat) : Prop :=
  ∃ servers : Finset (Fin n), servers.card = ackCount ∧ ∀ server, server ∈ servers →
    server.val < first ∧ state.Accepted server owner entry pos

def Quorum (state : NativeLoglet n) (owner : Nat) (entry : Entry) (pos : Nat) : Prop :=
  ∃ servers : Finset (Fin n), quorumSize n ≤ servers.card ∧ ∀ server, server ∈ servers →
    state.Accepted server owner entry pos

def Running (exit : Exit) (trims : Prop) (state : NativeLoglet n) (index : Nat) (op : LogletOp) :
    Future → Prop
  | .append => op.IsAppend ∧ Settled exit state index
  | .nextPos => op.IsAppend ∧ Settled exit state index
  | .nextPosReply receiver => op.IsAppend ∧ Traces exit state index [] (some receiver) ∧
      state.Sent receiver (index, op) (.sequencer .nextPos)
  | .markSealed => op.IsAppend ∧ Settled exit state index
  | .checkTail => (op.IsAppend ∨ op = .checkTail) ∧ Settled exit state index
  | .checkTailReply receiver => (op.IsAppend ∨ op = .checkTail) ∧ Settled exit state index ∧
      state.Sent receiver (index, op) (.sequencer .checkTail)
  | .fanOutStore pos receivers => ∃ entry giver, op = .append entry ∧
      state.AssignedBy giver (index, op) pos ∧ Traces exit state index receivers (some giver) ∧
      state.Receivers (index, op) (.store pos entry) 0 receivers
  | .storeReplies pos receivers ackCount _ => ∃ entry giver first, op = .append entry ∧
      state.AssignedBy giver (index, op) pos ∧ Traces exit state index receivers (some giver) ∧
      first + receivers.length = n ∧
      state.Receivers (index, op) (.store pos entry) first receivers ∧
      state.Acks index entry pos first ackCount
  | .read pos _ => op = .read pos ∧ Settled exit state index
  | .readReply pos server receiver => op = .read pos ∧ Settled exit state index ∧
      ∃ inside : server < n, state.Sent receiver (index, op) (.logServer ⟨server, inside⟩ (.read pos))
  | .fanOutTrim pos receivers => op = .trim pos ∧ trims ∧ Settled exit state index ∧
      state.Receivers (index, op) (.trim pos) 0 receivers
  | .trimReplies receivers => ∃ pos first, op = .trim pos ∧ Settled exit state index ∧
      first + receivers.length = n ∧ state.Receivers (index, op) (.trim pos) first receivers ∧
      ∀ server : Fin n, server.val < first → pos ≤ (state.logServers server).trimPos
  | .sealSequencer => op = .seal ∧ Settled exit state index
  | .sealSequencerReply receiver => op = .seal ∧ Settled exit state index ∧
      state.Sent receiver (index, op) (.sequencer .seal)
  | .fanOutSeal sequencerTail receivers => op = .seal ∧ Settled exit state index ∧
      state.finalTail = some sequencerTail ∧ state.Receivers (index, op) .seal 0 receivers
  | .sealReplies sequencerTail receivers _ maxTail => op = .seal ∧ Settled exit state index ∧
      state.finalTail = some sequencerTail ∧ maxTail ≤ sequencerTail ∧
      ∃ first, first + receivers.length = n ∧ state.Receivers (index, op) .seal first receivers ∧
        ∀ server : Fin n, server.val < first → (state.logServers server).sealed = true

def Finished (exit : Exit) (state : NativeLoglet n) (index : Nat) (op : LogletOp)
    (result : LogletResult) : Prop :=
  match op, result with
  | .append entry, .ok value => ∃ pos giver, value = .pos pos ∧
      state.AssignedBy giver (index, .append entry) pos ∧
      Traces exit state index [] (some giver) ∧ state.Quorum index entry pos
  | .checkTail, result => Settled exit state index ∧ ∃ tail, result = .ok (.pos tail) ∧
      logPosBegin ≤ tail ∧ tail ≤ state.sequencer.nextPos
  | .read pos, .ok value => Settled exit state index ∧ ∃ found, value = .entry found ∧
      ∀ entry, found = some entry → ∃ owner, state.Placed owner entry pos
  | .read pos, .error error => Settled exit state index ∧ error = .trimmed pos ∧
      ∃ server, pos < (state.logServers server).trimPos
  | .trim pos, result => Settled exit state index ∧ result = .ok .unit ∧
      ∀ server, pos ≤ (state.logServers server).trimPos
  | .seal, .ok value => Settled exit state index ∧ ∃ tail, value = .pos tail ∧
      state.finalTail = some tail ∧ state.sealed = true ∧
      ∀ server, (state.logServers server).sealed = true
  | _, _ => Settled exit state index

theorem Tally.none (kind : Fin n → Prop) (first : Nat) : Tally kind first 0 :=
  ⟨∅, rfl, fun server member => absurd member (Finset.notMem_empty server)⟩

theorem Tally.add {kind : Fin n → Prop} {first count : Nat} {inside : first < n}
    (tally : Tally kind first count) (held : kind ⟨first, inside⟩) :
    Tally kind (first + 1) (count + 1) := by
  obtain ⟨servers, counted, each⟩ := tally
  have new : (⟨first, inside⟩ : Fin n) ∉ servers := fun member =>
    Nat.lt_irrefl first (each _ member).1
  refine ⟨insert ⟨first, inside⟩ servers, ?_, fun server member => ?_⟩
  · rw [Finset.card_insert_of_notMem new, counted]
  · rcases Finset.mem_insert.mp member with rfl | earlier
    · exact ⟨Nat.lt_succ_self first, held⟩
    · exact ⟨Nat.lt_succ_of_lt (each server earlier).1, (each server earlier).2⟩

theorem Tally.skip {kind : Fin n → Prop} {first count : Nat} (tally : Tally kind first count) :
    Tally kind (first + 1) count := by
  obtain ⟨servers, counted, each⟩ := tally
  exact ⟨servers, counted, fun server member =>
    ⟨Nat.lt_succ_of_lt (each server member).1, (each server member).2⟩⟩

theorem Tally.imp {kind other : Fin n → Prop} {first count : Nat} (tally : Tally kind first count)
    (weaker : ∀ server, kind server → other server) : Tally other first count := by
  obtain ⟨servers, counted, each⟩ := tally
  exact ⟨servers, counted, fun server member =>
    ⟨(each server member).1, weaker server (each server member).2⟩⟩

/-- Only the end of an append below its quorum is conditional. -/
def PollOk (exit : Exit) (state : NativeLoglet n) : Future → Prop
  | .storeReplies pos [] ackCount _ => ackCount < quorumSize n → exit.Holds state pos
  | _ => True

/-! ### Stability -/

variable {exit : Exit} {trims : Prop} {state next : NativeLoglet n} {index : Nat} {op : LogletOp}
  {sender : Nat × LogletOp} {receivers : List Nat} {current : Option Nat}

theorem Accepted.keeps (inv : state.Inv trims) {server : Fin n} {owner pos : Nat} {entry : Entry}
    (accepted : state.Accepted server owner entry pos) :
    (state.logServers server).Keeps pos entry := by
  obtain ⟨receiver, repeated, answered⟩ := accepted
  exact inv.answered answered

theorem trimPos_of_untrimmed (inv : state.Inv trims) (untrimmed : ¬ trims) (server : Fin n) :
    (state.logServers server).trimPos = logPosBegin := by
  rcases inv.trimPos server with same | ⟨receiver, ⟨owner, op⟩, answered⟩
  · exact same
  · exact absurd (inv.trims ⟨_, answered⟩).2 untrimmed

/-- Without trims, a server that accepted the entry holds it. -/
theorem Accepted.held (inv : state.Inv trims) (untrimmed : ¬ trims) {server : Fin n}
    {owner pos : Nat} {entry : Entry} (accepted : state.Accepted server owner entry pos) :
    (state.logServers server).entries[pos]? = some entry := by
  rcases accepted.keeps inv with present | trimmed
  · exact present
  · obtain ⟨_, given⟩ := inv.placed_assigned ⟨server, accepted⟩
    rw [trimPos_of_untrimmed inv untrimmed server] at trimmed
    exact absurd trimmed (Nat.not_lt.mpr (inv.answered given).1)

/-- A position stays given up: its stores have all been answered. -/
theorem Traces.holds_stable (traces : Traces exit state index receivers current)
    (unstored : exit = .unstored → ¬ trims) (inv : state.Inv trims) (inv' : next.Inv trims)
    (grows : Grows index state next) {receiver : Nat} {op : LogletOp} {pos : Nat}
    (given : state.AssignedBy receiver (index, op) pos) (past : some receiver ≠ current)
    (holds : exit.Holds state pos) : exit.Holds next pos := by
  cases exit with
  | any => trivial
  | covered =>
      obtain ⟨server, covers⟩ := holds
      exact ⟨server, (grows.logServers server).covers covers⟩
  | unstored =>
      intro server
      cases present : (next.logServers server).entries[pos]? with
      | none => rfl
      | some entry =>
          obtain ⟨owner, holder, storer, repeated, accepted⟩ := inv'.held present
          obtain ⟨_, giver, given'⟩ := inv'.stores ⟨_, accepted⟩
          have same := inv'.unique (grows.answered given) given'
          subst same
          have own := congrArg (fun message => message.map fun m => m.sender)
            ((grows.answered given).symm.trans given')
          cases Option.some.inj own
          obtain ⟨receipt, before, answered⟩ := grows.own accepted rfl
          by_cases pending : receipt = .pending
          · subst pending
            obtain ⟨_, giver', _, rfl, given''⟩ := traces.stored before
            exact absurd (congrArg some (inv.unique given given'')) past
          · cases answered pending
            have held : state.Accepted holder index entry pos := ⟨storer, repeated, before⟩
            have kept := held.held inv (unstored rfl)
            rw [holds holder] at kept
            cases kept

theorem Traces.stable (unstored : exit = .unstored → ¬ trims) (inv : state.Inv trims)
    (inv' : next.Inv trims) (grows : Grows index state next)
    (traces : Traces exit state index receivers current) :
    Traces exit next index receivers current := by
  refine ⟨fun found => ?_, fun found => ?_, fun {receiver op pos} given => ?_⟩
  · obtain ⟨receipt, before, answered⟩ := grows.own found rfl
    by_cases pending : receipt = .pending
    · subst pending
      exact traces.numbered before
    · exact absurd (answered pending).symm pending
  · obtain ⟨receipt, before, answered⟩ := grows.own found rfl
    by_cases pending : receipt = .pending
    · subst pending
      obtain ⟨member, giver, op', same, given⟩ := traces.stored before
      exact ⟨member, giver, op', same, grows.answered given⟩
    · exact absurd (answered pending).symm pending
  · obtain ⟨receipt, before, answered⟩ := grows.own given rfl
    by_cases pending : receipt = .pending
    · subst pending
      exact Or.inl (traces.numbered before)
    · cases answered pending
      by_cases past : some receiver = current
      · exact Or.inl past
      · rcases traces.settled before with same | holds
        · exact Or.inl same
        · exact Or.inr (traces.holds_stable unstored inv inv' grows before past holds)

theorem Receivers.stable (grows : Grows index state next) {request : LogServerRequest} {first : Nat}
    (sent : state.Receivers sender request first receivers) :
    next.Receivers sender request first receivers := by
  refine ⟨sent.1, fun slot receiver found => ?_⟩
  obtain ⟨inside, held⟩ := sent.2 slot receiver found
  exact ⟨inside, grows.sent held⟩

theorem Acks.stable (grows : Grows index state next) {owner pos first ackCount : Nat} {entry : Entry}
    (acks : state.Acks owner entry pos first ackCount) :
    next.Acks owner entry pos first ackCount :=
  Tally.imp acks fun _ accepted => grows.accepted accepted

theorem Quorum.stable (grows : Grows index state next) {owner pos : Nat} {entry : Entry}
    (quorum : state.Quorum owner entry pos) : next.Quorum owner entry pos := by
  obtain ⟨servers, enough, accepted⟩ := quorum
  exact ⟨servers, enough, fun server member => grows.accepted (accepted server member)⟩

theorem Running.stable (unstored : exit = .unstored → ¬ trims) (inv : state.Inv trims)
    (inv' : next.Inv trims) (grows : Grows index state next) {future : Future}
    (running : Running exit trims state index op future) :
    Running exit trims next index op future := by
  have kept : ∀ {receivers current}, Traces exit state index receivers current →
      Traces exit next index receivers current := Traces.stable unstored inv inv' grows
  cases future with
  | append => exact ⟨running.1, kept running.2⟩
  | nextPos => exact ⟨running.1, kept running.2⟩
  | nextPosReply receiver => exact ⟨running.1, kept running.2.1, grows.sent running.2.2⟩
  | markSealed => exact ⟨running.1, kept running.2⟩
  | checkTail => exact ⟨running.1, kept running.2⟩
  | checkTailReply receiver => exact ⟨running.1, kept running.2.1, grows.sent running.2.2⟩
  | fanOutStore pos receivers =>
      obtain ⟨entry, giver, appends, given, traces, sent⟩ := running
      exact ⟨entry, giver, appends, grows.answered given, kept traces, sent.stable grows⟩
  | storeReplies pos receivers ackCount sealTail =>
      obtain ⟨entry, giver, first, appends, given, traces, length, sent, acks⟩ := running
      exact ⟨entry, giver, first, appends, grows.answered given, kept traces, length,
        sent.stable grows, acks.stable grows⟩
  | read pos server => exact ⟨running.1, kept running.2⟩
  | readReply pos server receiver =>
      obtain ⟨reads, settled, inside, sent⟩ := running
      exact ⟨reads, kept settled, inside, grows.sent sent⟩
  | fanOutTrim pos receivers =>
      obtain ⟨trimming, allowed, settled, sent⟩ := running
      exact ⟨trimming, allowed, kept settled, sent.stable grows⟩
  | trimReplies receivers =>
      obtain ⟨pos, first, trimming, settled, length, sent, trimmed⟩ := running
      exact ⟨pos, first, trimming, kept settled, length, sent.stable grows, fun server before =>
        Nat.le_trans (trimmed server before) (grows.logServers server).trimPos⟩
  | sealSequencer => exact ⟨running.1, kept running.2⟩
  | sealSequencerReply receiver => exact ⟨running.1, kept running.2.1, grows.sent running.2.2⟩
  | fanOutSeal sequencerTail receivers =>
      obtain ⟨seals, settled, final, sent⟩ := running
      exact ⟨seals, kept settled, grows.finalTail final, sent.stable grows⟩
  | sealReplies sequencerTail receivers sealedCount maxTail =>
      obtain ⟨seals, settled, final, below, first, length, sent, isSealed⟩ := running
      exact ⟨seals, kept settled, grows.finalTail final, below, first, length, sent.stable grows,
        fun server before => (grows.logServers server).sealed (isSealed server before)⟩

theorem Finished.stable (unstored : exit = .unstored → ¬ trims) (inv : state.Inv trims)
    (inv' : next.Inv trims) (grows : Grows index state next) {result : LogletResult}
    (finished : Finished exit state index op result) : Finished exit next index op result := by
  have kept : ∀ {receivers current}, Traces exit state index receivers current →
      Traces exit next index receivers current := Traces.stable unstored inv inv' grows
  unfold Finished at finished ⊢
  split at finished
  · obtain ⟨pos, giver, same, given, traces, quorum⟩ := finished
    exact ⟨pos, giver, same, grows.answered given, kept traces, quorum.stable grows⟩
  · obtain ⟨settled, tail, same, positive, below⟩ := finished
    exact ⟨kept settled, tail, same, positive, Nat.le_trans below grows.sequencer.nextPos⟩
  · obtain ⟨settled, found, same, placed⟩ := finished
    refine ⟨kept settled, found, same, fun entry present => ?_⟩
    obtain ⟨owner, placed⟩ := placed entry present
    exact ⟨owner, grows.placed placed⟩
  · obtain ⟨settled, same, server, trimmed⟩ := finished
    exact ⟨kept settled, same, server,
      Nat.lt_of_lt_of_le trimmed (grows.logServers server).trimPos⟩
  · obtain ⟨settled, same, trimmed⟩ := finished
    exact ⟨kept settled, same, fun server =>
      Nat.le_trans (trimmed server) (grows.logServers server).trimPos⟩
  · obtain ⟨settled, tail, same, final, flag, isSealed⟩ := finished
    exact ⟨kept settled, tail, same, grows.finalTail final, grows.flag flag,
      fun server => (grows.logServers server).sealed (isSealed server)⟩
  · exact kept finished

/-! ### Polls -/

/-- What a poll must establish. -/
def Kept (exit : Exit) (trims : Prop) (index : Nat) (op : LogletOp) (state next : NativeLoglet n)
    (progress : Progress Future LogletResult) : Prop :=
  (next.Inv trims ∧ next.Live) ∧
    progress.Holds (Running exit trims next index op) (Finished exit next index op) ∧
    ∀ other, other ≠ index → Grows other state next

variable {progress : Progress Future LogletResult}

theorem Kept.still (inv : state.Inv trims) (live : state.Live)
    (holds : progress.Holds (Running exit trims state index op) (Finished exit state index op)) :
    Kept exit trims index op state state progress :=
  ⟨⟨inv, live⟩, holds, fun other _ => .refl other state⟩

theorem Kept.send (inv : state.Inv trims) (live : state.Live) {request : Request n}
    (sendable : Sendable trims state index op request)
    (holds : progress.Holds (Running exit trims (state.send index op request) index op)
      (Finished exit (state.send index op request) index op)) :
    Kept exit trims index op state (state.send index op request) progress :=
  ⟨⟨inv.send sendable, live.send⟩, holds, fun _ different => send_grows different⟩

theorem Kept.flag (inv : state.Inv trims) (live : state.Live)
    (holds : progress.Holds (Running exit trims { state with sealed := true } index op)
      (Finished exit { state with sealed := true } index op)) :
    Kept exit trims index op state { state with sealed := true } progress :=
  ⟨⟨inv.flag, live⟩, holds, fun other _ => flag_grows other state⟩

theorem receive_sent {receiver : Nat} {request : Request n} {receipt : Receipt}
    (sent : state.Sent receiver sender request) (received : state.receive receiver = receipt) :
    state.messages[receiver]? = some ⟨sender, request, receipt⟩ := by
  obtain ⟨receipt', found⟩ := sent
  unfold receive at received
  rw [found] at received
  subst received
  exact found

theorem Live.receive (live : state.Live) (receiver : Nat) : state.receive receiver ≠ .dropped := by
  unfold NativeLoglet.receive
  cases found : state.messages[receiver]? with
  | none => exact fun same => nomatch same
  | some message => exact live.2 receiver message found

/-- The poll finds alive the log server that it sends to, and a read gets its reply. Trims
do not matter. -/
def Reaches (state : NativeLoglet n) : Future → Prop
  | .fanOutStore _ receivers | .fanOutSeal _ receivers =>
      ∀ inside : receivers.length < n, (state.logServers ⟨receivers.length, inside⟩).alive = true
  | .read _ server => ∀ inside : server < n, (state.logServers ⟨server, inside⟩).alive = true
  | .readReply _ _ receiver => state.receive receiver ≠ .dropped
  | _ => True

theorem Live.reaches (live : state.Live) (future : Future) : state.Reaches future := by
  cases future with
  | fanOutStore | fanOutSeal | read => exact fun inside => live.1 _
  | readReply pos server receiver => exact live.receive receiver
  | append | nextPos | nextPosReply | markSealed | checkTail | checkTailReply | storeReplies
  | fanOutTrim | trimReplies | sealSequencer | sealSequencerReply | sealReplies => trivial

/-- The request asks for no position and stores nothing. -/
def IsSilent : Request n → Prop
  | .sequencer .nextPos => False
  | .logServer _ (.store _ _) => False
  | _ => True

theorem Traces.send {request : Request n} (traces : Traces exit state index receivers current)
    (silent : IsSilent request) :
    Traces exit (state.send index op request) index receivers current := by
  refine ⟨fun found => ?_, fun found => ?_, fun given => traces.settled (answered_of_send given)⟩
  · rcases getElem?_of_concat found with before | ⟨_, same⟩
    · exact traces.numbered before
    · cases same
      exact silent.elim
  · rcases getElem?_of_concat found with before | ⟨_, same⟩
    · obtain ⟨member, giver, op', same, given⟩ := traces.stored before
      exact ⟨member, giver, op', same,
        (send_grows (Nat.succ_ne_self index)).answered given⟩
    · cases same
      exact silent.elim

theorem Traces.sendNextPos (settled : Settled exit state index) :
    Traces exit (state.send index op (.sequencer .nextPos)) index [] (some state.receiver) := by
  refine ⟨fun found => ?_, fun found => ?_, fun given => ?_⟩
  · rcases getElem?_of_concat found with before | ⟨rfl, _⟩
    · cases settled.numbered before
    · rfl
  · rcases getElem?_of_concat found with before | ⟨_, same⟩
    · cases (settled.stored before).1
    · cases same
  · rcases settled.settled (answered_of_send given) with same | holds
    · cases same
    · exact Or.inr holds

theorem Traces.sendStore {giver pos : Nat} {op' : LogletOp} {server : Fin n} {entry : Entry}
    (traces : Traces exit state index receivers (some giver))
    (given : state.AssignedBy giver (index, op') pos) :
    Traces exit (state.send index op (.logServer server (.store pos entry))) index
      (receivers ++ [state.receiver]) (some giver) := by
  have grows : Grows (index + 1) state
      (state.send index op (.logServer server (.store pos entry))) :=
    send_grows (Nat.succ_ne_self index)
  refine ⟨fun found => ?_, fun found => ?_, fun given => traces.settled (answered_of_send given)⟩
  · rcases getElem?_of_concat found with before | ⟨_, same⟩
    · exact traces.numbered before
    · cases same
  · rcases getElem?_of_concat found with before | ⟨rfl, same⟩
    · obtain ⟨member, giver', op', same, given'⟩ := traces.stored before
      exact ⟨List.mem_append_left _ member, giver', op', same, grows.answered given'⟩
    · cases same
      exact ⟨List.mem_append_right _ List.mem_cons_self, giver, op', rfl, grows.answered given⟩

theorem Traces.flag (traces : Traces exit state index receivers current) :
    Traces exit { state with sealed := true } index receivers current := by
  refine ⟨traces.numbered, traces.stored, fun given => ?_⟩
  rcases traces.settled given with same | holds
  · exact Or.inl same
  · exact Or.inr (by cases exit <;> exact holds)

theorem Traces.refused {receiver : Nat}
    (traces : Traces exit state index [] (some receiver)) {op : LogletOp}
    (answered : state.Answered receiver (index, op) (.sequencer .nextPos) (.position none)) :
    Settled exit state index := by
  refine ⟨fun found => ?_, fun found => ?_, fun given => ?_⟩
  · cases traces.numbered found
    cases Option.some.inj (found.symm.trans answered)
  · cases (traces.stored found).1
  · rcases traces.settled given with same | holds
    · cases same
      cases Option.some.inj (given.symm.trans answered)
    · exact Or.inr holds

theorem Traces.received {receiver : Nat} {asked : Request n} {reply : Reply}
    (traces : Traces exit state index (receiver :: receivers) current)
    (answered : state.Answered receiver sender asked reply) :
    Traces exit state index receivers current := by
  refine ⟨traces.numbered, fun {storer _ _ _ _} found => ?_, traces.settled⟩
  obtain ⟨member, owned⟩ := traces.stored found
  refine ⟨?_, owned⟩
  rcases List.mem_cons.mp member with rfl | later
  · cases Option.some.inj (found.symm.trans answered)
  · exact later

/-- An append below its quorum gives its position up. -/
theorem Traces.abandon {giver pos : Nat} (traces : Traces exit state index [] (some giver))
    (given : state.AssignedBy giver (index, op) pos) (holds : exit.Holds state pos) :
    Settled exit state index := by
  refine ⟨fun {receiver _} found => ?_, fun found => ?_, fun {receiver op' pos'} given' => ?_⟩
  · cases traces.numbered found
    cases Option.some.inj (found.symm.trans given)
  · cases (traces.stored found).1
  · rcases traces.settled given' with same | held
    · cases same
      cases Option.some.inj (given'.symm.trans given)
      exact Or.inr holds
    · exact Or.inr held

theorem Receivers.nil (first : Nat) (inside : first ≤ n) (request : LogServerRequest) :
    state.Receivers sender request first [] :=
  ⟨inside, fun _ _ found => by cases found⟩

theorem Receivers.head {request : LogServerRequest} {first receiver : Nat}
    (sent : state.Receivers sender request first (receiver :: receivers)) :
    ∃ inside : first < n, state.Sent receiver sender (.logServer ⟨first, inside⟩ request) :=
  sent.2 0 receiver rfl

theorem Receivers.tail {request : LogServerRequest} {first receiver : Nat}
    (sent : state.Receivers sender request first (receiver :: receivers)) :
    state.Receivers sender request (first + 1) receivers := by
  obtain ⟨length, each⟩ := sent
  rw [List.length_cons] at length
  refine ⟨by omega, fun slot other found => ?_⟩
  obtain ⟨inside, held⟩ := each (slot + 1) other found
  have same : first + 1 + slot = first + (slot + 1) := by omega
  exact ⟨same ▸ inside, by simpa only [same] using held⟩

theorem Receivers.send {request : LogServerRequest}
    (sent : state.Receivers (index, op) request 0 receivers) (inside : receivers.length < n) :
    (state.send index op (.logServer ⟨receivers.length, inside⟩ request)).Receivers (index, op)
      request 0 (receivers ++ [state.receiver]) := by
  have grows : Grows (index + 1) state
      (state.send index op (.logServer ⟨receivers.length, inside⟩ request)) :=
    send_grows (Nat.succ_ne_self index)
  refine ⟨by rw [List.length_append, List.length_singleton]; omega, fun slot receiver found => ?_⟩
  rcases getElem?_of_concat found with before | ⟨rfl, rfl⟩
  · obtain ⟨within, held⟩ := sent.2 slot receiver before
    exact ⟨within, grows.sent held⟩
  · refine ⟨by omega, ?_⟩
    simp only [Nat.zero_add]
    exact sent_send state index op _

end NativeLoglet

end Relos
