import Relos.Log.NativeOutline

set_option autoImplicit false

/-! Each poll of a call on the replicated loglet, and the outline made of them. -/

namespace Relos

open Async

namespace NativeLoglet

variable {n : Nat} {exit : Exit} {trims : Prop} {state next : NativeLoglet n} {index : Nat}
  {op : LogletOp} {receivers : List Nat} {progress : Progress Future LogletResult}

/-! ### Sends -/

theorem sendTo_kept (inv : state.Inv trims) (live : state.Live) {server : Fin n}
    {request : LogServerRequest} {following : Nat → Future}
    (sendable : Sendable trims state index op (.logServer server request))
    (running : Running exit trims (state.send index op (.logServer server request)) index op
      (following state.receiver))
    (polled : sendTo state index op server request following = some (next, progress)) :
    Kept exit trims index op state next progress := by
  unfold sendTo at polled
  rw [if_pos (live.1 server)] at polled
  cases polled
  exact .send inv live sendable running

/-- A fan-out sends to the next server, or goes on to the replies. -/
theorem fanOut_kept (inv : state.Inv trims) (live : state.Live) {request : LogServerRequest}
    {more : List Nat → Future} {sentAll : Future}
    (sent : state.Receivers (index, op) request 0 receivers)
    (sendable : ∀ server, Sendable trims state index op (.logServer server request))
    (again : ∀ server, (state.send index op (.logServer server request)).Receivers (index, op)
      request 0 (receivers ++ [state.receiver]) →
      Running exit trims (state.send index op (.logServer server request)) index op
        (more (receivers ++ [state.receiver])))
    (complete : receivers.length = n → Running exit trims state index op sentAll)
    (polled : fanOut state index op request receivers more sentAll = some (next, progress)) :
    Kept exit trims index op state next progress := by
  unfold fanOut at polled
  split at polled
  · rename_i inside
    exact sendTo_kept inv live (sendable _) (again _ (sent.send inside)) polled
  · rename_i outside
    cases polled
    have within := sent.1
    exact .still inv live (complete (by omega))

/-! ### Append -/

theorem nextPosReply_kept (inv : state.Inv trims) (live : state.Live) {receiver : Nat}
    (running : Running exit trims state index op (.nextPosReply receiver))
    (polled : poll state index op (.nextPosReply receiver) = some (next, progress)) :
    Kept exit trims index op state next progress := by
  obtain ⟨appends, traces, sent⟩ := running
  simp only [poll] at polled
  split at polled
  · rename_i pos received
    cases polled
    have answered := receive_sent sent received
    obtain ⟨entry, rfl⟩ : ∃ entry, op = .append entry := by
      cases op with
      | append entry => exact ⟨entry, rfl⟩
      | checkTail | read | trim | «seal» => exact appends.elim
    exact .still inv live ⟨entry, receiver, rfl, answered, traces, .nil 0 (Nat.zero_le n) _⟩
  · rename_i received
    cases polled
    exact .still inv live ⟨appends, traces.refused (receive_sent sent received)⟩
  · rename_i received
    exact absurd received (live.receive receiver)
  · cases polled

theorem fanOutStore_kept (inv : state.Inv trims) (live : state.Live) {pos : Nat}
    (running : Running exit trims state index op (.fanOutStore pos receivers))
    (polled : poll state index op (.fanOutStore pos receivers) = some (next, progress)) :
    Kept exit trims index op state next progress := by
  obtain ⟨entry, giver, rfl, given, traces, sent⟩ := running
  refine fanOut_kept inv live sent (fun server => ⟨rfl, giver, given⟩) (fun server sent' => ?_)
    (fun length => ?_) polled
  · exact ⟨entry, giver, rfl, (send_grows (Nat.succ_ne_self index)).answered given,
      traces.sendStore given, sent'⟩
  · exact ⟨entry, giver, 0, rfl, given, traces, by rw [Nat.zero_add]; exact length, sent,
      Tally.none _ 0⟩

theorem storeReply_kept (inv : state.Inv trims) (live : state.Live) {pos receiver ackCount : Nat}
    {sealTail : Option Nat}
    (running : Running exit trims state index op
      (.storeReplies pos (receiver :: receivers) ackCount sealTail))
    (polled : poll state index op (.storeReplies pos (receiver :: receivers) ackCount sealTail) =
      some (next, progress)) :
    Kept exit trims index op state next progress := by
  obtain ⟨entry, giver, first, rfl, given, traces, length, sent, acks⟩ := running
  obtain ⟨inside, asked⟩ := sent.head
  rw [List.length_cons] at length
  have length' : first + 1 + receivers.length = n := by omega
  simp only [poll] at polled
  split at polled
  · rename_i repeated received
    cases polled
    have answered := receive_sent asked received
    exact .still inv live ⟨entry, giver, first + 1, rfl, given, traces.received answered, length',
      sent.tail, Tally.add acks ⟨receiver, repeated, answered⟩⟩
  · rename_i tail received
    cases polled
    exact .still inv live ⟨entry, giver, first + 1, rfl, given,
      traces.received (receive_sent asked received), length', sent.tail, Tally.skip acks⟩
  · rename_i received
    exact absurd received (live.receive receiver)
  · cases polled

theorem acknowledge_kept (inv : state.Inv trims) (live : state.Live) {pos ackCount : Nat}
    {sealTail : Option Nat}
    (running : Running exit trims state index op (.storeReplies pos [] ackCount sealTail))
    (pollOk : PollOk exit state (.storeReplies pos [] ackCount sealTail))
    (polled : poll state index op (.storeReplies pos [] ackCount sealTail) = some (next, progress)) :
    Kept exit trims index op state next progress := by
  obtain ⟨entry, giver, first, rfl, given, traces, length, sent, acks⟩ := running
  simp only [poll, acknowledge] at polled
  split at polled
  · rename_i enough
    cases polled
    obtain ⟨servers, counted, each⟩ := acks
    exact .still inv live ⟨pos, giver, rfl, given, traces, servers, counted ▸ enough,
      fun server member => (each server member).2⟩
  · rename_i short
    have settled := traces.abandon given (pollOk (Nat.lt_of_not_le short))
    split at polled
    · cases polled
      exact .flag inv live settled.flag
    · cases polled
      exact .still inv live settled

/-! ### Tails, reads and trims -/

theorem checkTailReply_kept (inv : state.Inv trims) (live : state.Live) {receiver : Nat}
    (running : Running exit trims state index op (.checkTailReply receiver))
    (polled : poll state index op (.checkTailReply receiver) = some (next, progress)) :
    Kept exit trims index op state next progress := by
  obtain ⟨caller, settled, sent⟩ := running
  simp only [poll] at polled
  split at polled
  · rename_i tail received
    cases polled
    rcases caller with appends | rfl
    · cases op with
      | append entry => exact .still inv live settled
      | checkTail | read | trim | «seal» => exact appends.elim
    · have meaning := inv.answered (receive_sent sent received)
      exact .still inv live ⟨settled, tail, rfl, meaning.1, meaning.2⟩
  · rename_i received
    exact absurd received (live.receive receiver)
  · cases polled

theorem read_kept (inv : state.Inv trims) (live : state.Live) {pos server : Nat}
    (running : Running exit trims state index op (.read pos server))
    (polled : poll state index op (.read pos server) = some (next, progress)) :
    Kept exit trims index op state next progress := by
  obtain ⟨rfl, settled⟩ := running
  simp only [poll] at polled
  split at polled
  · rename_i inside
    refine sendTo_kept inv live ?_ ?_ polled
    · trivial
    · exact ⟨rfl, settled.send trivial, inside, sent_send ..⟩
  · cases polled
    exact .still inv live ⟨settled, none, rfl, fun entry same => (nomatch same)⟩

theorem readReply_kept (inv : state.Inv trims) (live : state.Live) {pos server receiver : Nat}
    (running : Running exit trims state index op (.readReply pos server receiver))
    (polled : poll state index op (.readReply pos server receiver) = some (next, progress)) :
    Kept exit trims index op state next progress := by
  obtain ⟨rfl, settled, inside, sent⟩ := running
  simp only [poll] at polled
  split at polled
  · rename_i entry received
    cases polled
    obtain ⟨owner, placed⟩ := inv.answered (receive_sent sent received)
    refine .still inv live ⟨settled, some entry, rfl, fun found same => ?_⟩
    cases same
    exact ⟨owner, placed⟩
  · rename_i received
    cases polled
    exact .still inv live ⟨settled, rfl, _, inv.answered (receive_sent sent received)⟩
  · cases polled
    exact .still inv live ⟨rfl, settled⟩
  · rename_i received
    exact absurd received (live.receive receiver)
  · cases polled

theorem fanOutTrim_kept (inv : state.Inv trims) (live : state.Live) {pos : Nat}
    (running : Running exit trims state index op (.fanOutTrim pos receivers))
    (polled : poll state index op (.fanOutTrim pos receivers) = some (next, progress)) :
    Kept exit trims index op state next progress := by
  obtain ⟨rfl, allowed, settled, sent⟩ := running
  refine fanOut_kept inv live sent (fun server => ⟨rfl, allowed⟩) (fun server sent' => ?_)
    (fun length => ?_) polled
  · exact ⟨rfl, allowed, settled.send trivial, sent'⟩
  · exact ⟨pos, 0, rfl, settled, by rw [Nat.zero_add]; exact length, sent,
      fun server before => absurd before (Nat.not_lt_zero _)⟩

theorem trimReplies_kept (inv : state.Inv trims) (live : state.Live)
    (running : Running exit trims state index op (.trimReplies receivers))
    (polled : poll state index op (.trimReplies receivers) = some (next, progress)) :
    Kept exit trims index op state next progress := by
  obtain ⟨pos, first, rfl, settled, length, sent, trimmed⟩ := running
  cases receivers with
  | nil =>
      cases polled
      rw [List.length_nil, Nat.add_zero] at length
      exact .still inv live ⟨settled, rfl, fun server => trimmed server (length ▸ server.isLt)⟩
  | cons receiver rest =>
      obtain ⟨inside, asked⟩ := sent.head
      rw [List.length_cons] at length
      simp only [poll] at polled
      split at polled
      · rename_i received
        cases polled
        have meaning := inv.answered (receive_sent asked received)
        refine .still inv live ⟨pos, first + 1, rfl, settled, by omega, sent.tail, ?_⟩
        intro server before
        rcases Nat.lt_or_eq_of_le (Nat.le_of_lt_succ before) with earlier | same
        · exact trimmed server earlier
        · subst same
          exact meaning
      · rename_i received
        exact absurd received (live.receive receiver)
      · cases polled

/-! ### Seal -/

theorem sealSequencerReply_kept (inv : state.Inv trims) (live : state.Live) {receiver : Nat}
    (running : Running exit trims state index op (.sealSequencerReply receiver))
    (polled : poll state index op (.sealSequencerReply receiver) = some (next, progress)) :
    Kept exit trims index op state next progress := by
  obtain ⟨rfl, settled, sent⟩ := running
  simp only [poll] at polled
  split at polled
  · rename_i tail received
    cases polled
    exact .still inv live ⟨rfl, settled, inv.answered (receive_sent sent received),
      .nil 0 (Nat.zero_le n) _⟩
  · rename_i received
    exact absurd received (live.receive receiver)
  · cases polled

theorem fanOutSeal_kept (inv : state.Inv trims) (live : state.Live) {sequencerTail : Nat}
    (running : Running exit trims state index op (.fanOutSeal sequencerTail receivers))
    (polled : poll state index op (.fanOutSeal sequencerTail receivers) = some (next, progress)) :
    Kept exit trims index op state next progress := by
  obtain ⟨rfl, settled, final, sent⟩ := running
  refine fanOut_kept inv live sent (fun server => trivial) (fun server sent' => ?_)
    (fun length => ?_) polled
  · exact ⟨rfl, settled.send trivial, final, sent'⟩
  · obtain ⟨_, same⟩ := finalTail_eq_some.mp final
    exact ⟨rfl, settled, final, same ▸ inv.positive, 0, by rw [Nat.zero_add]; exact length, sent,
      fun server before => absurd before (Nat.not_lt_zero _)⟩

theorem sealReplies_kept (inv : state.Inv trims) (live : state.Live)
    {sequencerTail sealedCount maxTail : Nat}
    (running : Running exit trims state index op
      (.sealReplies sequencerTail receivers sealedCount maxTail))
    (polled : poll state index op (.sealReplies sequencerTail receivers sealedCount maxTail) =
      some (next, progress)) :
    Kept exit trims index op state next progress := by
  obtain ⟨rfl, settled, final, below, first, length, sent, isSealed⟩ := running
  cases receivers with
  | nil =>
      rw [List.length_nil, Nat.add_zero] at length
      simp only [poll] at polled
      split at polled
      · cases polled
        exact .still inv live settled
      · cases polled
        rw [Nat.max_eq_left below]
        exact .flag inv live ⟨settled.flag, sequencerTail, rfl, final, rfl,
          fun server => isSealed server (length ▸ server.isLt)⟩
  | cons receiver rest =>
      obtain ⟨inside, asked⟩ := sent.head
      rw [List.length_cons] at length
      simp only [poll] at polled
      split at polled
      · rename_i tail received
        cases polled
        obtain ⟨answered, bound⟩ := inv.answered (receive_sent asked received)
        obtain ⟨_, same⟩ := finalTail_eq_some.mp final
        refine .still inv live ⟨rfl, settled, final, ?_, first + 1, by omega, sent.tail, ?_⟩
        · split <;> omega
        · intro server before
          rcases Nat.lt_or_eq_of_le (Nat.le_of_lt_succ before) with earlier | last
          · exact isSealed server earlier
          · subst last
            exact answered
      · rename_i received
        exact absurd received (live.receive receiver)
      · cases polled

theorem poll_kept (inv : state.Inv trims) (live : state.Live) {future : Future}
    (running : Running exit trims state index op future) (pollOk : PollOk exit state future)
    (polled : poll state index op future = some (next, progress)) :
    Kept exit trims index op state next progress := by
  cases future with
  | append =>
      simp only [poll] at polled
      split at polled
      · cases polled
        exact .still inv live ⟨Or.inl running.1, running.2⟩
      · cases polled
        exact .still inv live running
  | nextPos =>
      cases polled
      exact .send inv live trivial ⟨running.1, .sendNextPos running.2, sent_send ..⟩
  | nextPosReply receiver => exact nextPosReply_kept inv live running polled
  | markSealed =>
      cases polled
      exact .flag inv live ⟨Or.inl running.1, running.2.flag⟩
  | checkTail =>
      cases polled
      exact .send inv live trivial ⟨running.1, running.2.send trivial, sent_send ..⟩
  | checkTailReply receiver => exact checkTailReply_kept inv live running polled
  | fanOutStore pos receivers => exact fanOutStore_kept inv live running polled
  | storeReplies pos receivers ackCount sealTail =>
      cases receivers with
      | nil => exact acknowledge_kept inv live running pollOk polled
      | cons receiver rest => exact storeReply_kept inv live running polled
  | read pos server => exact read_kept inv live running polled
  | readReply pos server receiver => exact readReply_kept inv live running polled
  | fanOutTrim pos receivers => exact fanOutTrim_kept inv live running polled
  | trimReplies receivers => exact trimReplies_kept inv live running polled
  | sealSequencer =>
      cases polled
      exact .send inv live trivial ⟨running.1, running.2.send trivial, sent_send ..⟩
  | sealSequencerReply receiver => exact sealSequencerReply_kept inv live running polled
  | fanOutSeal sequencerTail receivers => exact fanOutSeal_kept inv live running polled
  | sealReplies sequencerTail receivers sealedCount maxTail =>
      exact sealReplies_kept inv live running polled

/-! ### The outline -/

theorem running_fresh (silent : ¬ op.IsAppend) {future : Future}
    (running : Running exit trims state index op future) : Settled exit state index := by
  cases future with
  | append => exact absurd running.1 silent
  | nextPos => exact absurd running.1 silent
  | nextPosReply receiver => exact absurd running.1 silent
  | markSealed => exact absurd running.1 silent
  | checkTail => exact running.2
  | checkTailReply receiver => exact running.2.1
  | fanOutStore pos receivers =>
      obtain ⟨entry, giver, rfl, _⟩ := running
      exact absurd trivial silent
  | storeReplies pos receivers ackCount sealTail =>
      obtain ⟨entry, giver, first, rfl, _⟩ := running
      exact absurd trivial silent
  | read pos server => exact running.2
  | readReply pos server receiver => exact running.2.1
  | fanOutTrim pos receivers => exact running.2.2.1
  | trimReplies receivers =>
      obtain ⟨pos, first, _, settled, _⟩ := running
      exact settled
  | sealSequencer => exact running.2
  | sealSequencerReply receiver => exact running.2.1
  | fanOutSeal sequencerTail receivers => exact running.2.1
  | sealReplies sequencerTail receivers sealedCount maxTail => exact running.2.1

theorem finished_fresh {result : LogletResult} (finished : Finished exit state index op result)
    (failed : op.IsAppend → ∃ error, result = .error error) : Settled exit state index := by
  unfold Finished at finished
  split at finished
  · obtain ⟨_, same⟩ := failed trivial
    cases same
  · exact finished.1
  · exact finished.1
  · exact finished.1
  · exact finished.1
  · exact finished.1
  · exact finished

theorem begin_running (opOk : op.IsTrim → trims) (settled : Settled exit state index) :
    Running exit trims state index op (begin op) := by
  cases op with
  | append entry => exact ⟨trivial, settled⟩
  | checkTail => exact ⟨Or.inr rfl, settled⟩
  | read pos => exact ⟨rfl, settled⟩
  | trim pos => exact ⟨rfl, opOk trivial, settled, .nil 0 (Nat.zero_le n) _⟩
  | «seal» => exact ⟨rfl, settled⟩

theorem Quorum.placed {owner pos : Nat} {entry : Entry} (quorum : state.Quorum owner entry pos) :
    state.Placed owner entry pos := by
  obtain ⟨servers, enough, accepted⟩ := quorum
  unfold quorumSize at enough
  obtain ⟨server, member⟩ := Finset.card_pos.mp (Nat.lt_of_lt_of_le (Nat.succ_pos _) enough)
  exact ⟨server, accepted server member⟩

end NativeLoglet

open NativeLoglet

/-- The replicated loglet with live servers. -/
def nativeOutline (n : Nat) (trims : Prop) (exit : Exit) (unstored : exit = .unstored → ¬ trims) :
    LogletOutline (nativeComponent n) where
  OpOk op := op.IsTrim → trims
  PollOk state _ _ future := PollOk exit state future
  EventOk _
    | .serve _ => True
    | .stop _ => False
  Inv state := state.Inv trims ∧ state.Live
  Fresh := Settled exit
  Running := Running exit trims
  Finished := Finished exit
  Rely := Grows
  begin_running := fun _ opOk settled => begin_running opOk settled
  poll_sound := fun inv _ running pollOk polled => poll_kept inv.1 inv.2 running pollOk polled
  background_sound := by
    intro state event next inv eventOk ran
    cases event with
    | serve task =>
        obtain ⟨kept, grows⟩ := inv.1.serve ran
        exact ⟨⟨kept, inv.2.serve ran⟩, grows⟩
    | stop server => exact eventOk.elim
  fresh_stable := fun inv inv' grows settled => settled.stable unstored inv.1 inv'.1 grows
  running_stable := fun inv inv' grows running => running.stable unstored inv.1 inv'.1 grows
  finished_stable := fun inv inv' grows finished => finished.stable unstored inv.1 inv'.1 grows
  rely_refl := Grows.refl
  rely_trans := Grows.trans
  running_fresh := fun silent _ running => running_fresh silent running
  finished_fresh := fun _ finished failed => finished_fresh finished failed
  Trims := trims
  opOk allowed := allowed
  finalTail := finalTail
  finalTail_stable := fun _ _ grows final => grows.finalTail final
  finalTail_pos := by
    intro state tail inv final
    obtain ⟨_, rfl⟩ := finalTail_eq_some.mp final
    exact inv.1.positive
  seal_final := by
    intro state index value _ finished
    obtain ⟨_, tail, same, final, _⟩ := finished
    exact ⟨tail, same, final⟩
  Placed := Placed
  placed_stable := fun _ _ grows placed => grows.placed placed
  placed_unique := fun inv placed placed' =>
    inv.1.assigned_unique (inv.1.placed_assigned placed) (inv.1.placed_assigned placed')
  placed_pos := by
    intro state owner entry pos inv placed
    obtain ⟨_, given⟩ := inv.1.placed_assigned placed
    exact (inv.1.answered given).1
  placed_below := by
    intro state owner entry pos tail inv placed final
    obtain ⟨_, given⟩ := inv.1.placed_assigned placed
    obtain ⟨_, rfl⟩ := finalTail_eq_some.mp final
    exact (inv.1.answered given).2
  append_placed := by
    intro state index entry value _ finished
    obtain ⟨pos, _, same, _, _, quorum⟩ := finished
    exact ⟨pos, same, quorum.placed⟩
  read_placed := by
    intro state index pos value _ finished
    exact finished.2
  tail_pos := by
    intro state index result _ finished
    obtain ⟨_, tail, same, positive, _⟩ := finished
    exact ⟨tail, same, positive⟩
  tail_le := by
    intro state index tail final _ finished sealedAt
    obtain ⟨_, tail', same, _, below⟩ := finished
    obtain ⟨_, rfl⟩ := finalTail_eq_some.mp sealedAt
    cases same
    exact below

end Relos
