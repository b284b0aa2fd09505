import Relos.Log.NativeStops
import Relos.Log.NativeSafety
import Relos.Async.Sequential

set_option autoImplicit false

/-! Which calls on a replicated loglet succeed while a quorum of its log servers is left. -/

namespace Relos

open Async

namespace NativeLoglet

variable {n : Nat}

/-- What a poll must establish while servers may stop. -/
def Tolerated (chosen : Prop) (index : Nat) (op : LogletOp) (state next : NativeLoglet n)
    (progress : Progress Future LogletResult) : Prop :=
  (next.Inv True ∧ next.Stops) ∧
    progress.Holds (Enduring next index op) (Endured chosen next index op) ∧
    ∀ other, other ≠ index → Outlives other state next

variable {chosen : Prop} {index : Nat} {op : LogletOp} {state next : NativeLoglet n}
  {progress : Progress Future LogletResult} {receivers : List Nat}

theorem Tolerated.still (inv : state.Inv True) (stops : state.Stops)
    (holds : progress.Holds (Enduring state index op) (Endured chosen state index op)) :
    Tolerated chosen index op state state progress :=
  ⟨⟨inv, stops⟩, holds, fun other _ => .refl other state⟩

theorem Tolerated.send (inv : state.Inv True) (stops : state.Stops) {request : Request n}
    (sendable : Sendable True state index op request)
    (alive : ∀ server asked, request = .logServer server asked →
      (state.logServers server).alive = true)
    (seals : ∀ server, request = .logServer server .seal → state.sequencer.sealed = true)
    (holds : progress.Holds (Enduring (state.send index op request) index op)
      (Endured chosen (state.send index op request) index op)) :
    Tolerated chosen index op state (state.send index op request) progress :=
  ⟨⟨inv.send sendable, stops.send alive seals⟩, holds,
    fun _ different => ⟨send_grows different, fun _ member => member⟩⟩

theorem Tolerated.ask (inv : state.Inv True) (stops : state.Stops) {asked : SequencerRequest}
    (holds : progress.Holds (Enduring (state.send index op (.sequencer asked)) index op)
      (Endured chosen (state.send index op (.sequencer asked)) index op)) :
    Tolerated chosen index op state (state.send index op (.sequencer asked)) progress := by
  refine .send inv stops ?_ (fun _ _ impossible => ?_) (fun _ impossible => ?_) holds
  · trivial
  · cases impossible
  · cases impossible

theorem Tolerated.flag (inv : state.Inv True) (stops : state.Stops)
    (isSealed : state.sequencer.sealed = true)
    (holds : progress.Holds (Enduring { state with sealed := true } index op)
      (Endured chosen { state with sealed := true } index op)) :
    Tolerated chosen index op state { state with sealed := true } progress :=
  ⟨⟨inv.flag, stops.flagged isSealed⟩, holds,
    fun other _ => ⟨flag_grows other state, fun _ member => member⟩⟩

/-- Nothing is promised of the errors of the other calls. -/
theorem Endured.other {result : LogletResult} (endured : Endured False state index op result)
    (other : ¬ chosen) : Endured chosen state index op result := by
  unfold Endured at endured ⊢
  split at endured
  · exact endured
  · exact fun mine => absurd mine other
  · exact endured
  · exact fun mine => absurd mine other
  · exact endured
  · exact fun mine => absurd mine other
  · trivial

/-- The sequencer loses no request. -/
theorem Stops.answers (stops : state.Stops) {receiver : Nat} {sender : Nat × LogletOp}
    {asked : SequencerRequest} (sent : state.Sent receiver sender (.sequencer asked)) :
    state.receive receiver ≠ .dropped := by
  intro lost
  obtain ⟨server, asked', impossible, -⟩ := stops.dropped (receive_sent sent lost)
  cases impossible

theorem Stops.lost (stops : state.Stops) {receiver : Nat} {sender : Nat × LogletOp} {server : Fin n}
    {asked : LogServerRequest} (sent : state.Sent receiver sender (.logServer server asked))
    (lost : state.receive receiver = .dropped) : server ∈ state.stopped := by
  obtain ⟨server', asked', same, gone⟩ := stops.dropped (receive_sent sent lost)
  cases same
  exact gone

/-! ### Sends -/

theorem sendTo_tolerated (inv : state.Inv True) (stops : state.Stops) {server : Fin n}
    {request : LogServerRequest} {following : Nat → Future}
    (sendable : Sendable True state index op (.logServer server request))
    (seals : request = .seal → state.sequencer.sealed = true)
    (gone : ¬ (state.logServers server).alive = true →
      Endured chosen state index op logServerTaskGone)
    (enduring : Enduring (state.send index op (.logServer server request)) index op
      (following state.receiver))
    (polled : sendTo state index op server request following = some (next, progress)) :
    Tolerated chosen index op state next progress := by
  unfold sendTo at polled
  split at polled
  · rename_i alive
    cases polled
    refine .send inv stops sendable (fun other asked same => ?_) (fun other same => ?_) enduring
    · cases same
      exact alive
    · cases same
      exact seals rfl
  · rename_i dead
    cases polled
    exact .still inv stops (gone dead)

theorem fanOut_tolerated (inv : state.Inv True) (stops : state.Stops) {request : LogServerRequest}
    {more : List Nat → Future} {sentAll : Future}
    (sent : state.Receivers (index, op) request 0 receivers)
    (sendable : ∀ server, Sendable True state index op (.logServer server request))
    (seals : request = .seal → state.sequencer.sealed = true)
    (gone : ∀ inside : receivers.length < n,
      ¬ (state.logServers ⟨receivers.length, inside⟩).alive = true →
      Endured chosen state index op logServerTaskGone)
    (again : ∀ server, (state.send index op (.logServer server request)).Receivers (index, op)
      request 0 (receivers ++ [state.receiver]) →
      Enduring (state.send index op (.logServer server request)) index op
        (more (receivers ++ [state.receiver])))
    (complete : receivers.length = n → Enduring state index op sentAll)
    (polled : fanOut state index op request receivers more sentAll = some (next, progress)) :
    Tolerated chosen index op state next progress := by
  unfold fanOut at polled
  split at polled
  · rename_i inside
    exact sendTo_tolerated inv stops (sendable _) seals (gone inside) (again _ (sent.send inside))
      polled
  · rename_i outside
    cases polled
    have within := sent.1
    exact .still inv stops (complete (by omega))

/-! ### Append -/

theorem nextPosReply_tolerated (inv : state.Inv True) (stops : state.Stops) {receiver : Nat}
    (enduring : Enduring state index op (.nextPosReply receiver))
    (polled : poll state index op (.nextPosReply receiver) = some (next, progress)) :
    Tolerated chosen index op state next progress := by
  obtain ⟨appends, sent⟩ := enduring
  simp only [poll] at polled
  split at polled
  · rename_i pos received
    cases polled
    have answered := receive_sent sent received
    cases op with
    | append entry =>
        exact .still inv stops ⟨entry, rfl, ⟨receiver, answered⟩, .nil 0 (Nat.zero_le n) _⟩
    | checkTail | read | trim | «seal» => exact appends.elim
  · rename_i received
    cases polled
    exact .still inv stops ⟨appends, inv.answered (receive_sent sent received)⟩
  · rename_i received
    exact absurd received (stops.answers sent)
  · cases polled

theorem fanOutStore_tolerated (inv : state.Inv True) (stops : state.Stops) {pos : Nat}
    (enduring : Enduring state index op (.fanOutStore pos receivers))
    (reaches : chosen → state.Reaches (.fanOutStore pos receivers))
    (polled : poll state index op (.fanOutStore pos receivers) = some (next, progress)) :
    Tolerated chosen index op state next progress := by
  obtain ⟨entry, rfl, assigned, sent⟩ := enduring
  refine fanOut_tolerated inv stops sent (fun server => ⟨rfl, assigned⟩) (fun same => by cases same)
    (fun inside dead => ?_) (fun server sent' => ?_) (fun length => ?_) polled
  · exact fun mine => absurd (reaches mine inside) dead
  · exact ⟨entry, rfl, (send_grows (Nat.succ_ne_self index)).assigned assigned, sent'⟩
  · exact ⟨entry, 0, 0, rfl, by rw [Nat.zero_add]; exact length, sent, Tally.none _ 0, .none _ 0,
      fun _ => Nat.le_refl 0, fun refused => absurd rfl refused⟩

theorem storeReply_tolerated (inv : state.Inv True) (stops : state.Stops)
    {pos receiver ackCount : Nat} {sealTail : Option Nat}
    (enduring : Enduring state index op
      (.storeReplies pos (receiver :: receivers) ackCount sealTail))
    (polled : poll state index op (.storeReplies pos (receiver :: receivers) ackCount sealTail) =
      some (next, progress)) :
    Tolerated chosen index op state next progress := by
  obtain ⟨entry, first, lost, rfl, length, sent, acks, tally, counted, isSealed⟩ := enduring
  obtain ⟨inside, asked⟩ := sent.head
  rw [List.length_cons] at length
  have length' : first + 1 + receivers.length = n := by omega
  simp only [poll] at polled
  split at polled
  · rename_i repeated received
    cases polled
    refine .still inv stops ⟨entry, first + 1, lost, rfl, length', sent.tail,
      Tally.add acks ⟨receiver, repeated, receive_sent asked received⟩, tally.skip, fun none => ?_,
      isSealed⟩
    have before := counted none
    omega
  · rename_i tail received
    cases polled
    have refused := inv.answered (receive_sent asked received)
    exact .still inv stops ⟨entry, first + 1, lost, rfl, length', sent.tail, Tally.skip acks,
      tally.skip, fun impossible => absurd impossible (Option.some_ne_none tail),
      fun _ => stops.sealed _ refused⟩
  · rename_i received
    cases polled
    refine .still inv stops ⟨entry, first + 1, lost + 1, rfl, length', sent.tail, Tally.skip acks,
      tally.add (stops.lost asked received), fun none => ?_, isSealed⟩
    have before := counted none
    omega
  · cases polled

theorem acknowledge_tolerated (inv : state.Inv True) (stops : state.Stops) {pos ackCount : Nat}
    {sealTail : Option Nat} (enduring : Enduring state index op (.storeReplies pos [] ackCount sealTail))
    (polled : poll state index op (.storeReplies pos [] ackCount sealTail) = some (next, progress)) :
    Tolerated chosen index op state next progress := by
  obtain ⟨entry, first, lost, rfl, length, sent, acks, tally, counted, isSealed⟩ := enduring
  rw [List.length_nil, Nat.add_zero] at length
  simp only [poll, acknowledge] at polled
  split at polled
  · rename_i enough
    cases polled
    obtain ⟨servers, same, each⟩ := acks
    exact .still inv stops ⟨pos, rfl, servers, same ▸ enough, fun server member =>
      (each server member).2⟩
  · rename_i short
    split at polled
    · rename_i tail
      cases polled
      have sequencer := isSealed (Option.some_ne_none tail)
      exact .flag inv stops sequencer fun _ => Or.inr ⟨sequencer, tail, rfl⟩
    · cases polled
      have before := counted rfl
      exact .still inv stops fun _ => Or.inl (tally.exhausted (by omega))

/-! ### Tails, reads and trims -/

theorem checkTailReply_tolerated (inv : state.Inv True) (stops : state.Stops) {receiver : Nat}
    (enduring : Enduring state index op (.checkTailReply receiver))
    (polled : poll state index op (.checkTailReply receiver) = some (next, progress)) :
    Tolerated chosen index op state next progress := by
  obtain ⟨asking, sent⟩ := enduring
  simp only [poll] at polled
  split at polled
  · rename_i tail received
    cases polled
    rcases asking with rfl | ⟨appends, isSealed⟩
    · exact .still inv stops trivial
    · cases op with
      | append entry => exact .still inv stops fun _ => Or.inr ⟨isSealed, tail, rfl⟩
      | checkTail | read | trim | «seal» => exact appends.elim
  · rename_i received
    exact absurd received (stops.answers sent)
  · cases polled

theorem read_tolerated (inv : state.Inv True) (stops : state.Stops) {pos server : Nat}
    (enduring : Enduring state index op (.read pos server))
    (reaches : chosen → state.Reaches (.read pos server))
    (polled : poll state index op (.read pos server) = some (next, progress)) :
    Tolerated chosen index op state next progress := by
  cases enduring
  simp only [poll] at polled
  split at polled
  · rename_i inside
    refine sendTo_tolerated inv stops ?_ (fun same => by cases same) (fun dead => ?_) ?_ polled
    · trivial
    · exact fun mine => absurd (reaches mine inside) dead
    · exact ⟨rfl, inside, sent_send ..⟩
  · cases polled
    exact .still inv stops ⟨none, rfl, fun entry impossible => by cases impossible⟩

theorem readReply_tolerated (inv : state.Inv True) (stops : state.Stops) {pos server receiver : Nat}
    (enduring : Enduring state index op (.readReply pos server receiver))
    (reaches : chosen → state.Reaches (.readReply pos server receiver))
    (polled : poll state index op (.readReply pos server receiver) = some (next, progress)) :
    Tolerated chosen index op state next progress := by
  obtain ⟨rfl, inside, sent⟩ := enduring
  simp only [poll] at polled
  split at polled
  · rename_i entry received
    cases polled
    have placed := inv.answered (receive_sent sent received)
    refine .still inv stops ⟨some entry, rfl, fun found same => ?_⟩
    cases same
    exact placed
  · rename_i received
    cases polled
    exact .still inv stops fun _ => ⟨rfl, _, inv.answered (receive_sent sent received)⟩
  · cases polled
    exact .still inv stops rfl
  · rename_i received
    cases polled
    exact .still inv stops fun mine => absurd received (reaches mine)
  · cases polled

theorem fanOutTrim_tolerated (inv : state.Inv True) (stops : state.Stops) {pos : Nat}
    (enduring : Enduring state index op (.fanOutTrim pos receivers))
    (polled : poll state index op (.fanOutTrim pos receivers) = some (next, progress)) :
    Tolerated chosen index op state next progress := by
  obtain ⟨rfl, sent⟩ := enduring
  refine fanOut_tolerated inv stops sent (fun server => ⟨rfl, trivial⟩) (fun same => by cases same)
    (fun _ _ => trivial) (fun server sent' => ?_) (fun _ => ?_) polled
  · exact ⟨rfl, sent'⟩
  · exact ⟨pos, 0, rfl, sent⟩

theorem trimReplies_tolerated (inv : state.Inv True) (stops : state.Stops)
    (enduring : Enduring state index op (.trimReplies receivers))
    (polled : poll state index op (.trimReplies receivers) = some (next, progress)) :
    Tolerated chosen index op state next progress := by
  obtain ⟨pos, first, rfl, sent⟩ := enduring
  cases receivers with
  | nil =>
      cases polled
      exact .still inv stops trivial
  | cons receiver rest =>
      simp only [poll] at polled
      split at polled
      · cases polled
        exact .still inv stops ⟨pos, first + 1, rfl, sent.tail⟩
      · cases polled
        exact .still inv stops trivial
      · cases polled

/-! ### Seal -/

theorem sealSequencerReply_tolerated (inv : state.Inv True) (stops : state.Stops) {receiver : Nat}
    (enduring : Enduring state index op (.sealSequencerReply receiver))
    (polled : poll state index op (.sealSequencerReply receiver) = some (next, progress)) :
    Tolerated chosen index op state next progress := by
  obtain ⟨rfl, sent⟩ := enduring
  simp only [poll] at polled
  split at polled
  · rename_i tail received
    cases polled
    obtain ⟨isSealed, -⟩ := finalTail_eq_some.mp (inv.answered (receive_sent sent received))
    exact .still inv stops ⟨rfl, isSealed, .nil 0 (Nat.zero_le n) _⟩
  · rename_i received
    exact absurd received (stops.answers sent)
  · cases polled

theorem fanOutSeal_tolerated (inv : state.Inv True) (stops : state.Stops) {sequencerTail : Nat}
    (enduring : Enduring state index op (.fanOutSeal sequencerTail receivers))
    (reaches : chosen → state.Reaches (.fanOutSeal sequencerTail receivers))
    (polled : poll state index op (.fanOutSeal sequencerTail receivers) = some (next, progress)) :
    Tolerated chosen index op state next progress := by
  obtain ⟨rfl, isSealed, sent⟩ := enduring
  refine fanOut_tolerated inv stops sent (fun server => trivial) (fun _ => isSealed)
    (fun inside dead => ?_) (fun server sent' => ?_) (fun length => ?_) polled
  · exact fun mine => absurd (reaches mine inside) dead
  · exact ⟨rfl, isSealed, sent'⟩
  · exact ⟨rfl, isSealed, 0, 0, by rw [Nat.zero_add]; exact length, sent, .none _ 0, Nat.le_refl 0⟩

theorem sealReplies_tolerated (inv : state.Inv True) (stops : state.Stops)
    {sequencerTail sealedCount maxTail : Nat}
    (enduring : Enduring state index op (.sealReplies sequencerTail receivers sealedCount maxTail))
    (polled : poll state index op (.sealReplies sequencerTail receivers sealedCount maxTail) =
      some (next, progress)) :
    Tolerated chosen index op state next progress := by
  obtain ⟨rfl, isSealed, first, lost, length, sent, tally, counted⟩ := enduring
  cases receivers with
  | nil =>
      rw [List.length_nil, Nat.add_zero] at length
      simp only [poll] at polled
      split at polled
      · rename_i short
        cases polled
        exact .still inv stops fun _ => tally.exhausted (by omega)
      · rename_i enough
        cases polled
        exact .flag inv stops isSealed ⟨_, rfl⟩
  | cons receiver rest =>
      obtain ⟨inside, asked⟩ := sent.head
      rw [List.length_cons] at length
      simp only [poll] at polled
      split at polled
      · cases polled
        exact .still inv stops ⟨rfl, isSealed, first + 1, lost, by omega, sent.tail, tally.skip, by omega⟩
      · rename_i received
        cases polled
        exact .still inv stops ⟨rfl, isSealed, first + 1, lost + 1, by omega, sent.tail,
          tally.add (stops.lost asked received), by omega⟩
      · cases polled

theorem poll_tolerated (inv : state.Inv True) (stops : state.Stops) {future : Future}
    (enduring : Enduring state index op future) (reaches : chosen → state.Reaches future)
    (polled : poll state index op future = some (next, progress)) :
    Tolerated chosen index op state next progress := by
  cases future with
  | append =>
      simp only [poll] at polled
      split at polled
      · rename_i flag
        cases polled
        exact .still inv stops (Or.inr ⟨enduring, stops.flag flag⟩)
      · cases polled
        exact .still inv stops enduring
  | nextPos =>
      cases polled
      exact .ask inv stops ⟨enduring, sent_send ..⟩
  | nextPosReply receiver => exact nextPosReply_tolerated inv stops enduring polled
  | markSealed =>
      cases polled
      exact .flag inv stops enduring.2 (Or.inr enduring)
  | checkTail =>
      cases polled
      exact .ask inv stops ⟨enduring, sent_send ..⟩
  | checkTailReply receiver => exact checkTailReply_tolerated inv stops enduring polled
  | fanOutStore pos receivers => exact fanOutStore_tolerated inv stops enduring reaches polled
  | storeReplies pos receivers ackCount sealTail =>
      cases receivers with
      | nil => exact acknowledge_tolerated inv stops enduring polled
      | cons receiver rest => exact storeReply_tolerated inv stops enduring polled
  | read pos server => exact read_tolerated inv stops enduring reaches polled
  | readReply pos server receiver => exact readReply_tolerated inv stops enduring reaches polled
  | fanOutTrim pos receivers => exact fanOutTrim_tolerated inv stops enduring polled
  | trimReplies receivers => exact trimReplies_tolerated inv stops enduring polled
  | sealSequencer =>
      cases polled
      exact .ask inv stops ⟨enduring, sent_send ..⟩
  | sealSequencerReply receiver => exact sealSequencerReply_tolerated inv stops enduring polled
  | fanOutSeal sequencerTail receivers => exact fanOutSeal_tolerated inv stops enduring reaches polled
  | sealReplies sequencerTail receivers sealedCount maxTail =>
      exact sealReplies_tolerated inv stops enduring polled

/-- A poll that does not reach its server ends the call, even if a quorum is left. -/
theorem poll_unreached {future : Future} (missing : ¬ state.Reaches future)
    (polled : poll state index op future = some (next, progress)) :
    progress = .finished logServerTaskGone ∨ progress = .finished logServerReplyDropped := by
  have gone : ∀ {receivers : List Nat} {request : LogServerRequest} {more : List Nat → Future}
      {sentAll : Future}, (¬ ∀ inside : receivers.length < n,
        (state.logServers ⟨receivers.length, inside⟩).alive = true) →
      fanOut state index op request receivers more sentAll = some (next, progress) →
      progress = .finished logServerTaskGone := by
    intro receivers request more sentAll missing polled
    obtain ⟨inside, dead⟩ := Classical.not_forall.mp missing
    unfold fanOut sendTo at polled
    rw [dif_pos inside, if_neg dead] at polled
    cases polled
    rfl
  cases future with
  | fanOutStore pos receivers =>
      cases op with
      | append entry => exact Or.inl (gone missing polled)
      | checkTail | read | trim | «seal» => cases polled
  | fanOutSeal sequencerTail receivers => exact Or.inl (gone missing polled)
  | read pos server =>
      obtain ⟨inside, dead⟩ := Classical.not_forall.mp missing
      simp only [poll, sendTo] at polled
      rw [dif_pos inside, if_neg dead] at polled
      cases polled
      exact Or.inl rfl
  | readReply pos server receiver =>
      have dropped : state.receive receiver = .dropped := Classical.not_not.mp missing
      simp only [poll, dropped] at polled
      cases polled
      exact Or.inr rfl
  | append | nextPos | nextPosReply | markSealed | checkTail | checkTailReply | storeReplies
  | fanOutTrim | trimReplies | sealSequencer | sealSequencerReply | sealReplies =>
      exact absurd trivial missing

/-! ### Calls that wait -/

/-- A poll that cannot advance waits for a task that has something to serve. -/
theorem poll_waits (inv : state.Inv True) {future : Future}
    (enduring : Enduring state index op future) (blocked : poll state index op future = none) :
    ∃ receiver request, state.Pending receiver request := by
  have waits : ∀ {receiver : Nat} {request : Request n},
      state.Sent receiver (index, op) request →
      (∀ reply, state.receive receiver = .sent reply → ¬ state.Means request reply) →
      state.receive receiver ≠ .dropped → ∃ receiver request, state.Pending receiver request := by
    intro receiver request sent unexpected alive
    cases received : state.receive receiver with
    | pending => exact ⟨receiver, request, _, receive_sent sent received⟩
    | sent reply => exact absurd (inv.answered (receive_sent sent received)) (unexpected reply received)
    | dropped => exact absurd received alive
  have sends : ∀ {receivers : List Nat} {request : LogServerRequest} {more : List Nat → Future}
      {sentAll : Future}, fanOut state index op request receivers more sentAll ≠ none := by
    intro receivers request more sentAll
    unfold fanOut sendTo
    split
    · split <;> exact Option.some_ne_none _
    · exact Option.some_ne_none _
  cases future with
  | append =>
      simp only [poll] at blocked
      split at blocked <;> cases blocked
  | nextPos | markSealed | checkTail | sealSequencer => cases blocked
  | nextPosReply receiver =>
      refine waits enduring.2 (fun reply received means => ?_) fun lost => ?_
      · simp only [poll, received] at blocked
        cases reply with
        | position pos => cases pos <;> cases blocked
        | tail | stored | read | unit => exact means
      · simp only [poll, lost] at blocked
        cases blocked
  | checkTailReply receiver =>
      refine waits enduring.2 (fun reply received means => ?_) fun lost => ?_
      · simp only [poll, received] at blocked
        cases reply with
        | tail tail => cases blocked
        | position | stored | read | unit => exact means
      · simp only [poll, lost] at blocked
        cases blocked
  | fanOutStore pos receivers =>
      obtain ⟨entry, rfl, -⟩ := enduring
      exact absurd blocked sends
  | fanOutTrim pos receivers => exact absurd blocked sends
  | fanOutSeal sequencerTail receivers => exact absurd blocked sends
  | read pos server =>
      simp only [poll, sendTo] at blocked
      split at blocked
      · split at blocked <;> cases blocked
      · cases blocked
  | readReply pos server receiver =>
      obtain ⟨-, inside, sent⟩ := enduring
      refine waits sent (fun reply received means => ?_) fun lost => ?_
      · simp only [poll, received] at blocked
        cases reply with
        | read result => cases result <;> cases blocked
        | position | tail | stored | unit => exact means
      · simp only [poll, lost] at blocked
        cases blocked
  | sealSequencerReply receiver =>
      refine waits enduring.2 (fun reply received means => ?_) fun lost => ?_
      · simp only [poll, received] at blocked
        cases reply with
        | tail tail => cases blocked
        | position | stored | read | unit => exact means
      · simp only [poll, lost] at blocked
        cases blocked
  | storeReplies pos receivers ackCount sealTail =>
      obtain ⟨entry, first, lost, -, -, sent, -⟩ := enduring
      cases receivers with
      | nil =>
          simp only [poll, acknowledge] at blocked
          split at blocked
          · cases blocked
          · split at blocked <;> cases blocked
      | cons receiver rest =>
          obtain ⟨inside, asked⟩ := sent.head
          refine waits asked (fun reply received means => ?_) fun lost => ?_
          · simp only [poll, received] at blocked
            cases reply with
            | stored result => cases result <;> cases blocked
            | position | tail | read | unit => exact means
          · simp only [poll, lost] at blocked
            cases blocked
  | trimReplies receivers =>
      obtain ⟨pos, first, -, sent⟩ := enduring
      cases receivers with
      | nil =>
          cases blocked
      | cons receiver rest =>
          obtain ⟨inside, asked⟩ := sent.head
          refine waits asked (fun reply received means => ?_) fun lost => ?_
          · simp only [poll, received] at blocked
            cases reply with
            | unit => cases blocked
            | position | tail | stored | read => exact means
          · simp only [poll, lost] at blocked
            cases blocked
  | sealReplies sequencerTail receivers sealedCount maxTail =>
      obtain ⟨-, -, first, lost, -, sent, -⟩ := enduring
      cases receivers with
      | nil =>
          simp only [poll] at blocked
          split at blocked <;> cases blocked
      | cons receiver rest =>
          obtain ⟨inside, asked⟩ := sent.head
          refine waits asked (fun reply received means => ?_) fun lost => ?_
          · simp only [poll, received] at blocked
            cases reply with
            | tail tail => cases blocked
            | position | stored | read | unit => exact means
          · simp only [poll, lost] at blocked
            cases blocked

/-- The futures of a read. -/
theorem enduring_read {pos : Nat} {future : Future}
    (enduring : Enduring state index (.read pos) future) : IsReading pos future := by
  cases future with
  | read pos' server =>
      cases enduring
      exact Or.inl ⟨server, rfl⟩
  | readReply pos' server receiver =>
      cases enduring.1
      exact Or.inr ⟨server, receiver, rfl⟩
  | append => exact enduring.elim
  | nextPos => exact enduring.elim
  | nextPosReply receiver => exact enduring.1.elim
  | markSealed => exact enduring.1.elim
  | checkTail => rcases enduring with impossible | ⟨impossible, -⟩ <;> cases impossible
  | checkTailReply receiver =>
      rcases enduring.1 with impossible | ⟨impossible, -⟩ <;> cases impossible
  | fanOutStore pos' receivers =>
      obtain ⟨_, impossible, -⟩ := enduring
      cases impossible
  | storeReplies pos' receivers ackCount sealTail =>
      obtain ⟨_, _, _, impossible, -⟩ := enduring
      cases impossible
  | fanOutTrim pos' receivers => cases enduring.1
  | trimReplies receivers =>
      obtain ⟨_, _, impossible, -⟩ := enduring
      cases impossible
  | sealSequencer => cases enduring
  | sealSequencerReply receiver => cases enduring.1
  | fanOutSeal sequencerTail receivers => cases enduring.1
  | sealReplies sequencerTail receivers sealedCount maxTail => cases enduring.1

theorem serve_outlives {task : Task n} (inv : state.Inv True) (stops : state.Stops)
    (served : state.serve task = some next) :
    (next.Inv True ∧ next.Stops) ∧ ∀ index, Outlives index state next := by
  obtain ⟨inv', grows⟩ := inv.serve served
  obtain ⟨stops', same⟩ := stops.serve served
  exact ⟨⟨inv', stops'⟩, fun index => ⟨grows index, same.symm.subset⟩⟩

theorem enduring_begin (state : NativeLoglet n) (index : Nat) (op : LogletOp) :
    Enduring state index op (begin op) := by
  cases op with
  | append entry => trivial
  | checkTail => exact Or.inl rfl
  | read pos => exact rfl
  | trim pos => exact ⟨rfl, .nil 0 (Nat.zero_le n) _⟩
  | «seal» => exact rfl

/-- A running call comes to its end, if it is polled and its requests are served. -/
theorem enduring_completes (inv : state.Inv True) (stops : state.Stops) {future : Future}
    (enduring : Enduring state index op future) :
    ∃ last result,
      (nativeComponent n).Completes Event.IsServe index op state future last result := by
  refine Component.completes_of_rank
    (fun state future => (state.Inv True ∧ state.Stops) ∧ Enduring state index op future) rank
    (fun state future busy => ?_) ⟨⟨inv, stops⟩, enduring⟩
  obtain ⟨⟨inv, stops⟩, enduring⟩ := busy
  cases polled : state.poll index op future with
  | none =>
      obtain ⟨receiver, request, pending⟩ := poll_waits inv enduring polled
      obtain ⟨next, served, less⟩ := exists_serve pending
      obtain ⟨kept, outlives⟩ := serve_outlives inv stops served
      exact Or.inr (Or.inr ⟨.serve request.task, next, trivial, served,
        ⟨kept, enduring.stable (outlives index)⟩, Nat.add_lt_add_left less _⟩)
  | some outcome =>
      obtain ⟨next, progress⟩ := outcome
      obtain ⟨kept, holds, -⟩ : Tolerated False index op state next progress :=
        poll_tolerated inv stops enduring False.elim polled
      cases progress with
      | running later => exact Or.inr (Or.inl ⟨next, later, polled, ⟨kept, holds⟩, poll_rank polled⟩)
      | finished result => exact Or.inl ⟨next, result, polled⟩

end NativeLoglet

open NativeLoglet

/-- The replicated loglet with servers that stop, and the calls whose polls reach theirs. -/
def toleranceOutline (n : Nat) (chosen : Nat → Prop) : Outline (nativeComponent n) where
  OpOk _ := True
  PollOk state index _ future := chosen index → state.Reaches future
  EventOk _ _ := True
  Inv state := state.Inv True ∧ state.Stops
  Fresh _ _ := True
  Running := Enduring
  Finished state index := Endured (chosen index) state index
  Rely := Outlives
  begin_running := fun _ _ _ => enduring_begin _ _ _
  poll_sound := fun inv _ enduring reaches polled =>
    poll_tolerated inv.1 inv.2 enduring reaches polled
  background_sound := by
    intro state event next inv _ ran
    cases event with
    | serve task => exact serve_outlives inv.1 inv.2 ran
    | stop server =>
        cases ran
        exact ⟨⟨inv.1.stop server, inv.2.stop server⟩, fun index =>
          ⟨stop_grows index state server, (stop_stopped state server).1⟩⟩
  fresh_stable := fun _ _ _ _ => trivial
  running_stable := fun _ _ outlives enduring => enduring.stable outlives
  finished_stable := fun _ _ outlives endured => endured.stable outlives

/-- A read that starts once the entry is placed does not miss it. -/
def placedPromise (n : Nat) (chosen : Nat → Prop) (owner : Nat) (entry : Entry) (pos : Nat) :
    Outline.Promise (toleranceOutline n chosen) where
  Fact state := state.Placed owner entry pos
  Running state op future := op = .read pos → ∃ holder, state.Accepted holder owner entry pos ∧
    (coveringView True holder pos).Reading pos state future
  Finished op result := op = .read pos → result ≠ .ok (.entry none)
  fact_stable := fun _ _ outlives placed => outlives.1.placed placed
  begin_running := by
    intro state op _ placed same
    subst same
    obtain ⟨holder, accepted⟩ := placed
    exact ⟨holder, accepted, (coveringView True holder pos).reading_begin pos state⟩
  poll_sound := by
    intro state index op future next progress inv _ _ enduring _ reading polled
    by_cases reads : op = .read pos
    · subst reads
      obtain ⟨holder, accepted, reading⟩ := reading rfl
      by_cases reaches : state.Reaches future
      · have outcome := (coveringView True holder pos).reading_poll (enduring_read enduring) reaches
          reading polled
        obtain ⟨-, -, outlives⟩ : Tolerated False index (.read pos) state next progress :=
          poll_tolerated inv.1 inv.2 enduring False.elim polled
        have later := (outlives (index + 1) (Nat.succ_ne_self index)).1
        exact outcome.imp (fun _ held _ => ⟨holder, later.accepted accepted, held⟩)
          fun _ told _ => coveringView_result told
      · rcases poll_unreached reaches polled with rfl | rfl <;>
          exact fun _ impossible => by cases impossible
    · cases progress <;> exact fun same => absurd same reads
  running_stable := by
    intro state next index op future inv inv' placed outlives reading same
    obtain ⟨holder, accepted, reading⟩ := reading same
    exact ⟨holder, outlives.1.accepted accepted, (coveringView True holder pos).reading_stable
      inv'.1 (accepted.view inv.1) outlives.1 reading⟩

namespace NativeLogs

variable {n : Nat}

/-- Any steps, but the polls of this call find alive the log servers that they need. -/
def ReachesServers (index : Nat) (system : NativeLogs n) : NativeLogsAction n → Prop
  | .poll polled => polled = index →
      Call.Meets (fun _ future => system.shared.Reaches future) system.calls[index]?
  | .start _ | .background _ => True

/-- The call is polled and requests are served, and nothing else happens. -/
def ServesCall (index : Nat) (_ : NativeLogs n) : NativeLogsAction n → Prop
  | .start _ => False
  | .poll polled => polled = index
  | .background event => event.IsServe

instance (state : NativeLoglet n) (future : NativeLoglet.Future) :
    Decidable (state.Reaches future) :=
  match future with
  | .fanOutStore _ receivers | .fanOutSeal _ receivers => inferInstanceAs (Decidable
      (∀ inside : receivers.length < n, (state.logServers ⟨receivers.length, inside⟩).alive = true))
  | .read _ server => inferInstanceAs (Decidable
      (∀ inside : server < n, (state.logServers ⟨server, inside⟩).alive = true))
  | .readReply _ _ receiver => inferInstanceAs (Decidable (state.receive receiver ≠ .dropped))
  | .append | .nextPos | .nextPosReply _ | .markSealed | .checkTail | .checkTailReply _
  | .storeReplies _ _ _ _ | .fanOutTrim _ _ | .trimReplies _ | .sealSequencer
  | .sealSequencerReply _ | .sealReplies _ _ _ _ => isTrue trivial

instance (index : Nat) (system : NativeLogs n) (action : NativeLogsAction n) :
    Decidable (system.ReachesServers index action) :=
  match action with
  | .poll polled => inferInstanceAs (Decidable (polled = index →
      Call.Meets (fun _ future => system.shared.Reaches future) system.calls[index]?))
  | .start _ | .background _ => isTrue trivial

theorem ReachesServers.permit {index : Nat} {system : NativeLogs n} {action : NativeLogsAction n}
    (reaches : system.ReachesServers index action) :
    (toleranceOutline n (· = index)).permit system action := by
  cases action with
  | start op => trivial
  | poll polled =>
      intro op future pending same
      have meets := reaches same
      have here : system.calls[index]? = some ⟨op, .running future⟩ := same ▸ pending
      rw [here] at meets
      exact meets
  | background event => trivial

/-- Whatever happened before a call starts is within its outline. -/
theorem tolerance_valid {earlier : NativeLogs n} {index : Nat}
    (before : (nativeLogs n).Run (fun _ _ => True) (new n) earlier)
    (started : earlier.calls.length ≤ index) :
    (toleranceOutline n (· = index)).Valid earlier := by
  have valid : (toleranceOutline n fun _ => False).Valid earlier := by
    have initial : (toleranceOutline n fun _ => False).Valid (new n) :=
      .init ⟨.new True n, .new n⟩ fun _ => trivial
    refine initial.run (before.mono fun system action _ => ?_)
    cases action with
    | start op => trivial
    | poll polled => exact fun _ _ _ => False.elim
    | background event => trivial
  refine ⟨valid.inv, fun _ _ => trivial, fun other call found => ⟨trivial, ?_⟩⟩
  have inside := (List.getElem?_eq_some_iff.mp found).1
  exact (valid.calls other call found).2.imp (fun _ enduring => enduring) fun _ endured =>
    endured.other (by omega)

/-- While a quorum of the log servers is left, a call whose polls find alive the servers
that they need succeeds: an append unless the loglet is sealed, a read of an entry
appended before unless it was trimmed, and a seal. And no call hangs. -/
theorem tolerates_stops (positive : 0 < n) {earlier later : NativeLogs n} {index : Nat}
    (before : (nativeLogs n).Run (fun _ _ => True) (new n) earlier)
    (after : (nativeLogs n).Run (ReachesServers index) earlier later)
    (started : earlier.calls.length ≤ index)
    (few : later.shared.stopped.card ≤ n - quorumSize n) :
    (∀ entry result, later.Returned index (.append entry) result →
      later.shared.sequencer.sealed = false → ∃ pos, result = .ok (.pos pos)) ∧
    (∀ owner entry pos result, earlier.Returned owner (.append entry) (.ok (.pos pos)) →
      later.Returned index (.read pos) result →
      result = .ok (.entry (some entry)) ∨ (result = .error (.trimmed pos) ∧
        ∃ server, pos < (later.shared.logServers server).trimPos)) ∧
    (∀ result, later.Returned index .seal result → ∃ tail, result = .ok (.pos tail)) ∧
    (∀ op future, later.Pending index op future → ∃ last result,
      (nativeLogs n).Run (ServesCall index) later last ∧ last.Returned index op result) := by
  have valid := tolerance_valid before started
  have run := after.mono fun _ _ reaches => ReachesServers.permit reaches
  have valid' := valid.run run
  have enough : ¬ later.shared.Exhausted := by
    unfold Exhausted
    have quorum : quorumSize n ≤ n := by
      unfold quorumSize
      omega
    omega
  refine ⟨?_, ?_, ?_, ?_⟩
  · intro entry result returned isOpen
    have endured := valid'.finished returned
    cases result with
    | ok value =>
        obtain ⟨pos, same, -⟩ := endured
        exact ⟨pos, congrArg Except.ok same⟩
    | error error =>
        rcases endured rfl with exhausted | ⟨isSealed, -⟩
        · exact absurd exhausted enough
        · rw [isOpen] at isSealed
          cases isSealed
  · intro owner entry pos result appended returned
    obtain ⟨pos', same, quorum⟩ := valid.finished appended
    cases same
    have placed := quorum.placed
    have kept := (placedPromise n (· = index) owner entry pos).kept_run valid placed run
    have found := kept.calls index _ started returned rfl
    have endured := valid'.finished returned
    cases result with
    | error error =>
        obtain ⟨rfl, trimmed⟩ := endured rfl
        exact Or.inr ⟨rfl, trimmed⟩
    | ok value =>
        obtain ⟨held, rfl, placed'⟩ := endured
        cases held with
        | none => exact absurd rfl found
        | some held =>
            obtain ⟨owner', placed'⟩ := placed' held rfl
            have assigned := kept.valid.inv.1.placed_assigned kept.fact
            have assigned' := kept.valid.inv.1.placed_assigned placed'
            obtain ⟨-, rfl⟩ := kept.valid.inv.1.assigned_unique assigned assigned'
            exact Or.inl rfl
  · intro result returned
    have endured := valid'.finished returned
    cases result with
    | ok value =>
        obtain ⟨tail, same⟩ := endured
        exact ⟨tail, congrArg Except.ok same⟩
    | error error => exact absurd (endured rfl) enough
  · intro op future pending
    obtain ⟨last, result, completes⟩ := enduring_completes valid'.inv.1 valid'.inv.2
      (valid'.running pending)
    have inside := (List.getElem?_eq_some_iff.mp pending).1
    refine ⟨⟨last, later.calls.set index ⟨op, .finished result⟩⟩, result, ?_, ?_⟩
    · refine completes.run (fun _ => ?_) (fun _ _ serves => ?_) pending
      · exact rfl
      · exact serves
    · exact List.getElem?_set_self inside

/-- A stop after the stores were sent. -/
theorem tolerates_stops_midway : ∃ earlier later : NativeLogs 3,
    (nativeLogs 3).Run (ReachesServers 1) earlier later ∧
    earlier.Returned 0 (.append (.new [1])) (.ok (.pos 1)) ∧ later.shared.stopped.card = 1 ∧
    ∃ result, later.Returned 1 (.read 1) result ∧
      (result = .ok (.entry (some (.new [1]))) ∨ (result = .error (.trimmed 1) ∧
        ∃ server, 1 < (later.shared.logServers server).trimPos)) := by
  obtain ⟨earlier, later, before, after, seen, seen'⟩ := Machine.exists_runs_of_execute
    (nativeLogs 3) (ReachesServers 1) (new 3)
    [.start (.append (.new [1])), .poll 0, .poll 0, .background (.serve .sequencer), .poll 0,
      .poll 0, .poll 0, .poll 0, .poll 0, .background (.stop 2),
      .background (.serve (.logServer 0)), .background (.serve (.logServer 1)),
      .poll 0, .poll 0, .poll 0, .poll 0]
    [.start (.read 1), .poll 1, .background (.serve (.logServer 0)), .poll 1]
    (fun system => (system.calls, system.shared.stopped.card))
    ([⟨.append (.new [1]), .finished (.ok (.pos 1))⟩], 1)
    ([⟨.append (.new [1]), .finished (.ok (.pos 1))⟩,
      ⟨.read 1, .finished (.ok (.entry (some (.new [1]))))⟩], 1) (by decide +kernel)
  have calls := congrArg Prod.fst seen
  have calls' := congrArg Prod.fst seen'
  have lost : later.shared.stopped.card = 1 := congrArg Prod.snd seen'
  have appended : earlier.Returned 0 (.append (.new [1])) (.ok (.pos 1)) :=
    congrArg (fun calls => calls[0]?) calls
  have reads : later.Returned 1 (.read 1) (.ok (.entry (some (.new [1])))) :=
    congrArg (fun calls => calls[1]?) calls'
  have promised := tolerates_stops (by decide) (before.mono fun _ _ _ => trivial) after
    (Nat.le_of_eq (congrArg List.length calls)) (Nat.le_of_eq lost)
  exact ⟨earlier, later, after, appended, lost, _, reads, promised.2.1 0 _ 1 _ appended reads⟩

/-- One of three servers stops before an append reaches it. -/
theorem not_tolerates_stops :
    ¬ ∀ (n : Nat) (earlier later : NativeLogs n) (index : Nat), 0 < n →
      (nativeLogs n).Run (fun _ _ => True) (new n) earlier →
      (nativeLogs n).Run (fun _ _ => True) earlier later → earlier.calls.length ≤ index →
      later.shared.stopped.card ≤ n - quorumSize n →
      (∀ entry result, later.Returned index (.append entry) result →
        later.shared.sequencer.sealed = false → ∃ pos, result = .ok (.pos pos)) ∧
      (∀ owner entry pos result, earlier.Returned owner (.append entry) (.ok (.pos pos)) →
        later.Returned index (.read pos) result →
        result = .ok (.entry (some entry)) ∨ (result = .error (.trimmed pos) ∧
          ∃ server, pos < (later.shared.logServers server).trimPos)) ∧
      (∀ result, later.Returned index .seal result → ∃ tail, result = .ok (.pos tail)) := by
  intro tolerates
  obtain ⟨later, run, seen⟩ := Machine.exists_run_of_execute (nativeLogs 3) (fun _ _ => True) (new 3)
    [.background (.stop 0), .start (.append (.new [1])), .poll 0, .poll 0,
      .background (.serve .sequencer), .poll 0, .poll 0]
    (fun system => (system.calls, system.shared.stopped.card, system.shared.sequencer.sealed))
    ([⟨.append (.new [1]), .finished logServerTaskGone⟩], 1, false) (by decide +kernel)
  have calls := congrArg Prod.fst seen
  have servers := congrArg Prod.snd seen
  have returned : later.Returned 0 (.append (.new [1])) logServerTaskGone :=
    congrArg (fun calls => calls[0]?) calls
  have lost : later.shared.stopped.card = 1 := congrArg Prod.fst servers
  have isOpen : later.shared.sequencer.sealed = false := congrArg Prod.snd servers
  obtain ⟨pos, same⟩ := (tolerates 3 _ later 0 (by decide) (.refl _) run (Nat.zero_le _)
    (Nat.le_of_eq lost)).1 _ _ returned isOpen
  cases same

end NativeLogs

end Relos
