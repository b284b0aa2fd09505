import Relos.Log.NativeSteps

set_option autoImplicit false

/-! Queries of the replicated loglet that start once a fact about its servers
holds: every answer they use was given by a server that the fact describes. -/

namespace Relos

open Async

namespace NativeLoglet

variable {n : Nat} {exit : Exit} {trims : Prop} {state next : NativeLoglet n} {index : Nat}
  {progress : Progress Future LogletResult}

/-! ### Reads -/

/-- What the log servers look like from some moment on, also while they grow. -/
structure View (n : Nat) (trims : Prop) where
  Seen : Fin n → LogServer → Prop
  stable : ∀ {server : Fin n} {before after : LogServer}, Seen server before →
    before.Grows after → (¬ trims → after.trimPos ≤ logPosBegin) → Seen server after

def View.Fact (view : View n trims) (state : NativeLoglet n) : Prop :=
  ∀ server, view.Seen server (state.logServers server)

/-- The servers before this one had nothing at the position. -/
def View.Missed (view : View n trims) (pos server : Nat) : Prop :=
  ∀ earlier : Fin n, earlier.val < server → ∃ seen, view.Seen earlier seen ∧
    seen.read pos = .notFound

def View.Reading (view : View n trims) (pos : Nat) (state : NativeLoglet n) : Future → Prop
  | .read _ server => view.Missed pos server
  | .readReply _ server receiver => view.Missed pos server ∧ ∃ (inside : server < n) (sender : _),
      state.Sent receiver sender (.logServer ⟨server, inside⟩ (.read pos)) ∧
      ∀ result, state.Answered receiver sender (.logServer ⟨server, inside⟩ (.read pos))
        (.read result) → ∃ seen, view.Seen ⟨server, inside⟩ seen ∧ seen.read pos = result
  | _ => True

/-- The answer of one server that ends a read. -/
def readResult (pos : Nat) : ReadResult → Option LogletResult
  | .entry entry => some (.ok (.entry (some entry)))
  | .trimmed => some (.error (.trimmed pos))
  | .notFound => none

/-- The result of a read, told by the answers it used. -/
def View.ReadFrom (view : View n trims) (pos : Nat) (result : LogletResult) : Prop :=
  (result = .ok (.entry none) ∧ view.Missed pos n) ∨
    ∃ server seen, view.Missed pos server.val ∧ view.Seen server seen ∧
      readResult pos (seen.read pos) = some result

theorem trimPos_le (inv : state.Inv trims) (server : Fin n) :
    ¬ trims → (state.logServers server).trimPos ≤ logPosBegin := fun untrimmed =>
  Nat.le_of_eq (trimPos_of_untrimmed inv untrimmed server)

theorem View.fact_stable (view : View n trims) (inv' : next.Inv trims)
    (grows : Grows index state next) (fact : view.Fact state) : view.Fact next := fun server =>
  view.stable (fact server) (grows.logServers server) (trimPos_le inv' server)

theorem View.reading_stable (view : View n trims) (inv' : next.Inv trims) (fact : view.Fact state)
    (grows : Grows index state next) {pos : Nat} {future : Future}
    (reading : view.Reading pos state future) : view.Reading pos next future := by
  unfold Reading at reading ⊢
  split
  · exact reading
  · obtain ⟨missed, inside, sender, sent, known⟩ := reading
    refine ⟨missed, inside, sender, grows.sent sent, fun result answered => ?_⟩
    rcases grows.answered_before sent answered with pending | before
    · obtain ⟨seen, later, earlier, same⟩ := grows.reads pending answered
      refine ⟨seen, view.stable (fact _) later fun untrimmed => ?_, same⟩
      exact Nat.le_trans earlier.trimPos (trimPos_le inv' _ untrimmed)
    · exact known result before
  · trivial

/-- The futures of a read. -/
def IsReading (pos : Nat) (future : Future) : Prop :=
  (∃ server, future = .read pos server) ∨
    ∃ server receiver, future = .readReply pos server receiver

theorem running_read {pos : Nat} {future : Future}
    (running : Running exit trims state index (.read pos) future) : IsReading pos future := by
  cases future with
  | read pos' server =>
      cases running.1
      exact Or.inl ⟨server, rfl⟩
  | readReply pos' server receiver =>
      cases running.1
      exact Or.inr ⟨server, receiver, rfl⟩
  | append => exact running.1.elim
  | nextPos => exact running.1.elim
  | nextPosReply receiver => exact running.1.elim
  | markSealed => exact running.1.elim
  | checkTail => rcases running.1 with impossible | impossible <;> cases impossible
  | checkTailReply receiver => rcases running.1 with impossible | impossible <;> cases impossible
  | fanOutStore pos' receivers =>
      obtain ⟨_, _, impossible, _⟩ := running
      cases impossible
  | storeReplies pos' receivers ackCount sealTail =>
      obtain ⟨_, _, _, impossible, _⟩ := running
      cases impossible
  | fanOutTrim pos' receivers => cases running.1
  | trimReplies receivers =>
      obtain ⟨_, _, impossible, _⟩ := running
      cases impossible
  | sealSequencer => cases running.1
  | sealSequencerReply receiver => cases running.1
  | fanOutSeal sequencerTail receivers => cases running.1
  | sealReplies sequencerTail receivers sealedCount maxTail => cases running.1

theorem View.missed_next (view : View n trims) {pos server : Nat} (missed : view.Missed pos server)
    (inside : server < n) {seen : LogServer} (held : view.Seen ⟨server, inside⟩ seen)
    (absent : seen.read pos = .notFound) : view.Missed pos (server + 1) := by
  intro earlier before
  rcases Nat.lt_or_eq_of_le (Nat.le_of_lt_succ before) with passed | same
  · exact missed earlier passed
  · subst same
    exact ⟨seen, held, absent⟩

theorem View.reading_poll (view : View n trims) {pos : Nat} {future : Future}
    (shape : IsReading pos future) (reaches : state.Reaches future)
    (reading : view.Reading pos state future)
    (polled : poll state index (.read pos) future = some (next, progress)) :
    progress.Holds (view.Reading pos next) (view.ReadFrom pos) := by
  rcases shape with ⟨server, rfl⟩ | ⟨server, receiver, rfl⟩
  · simp only [poll] at polled
    split at polled
    · rename_i inside
      unfold sendTo at polled
      rw [if_pos (reaches inside)] at polled
      cases polled
      exact ⟨reading, inside, _, sent_send .., fun _ answered => (unanswered_send answered).elim⟩
    · rename_i outside
      cases polled
      exact Or.inl ⟨rfl, fun earlier _ => reading earlier
        (Nat.lt_of_lt_of_le earlier.isLt (Nat.le_of_not_lt outside))⟩
  · obtain ⟨missed, inside, sender, sent, known⟩ := reading
    simp only [poll] at polled
    split at polled
    · rename_i entry received
      cases polled
      obtain ⟨seen, held, same⟩ := known _ (receive_sent sent received)
      exact Or.inr ⟨⟨server, inside⟩, seen, missed, held, by rw [same]; rfl⟩
    · rename_i received
      cases polled
      obtain ⟨seen, held, same⟩ := known _ (receive_sent sent received)
      exact Or.inr ⟨⟨server, inside⟩, seen, missed, held, by rw [same]; rfl⟩
    · rename_i received
      cases polled
      obtain ⟨seen, held, same⟩ := known _ (receive_sent sent received)
      exact view.missed_next missed inside held same
    · rename_i received
      exact absurd received reaches
    · cases polled

theorem View.reading_begin (view : View n trims) (pos : Nat) (state : NativeLoglet n) :
    view.Reading pos state (begin (.read pos)) :=
  fun _ before => absurd before (Nat.not_lt_zero _)

/-! ### Tails -/

/-- A query of the tail that started when the sequencer had reached the bound. -/
def TailAfter (bound : Nat) (state : NativeLoglet n) : Future → Prop
  | .checkTailReply receiver => ∃ sender,
      state.Sent receiver sender (.sequencer .checkTail) ∧
      ∀ tail, state.Answered receiver sender (.sequencer .checkTail) (.tail tail) → bound ≤ tail
  | _ => True

theorem tailAfter_stable (grows : Grows index state next) {bound : Nat}
    (reached : bound ≤ state.sequencer.nextPos) {future : Future}
    (known : TailAfter bound state future) : TailAfter bound next future := by
  unfold TailAfter at known ⊢
  split
  · obtain ⟨sender, sent, known⟩ := known
    refine ⟨sender, grows.sent sent, fun tail answered => ?_⟩
    rcases grows.answered_before sent answered with pending | before
    · exact Nat.le_trans reached (grows.tails pending answered)
    · exact known tail before
  · trivial

/-- The futures of a `check_tail`. -/
theorem running_checkTail {future : Future}
    (running : Running exit trims state index .checkTail future) :
    future = .checkTail ∨ ∃ receiver, future = .checkTailReply receiver := by
  cases future with
  | checkTail => exact Or.inl rfl
  | checkTailReply receiver => exact Or.inr ⟨receiver, rfl⟩
  | append => exact running.1.elim
  | nextPos => exact running.1.elim
  | nextPosReply receiver => exact running.1.elim
  | markSealed => exact running.1.elim
  | fanOutStore pos receivers =>
      obtain ⟨_, _, impossible, _⟩ := running
      cases impossible
  | storeReplies pos receivers ackCount sealTail =>
      obtain ⟨_, _, _, impossible, _⟩ := running
      cases impossible
  | read pos server => cases running.1
  | readReply pos server receiver => cases running.1
  | fanOutTrim pos receivers => cases running.1
  | trimReplies receivers =>
      obtain ⟨_, _, impossible, _⟩ := running
      cases impossible
  | sealSequencer => cases running.1
  | sealSequencerReply receiver => cases running.1
  | fanOutSeal sequencerTail receivers => cases running.1
  | sealReplies sequencerTail receivers sealedCount maxTail => cases running.1

theorem tailAfter_poll (live : state.Live) {bound : Nat} {future : Future}
    (running : Running exit trims state index .checkTail future)
    (known : TailAfter bound state future)
    (polled : poll state index .checkTail future = some (next, progress)) :
    progress.Holds (TailAfter bound next) fun result =>
      ∀ tail, result = .ok (.pos tail) → bound ≤ tail := by
  rcases running_checkTail running with rfl | ⟨receiver, rfl⟩
  · cases polled
    exact ⟨_, sent_send .., fun _ answered => (unanswered_send answered).elim⟩
  · obtain ⟨sender, sent, known⟩ := known
    simp only [poll] at polled
    split at polled
    · rename_i tail received
      cases polled
      intro tail' same
      cases same
      exact known tail (receive_sent sent received)
    · rename_i received
      exact absurd received (live.receive receiver)
    · cases polled

end NativeLoglet

end Relos
