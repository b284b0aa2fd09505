import Relos.Async.Sequential
import Relos.Log.NativeStages
import Relos.Log.NativeOutline

set_option autoImplicit false

/-! A replicated loglet with live servers, used one call at a time, answers as a memory
loglet. -/

namespace Relos

open Async

/-- A memory loglet as the specification of another loglet. -/
def memorySpec : Sequential MemoryLoglet LogletOp LogletResult where
  next memory op := (memory.call op).1
  Allowed _ _ := True
  Answers memory op result := result = (memory.call op).2

namespace NativeLoglet

variable {n : Nat}

def Rest (state : NativeLoglet n) (memory : MemoryLoglet) : Prop :=
  state.Stage memory.sealed (fun _ => memory) [] .unit

/-- The sequencer and the first servers have seen the call, or will have. -/
def fanViews (before after : MemoryLoglet) (count : Nat) : Task n → MemoryLoglet
  | .sequencer => after
  | .logServer server => if server.val < count then after else before

/-- The first servers were asked. -/
structure FanOut (state : NativeLoglet n) (sealed : Bool) (before after : MemoryLoglet)
    (receivers : List Nat) (reply : Reply) : Prop where
  inside : receivers.length ≤ n
  stage : state.Stage sealed (fanViews before after receivers.length) receivers reply
  quiet : ∀ server : Fin n, receivers.length ≤ server.val → state.Quiet (.logServer server)

/-- The call asks the sequencer for the tail. -/
def AsksTail (memory : MemoryLoglet) : LogletOp → Prop
  | .append _ => memory.sealed = true
  | .checkTail => True
  | _ => False

/-- How far the call is, for a loglet that answered as `memory` before it. -/
def Busy (memory : MemoryLoglet) (state : NativeLoglet n) (op : LogletOp) : Future → Prop
  | .append => (∃ entry, op = .append entry) ∧ state.Rest memory
  | .nextPos => (∃ entry, op = .append entry) ∧ memory.sealed = false ∧ state.Rest memory
  | .nextPosReply receiver => ∃ entry, op = .append entry ∧ memory.sealed = false ∧
      state.Stage false (fanViews memory (memory.append entry).1 0) [receiver]
        (.position (some memory.tail))
  | .markSealed => False
  | .checkTail => AsksTail memory op ∧ state.Rest memory
  | .checkTailReply receiver => AsksTail memory op ∧
      state.Stage memory.sealed (fun _ => memory) [receiver] (.tail memory.tail)
  | .fanOutStore pos receivers => ∃ entry, op = .append entry ∧ memory.sealed = false ∧
      pos = memory.tail ∧
      state.FanOut false memory (memory.append entry).1 receivers (.stored (.ok true))
  | .storeReplies pos receivers ackCount sealTail => ∃ entry, op = .append entry ∧
      memory.sealed = false ∧ pos = memory.tail ∧ ackCount + receivers.length = n ∧
      sealTail = none ∧
      state.Stage false (fun _ => (memory.append entry).1) receivers (.stored (.ok true))
  | .read pos server => op = .read pos ∧ (0 < server → memory.found pos = .notFound) ∧
      state.Rest memory
  | .readReply pos _ receiver => op = .read pos ∧
      state.Stage memory.sealed (fun _ => memory) [receiver] (.read (memory.found pos))
  | .fanOutTrim pos receivers => op = .trim pos ∧
      state.FanOut memory.sealed memory (memory.trim pos) receivers .unit
  | .trimReplies receivers => ∃ pos, op = .trim pos ∧
      state.Stage memory.sealed (fun _ => memory.trim pos) receivers .unit
  | .sealSequencer => op = .seal ∧ state.Rest memory
  | .sealSequencerReply receiver => op = .seal ∧
      state.Stage memory.sealed (fanViews memory memory.seal.1 0) [receiver] (.tail memory.tail)
  | .fanOutSeal sequencerTail receivers => op = .seal ∧ sequencerTail = memory.tail ∧
      state.FanOut memory.sealed memory memory.seal.1 receivers (.tail memory.tail)
  | .sealReplies sequencerTail receivers sealedCount maxTail => op = .seal ∧
      sequencerTail = memory.tail ∧ sealedCount + receivers.length = n ∧ maxTail ≤ memory.tail ∧
      state.Stage memory.sealed (fun _ => memory.seal.1) receivers (.tail memory.tail)

variable {state next : NativeLoglet n} {memory before after : MemoryLoglet} {index : Nat}
  {op : LogletOp} {receiver : Nat} {receivers : List Nat} {reply : Reply}
  {views : Task n → MemoryLoglet} {sealed : Bool} {progress : Progress Future LogletResult}

theorem FanOut.serve {task : Task n} (fanned : state.FanOut sealed before after receivers reply)
    (served : state.serve task = some next) : next.FanOut sealed before after receivers reply :=
  ⟨fanned.inside, fanned.stage.serve served,
    fun server beyond => quiet_serve (fanned.quiet server beyond) served⟩

theorem Busy.serve {task : Task n} {future : Future} (busy : Busy memory state op future)
    (served : state.serve task = some next) : Busy memory next op future := by
  cases future with
  | append => exact ⟨busy.1, busy.2.serve served⟩
  | nextPos => exact ⟨busy.1, busy.2.1, busy.2.2.serve served⟩
  | nextPosReply receiver =>
      obtain ⟨entry, same, isOpen, stage⟩ := busy
      exact ⟨entry, same, isOpen, stage.serve served⟩
  | markSealed => exact busy
  | checkTail => exact ⟨busy.1, busy.2.serve served⟩
  | checkTailReply receiver => exact ⟨busy.1, busy.2.serve served⟩
  | fanOutStore pos receivers =>
      obtain ⟨entry, same, isOpen, atTail, fanned⟩ := busy
      exact ⟨entry, same, isOpen, atTail, fanned.serve served⟩
  | storeReplies pos receivers ackCount sealTail =>
      obtain ⟨entry, same, isOpen, atTail, count, none, stage⟩ := busy
      exact ⟨entry, same, isOpen, atTail, count, none, stage.serve served⟩
  | read pos server => exact ⟨busy.1, busy.2.1, busy.2.2.serve served⟩
  | readReply pos server receiver => exact ⟨busy.1, busy.2.serve served⟩
  | fanOutTrim pos receivers => exact ⟨busy.1, busy.2.serve served⟩
  | trimReplies receivers =>
      obtain ⟨pos, same, stage⟩ := busy
      exact ⟨pos, same, stage.serve served⟩
  | sealSequencer => exact ⟨busy.1, busy.2.serve served⟩
  | sealSequencerReply receiver => exact ⟨busy.1, busy.2.serve served⟩
  | fanOutSeal sequencerTail receivers => exact ⟨busy.1, busy.2.1, busy.2.2.serve served⟩
  | sealReplies sequencerTail receivers sealedCount maxTail =>
      obtain ⟨same, atTail, count, below, stage⟩ := busy
      exact ⟨same, atTail, count, below, stage.serve served⟩

/-! ### Polls -/

/-- The first awaited reply has arrived, or can be served. -/
theorem Stage.receive_cases (stage : state.Stage sealed views (receiver :: receivers) reply) :
    (state.receive receiver = .sent reply ∧ state.Stage sealed views receivers reply) ∨
      (state.receive receiver = .pending ∧ ∃ request, state.Pending receiver request) := by
  cases received : state.receive receiver with
  | pending => exact Or.inr ⟨rfl, stage.waiting received⟩
  | sent got =>
      obtain ⟨rfl, rest⟩ := stage.received received
      exact Or.inl ⟨rfl, rest⟩
  | dropped => exact absurd received (stage.live.receive receiver)

theorem fanViews_zero_other {task : Task n} (different : task ≠ .sequencer) :
    fanViews before after 0 task = before := by
  cases task with
  | sequencer => exact absurd rfl different
  | logServer server =>
      dsimp only [fanViews]
      rw [if_neg (Nat.not_lt_zero _)]

theorem fanViews_all : (fanViews before after n : Task n → MemoryLoglet) = fun _ => after := by
  funext task
  cases task with
  | sequencer => rfl
  | logServer server =>
      dsimp only [fanViews]
      rw [if_pos server.isLt]

/-- Views are what the tasks hold, when nothing is in flight. -/
theorem Stage.review {views' : Task n → MemoryLoglet} (stage : state.Stage sealed views [] reply)
    (holds : ∀ task, state.Holds (views' task) task) : state.Stage sealed views' [] reply := by
  have rest := stage.rest
  obtain ⟨answers, settles, replies⟩ := stage.settles
  exact ⟨stage.live, stage.sealed, ⟨answers, ⟨fun task => Or.inl ⟨(rest task).1, holds task⟩,
    settles.sent⟩, replies⟩, stage.only, stage.known⟩

theorem FanOut.start (stage : state.Stage sealed (fanViews before after 0) [] reply)
    (reply' : Reply) : state.FanOut sealed before after [] reply' :=
  ⟨Nat.zero_le _, stage.nil reply', fun server _ => (stage.rest (.logServer server)).1⟩

/-- One step of a fan-out. -/
theorem FanOut.poll (fanned : state.FanOut sealed before after receivers reply)
    (index : Nat) (op : LogletOp) {request : LogServerRequest} (more : List Nat → Future)
    (sentAll : Future) (brings : ∀ server : LogServer, server.Matches before →
      (server.handle request).1.Matches after ∧ (server.handle request).2 = reply) :
    (fanOut state index op request receivers more sentAll = some (state, .running sentAll) ∧
      receivers.length = n ∧ state.Stage sealed (fun _ => after) receivers reply) ∨
    ∃ next, fanOut state index op request receivers more sentAll =
        some (next, .running (more (receivers ++ [state.receiver]))) ∧
      next.FanOut sealed before after (receivers ++ [state.receiver]) reply := by
  unfold fanOut
  by_cases inside : receivers.length < n
  · have quiet := fanned.quiet ⟨receivers.length, inside⟩ (Nat.le_refl _)
    have held : ((state.logServers ⟨receivers.length, inside⟩)).Matches before := by
      have holds := fanned.stage.holds quiet
      dsimp only [fanViews] at holds
      rw [if_neg (Nat.lt_irrefl _)] at holds
      exact holds
    have longer : (receivers ++ [state.receiver]).length = receivers.length + 1 := List.length_append
    rw [dif_pos inside]
    unfold sendTo
    rw [if_pos (fanned.stage.live.1 _)]
    refine Or.inr ⟨_, rfl, ⟨by omega, ?_, fun server beyond => ?_⟩⟩
    · refine fanned.stage.send quiet ?_ fun task different => ?_
      · dsimp only [Brings, Request.task, fanViews]
        rw [if_pos (by omega)]
        exact brings _ held
      · cases task with
        | sequencer => rfl
        | logServer server =>
            have other : server.val ≠ receivers.length := fun same =>
              different (congrArg Task.logServer (Fin.ext same))
            dsimp only [fanViews]
            rw [longer]
            by_cases before : server.val < receivers.length
            · rw [if_pos before, if_pos (by omega)]
            · rw [if_neg before, if_neg (by omega)]
    · refine quiet_send (fanned.quiet server (by omega)) fun same => ?_
      have equal := congrArg Fin.val (Task.logServer.inj same)
      dsimp only at equal
      omega
  · have all : receivers.length = n := Nat.le_antisymm fanned.inside (Nat.not_lt.mp inside)
    have stage := fanned.stage
    rw [all, fanViews_all] at stage
    rw [dif_neg inside]
    exact Or.inl ⟨rfl, all, stage⟩

theorem Rest.sequencer (rest : state.Rest memory) : state.sequencer.Matches memory :=
  (Stage.rest rest .sequencer).2

theorem Rest.logServer (rest : state.Rest memory) (server : Fin n) :
    (state.logServers server).Matches memory := (Stage.rest rest (.logServer server)).2

/-- A request to the sequencer while nothing is in flight. -/
theorem Rest.send (rest : state.Rest memory) {asked : SequencerRequest}
    (brings : (state.sequencer.handle asked).1.Matches after ∧
      (state.sequencer.handle asked).2 = reply) :
    (state.send index op (.sequencer asked)).Stage memory.sealed (fanViews memory after 0)
      [state.receiver] reply := by
  refine Stage.send (rest.nil reply) (rest.rest .sequencer).1 brings fun task different => ?_
  exact fanViews_zero_other different

/-! ### Moves -/

/-- A poll returns what the memory loglet returns, or is still busy, or waits for a task. -/
def Moves (memory : MemoryLoglet) (state : NativeLoglet n) (op : LogletOp) : Poll n → Prop
  | none => ∃ receiver request, state.Pending receiver request
  | some (next, .running later) => Busy memory next op later
  | some (next, .finished result) =>
      result = (memory.call op).2 ∧ next.Rest (memory.call op).1

variable {future : Future}

theorem Moves.fanOut (fanned : state.FanOut sealed before after receivers reply)
    {request : LogServerRequest} {more : List Nat → Future} {sentAll : Future}
    (brings : ∀ server : LogServer, server.Matches before →
      (server.handle request).1.Matches after ∧ (server.handle request).2 = reply)
    (onMore : ∀ {next : NativeLoglet n} {receivers}, next.FanOut sealed before after receivers reply →
      Busy memory next op (more receivers))
    (onAll : receivers.length = n → state.Stage sealed (fun _ => after) receivers reply →
      Busy memory state op sentAll) :
    Moves memory state op (fanOut state index op request receivers more sentAll) := by
  rcases fanned.poll index op more sentAll brings with ⟨polled, all, stage⟩ | ⟨next, polled, fanned'⟩
  · rw [polled]
    exact onAll all stage
  · rw [polled]
    exact onMore fanned'

theorem AsksTail.call (asks : AsksTail memory op) :
    memory.call op = (memory, tailResult memory.tail op) := by
  cases op with
  | append entry =>
      dsimp only [MemoryLoglet.call]
      rw [MemoryLoglet.append_sealed asks]
      rfl
  | checkTail => rfl
  | read pos => exact asks.elim
  | trim pos => exact asks.elim
  | «seal» => exact asks.elim

theorem append_moves (busy : Busy memory state op .append) :
    Moves memory state op (state.poll index op .append) := by
  obtain ⟨⟨entry, rfl⟩, rest⟩ := busy
  dsimp only [NativeLoglet.poll]
  rw [rest.sealed]
  cases isSealed : memory.sealed with
  | false => exact ⟨⟨entry, rfl⟩, isSealed, rest⟩
  | true => exact ⟨isSealed, rest⟩

theorem nextPos_moves (busy : Busy memory state op .nextPos) :
    Moves memory state op (state.poll index op .nextPos) := by
  obtain ⟨⟨entry, rfl⟩, isOpen, rest⟩ := busy
  refine ⟨entry, rfl, isOpen, ?_⟩
  rw [← isOpen]
  exact rest.send (rest.sequencer.assign isOpen entry)

theorem nextPosReply_moves (busy : Busy memory state op (.nextPosReply receiver)) :
    Moves memory state op (state.poll index op (.nextPosReply receiver)) := by
  obtain ⟨entry, rfl, isOpen, stage⟩ := busy
  dsimp only [NativeLoglet.poll]
  rcases stage.receive_cases with ⟨received, stage⟩ | ⟨received, waits⟩
  · rw [received]
    exact ⟨entry, rfl, isOpen, rfl, .start stage _⟩
  · rw [received]
    exact ⟨receiver, waits⟩

theorem checkTail_moves (busy : Busy memory state op .checkTail) :
    Moves memory state op (state.poll index op .checkTail) := by
  obtain ⟨asks, rest⟩ := busy
  refine ⟨asks, ?_⟩
  have brings : (state.sequencer.handle .checkTail).1.Matches memory ∧
      (state.sequencer.handle .checkTail).2 = .tail memory.tail :=
    ⟨rest.sequencer, congrArg Reply.tail rest.sequencer.nextPos⟩
  exact Stage.send (rest.nil _) (Stage.rest rest .sequencer).1 brings fun _ _ => rfl

theorem checkTailReply_moves (busy : Busy memory state op (.checkTailReply receiver)) :
    Moves memory state op (state.poll index op (.checkTailReply receiver)) := by
  obtain ⟨asks, stage⟩ := busy
  dsimp only [NativeLoglet.poll]
  rcases stage.receive_cases with ⟨received, stage⟩ | ⟨received, waits⟩
  · rw [received]
    refine ⟨?_, ?_⟩
    · rw [asks.call]
    · rw [asks.call]
      exact stage.nil .unit
  · rw [received]
    exact ⟨receiver, waits⟩

theorem fanOutStore_moves {pos : Nat} (busy : Busy memory state op (.fanOutStore pos receivers)) :
    Moves memory state op (state.poll index op (.fanOutStore pos receivers)) := by
  obtain ⟨entry, rfl, isOpen, rfl, fanned⟩ := busy
  refine .fanOut fanned (fun server same => ?_) ?_ ?_
  · obtain ⟨stored, result⟩ := same.store isOpen entry
    exact ⟨stored, congrArg Reply.stored result⟩
  · intro next receivers fanned
    exact ⟨entry, rfl, isOpen, rfl, fanned⟩
  · intro all stage
    exact ⟨entry, rfl, isOpen, rfl, by omega, rfl, stage⟩

theorem storeReplies_moves (positive : 0 < n) {pos ackCount : Nat} {sealTail : Option Nat}
    (busy : Busy memory state op (.storeReplies pos receivers ackCount sealTail)) :
    Moves memory state op (state.poll index op (.storeReplies pos receivers ackCount sealTail)) := by
  obtain ⟨entry, rfl, isOpen, rfl, count, rfl, stage⟩ := busy
  cases receivers with
  | nil =>
      have enough : quorumSize n ≤ ackCount := by
        unfold quorumSize
        rw [List.length_nil] at count
        omega
      dsimp only [NativeLoglet.poll, acknowledge]
      rw [if_pos enough]
      dsimp only [finish, Moves, MemoryLoglet.call]
      rw [MemoryLoglet.append_open isOpen] at stage ⊢
      refine ⟨rfl, ?_⟩
      have rest := stage.nil .unit
      rw [← isOpen] at rest
      exact rest
  | cons receiver receivers =>
      dsimp only [NativeLoglet.poll]
      rcases stage.receive_cases with ⟨received, stage⟩ | ⟨received, waits⟩
      · rw [received]
        rw [List.length_cons] at count
        exact ⟨entry, rfl, isOpen, rfl, by omega, rfl, stage⟩
      · rw [received]
        exact ⟨receiver, waits⟩

theorem read_moves (positive : 0 < n) {pos server : Nat}
    (busy : Busy memory state op (.read pos server)) :
    Moves memory state op (state.poll index op (.read pos server)) := by
  obtain ⟨rfl, missing, rest⟩ := busy
  dsimp only [NativeLoglet.poll]
  by_cases inside : server < n
  · rw [dif_pos inside]
    unfold sendTo
    rw [if_pos (rest.live.1 _)]
    have brings : state.Brings memory (.read (memory.found pos))
        (.logServer ⟨server, inside⟩ (.read pos)) :=
      ⟨rest.logServer _, congrArg Reply.read ((rest.logServer _).read pos)⟩
    refine ⟨rfl, ?_⟩
    exact Stage.send (rest.nil _) (Stage.rest rest (.logServer _)).1 brings fun _ _ => rfl
  · rw [dif_neg inside]
    refine ⟨?_, rest⟩
    dsimp only [MemoryLoglet.call]
    rw [MemoryLoglet.read_found (rest.logServer ⟨0, positive⟩), missing (by omega)]
    rfl

theorem readReply_moves (positive : 0 < n) {pos server : Nat}
    (busy : Busy memory state op (.readReply pos server receiver)) :
    Moves memory state op (state.poll index op (.readReply pos server receiver)) := by
  obtain ⟨rfl, stage⟩ := busy
  dsimp only [NativeLoglet.poll]
  rcases stage.receive_cases with ⟨received, stage⟩ | ⟨received, waits⟩
  · rw [received]
    have rest : state.Rest memory := stage.nil .unit
    have answer := MemoryLoglet.read_found (rest.logServer ⟨0, positive⟩) pos
    cases found : memory.found pos with
    | entry entry =>
        refine ⟨?_, rest⟩
        dsimp only [MemoryLoglet.call]
        rw [answer, found]
        rfl
    | trimmed =>
        refine ⟨?_, rest⟩
        dsimp only [MemoryLoglet.call]
        rw [answer, found]
        rfl
    | notFound =>
        exact ⟨rfl, fun _ => found, rest⟩
  · rw [received]
    exact ⟨receiver, waits⟩

theorem fanOutTrim_moves {pos : Nat} (busy : Busy memory state op (.fanOutTrim pos receivers)) :
    Moves memory state op (state.poll index op (.fanOutTrim pos receivers)) := by
  obtain ⟨rfl, fanned⟩ := busy
  refine .fanOut fanned (fun server same => ⟨same.trim pos, rfl⟩) ?_ ?_
  · intro next receivers fanned
    exact ⟨rfl, fanned⟩
  · intro _ stage
    exact ⟨pos, rfl, stage⟩

theorem trimReplies_moves (busy : Busy memory state op (.trimReplies receivers)) :
    Moves memory state op (state.poll index op (.trimReplies receivers)) := by
  obtain ⟨pos, rfl, stage⟩ := busy
  cases receivers with
  | nil =>
      rw [← memory.trim_sealed pos] at stage
      exact ⟨rfl, stage⟩
  | cons receiver receivers =>
      dsimp only [NativeLoglet.poll]
      rcases stage.receive_cases with ⟨received, stage⟩ | ⟨received, waits⟩
      · rw [received]
        exact ⟨pos, rfl, stage⟩
      · rw [received]
        exact ⟨receiver, waits⟩

theorem sealSequencer_moves (busy : Busy memory state op .sealSequencer) :
    Moves memory state op (state.poll index op .sealSequencer) := by
  obtain ⟨rfl, rest⟩ := busy
  refine ⟨rfl, ?_⟩
  have sequencer := rest.sequencer
  exact rest.send ⟨⟨sequencer.nextPos, rfl⟩, congrArg Reply.tail sequencer.nextPos⟩

theorem sealSequencerReply_moves (busy : Busy memory state op (.sealSequencerReply receiver)) :
    Moves memory state op (state.poll index op (.sealSequencerReply receiver)) := by
  obtain ⟨rfl, stage⟩ := busy
  dsimp only [NativeLoglet.poll]
  rcases stage.receive_cases with ⟨received, stage⟩ | ⟨received, waits⟩
  · rw [received]
    exact ⟨rfl, rfl, .start stage _⟩
  · rw [received]
    exact ⟨receiver, waits⟩

theorem fanOutSeal_moves {sequencerTail : Nat}
    (busy : Busy memory state op (.fanOutSeal sequencerTail receivers)) :
    Moves memory state op (state.poll index op (.fanOutSeal sequencerTail receivers)) := by
  obtain ⟨rfl, rfl, fanned⟩ := busy
  refine .fanOut fanned (fun server same => ⟨same.seal, congrArg Reply.tail same.tail⟩) ?_ ?_
    
  · intro next receivers fanned
    exact ⟨rfl, rfl, fanned⟩
  · intro all stage
    exact ⟨rfl, rfl, by omega, Nat.le_add_left _ _, stage⟩

theorem sealReplies_moves (positive : 0 < n) {sequencerTail sealedCount maxTail : Nat}
    (busy : Busy memory state op (.sealReplies sequencerTail receivers sealedCount maxTail)) :
    Moves memory state op (state.poll index op (.sealReplies sequencerTail receivers sealedCount maxTail)) := by
  obtain ⟨rfl, rfl, count, below, stage⟩ := busy
  cases receivers with
  | nil =>
      have enough : ¬ sealedCount < quorumSize n := by
        unfold quorumSize
        rw [List.length_nil] at count
        omega
      dsimp only [NativeLoglet.poll]
      rw [if_neg enough, Nat.max_eq_left below]
      refine ⟨rfl, ?_⟩
      obtain ⟨answers, settles, -⟩ := stage.settles
      exact ⟨stage.live.flag, rfl, ⟨answers, ⟨settles.tasks, settles.sent⟩, nofun⟩, stage.only, nofun⟩
  | cons receiver receivers =>
      dsimp only [NativeLoglet.poll]
      rcases stage.receive_cases with ⟨received, stage⟩ | ⟨received, waits⟩
      · rw [received]
        rw [List.length_cons] at count
        exact ⟨rfl, rfl, by omega, by split <;> omega, stage⟩
      · rw [received]
        exact ⟨receiver, waits⟩

theorem Busy.moves (positive : 0 < n) (index : Nat) (busy : Busy memory state op future) :
    Moves memory state op (state.poll index op future) := by
  cases future with
  | append => exact append_moves busy
  | nextPos => exact nextPos_moves busy
  | nextPosReply receiver => exact nextPosReply_moves busy
  | markSealed => exact busy.elim
  | checkTail => exact checkTail_moves busy
  | checkTailReply receiver => exact checkTailReply_moves busy
  | fanOutStore pos receivers => exact fanOutStore_moves busy
  | storeReplies pos receivers ackCount sealTail => exact storeReplies_moves positive busy
  | read pos server => exact read_moves positive busy
  | readReply pos server receiver => exact readReply_moves positive busy
  | fanOutTrim pos receivers => exact fanOutTrim_moves busy
  | trimReplies receivers => exact trimReplies_moves busy
  | sealSequencer => exact sealSequencer_moves busy
  | sealSequencerReply receiver => exact sealSequencerReply_moves busy
  | fanOutSeal sequencerTail receivers => exact fanOutSeal_moves busy
  | sealReplies sequencerTail receivers sealedCount maxTail => exact sealReplies_moves positive busy

theorem Rest.begin (rest : state.Rest memory) (op : LogletOp) : Busy memory state op (begin op) := by
  cases op with
  | append entry => exact ⟨⟨entry, rfl⟩, rest⟩
  | checkTail => exact ⟨trivial, rest⟩
  | read pos => exact ⟨rfl, fun impossible => absurd impossible (Nat.lt_irrefl 0), rest⟩
  | trim pos =>
      refine ⟨rfl, .start (Stage.review rest fun task => ?_) _⟩
      cases task with
      | sequencer => exact rest.sequencer.trim pos
      | logServer server => exact rest.logServer server
  | «seal» => exact ⟨rfl, rest⟩

theorem rest_new (n : Nat) : (new n).Rest .new := by
  have quiet : ∀ receiver request, ¬ (new n).Pending receiver request := by
    rintro receiver request ⟨sender, impossible⟩
    cases impossible
  refine ⟨.new n, rfl, ⟨fun _ => none, ⟨fun task => Or.inl ⟨?_, ?_⟩, ?_⟩, nofun⟩, ?_, nofun⟩
  · intro receiver request pending
    exact absurd pending (quiet receiver request)
  · cases task with
    | sequencer => exact ⟨rfl, rfl⟩
    | logServer server => exact .spawn
  · intro receiver reply impossible
    cases impossible
  · intro receiver request pending
    exact absurd pending (quiet receiver request)

instance (memory : MemoryLoglet) (op : LogletOp) : Decidable (memorySpec.Allowed memory op) :=
  isTrue trivial

theorem Event.IsServe.cases {event : Event n} (served : event.IsServe)
    (ran : (nativeComponent n).background state event = some next) :
    ∃ task, event = .serve task ∧ state.serve task = some next := by
  cases event with
  | serve task => exact ⟨task, rfl, ran⟩
  | stop server => exact served.elim

/-- Between two calls every task holds what the memory loglet holds. -/
def simulation (positive : 0 < n) : Simulation (nativeComponent n) memorySpec Event.IsServe where
  Idle state _ memory := Rest state memory
  Busy state _ memory op future := Busy memory state op future
  start rest _ := Rest.begin rest _
  poll := by
    intro state index memory op future next progress busy polled
    have moves := Busy.moves positive index busy
    change state.poll index op future = some (next, progress) at polled
    rw [polled] at moves
    cases progress with
    | running later => exact moves
    | finished result => exact moves
  idle_background := by
    intro state index memory event next rest served ran
    obtain ⟨task, rfl, ran⟩ := served.cases ran
    exact Stage.serve rest ran
  busy_background := by
    intro state index memory op future event next busy served ran
    obtain ⟨task, rfl, ran⟩ := served.cases ran
    exact Busy.serve busy ran
  completes := by
    intro state index memory op future busy
    refine Component.completes_of_rank (fun state future => Busy memory state op future) rank (fun state future busy => ?_) busy
    have moves := Busy.moves positive index busy
    cases polled : state.poll index op future with
    | none =>
        rw [polled] at moves
        obtain ⟨receiver, request, pending⟩ := moves
        obtain ⟨next, served, less⟩ := exists_serve pending
        exact Or.inr (Or.inr ⟨.serve request.task, next, trivial, served, Busy.serve busy served,
          Nat.add_lt_add_left less _⟩)
    | some outcome =>
        obtain ⟨next, progress⟩ := outcome
        rw [polled] at moves
        cases progress with
        | running later => exact Or.inr (Or.inl ⟨next, later, polled, moves, poll_rank polled⟩)
        | finished result => exact Or.inl ⟨next, result, polled⟩

end NativeLoglet

/-- A replicated loglet whose servers are alive, used one call at a time, returns what a
memory loglet returns for the same calls, and always returns. -/
theorem native_refines_memory {n : Nat} (positive : 0 < n)
    {system : System (NativeLoglet n) LogletOp NativeLoglet.Future LogletResult}
    (run : (nativeComponent n).machine.Run (memorySpec.permit NativeLoglet.Event.IsServe .new)
      (.fresh (NativeLoglet.new n)) system) :
    memorySpec.Served .new system ∧ ∃ last,
      (nativeComponent n).machine.Run (memorySpec.permit NativeLoglet.Event.IsServe .new)
        system last ∧ last.Settled ∧ last.ops = system.ops :=
  (NativeLoglet.simulation positive).served (NativeLoglet.rest_new n) run

/-- A trim beyond the tail reaches the entry that is appended next. -/
theorem native_refines_memory_trimmed :
    ∃ system : System (NativeLoglet 2) LogletOp NativeLoglet.Future LogletResult,
      (nativeComponent 2).machine.Run (memorySpec.permit NativeLoglet.Event.IsServe .new)
          (.fresh (NativeLoglet.new 2)) system ∧
        memorySpec.Served .new system ∧
        system.Returned 2 (.read 1) (.error (.trimmed 1)) := by
  obtain ⟨system, run, seen⟩ := Machine.exists_run_of_execute (nativeComponent 2).machine
    (memorySpec.permit NativeLoglet.Event.IsServe .new) (.fresh (NativeLoglet.new 2))
    [.start (.trim 5), .poll 0, .poll 0, .poll 0, .background (.serve (.logServer 1)),
      .background (.serve (.logServer 0)), .poll 0, .poll 0, .poll 0,
      .start (.append (.new [7])), .poll 1, .poll 1, .background (.serve .sequencer), .poll 1, .poll 1,
      .poll 1, .poll 1, .background (.serve (.logServer 0)), .background (.serve (.logServer 1)),
      .poll 1, .poll 1, .poll 1, .start (.read 1), .poll 2, .background (.serve (.logServer 0)), .poll 2]
    (fun system => system.calls[2]?) (some ⟨.read 1, .finished (.error (.trimmed 1))⟩)
    (by decide +kernel)
  exact ⟨system, run, (native_refines_memory (by decide) run).1, seen⟩

end Relos
