import Relos.Log.NativeStages
import Relos.Log.NativeSteps

set_option autoImplicit false

/-! Calls on a replicated loglet whose log servers stay alive: however they stand, each of them
can go on until it returns. -/

namespace Relos

open Async NativeLoglet

namespace NativeLoglet

variable {n : Nat} {exit : Exit} {trims : Prop} {state : NativeLoglet n} {index : Nat}
  {op : LogletOp} {future : Future} {sender : Nat × LogletOp} {request : Request n}

/-- While the servers live, a request is in flight or its reply is there. -/
theorem awaited (inv : state.Inv trims) (live : state.Live) {receiver : Nat}
    (sent : state.Sent receiver sender request) :
    (∃ receiver asked, state.Pending receiver asked) ∨
      ∃ reply, state.receive receiver = .sent reply ∧ state.Means request reply := by
  obtain ⟨receipt, found⟩ := sent
  have received : state.receive receiver = receipt := by
    unfold NativeLoglet.receive
    rw [found]
    rfl
  cases receipt with
  | pending => exact Or.inl ⟨receiver, request, sender, found⟩
  | dropped => exact absurd received (live.receive receiver)
  | sent reply => exact Or.inr ⟨reply, received, inv.answered found⟩

theorem fanOut_isSome (asked : LogServerRequest) (receivers : List Nat)
    (more : List Nat → Future) (sentAll : Future) :
    (fanOut state index op asked receivers more sentAll).isSome = true := by
  unfold fanOut
  split
  · unfold sendTo
    split <;> rfl
  · rfl

/-- A call moves, unless a request is in flight. -/
theorem poll_ready (inv : state.Inv trims) (live : state.Live)
    (running : Running exit trims state index op future) :
    (poll state index op future).isSome = true ∨ ∃ receiver asked, state.Pending receiver asked := by
  have waits : ∀ {receiver : Nat} {request : Request n},
      state.Sent receiver (index, op) request →
        (∀ reply, state.receive receiver = .sent reply → state.Means request reply →
          (poll state index op future).isSome = true) →
            (poll state index op future).isSome = true ∨
              ∃ receiver asked, state.Pending receiver asked := by
    intro receiver request sent moves
    rcases awaited inv live sent with pending | ⟨reply, received, means⟩
    · exact Or.inr pending
    · exact Or.inl (moves reply received means)
  cases future with
  | append =>
      refine Or.inl ?_
      simp only [poll]
      split <;> rfl
  | nextPos | markSealed | checkTail | sealSequencer => exact Or.inl rfl
  | nextPosReply receiver =>
      refine waits running.2.2 fun reply received means => ?_
      simp only [poll, received]
      cases reply with
      | position pos => cases pos <;> rfl
      | tail | stored | read | unit => exact means.elim
  | checkTailReply receiver =>
      refine waits running.2.2 fun reply received means => ?_
      simp only [poll, received]
      cases reply with
      | tail tail => rfl
      | position | stored | read | unit => exact means.elim
  | fanOutStore pos receivers =>
      obtain ⟨entry, giver, rfl, -⟩ := running
      exact Or.inl (fanOut_isSome _ receivers _ _)
  | fanOutTrim pos receivers => exact Or.inl (fanOut_isSome _ receivers _ _)
  | fanOutSeal sequencerTail receivers => exact Or.inl (fanOut_isSome _ receivers _ _)
  | storeReplies pos receivers ackCount sealTail =>
      cases receivers with
      | nil =>
          refine Or.inl ?_
          simp only [poll, acknowledge]
          split
          · rfl
          · split <;> rfl
      | cons receiver rest =>
          obtain ⟨entry, giver, first, rfl, -, -, -, receivers, -⟩ := running
          obtain ⟨inside, sent⟩ := receivers.head
          refine waits sent fun reply received means => ?_
          simp only [poll, received]
          cases reply with
          | stored result => cases result <;> rfl
          | position | tail | read | unit => exact means.elim
  | read pos server =>
      refine Or.inl ?_
      simp only [poll]
      split
      · unfold sendTo
        split <;> rfl
      · rfl
  | readReply pos server receiver =>
      obtain ⟨rfl, -, inside, sent⟩ := running
      refine waits sent fun reply received means => ?_
      simp only [poll, received]
      cases reply with
      | read result => cases result <;> rfl
      | position | tail | stored | unit => exact means.elim
  | trimReplies receivers =>
      cases receivers with
      | nil => exact Or.inl rfl
      | cons receiver rest =>
          obtain ⟨pos, first, rfl, -, -, receivers, -⟩ := running
          obtain ⟨inside, sent⟩ := receivers.head
          refine waits sent fun reply received means => ?_
          simp only [poll, received]
          cases reply with
          | unit => rfl
          | position | tail | stored | read => exact means.elim
  | sealSequencerReply receiver =>
      refine waits running.2.2 fun reply received means => ?_
      simp only [poll, received]
      cases reply with
      | tail tail => rfl
      | position | stored | read | unit => exact means.elim
  | sealReplies sequencerTail receivers sealedCount maxTail =>
      cases receivers with
      | nil =>
          refine Or.inl ?_
          simp only [poll]
          split <;> rfl
      | cons receiver rest =>
          obtain ⟨-, -, -, -, first, -, receivers, -⟩ := running
          obtain ⟨inside, sent⟩ := receivers.head
          refine waits sent fun reply received means => ?_
          simp only [poll, received]
          cases reply with
          | tail tail => rfl
          | position | stored | read | unit => exact means.elim

end NativeLoglet

abbrev NativeLogs (n : Nat) :=
  System (NativeLoglet n) LogletOp NativeLoglet.Future LogletResult

abbrev NativeLogsAction (n : Nat) := Action LogletOp (NativeLoglet.Event n)

abbrev nativeLogs (n : Nat) : Machine (NativeLogs n) (NativeLogsAction n) :=
  (nativeComponent n).machine

namespace NativeLogs

variable {n : Nat}

def new (n : Nat) : NativeLogs n := .fresh (NativeLoglet.new n)

/-- Any calls, and no log server stops. -/
def LiveServers (_ : NativeLogs n) : NativeLogsAction n → Prop
  | .background (.stop _) => False
  | _ => True

instance (system : NativeLogs n) (action : NativeLogsAction n) :
    Decidable (system.LiveServers action) :=
  match action with
  | .start _ | .poll _ | .background (.serve _) => isTrue trivial
  | .background (.stop _) => isFalse id

/-- The calls under way go on, and no other starts. -/
def Onward (_ : NativeLogs n) : NativeLogsAction n → Prop
  | .poll _ | .background (.serve _) => True
  | .start _ | .background (.stop _) => False

theorem Onward.live {system : NativeLogs n} {action : NativeLogsAction n}
    (onward : system.Onward action) : system.LiveServers action := by
  cases action with
  | start op => exact onward.elim
  | poll index => trivial
  | background event =>
      cases event with
      | serve task => trivial
      | stop server => exact onward.elim

theorem any_trims : Exit.any = .unstored → ¬ True := by
  intro same
  cases same

abbrev liveOutline (n : Nat) := (nativeOutline n True .any any_trims).toOutline

theorem pollOk_any (state : NativeLoglet n) (future : NativeLoglet.Future) :
    PollOk .any state future := by
  unfold PollOk
  split
  · exact fun _ => trivial
  · trivial

theorem settled_new (exit : Exit) (index : Nat) :
    Settled exit (NativeLoglet.new n) index := by
  refine ⟨fun found => ?_, fun found => ?_, fun given => ?_⟩
  · cases found
  · cases found
  · cases given

theorem LiveServers.permit {system : NativeLogs n} {action : NativeLogsAction n}
    (allowed : system.LiveServers action) : (liveOutline n).permit system action := by
  cases action with
  | start op => exact fun _ => trivial
  | poll index => exact fun _ future _ => pollOk_any system.shared future
  | background event =>
      cases event with
      | serve task => trivial
      | stop server => exact allowed.elim

variable {system later : NativeLogs n}

theorem live_new : (liveOutline n).Valid (new n) :=
  .init ⟨.new True n, .new n⟩ (settled_new .any)

theorem live_run (valid : (liveOutline n).Valid system)
    (run : (nativeLogs n).Run LiveServers system later) :
    (nativeLogs n).Run (liveOutline n).permit system later ∧ (liveOutline n).Valid later := by
  have permitted := run.mono fun _ _ allowed => LiveServers.permit allowed
  exact ⟨permitted, valid.run permitted⟩

/-- A bound on the steps that the call still needs. -/
def stepsLeft (index : Nat) (system : NativeLogs n) : Nat :=
  match system.calls[index]? with
  | some ⟨_, .running future⟩ => system.shared.rank future + 1
  | _ => 0

variable {index : Nat} {op : LogletOp} {future : Future}

theorem stepsLeft_running (found : system.Pending index op future) :
    system.stepsLeft index = system.shared.rank future + 1 := by
  unfold System.Pending at found
  unfold stepsLeft
  rw [found]

theorem stepsLeft_finished {result : LogletResult} (found : system.Returned index op result) :
    system.stepsLeft index = 0 := by
  unfold System.Returned at found
  unfold stepsLeft
  rw [found]

/-- A poll of the call, or the server that it waits for, brings it nearer to its end. -/
theorem step_nearer (valid : (liveOutline n).Valid system) (found : system.Pending index op future) :
    ∃ action next, system.Onward action ∧ (nativeLogs n).step system action = some next ∧
      (∃ progress, next.calls[index]? = some ⟨op, progress⟩) ∧
      next.stepsLeft index < system.stepsLeft index := by
  have moves := poll_ready valid.inv.1 valid.inv.2 (valid.running found)
  rw [stepsLeft_running found]
  rcases moves with ready | ⟨receiver, asked, pending⟩
  · obtain ⟨⟨shared, progress⟩, polled⟩ := Option.isSome_iff_exists.mp ready
    have after : (system.calls.set index ⟨op, progress⟩)[index]? = some ⟨op, progress⟩ :=
      List.getElem?_set_self (List.getElem?_eq_some_iff.mp found).1
    refine ⟨.poll index, _, trivial, Component.step_of_poll found polled, ⟨progress, after⟩, ?_⟩
    cases progress with
    | finished result =>
        have returned : System.Returned ⟨shared, system.calls.set index ⟨op, .finished result⟩⟩ index
          op result := after
        rw [stepsLeft_finished returned]
        exact Nat.succ_pos _
    | running later =>
        have pending : System.Pending ⟨shared, system.calls.set index ⟨op, .running later⟩⟩ index op
          later := after
        rw [stepsLeft_running pending]
        exact Nat.succ_lt_succ (poll_rank polled)
  · obtain ⟨shared, served, less⟩ := exists_serve pending
    have after : System.Pending { system with shared := shared } index op future := found
    refine ⟨.background (.serve asked.task), _, trivial, Component.step_of_background served,
      ⟨_, found⟩, ?_⟩
    rw [stepsLeft_running after]
    exact Nat.succ_lt_succ (Nat.add_lt_add_left less _)

/-- However the calls stand, each of them can go on until it returns. -/
def CanReturn (system : NativeLogs n) : Prop :=
  ∀ index op progress, system.calls[index]? = some ⟨op, progress⟩ →
    ∃ last result, (nativeLogs n).Run Onward system last ∧ last.Returned index op result

theorem canReturn (valid : (liveOutline n).Valid system) : system.CanReturn := by
  intro index op progress found
  let Busy (state : NativeLogs n) : Prop :=
    (liveOutline n).Valid state ∧ ∃ progress, state.calls[index]? = some ⟨op, progress⟩
  have busy : Busy system := ⟨valid, progress, found⟩
  have ended : ∃ last, (nativeLogs n).Run Onward system last ∧
      ∃ result, last.Returned index op result := by
    refine Machine.exists_run_of_rank (stepsLeft index) ?_ busy
    rintro state ⟨valid, progress, found⟩
    cases progress with
    | finished result => exact Or.inl ⟨result, found⟩
    | running future =>
        obtain ⟨action, next, permitted, moved, called, less⟩ := step_nearer valid found
        exact Or.inr ⟨action, next, permitted, moved,
          ⟨valid.step (LiveServers.permit permitted.live) moved, called⟩, less⟩
  obtain ⟨last, run, result, returned⟩ := ended
  exact ⟨last, result, run, returned⟩

end NativeLogs

end Relos
