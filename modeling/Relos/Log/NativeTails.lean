import Relos.Log.NativeHoles
import Relos.Log.NativeQueues

set_option autoImplicit false

/-! Reads below a tail that the sequencer returned. The counter of the sequencer is
ahead of the log servers while an append is in flight: a read finds the entry exactly
if its store has arrived, or waits in the queue of a log server. -/

namespace Relos

open Async NativeLoglet

namespace NativeLogs

variable {n : Nat}

/-- Calls of `append`, `check_tail` and `read`, and no log server stops. -/
def Appending (_ : NativeLogs n) : NativeLogsAction n → Prop
  | .start (.append _) | .start .checkTail | .start (.read _) => True
  | .start (.trim _) | .start .seal => False
  | .poll _ => True
  | .background event => event.IsServe

instance (system : NativeLogs n) (action : NativeLogsAction n) :
    Decidable (system.Appending action) :=
  match action with
  | .start (.append _) | .start .checkTail | .start (.read _) => isTrue trivial
  | .start (.trim _) | .start .seal => isFalse id
  | .poll _ => isTrue trivial
  | .background event => inferInstanceAs (Decidable event.IsServe)

/-- Every read below a returned tail that starts from here on finds an entry. -/
def TailReadable (system : NativeLogs n) : Prop :=
  ∀ (query tail pos : Nat) (later : NativeLogs n) (reader : Nat) (result : LogletResult),
    system.Returned query .checkTail (.ok (.pos tail)) → 1 ≤ pos → pos < tail →
    (nativeLogs n).Run Appending system later → system.calls.length ≤ reader →
    later.Returned reader (.read pos) result → ∃ entry, result = .ok (.entry (some entry))

/-- Every position below a returned tail is stored by some log server, or its store is in
the queue of one. -/
def TailArrived (system : NativeLogs n) : Prop :=
  ∀ (query tail pos : Nat), system.Returned query .checkTail (.ok (.pos tail)) → 1 ≤ pos →
    pos < tail → ∃ server, system.shared.Ahead server pos system.shared.receiver

variable {system later : NativeLogs n}

theorem Appending.untrimmed {action : NativeLogsAction n} (allowed : system.Appending action) :
    system.Untrimmed action := by
  cases action with
  | start op =>
      cases op with
      | append | checkTail | read => exact fun trims => trims
      | trim | «seal» => exact allowed.elim
  | poll index => trivial
  | background event =>
      cases event with
      | serve task => trivial
      | stop server => exact allowed.elim

/-- The loglet is unsealed, and no call is going to seal it. -/
structure Unsealing (system : NativeLogs n) : Prop where
  valid : (outline n).Valid system
  shared : system.shared.Unsealed
  calls : ∀ call ∈ system.calls, call.op ≠ .seal

theorem Unsealing.step {next : NativeLogs n} {action : NativeLogsAction n}
    (unsealing : system.Unsealing) (allowed : system.Appending action)
    (moved : (nativeLogs n).step system action = some next) : next.Unsealing := by
  have valid := unsealing.valid.step (Untrimmed.permit allowed.untrimmed) moved
  cases action with
  | start op =>
      cases Component.step_start moved
      refine ⟨valid, unsealing.shared, fun call member => ?_⟩
      rcases List.mem_append.mp member with before | added
      · exact unsealing.calls call before
      · rw [List.mem_singleton.mp added]
        rintro rfl
        exact allowed
  | poll index =>
      obtain ⟨op, future, shared, progress, pending, polled, rfl⟩ := Component.step_poll moved
      have other := unsealing.calls _ (List.mem_of_getElem? pending)
      exact ⟨valid, unsealing.shared.poll other (unsealing.valid.running pending)
        (poll_polls polled), forall_mem_set unsealing.calls index other⟩
  | background event =>
      obtain ⟨shared, ran, rfl⟩ := Component.step_background moved
      cases event with
      | serve task => exact ⟨valid, unsealing.shared.serve ran, unsealing.calls⟩
      | stop server => exact allowed.elim

theorem Unsealing.run (unsealing : system.Unsealing)
    (run : (nativeLogs n).Run Appending system later) : later.Unsealing :=
  run.invariant Unsealing unsealing fun _ _ _ unsealing allowed moved =>
    unsealing.step allowed moved

theorem unsealing_new : (new n).Unsealing :=
  ⟨valid_new, .new n, fun _ member => by cases member⟩

/-- The reads of the position that started since do not miss it. -/
structure ReadsBehind (holder : Fin n) (pos started : Nat) (system : NativeLogs n) : Prop where
  unsealing : system.Unsealing
  ahead : system.shared.Ahead holder pos system.shared.receiver
  reads : ∀ index progress, started ≤ index → system.calls[index]? = some ⟨.read pos, progress⟩ →
    progress.Holds (system.shared.Behind holder pos) fun result => result ≠ .ok (.entry none)

theorem ReadsBehind.step {holder : Fin n} {pos started : Nat} {next : NativeLogs n}
    {action : NativeLogsAction n} (behind : ReadsBehind holder pos started system)
    (allowed : system.Appending action)
    (moved : (nativeLogs n).step system action = some next) :
    ReadsBehind holder pos started next := by
  have unsealing := behind.unsealing.step allowed moved
  cases action with
  | start op =>
      cases Component.step_start moved
      refine ⟨unsealing, behind.ahead, fun index progress since found => ?_⟩
      rcases getElem?_of_concat found with before | ⟨-, same⟩
      · exact behind.reads index progress since before
      · cases same
        exact Nat.zero_le _
  | poll index =>
      obtain ⟨op, future, shared, progress, pending, polled, rfl⟩ := Component.step_poll moved
      have polls := poll_polls polled
      refine ⟨unsealing, (behind.ahead.poll polls).mono polls.extends.length_le,
        fun other progress' since found => ?_⟩
      rcases getElem?_poll found with ⟨rfl, same⟩ | ⟨-, earlier⟩
      · cases same
        exact Behind.poll behind.unsealing.valid.inv.2 behind.ahead
          (running_read (behind.unsealing.valid.running pending))
          (behind.reads other _ since pending) polled
      · exact (behind.reads other progress' since earlier).imp
          (fun _ held => held.extends polls) fun _ held => held
  | background event =>
      obtain ⟨shared, ran, rfl⟩ := Component.step_background moved
      cases event with
      | serve task =>
          have unsealed := behind.unsealing.shared
          refine ⟨unsealing, ?_, fun index progress since found => ?_⟩
          · have ahead := behind.ahead.serve unsealed ran
            obtain ⟨served, sender, request, -, rfl⟩ := serve_cases ran
            refine ahead.mono (Nat.le_of_eq ?_)
            unfold receiver
            rw [handle_messages]
            exact (List.length_modify ..).symm
          · exact (behind.reads index progress since found).imp
              (fun _ held => held.serve unsealed ran) fun _ held => held
      | stop server => exact allowed.elim

/-- A read that starts once the position is stored or queued returns its entry. -/
theorem read_of_ahead (unsealing : system.Unsealing) {holder : Fin n} {pos reader : Nat}
    {result : LogletResult} (inside : 1 ≤ pos)
    (ahead : system.shared.Ahead holder pos system.shared.receiver)
    (run : (nativeLogs n).Run Appending system later) (since : system.calls.length ≤ reader)
    (returned : later.Returned reader (.read pos) result) :
    ∃ entry, result = .ok (.entry (some entry)) := by
  have behind : ReadsBehind holder pos system.calls.length later := by
    refine run.invariant (ReadsBehind holder pos system.calls.length)
      ⟨unsealing, ahead, fun index progress started found => ?_⟩
      fun _ _ _ behind allowed moved => behind.step allowed moved
    have inside := (List.getElem?_eq_some_iff.mp found).1
    omega
  have present : result ≠ .ok (.entry none) := behind.reads reader _ since returned
  have finished := behind.unsealing.valid.finished returned
  cases result with
  | error error =>
      obtain ⟨-, -, server, trimmed⟩ := finished
      rw [trimPos_of_untrimmed behind.unsealing.valid.inv.1 (fun impossible => impossible)]
        at trimmed
      exact absurd trimmed (Nat.not_lt.mpr inside)
  | ok value =>
      obtain ⟨-, entry, rfl, -⟩ := finished
      cases entry with
      | none => exact absurd rfl present
      | some entry => exact ⟨entry, rfl⟩

/-- Where the position is neither stored nor queued, a read can run ahead of its store. -/
theorem exists_read_of_missing (before : (nativeLogs n).Run Appending (new n) system) {pos : Nat}
    (missing : system.shared.Missing pos) :
    ∃ later result, (nativeLogs n).Run Appending system later ∧
      later.Returned system.calls.length (.read pos) result ∧
      ∀ server, ¬ (later.shared.logServers server).Covers pos := by
  obtain ⟨inv, stops⟩ := (tolerance_valid (before.mono fun _ _ _ => trivial) (Nat.le_refl _)).inv
  obtain ⟨last, result, completes⟩ := enduring_completes inv stops
    (enduring_begin system.shared system.calls.length (.read pos))
  have kept : last.Missing pos := by
    refine completes.invariant (fun state future => IsReading pos future ∧ state.Missing pos)
      (fun state _ => state.Missing pos) (fun {state future next progress} busy polled => ?_)
      (fun {state future event next} busy serves ran => ?_) ⟨Or.inl ⟨0, rfl⟩, missing⟩
    · have missing' := busy.2.poll busy.1 (poll_polls polled)
      exact (busy.1.poll polled).imp (fun _ reading => ⟨reading, missing'⟩) fun _ _ => missing'
    · cases event with
      | serve task => exact ⟨busy.1, busy.2.serve ran⟩
      | stop server => exact serves.elim
  have started : (nativeLogs n).Run Appending system
      ⟨system.shared, system.calls ++ [⟨.read pos, .running (begin (.read pos))⟩]⟩ := by
    have allowed : system.Appending (.start (.read pos)) := trivial
    exact .single allowed rfl
  have ended : (nativeLogs n).Run Appending
      ⟨system.shared, system.calls ++ [⟨.read pos, .running (begin (.read pos))⟩]⟩ ⟨last, _⟩ :=
    completes.run (fun _ => trivial) (fun _ _ serves => serves) List.getElem?_concat_length
  refine ⟨_, result, started.trans ended, ?_, kept.logServers⟩
  exact List.getElem?_set_self (by rw [List.length_append, List.length_singleton]; omega)

/-- The tail is readable exactly if the stores below it have reached the log servers. -/
theorem tail_readable_iff (before : (nativeLogs n).Run Appending (new n) system) :
    system.TailReadable ↔ system.TailArrived := by
  have unsealing := unsealing_new.run before
  constructor
  · intro readable query tail pos returned inside below
    by_contra absent
    have inv := unsealing.valid.inv.1
    have missing : system.shared.Missing pos := by
      refine ⟨fun server covers => absent ⟨server, Or.inl covers⟩,
        fun receiver request pending fills => ?_⟩
      obtain ⟨sender, found⟩ := pending
      unfold Request.Fills at fills
      split at fills
      · rename_i server stored entry
        subst fills
        exact absent ⟨server, Or.inr ⟨receiver, entry, (List.getElem?_eq_some_iff.mp found).1,
          sender, found⟩⟩
      · exact (inv.trims ⟨_, found⟩).2
      · exact fills
    obtain ⟨later, result, run, returned', uncovered⟩ := exists_read_of_missing before missing
    obtain ⟨entry, rfl⟩ := readable query tail pos later _ result returned inside below run
      (Nat.le_refl _) returned'
    have valid := (unsealing.run run).valid
    obtain ⟨owner, server, accepted⟩ := placed_of_read valid returned'
    exact uncovered server (accepted.keeps valid.inv.1).covers
  · intro arrived query tail pos later reader result returned inside below run since returned'
    obtain ⟨holder, ahead⟩ := arrived query tail pos returned inside below
    exact read_of_ahead unsealing inside ahead run since returned'

/-- The store of the first entry is in the queue of every server when the tail is read. -/
def queuedBehind : List (NativeLogsAction 3) :=
  ([.start (.append (.new [1]))] : List (NativeLogsAction 3)) ++ polls 0 2 ++ serveSequencer ++
    polls 0 4 ++ ([.start .checkTail, .poll 1] : List (NativeLogsAction 3)) ++ serveSequencer ++
    polls 1 1

set_option maxRecDepth 10000 in
theorem tail_readable_queued : ∃ system : NativeLogs 3,
    system.Returned 1 .checkTail (.ok (.pos 2)) ∧ system.TailReadable := by
  obtain ⟨system, run, seen⟩ := Machine.exists_run_of_execute (nativeLogs 3) Appending (new 3)
    queuedBehind (fun system => (system.calls, system.shared.messages[1]?))
    ([⟨.append (.new [1]), .running (.fanOutStore 1 [1, 2, 3])⟩,
      ⟨.checkTail, .finished (.ok (.pos 2))⟩],
      some ⟨(0, .append (.new [1])), .logServer 0 (.store 1 (.new [1])), .pending⟩) (by decide)
  obtain ⟨calls, store⟩ := Prod.mk.inj seen
  refine ⟨system, congrArg (fun calls => calls[1]?) calls, (tail_readable_iff run).mpr ?_⟩
  intro query tail pos returned inside below
  unfold System.Returned at returned
  rw [calls] at returned
  have first : tail = 2 := by
    match query with
    | 0 => cases returned
    | 1 =>
        cases returned
        rfl
    | query + 2 => cases returned
  have here : pos = 1 := by omega
  subst here
  exact ⟨0, Or.inr ⟨1, _, (List.getElem?_eq_some_iff.mp store).1, _, store⟩⟩

/-- The tail is read when the position is given, and nothing has been stored yet. -/
def tailAhead : List (NativeLogsAction 3) :=
  ([.start (.append (.new [1]))] : List (NativeLogsAction 3)) ++ polls 0 2 ++ serveSequencer ++
    ([.start .checkTail, .poll 1] : List (NativeLogsAction 3)) ++ serveSequencer ++ polls 1 1

set_option maxRecDepth 10000 in
theorem not_tail_readable : ¬ ∀ (n : Nat) (system : NativeLogs n), 1 ≤ n →
    (nativeLogs n).Run Appending (new n) system → system.TailReadable := by
  intro readable
  obtain ⟨earlier, later, before, after, seen, seen'⟩ := Machine.exists_runs_of_execute
    (nativeLogs 3) Appending (new 3) tailAhead readMissing System.calls
    [⟨.append (.new [1]), .running (.nextPosReply 0)⟩, ⟨.checkTail, .finished (.ok (.pos 2))⟩]
    [⟨.append (.new [1]), .running (.nextPosReply 0)⟩, ⟨.checkTail, .finished (.ok (.pos 2))⟩,
      ⟨.read 1, .finished (.ok (.entry none))⟩] (by decide)
  have tail : earlier.Returned 1 .checkTail (.ok (.pos 2)) := congrArg (fun calls => calls[1]?) seen
  have missed : later.Returned 2 (.read 1) (.ok (.entry none)) :=
    congrArg (fun calls => calls[2]?) seen'
  have length : earlier.calls.length ≤ 2 := Nat.le_of_eq (congrArg List.length seen)
  obtain ⟨entry, impossible⟩ := readable 3 earlier (by decide) before 1 2 1 later 2 _ tail
    (by decide) (by decide) after length missed
  cases impossible

end NativeLogs

end Relos
