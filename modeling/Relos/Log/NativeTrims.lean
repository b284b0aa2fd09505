import Relos.Log.NativeHoles
import Relos.Log.NativeQueues

set_option autoImplicit false

/-! Trims of a replicated loglet beside any other calls. Each log server has a watermark
of its own, which only rises, and rises only to positions that a call asked for. -/

namespace Relos

open Async NativeLoglet

namespace NativeLogs

variable {n : Nat} {system later : NativeLogs n}

/-- Every message was sent by a call. -/
def Recorded (system : NativeLogs n) : Prop :=
  ∀ (receiver : Nat) (message : Message n), system.shared.messages[receiver]? = some message →
    ∃ progress, system.calls[message.sender.1]? = some ⟨message.sender.2, progress⟩

/-- A poll leaves every call what it was asked. -/
theorem call_kept {index other : Nat} {op asked : LogletOp} {future : Future}
    {progress : Progress Future LogletResult} (pending : system.Pending index op future)
    (held : ∃ earlier, system.calls[other]? = some ⟨asked, earlier⟩) :
    ∃ current, (system.calls.set index ⟨op, progress⟩)[other]? = some ⟨asked, current⟩ := by
  obtain ⟨earlier, held⟩ := held
  by_cases same : index = other
  · subst same
    cases Option.some.inj (pending.symm.trans held)
    exact ⟨progress, List.getElem?_set_self (List.getElem?_eq_some_iff.mp pending).1⟩
  · exact ⟨earlier, (List.getElem?_set_ne same).trans held⟩

theorem Recorded.step {action : NativeLogsAction n} (recorded : system.Recorded)
    (allowed : system.LiveServers action) (moved : (nativeLogs n).step system action = some later) :
    later.Recorded := by
  intro receiver message found
  cases action with
  | start op =>
      cases Component.step_start moved
      obtain ⟨progress, held⟩ := recorded receiver message found
      exact ⟨progress, getElem?_of_longer (List.prefix_append _ _) held⟩
  | poll index =>
      obtain ⟨op, future, shared, progress, pending, polled, rfl⟩ := Component.step_poll moved
      rcases (poll_polls polled).messages with same | ⟨request, -, same⟩
      · rw [same] at found
        exact call_kept pending (recorded receiver message found)
      · rw [same] at found
        rcases getElem?_of_concat found with before | ⟨-, rfl⟩
        · exact call_kept pending (recorded receiver message before)
        · exact call_kept pending ⟨_, pending⟩
  | background event =>
      obtain ⟨shared, ran, rfl⟩ := Component.step_background moved
      cases event with
      | serve task =>
          obtain ⟨served, sender, request, waiting, rfl⟩ := serve_cases ran
          dsimp only at found
          rw [handle_messages] at found
          rcases answer_messages waiting found with ⟨rfl, rfl⟩ | ⟨-, before⟩
          · exact recorded receiver ⟨sender, request, .pending⟩ waiting
          · exact recorded receiver message before
      | stop server => exact allowed.elim

theorem recorded_run (run : (nativeLogs n).Run LiveServers (new n) system) : system.Recorded := by
  refine run.invariant Recorded ?_ fun _ _ _ recorded allowed moved => recorded.step allowed moved
  intro receiver message found
  cases found

/-! ### Watermarks -/

/-- The watermark of every server has reached the position. -/
def risenView (n : Nat) (pos : Nat) : View n True where
  Seen _ seen := pos ≤ seen.trimPos
  stable reached grows _ := Nat.le_trans reached grows.trimPos

theorem risenView_result (servers : 1 ≤ n) {pos bound : Nat} (below : pos < bound)
    {result : LogletResult} (told : (risenView n bound).ReadFrom pos result) :
    result = .error (.trimmed pos) := by
  have answer (seen : LogServer) (risen : bound ≤ seen.trimPos) : seen.read pos = .trimmed :=
    if_pos (Nat.lt_of_lt_of_le below risen)
  rcases told with ⟨-, missed⟩ | ⟨server, seen, -, risen, ends⟩
  · obtain ⟨seen, risen, absent⟩ := missed ⟨0, servers⟩ servers
    rw [answer seen risen] at absent
    cases absent
  · rw [answer seen risen] at ends
    exact (Option.some.inj ends).symm

/-- What a trim promises to the reads of a later state of the same run. -/
structure TrimSafety (earlier later : NativeLogs n) : Prop where
  trimmed : ∀ index bound reader pos result,
    earlier.Returned index (.trim bound) (.ok .unit) → pos < bound →
    earlier.calls.length ≤ reader → later.Returned reader (.read pos) result →
    result = .error (.trimmed pos)
  returns : ∀ index bound reader pos progress,
    earlier.Returned index (.trim bound) (.ok .unit) → pos < bound →
    earlier.calls.length ≤ reader → later.calls[reader]? = some ⟨.read pos, progress⟩ →
    ∃ last, (nativeLogs n).Run LiveServers later last ∧
      last.Returned reader (.read pos) (.error (.trimmed pos))
  invoked : ∀ reader pos named, 1 ≤ pos →
    later.Returned reader (.read pos) (.error (.trimmed named)) → named = pos ∧
      ∃ (index bound : Nat) (progress : Progress Future LogletResult), pos < bound ∧
        later.calls[index]? = some ⟨.trim bound, progress⟩
  lasting : ∀ server pos, (earlier.shared.logServers server).read pos = .trimmed →
    (later.shared.logServers server).read pos = .trimmed

theorem read_trimmed_iff {server : LogServer} {pos : Nat} :
    server.read pos = .trimmed ↔ pos < server.trimPos := by
  unfold LogServer.read
  constructor
  · intro answer
    by_contra above
    rw [if_neg above] at answer
    split at answer <;> cases answer
  · exact fun below => if_pos below

/-- A trim that returned is seen by all later reads, whatever is stored or trimmed beside
them, and none but a trim that was called for is ever seen. -/
theorem trims_hold (servers : 1 ≤ n) {earlier later : NativeLogs n}
    (before : (nativeLogs n).Run LiveServers (new n) earlier)
    (after : (nativeLogs n).Run LiveServers earlier later) : TrimSafety earlier later := by
  obtain ⟨-, valid⟩ := live_run live_new before
  obtain ⟨run, valid'⟩ := live_run valid after
  have trimmed {last : NativeLogs n} (run : (nativeLogs n).Run (liveOutline n).permit earlier last)
      {index bound reader pos : Nat} {result : LogletResult}
      (returned : earlier.Returned index (.trim bound) (.ok .unit)) (below : pos < bound)
      (started : earlier.calls.length ≤ reader) (ended : last.Returned reader (.read pos) result) :
      result = .error (.trimmed pos) := by
    obtain ⟨-, -, risen⟩ := valid.finished returned
    have told := (readPromise any_trims (risenView n bound)).result valid risen run started ended
    exact risenView_result servers below (told pos rfl)
  refine ⟨?_, ?_, ?_, ?_⟩
  · intro index bound reader pos result returned below started ended
    exact trimmed run returned below started ended
  · intro index bound reader pos progress returned below started found
    obtain ⟨last, result, goesOn, ended⟩ := canReturn valid' reader _ _ found
    have onward := goesOn.mono fun _ _ onward => Onward.live onward
    have whole := run.trans (live_run valid' onward).1
    rw [trimmed whole returned below started ended] at ended
    exact ⟨last, onward, ended⟩
  · intro reader pos named positive returned
    obtain ⟨-, same, server, above⟩ := valid'.finished returned
    refine ⟨RelosError.trimmed.inj same, ?_⟩
    rcases valid'.inv.1.trimPos server with initial | ⟨receiver, sender, answered⟩
    · rw [initial] at above
      exact absurd positive (Nat.not_le.mpr above)
    · obtain ⟨index, op⟩ := sender
      obtain ⟨rfl, -⟩ := valid'.inv.1.trims ⟨_, answered⟩
      obtain ⟨progress, called⟩ := recorded_run (before.trans after) receiver _ answered
      exact ⟨index, _, progress, above, called⟩
  · intro server pos trimmed
    rw [read_trimmed_iff] at trimmed ⊢
    exact Outline.fact_run (fun state : NativeLoglet n => pos < (state.logServers server).trimPos)
      (fun _ _ grows risen => Nat.lt_of_lt_of_le risen (grows.logServers server).trimPos)
      valid trimmed run

def trimAlone (n index bound : Nat) : List (NativeLogsAction n) :=
  [.start (.trim bound)] ++ polls index (n + 1) ++ serveAll n ++ polls index (n + 1)

set_option maxRecDepth 10000 in
/-- The stores of an entry arrive after the trim that covers its position. -/
theorem trims_hold_late : ∃ earlier later : NativeLogs 3,
    earlier.Returned 1 (.trim 2) (.ok .unit) ∧
    later.Returned 0 (.append (.new [1])) (.ok (.pos 1)) ∧
    later.Returned 2 (.read 1) (.error (.trimmed 1)) ∧ TrimSafety earlier later := by
  obtain ⟨earlier, later, before, after, seen, seen'⟩ := Machine.exists_runs_of_execute
    (nativeLogs 3) LiveServers (new 3)
    ([.start (.append (.new [1]))] ++ polls 0 2 ++ serveSequencer ++ polls 0 1 ++ trimAlone 3 1 2)
    (polls 0 4 ++ serveAll 3 ++ polls 0 4 ++ readAlone 3 2 1 (by decide)) System.calls
    [⟨.append (.new [1]), .running (.fanOutStore 1 [])⟩, ⟨.trim 2, .finished (.ok .unit)⟩]
    [⟨.append (.new [1]), .finished (.ok (.pos 1))⟩, ⟨.trim 2, .finished (.ok .unit)⟩,
      ⟨.read 1, .finished (.error (.trimmed 1))⟩] (by decide)
  exact ⟨earlier, later, congrArg (fun calls => calls[1]?) seen,
    congrArg (fun calls => calls[0]?) seen', congrArg (fun calls => calls[2]?) seen',
    trims_hold (by decide) before after⟩

end NativeLogs

end Relos
