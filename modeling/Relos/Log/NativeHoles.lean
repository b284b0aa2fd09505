import Relos.Log.NativeSafety

set_option autoImplicit false

/-! Positions below the tail of a sealed loglet. The sequencer assigns a position
before any log server stores its entry, so an append can be overtaken by a seal. -/

namespace Relos

open Async NativeLoglet

namespace NativeLogs

variable {n : Nat}

/-- An append that ends below its quorum finds its position on some server. -/
def CoveredExits (system : NativeLogs n) (action : NativeLogsAction n) : Prop :=
  system.LiveServers action ∧
    match action with
    | .poll index =>
        Call.Meets (fun _ future => PollOk .covered system.shared future) system.calls[index]?
    | _ => True

instance (server : LogServer) (pos : Nat) : Decidable (server.Covers pos) :=
  decidable_of_iff (server.entries[pos]?.isSome = true ∨ pos < server.trimPos) (by
    unfold LogServer.Covers
    rw [Option.isSome_iff_exists])

instance (state : NativeLoglet n) (future : NativeLoglet.Future) :
    Decidable (PollOk .covered state future) :=
  match future with
  | .storeReplies pos [] ackCount _ => inferInstanceAs (Decidable (ackCount < quorumSize n →
      ∃ server, (state.logServers server).Covers pos))
  | .storeReplies _ (_ :: _) _ _ | .append | .nextPos | .nextPosReply _ | .markSealed | .checkTail
  | .checkTailReply _ | .fanOutStore _ _ | .read _ _ | .readReply _ _ _ | .fanOutTrim _ _
  | .trimReplies _ | .sealSequencer | .sealSequencerReply _ | .fanOutSeal _ _
  | .sealReplies _ _ _ _ => isTrue trivial

instance (system : NativeLogs n) (action : NativeLogsAction n) :
    Decidable (system.CoveredExits action) :=
  match action with
  | .start _ => inferInstanceAs (Decidable (_ ∧ True))
  | .poll index => inferInstanceAs (Decidable (_ ∧ Call.Meets
      (fun _ future => PollOk .covered system.shared future) system.calls[index]?))
  | .background _ => inferInstanceAs (Decidable (_ ∧ True))

theorem covered_trims : Exit.covered = .unstored → ¬ True := by
  intro same
  cases same

abbrev coveredOutline (n : Nat) := (nativeOutline n True .covered covered_trims).toOutline

theorem CoveredExits.permit {system : NativeLogs n} {action : NativeLogsAction n}
    (allowed : system.CoveredExits action) : (coveredOutline n).permit system action := by
  cases action with
  | start op => exact fun _ => trivial
  | poll index =>
      intro op future pending
      have covered := allowed.2
      unfold System.Pending at pending
      simp only [pending] at covered
      exact covered
  | background event =>
      cases event with
      | serve task => trivial
      | stop server => exact allowed.1.elim

/-- A finished append has its position on a quorum, and gave up all others. -/
theorem holds_of_finished {state : NativeLoglet n} (inv : state.Inv True) {index receiver pos : Nat}
    {op op' : LogletOp} {result : LogletResult}
    (finished : Finished .covered state index op result)
    (given : state.AssignedBy receiver (index, op') pos) : Exit.covered.Holds state pos := by
  have settled : Settled .covered state index → Exit.covered.Holds state pos := by
    intro settled
    rcases settled.settled given with same | holds
    · cases same
    · exact holds
  by_cases failed : op.IsAppend → ∃ error, result = .error error
  · exact settled (finished_fresh finished failed)
  · cases op with
    | append entry =>
        cases result with
        | error error => exact absurd (fun _ => ⟨error, rfl⟩) failed
        | ok value =>
            obtain ⟨pos', giver, _, given', traces, quorum⟩ := finished
            rcases traces.settled given with same | holds
            · cases same
              cases Option.some.inj (given.symm.trans given')
              obtain ⟨server, accepted⟩ := quorum.placed
              exact ⟨server, (accepted.keeps inv).covers⟩
            · exact holds
    | checkTail | read | trim | «seal» => exact absurd (fun impossible => impossible.elim) failed

/-- Once no append is running, every assigned position is covered. -/
theorem covered_of_quiescent {system : NativeLogs n} (valid : (coveredOutline n).Valid system)
    (quiescent : system.Quiescent LogletOp.IsAppend) {pos : Nat} (inside : logPosBegin ≤ pos)
    (below : pos < system.shared.sequencer.nextPos) :
    ∃ server, (system.shared.logServers server).Covers pos := by
  obtain ⟨receiver, ⟨owner, op⟩, given⟩ := valid.inv.1.assigned inside below
  have settled : Settled .covered system.shared owner → Exit.covered.Holds system.shared pos := by
    intro settled
    rcases settled.settled given with same | holds
    · cases same
    · exact holds
  cases called : system.calls[owner]? with
  | none => exact settled (valid.fresh owner (List.getElem?_eq_none_iff.mp called))
  | some call =>
      obtain ⟨op', progress⟩ := call
      cases progress with
      | running future =>
          exact settled (running_fresh (quiescent owner op' future called) (valid.running called))
      | finished result => exact holds_of_finished valid.inv.1 (valid.finished called) given

/-- A sealed loglet has no holes once its appends have returned, if none of them
ended below its quorum with its entry on no server. -/
theorem no_holes {earlier later : NativeLogs n}
    (before : (nativeLogs n).Run CoveredExits (new n) earlier)
    (after : (nativeLogs n).Run LiveServers earlier later) {sealer tail pos reader : Nat}
    {result : LogletResult} (returned : earlier.Returned sealer .seal (.ok (.pos tail)))
    (quiescent : earlier.Quiescent LogletOp.IsAppend) (inside : 1 ≤ pos) (below : pos < tail)
    (started : earlier.calls.length ≤ reader) (reads : later.Returned reader (.read pos) result) :
    (∃ entry, result = .ok (.entry (some entry))) ∨
      (result = .error (.trimmed pos) ∧
        ∃ server, pos < (later.shared.logServers server).trimPos) := by
  have covered : (coveredOutline n).Valid earlier :=
    Outline.Valid.run (.init ⟨.new True n, .new n⟩ (settled_new .covered))
      (before.mono fun _ _ allowed => CoveredExits.permit allowed)
  have valid : (liveOutline n).Valid earlier :=
    Outline.Valid.run (.init ⟨.new True n, .new n⟩ (settled_new .any))
      (before.mono fun _ _ allowed => LiveServers.permit allowed.1)
  have run := after.mono fun _ _ allowed => LiveServers.permit allowed
  obtain ⟨_, _, same, final, _⟩ := valid.finished returned
  cases same
  obtain ⟨_, rfl⟩ := finalTail_eq_some.mp final
  obtain ⟨holder, covers⟩ := covered_of_quiescent covered quiescent inside below
  have told := (readPromise any_trims (coveringView True holder pos)).result valid
    (coveringView_fact covers) run started reads pos rfl
  have found := coveringView_result told
  have finished := (valid.run run).finished reads
  cases result with
  | error error =>
      obtain ⟨_, rfl, trimmed⟩ := finished
      exact Or.inr ⟨rfl, trimmed⟩
  | ok value =>
      obtain ⟨_, entry, rfl, _⟩ := finished
      cases entry with
      | none => exact absurd rfl found
      | some entry => exact Or.inl ⟨entry, rfl⟩

/-- The append is given position 1, and every server is sealed before the store
of its entry arrives. -/
def overtakenBySeal : List (NativeLogsAction 3) :=
  [.start (.append (.new [1]))] ++ polls 0 2 ++ serveSequencer ++ polls 0 1 ++ sealAlone 3 1 ++
    polls 0 4 ++ serveAll 3 ++ polls 0 4

def readMissing : List (NativeLogsAction 3) :=
  ([.start (.read 1)] : List (NativeLogsAction 3)) ++
    ((List.finRange 3).map fun server => ([.poll 2, .background (.serve (.logServer server)),
      .poll 2] : List (NativeLogsAction 3))).flatten ++ polls 2 1

set_option maxRecDepth 10000 in
theorem not_no_holes_overtaken :
    ¬ ∀ (n : Nat) (earlier later : NativeLogs n) (sealer tail pos reader : Nat)
      (result : LogletResult), 1 ≤ n →
      (nativeLogs n).Run LiveServers (new n) earlier →
      (nativeLogs n).Run LiveServers earlier later →
      earlier.Returned sealer .seal (.ok (.pos tail)) → earlier.Quiescent LogletOp.IsAppend →
      1 ≤ pos → pos < tail → earlier.calls.length ≤ reader →
      later.Returned reader (.read pos) result →
      (∃ entry, result = .ok (.entry (some entry))) ∨ result = .error (.trimmed pos) := by
  intro readable
  obtain ⟨earlier, later, before, after, seen, seen'⟩ := Machine.exists_runs_of_execute
    (nativeLogs 3) LiveServers (new 3) overtakenBySeal readMissing System.calls
    [⟨.append (.new [1]), .finished (.error (.sealed 1))⟩, ⟨.seal, .finished (.ok (.pos 2))⟩]
    [⟨.append (.new [1]), .finished (.error (.sealed 1))⟩, ⟨.seal, .finished (.ok (.pos 2))⟩,
      ⟨.read 1, .finished (.ok (.entry none))⟩] (by decide)
  have quiescent : earlier.Quiescent LogletOp.IsAppend :=
    System.quiescent_of_all (by rw [seen]; rfl)
  have length : earlier.calls.length ≤ 2 := Nat.le_of_eq (congrArg List.length seen)
  rcases readable 3 earlier later 1 2 1 2 _ (by decide) before after
    (congrArg (fun calls => calls[1]?) seen) quiescent (by decide) (by decide) length
    (congrArg (fun calls => calls[2]?) seen') with ⟨entry, same⟩ | same
  · cases same
  · cases same

/-- One server stores the entry before the seal reaches it. -/
def partlyOvertaken : List (NativeLogsAction 3) :=
  ([.start (.append (.new [1]))] : List (NativeLogsAction 3)) ++ polls 0 2 ++ serveSequencer ++
    polls 0 2 ++ ([.background (.serve (.logServer 0))] : List (NativeLogsAction 3)) ++
    sealAlone 3 1 ++ polls 0 3 ++ ([.background (.serve (.logServer 1)),
      .background (.serve (.logServer 2))] : List (NativeLogsAction 3)) ++ polls 0 4

set_option maxRecDepth 10000 in
theorem no_holes_partly_overtaken : ∃ earlier later : NativeLogs 3,
    earlier.Returned 0 (.append (.new [1])) (.error (.sealed 1)) ∧
    earlier.Returned 1 .seal (.ok (.pos 2)) ∧ ∃ result, later.Returned 2 (.read 1) result ∧
    ((∃ entry, result = .ok (.entry (some entry))) ∨ (result = .error (.trimmed 1) ∧
      ∃ server, 1 < (later.shared.logServers server).trimPos)) := by
  obtain ⟨earlier, later, before, after, seen, seen'⟩ := Machine.exists_runs_of_execute
    (nativeLogs 3) CoveredExits (new 3) partlyOvertaken (readAlone 3 2 1 (by decide)) System.calls
    [⟨.append (.new [1]), .finished (.error (.sealed 1))⟩, ⟨.seal, .finished (.ok (.pos 2))⟩]
    [⟨.append (.new [1]), .finished (.error (.sealed 1))⟩, ⟨.seal, .finished (.ok (.pos 2))⟩,
      ⟨.read 1, .finished (.ok (.entry (some (.new [1]))))⟩] (by decide)
  have quiescent : earlier.Quiescent LogletOp.IsAppend :=
    System.quiescent_of_all (by rw [seen]; rfl)
  have length : earlier.calls.length ≤ 2 := Nat.le_of_eq (congrArg List.length seen)
  have sealedAt : earlier.Returned 1 .seal (.ok (.pos 2)) := congrArg (fun calls => calls[1]?) seen
  have reads : later.Returned 2 (.read 1) (.ok (.entry (some (.new [1])))) :=
    congrArg (fun calls => calls[2]?) seen'
  exact ⟨earlier, later, congrArg (fun calls => calls[0]?) seen, sealedAt, _, reads,
    no_holes before (after.mono fun _ _ allowed => allowed.1) sealedAt quiescent (by decide)
      (by decide) length reads⟩

end NativeLogs

end Relos
