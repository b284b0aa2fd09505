import Relos.Log.SegmentRefinement

set_option autoImplicit false

/-! The positions that trimmed errors name. A loglet counts its own positions from one,
and a read passes the error of the loglet on as it is. -/

namespace Relos

open Async Epochs

/-- The segment that holds the position starts where the log starts, so its loglet
counts as the log does. -/
def LogChain.Unshifted (chain : LogChain) (pos : Nat) : Prop :=
  (chain.findSegment pos).map ChainSegment.startPos = some logPosBegin

theorem MemoryLoglet.read_trimmed {loglet : MemoryLoglet} {pos named : Nat}
    (failed : loglet.read pos = .error (.trimmed named)) : named = pos := by
  unfold MemoryLoglet.read at failed
  split at failed
  · cases failed
    rfl
  · split at failed <;> cases failed

namespace SegmentedLog

variable {initial : String} {log : SegmentedLog initial} {index pos named : Nat}

/-- The error names the position in the segment. -/
theorem answers_trimmed (answers : log.Answers (.read pos) (.error (.trimmed named))) :
    ∃ index, log.Covers index pos ∧ named = globalToLocal (log.startPos index) pos := by
  rcases answers with ⟨-, impossible⟩ | ⟨index, covers, same⟩
  · cases impossible
  · cases held : (log.loglet index).read (globalToLocal (log.startPos index) pos) with
    | ok entry =>
        rw [held] at same
        cases same
    | error error =>
        rw [held] at same
        cases same
        exact ⟨index, covers, MemoryLoglet.read_trimmed held⟩

theorem Covers.unshifted_iff (covers : log.Covers index pos) :
    (chainOf initial log.ends).Unshifted pos ↔ log.startPos index = logPosBegin := by
  unfold LogChain.Unshifted
  rw [findSegment_chainOf log.ordered covers.inside covers.starts covers.ends]
  exact Option.some_inj

/-- In the segment, local and global positions agree only if it starts the log. -/
theorem Covers.local_iff (covers : log.Covers index pos) :
    globalToLocal (log.startPos index) pos = pos ↔ log.startPos index = logPosBegin := by
  have starts := covers.starts
  have positive : logPosBegin ≤ log.startPos index := log.ordered.startAt_pos covers.inside
  unfold globalToLocal
  simp only [logPosBegin] at positive ⊢
  omega

theorem named_iff (answers : log.Answers (.read pos) (.error (.trimmed named))) :
    named = pos ↔ (chainOf initial log.ends).Unshifted pos := by
  obtain ⟨index, covers, rfl⟩ := answers_trimmed answers
  rw [covers.unshifted_iff]
  exact covers.local_iff

end SegmentedLog

open SegmentedLog

variable {State Fut Event : Type} {component : LogletComponent State Fut Event}
  {quiet : Event → Prop} {state : State}

/-- The calls of one instance, one at a time. -/
abbrev InSequence (initial : String) (component : LogletComponent State Fut Event)
    (quiet : Event → Prop) (earlier later : System (Cluster Unit State) (Unit × LogletOp)
      (VirtualLog.Future Fut) LogletResult) : Prop :=
  (virtualLogComponent .fresh component).machine.Run
    ((segmentedSpec initial).permit (ClusterEvent.IsQuiet quiet) .new) earlier later

/-- A read that is made between two calls is answered by the log that the chain lays out. -/
theorem trimmed_names (acts : ActsAsMemory component quiet state) {initial : String}
    {earlier later : System (Cluster Unit State) (Unit × LogletOp) (VirtualLog.Future Fut)
      LogletResult}
    (before : InSequence initial component quiet (.fresh (Cluster.new initial state)) earlier)
    (settled : earlier.Settled) (after : InSequence initial component quiet earlier later) {pos named : Nat}
    (returned : later.Returned earlier.calls.length ((), .read pos) (.error (.trimmed named))) :
    named = pos ↔ (earlier.shared.logs ()).chain.Unshifted pos := by
  have idle := atRest_new acts initial
  have rests := (SegmentedLog.simulation acts initial).idle_of_settled idle before settled
  have answers := ((SegmentedLog.simulation acts initial).served idle (before.trans after)).1 _ _ _
    returned
  have calls : later.ops.take earlier.calls.length = earlier.ops := by
    have length : earlier.calls.length = earlier.ops.length := (List.length_map _).symm
    rw [length]
    exact (List.prefix_iff_eq_take.mp (Component.ops_run after)).symm
  rw [calls] at answers
  rw [rests.chain]
  exact named_iff answers

/-- A trimmed error names the position that was asked for exactly if the segment that
holds the position starts the log. -/
theorem trimmed_names_iff (initial : String) :
    (∀ earlier later pos named,
      InSequence initial memoryComponent (fun _ => False) (.fresh (Cluster.new initial .new))
        earlier →
      earlier.Settled → InSequence initial memoryComponent (fun _ => False) earlier later →
      later.Returned earlier.calls.length ((), .read pos) (.error (.trimmed named)) →
      (named = pos ↔ (earlier.shared.logs ()).chain.Unshifted pos)) ∧
    ∀ n earlier later pos named, 0 < n →
      InSequence initial (nativeComponent n) NativeLoglet.Event.IsServe
        (.fresh (Cluster.new initial (.new n))) earlier →
      earlier.Settled →
      InSequence initial (nativeComponent n) NativeLoglet.Event.IsServe earlier later →
      later.Returned earlier.calls.length ((), .read pos) (.error (.trimmed named)) →
      (named = pos ↔ (earlier.shared.logs ()).chain.Unshifted pos) :=
  ⟨fun _ _ _ _ before settled after returned =>
      trimmed_names memoryActs before settled after returned,
    fun _ _ _ _ _ positive before settled after returned =>
      trimmed_names (nativeActs positive) before settled after returned⟩

abbrev NativeAction := Action (Unit × LogletOp) (ClusterEvent Unit (NativeLoglet.Event 1))

/-- A task of the first loglet, or of the second, takes its next message. -/
def serveFirst (task : Task 1) : NativeAction :=
  .background (.loglet ⟨"main", 0⟩ (.serve task))

def serveSecond (task : Task 1) : NativeAction :=
  .background (.loglet ⟨"loglet-1", 1⟩ (.serve task))

/-- The first loglet is sealed while it is empty, an append replaces it, and the log is
trimmed. -/
def replacesEmpty : List NativeAction :=
  [.start ((), .seal) :: List.replicate 3 (.poll 0), serveFirst .sequencer :: List.replicate 3 (.poll 0),
    serveFirst (.logServer 0) :: List.replicate 2 (.poll 0),
    .start ((), .append (.new [1])) :: List.replicate 4 (.poll 1),
    serveFirst .sequencer :: List.replicate 4 (.poll 1),
    serveFirst .sequencer :: List.replicate 3 (.poll 1),
    serveFirst (.logServer 0) :: List.replicate 13 (.poll 1),
    serveSecond .sequencer :: List.replicate 3 (.poll 1),
    serveSecond (.logServer 0) :: List.replicate 2 (.poll 1),
    .start ((), .trim 2) :: List.replicate 4 (.poll 2),
    serveFirst (.logServer 0) :: List.replicate 5 (.poll 2),
    serveSecond (.logServer 0) :: List.replicate 3 (.poll 2)].flatten

set_option synthInstance.maxSize 256 in
/-- A read behind an empty closed segment. -/
theorem trimmed_names_behind_empty : ∃ earlier later,
    InSequence "main" (nativeComponent 1) NativeLoglet.Event.IsServe
      (.fresh (Cluster.new "main" (.new 1))) earlier ∧
    InSequence "main" (nativeComponent 1) NativeLoglet.Event.IsServe earlier later ∧
    (earlier.shared.logs ()).chain = chainOf "main" [1] ∧
    later.Returned 3 ((), .read 1) (.error (.trimmed 1)) ∧
    (earlier.shared.logs ()).chain.Unshifted 1 := by
  obtain ⟨earlier, later, before, after, seen, seen'⟩ := Machine.exists_runs_of_execute
    (virtualLogComponent .fresh (nativeComponent 1)).machine
    ((segmentedSpec "main").permit (ClusterEvent.IsQuiet NativeLoglet.Event.IsServe) .new)
    (.fresh (Cluster.new "main" (.new 1))) replacesEmpty
    [.start ((), .read 1), .poll 3, .poll 3, .poll 3, serveSecond (.logServer 0), .poll 3]
    (fun system => ((system.shared.logs ()).chain, system.calls))
    (chainOf "main" [1], [⟨((), .seal), .finished (.ok (.pos 1))⟩,
      ⟨((), .append (.new [1])), .finished (.ok (.pos 1))⟩, ⟨((), .trim 2), .finished (.ok .unit)⟩])
    (chainOf "main" [1], [⟨((), .seal), .finished (.ok (.pos 1))⟩,
      ⟨((), .append (.new [1])), .finished (.ok (.pos 1))⟩, ⟨((), .trim 2), .finished (.ok .unit)⟩,
      ⟨((), .read 1), .finished (.error (.trimmed 1))⟩])
    (by decide +kernel)
  obtain ⟨chain, calls⟩ := Prod.mk.inj seen
  have settled : earlier.Settled := by
    unfold System.Settled
    rw [calls]
    decide
  have returned : later.Returned 3 ((), .read 1) (.error (.trimmed 1)) :=
    congrArg (fun calls => calls[3]?) (Prod.mk.inj seen').2
  have last : earlier.calls.length = 3 := congrArg List.length calls
  have reads : later.Returned earlier.calls.length ((), .read 1) (.error (.trimmed 1)) :=
    last.symm ▸ returned
  exact ⟨earlier, later, before, after, chain, returned,
    ((trimmed_names_iff "main").2 1 earlier later 1 1 Nat.one_pos before settled after reads).mp rfl⟩

/-- The second segment starts at position 2, and its loglet calls that its first. -/
theorem not_trimmed_names : ¬ ∀ system,
    InSequence "main" memoryComponent (fun _ => False) (.fresh (Cluster.new "main" .new)) system →
    ∀ index pos named, logPosBegin ≤ pos →
      system.Returned index ((), .read pos) (.error (.trimmed named)) → named = pos := by
  intro names
  obtain ⟨system, run, seen⟩ := Machine.exists_run_of_execute
    (virtualLogComponent .fresh memoryComponent).machine
    ((segmentedSpec "main").permit (ClusterEvent.IsQuiet fun _ => False) .new)
    (.fresh (Cluster.new "main" .new))
    [.start ((), .append (.new [1])) :: List.replicate 3 (.poll 0),
      .start ((), .seal) :: List.replicate 3 (.poll 1),
      .start ((), .append (.new [2])) :: List.replicate 16 (.poll 2),
      .start ((), .trim 3) :: List.replicate 6 (.poll 3),
      .start ((), .read 2) :: List.replicate 3 (.poll 4)].flatten
    (fun system => system.calls[4]?)
    (some ⟨((), .read 2), .finished (.error (.trimmed 1))⟩) (by decide +kernel)
  exact absurd (names system run 4 2 1 (by decide) seen) (by decide)

end Relos
