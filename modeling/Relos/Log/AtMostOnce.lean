import Relos.Log.SegmentIds
import Relos.Log.Placement

set_option autoImplicit false

/-! One virtual log over replicated loglets. Its appends place their entry once,
unless a log server stored it before a seal kept the append below its quorum. -/

namespace Relos

open Async Epochs

theorem NativeLoglet.pollOk_of_plain {n : Nat} {exit : Exit} {trims : Prop} {state : NativeLoglet n}
    {index : Nat} {op : LogletOp} {future : Future} (running : Running exit trims state index op future)
    (silent : ¬ op.IsAppend) : PollOk exit state future := by
  cases future with
  | storeReplies pos receivers ackCount sealTail =>
      obtain ⟨entry, _, _, rfl, _⟩ := running
      exact absurd trivial silent
  | append | nextPos | nextPosReply | markSealed | checkTail | checkTailReply | fanOutStore | read
  | readReply | fanOutTrim | trimReplies | sealSequencer | sealSequencerReply | fanOutSeal
  | sealReplies => trivial

abbrev NativeVirtualLogs (n : Nat) := System (Cluster Unit (NativeLoglet n)) (Unit × LogletOp)
  (VirtualLog.Future NativeLoglet.Future) LogletResult

abbrev NativeVirtualLogsAction (n : Nat) :=
  Action (Unit × LogletOp) (ClusterEvent Unit (NativeLoglet.Event n))

abbrev nativeVirtualLogs (n : Nat) : Machine (NativeVirtualLogs n) (NativeVirtualLogsAction n) :=
  (virtualLogComponent .fresh (nativeComponent n)).machine

namespace NativeVirtualLogs

variable {n : Nat}

def new (n : Nat) (initialLogletId : String) : NativeVirtualLogs n :=
  .fresh (.new initialLogletId (.new n))

/-- One append at a time, each with an entry of its own, beside any other calls
but trims. No log server stops. -/
def SoloAppends (system : NativeVirtualLogs n) : NativeVirtualLogsAction n → Prop
  | .start call => ¬ call.2.IsTrim ∧ NewEntry system call.2 ∧
      ∀ who, VirtualLog.appendOf call = some who → system.Idle VirtualLog.appendOf who
  | .poll _ => True
  | .background (.loglet _ (.serve _)) => True
  | .background (.loglet _ (.stop _)) => False
  | .background (.openLog _) => False
  | .background (.factory _) => True

/-- A loglet append that ends below its quorum has its entry on no server. -/
def UnstoredExit (cluster : Cluster Unit (NativeLoglet n)) :
    VirtualLog.Future NativeLoglet.Future → Prop
  | .append loglet _ future => NativeLoglet.PollOk .unstored (cluster.heap loglet) future
  | _ => True

def UnstoredExits (system : NativeVirtualLogs n) (action : NativeVirtualLogsAction n) : Prop :=
  system.SoloAppends action ∧
    match action with
    | .poll index =>
        Call.Meets (fun _ future => UnstoredExit system.shared future) system.calls[index]?
    | _ => True

instance (system : NativeVirtualLogs n) (action : NativeVirtualLogsAction n) :
    Decidable (system.SoloAppends action) :=
  match action with
  | .start call => inferInstanceAs (Decidable (_ ∧ _ ∧
      ∀ who, who ∈ VirtualLog.appendOf call → system.Idle VirtualLog.appendOf who))
  | .poll _ => isTrue trivial
  | .background (.loglet _ (.serve _)) => isTrue trivial
  | .background (.loglet _ (.stop _)) => isFalse id
  | .background (.openLog _) => isFalse id
  | .background (.factory _) => isTrue trivial

instance (state : NativeLoglet n) (future : NativeLoglet.Future) :
    Decidable (NativeLoglet.PollOk .unstored state future) :=
  match future with
  | .storeReplies pos [] ackCount _ => inferInstanceAs (Decidable (ackCount < quorumSize n →
      ∀ server, (state.logServers server).entries[pos]? = none))
  | .storeReplies _ (_ :: _) _ _ | .append | .nextPos | .nextPosReply _ | .markSealed | .checkTail
  | .checkTailReply _ | .fanOutStore _ _ | .read _ _ | .readReply _ _ _ | .fanOutTrim _ _
  | .trimReplies _ | .sealSequencer | .sealSequencerReply _ | .fanOutSeal _ _
  | .sealReplies _ _ _ _ => isTrue trivial

instance (cluster : Cluster Unit (NativeLoglet n)) (future : VirtualLog.Future NativeLoglet.Future) :
    Decidable (UnstoredExit cluster future) := by
  cases future <;> unfold UnstoredExit <;> infer_instance

instance (system : NativeVirtualLogs n) (action : NativeVirtualLogsAction n) :
    Decidable (system.UnstoredExits action) :=
  match action with
  | .start _ => inferInstanceAs (Decidable (_ ∧ True))
  | .poll index => inferInstanceAs (Decidable (_ ∧ Call.Meets
      (fun _ future => UnstoredExit system.shared future) system.calls[index]?))
  | .background _ => inferInstanceAs (Decidable (_ ∧ True))

/-- Some log server of the loglet holds the entry at the local position. -/
def Stored (system : NativeVirtualLogs n) (loglet : LogletRef) (localPos : Nat) (entry : Entry) :
    Prop :=
  ∃ server, ((system.shared.heap loglet).logServers server).entries[localPos]? = some entry

/-- What appends promise, seen from a later state of the same run. -/
structure AtMostOnce (earlier later : NativeVirtualLogs n) : Prop where
  readBack : ∀ owner entry globalPos reader result,
    earlier.Returned owner ((), .append entry) (.ok (.pos globalPos)) →
    earlier.calls.length ≤ reader → later.Returned reader ((), .read globalPos) result →
    result = .ok (.entry (some entry))
  once : ∀ owner entry globalPos reader other,
    later.Returned owner ((), .append entry) (.ok (.pos globalPos)) →
    later.Returned reader ((), .read other) (.ok (.entry (some entry))) → other = globalPos
  -- a call that is not appending to the loglet has not started or was rejected there
  rejected : ∀ owner entry future loglet localPos,
    later.Pending owner ((), .append entry) future →
    (∀ startPos fut, future ≠ .append loglet startPos fut) → ¬ later.Stored loglet localPos entry
  failed : ∀ owner entry error loglet localPos,
    later.Returned owner ((), .append entry) (.error error) → ¬ later.Stored loglet localPos entry

section Runs

variable {initial : String} {system next : NativeVirtualLogs n}

abbrev outline (n : Nat) (initial : String) :=
  VirtualLog.virtualLogOutline Unit (nativeOnce n).toLogletOutline .fresh initial

theorem unit_single : Factory.fresh = .fresh → Subsingleton Unit := fun _ => inferInstance

theorem valid_new (n : Nat) (initial : String) : (outline n initial).Valid (new n initial) :=
  .init (.new (nativeOnce n).toLogletOutline .fresh initial (.new n) ⟨.new False n, .new n⟩)
    fun index _ => NativeLogs.settled_new .unstored index

/-- Only an append can end below its quorum. -/
theorem logletPollOk {cluster : Cluster Unit (NativeLoglet n)} {index : Nat} {call : Unit × LogletOp}
    {future : VirtualLog.Future NativeLoglet.Future}
    (running : VirtualLog.Knows (nativeOnce n).toLogletOutline .fresh initial cluster index call future)
    (unstored : UnstoredExit cluster future) :
    VirtualLog.LogletPollOk (nativeOnce n).toLogletOutline cluster index call.2 future := by
  cases future with
  | append loglet startPos future => exact unstored
  | checkTail loglet startPos future =>
      exact NativeLoglet.pollOk_of_plain running.2.2 fun impossible => impossible
  | «seal» loglet startPos future =>
      exact NativeLoglet.pollOk_of_plain running.2.2 fun impossible => impossible
  | reconfigureSeal loglet startPos future =>
      exact NativeLoglet.pollOk_of_plain running.2.2 fun impossible => impossible
  | read loglet localPos future =>
      exact NativeLoglet.pollOk_of_plain running.2 fun impossible => impossible
  | trim globalPos loglet localPos future todo =>
      exact NativeLoglet.pollOk_of_plain running.2 fun impossible => impossible
  | activeChain | activeLoglet | reconfigureVersion | reconfigureChain | reconfigureWrite
  | reconfigureCreate | reconfigureInsert | syncRead | syncLoglets | installChain | installVersion
  | readChain | readLoglets | trimChain | trimSegments => trivial

theorem SoloAppends.oneEach {action : NativeVirtualLogsAction n} (allowed : system.SoloAppends action) :
    OneEach VirtualLog.appendOf VirtualLog.touches system action := by
  cases action with
  | start call => exact allowed.2.2
  | poll index => trivial
  | background event =>
      cases event with
      | loglet loglet event => exact fun _ impossible => nomatch impossible
      | openLog node => exact allowed.elim
      | factory error => exact fun _ impossible => nomatch impossible

abbrev clients (n : Nat) (initial : String) :=
  VirtualLog.soloAppends (nativeOnce n).toLogletOutline initial

theorem UnstoredExits.pollOk {index : Nat} {call : Unit × LogletOp}
    {future : VirtualLog.Future NativeLoglet.Future} (allowed : system.UnstoredExits (.poll index))
    (pending : system.Pending index call future) : UnstoredExit system.shared future := by
  have met := allowed.2
  unfold System.Pending at pending
  simp only [pending] at met
  exact met

theorem UnstoredExits.permit (valid : (outline n initial).Valid system)
    (orderly : (clients n initial).Orderly system) {action : NativeVirtualLogsAction n}
    (allowed : Logs.UnderNewIds UnstoredExits system action) :
    (outline n initial).permit system action ∧ (clients n initial).permit system action := by
  cases action with
  | start call => exact ⟨fun trims => allowed.1.1.1 trims, trivial⟩
  | poll index =>
      refine ⟨fun call future pending => ?_, fun call future pending =>
        Logs.Anew.of_pending allowed.2 pending⟩
      have running := (valid.running pending).1
      refine ⟨VirtualLog.coherent_of_solo running fun appends => ?_,
        logletPollOk running (allowed.1.pollOk pending)⟩
      obtain ⟨node, op⟩ := call
      cases op with
      | append entry => exact orderly.busy index _ future () pending rfl
      | checkTail | read | trim | «seal» => exact appends.elim
  | background event =>
      cases event with
      | loglet loglet event =>
          cases event with
          | serve task => exact ⟨trivial, trivial⟩
          | stop server => exact allowed.1.1.elim
      | openLog node => exact allowed.1.1.elim
      | factory error => exact ⟨trivial, trivial⟩

theorem solo_valid (valid : (outline n initial).Valid system)
    (orderly : (clients n initial).Orderly system)
    (run : (nativeVirtualLogs n).Run (Logs.UnderNewIds UnstoredExits) system next) :
    (nativeVirtualLogs n).Run (outline n initial).permit system next ∧
      (outline n initial).Valid next ∧ (clients n initial).Orderly next :=
  PrivateOutline.orderly_run valid orderly (fun _ _ allowed => SoloAppends.oneEach allowed.1.1)
    (fun _ _ valid orderly allowed => UnstoredExits.permit valid orderly allowed) run

theorem distinct_run (distinct : DistinctEntries system)
    (run : (nativeVirtualLogs n).Run (Logs.UnderNewIds UnstoredExits) system next) :
    DistinctEntries next := by
  refine run.invariant DistinctEntries distinct fun state action last held allowed moved => ?_
  refine held.step (fun call same => ?_) moved
  subst same
  exact allowed.1.1.2.1

theorem stored_of_placed (valid : (outline n initial).Valid system) {loglet : LogletRef}
    {owner localPos : Nat} {entry : Entry}
    (placed : (nativeOnce n).Placed (system.shared.heap loglet) owner entry localPos) :
    system.Stored loglet localPos entry := by
  obtain ⟨server, accepted⟩ := placed
  exact ⟨server, accepted.held (valid.inv.heap loglet).1 fun impossible => impossible⟩

/-- A loglet backs one epoch. -/
theorem backs_epoch (valid : (outline n initial).Valid system) (distinct : Logs.DistinctIds system)
    {epoch epoch' : Nat} {loglet : LogletRef} (backs : system.shared.Backs initial () epoch loglet)
    (backs' : system.shared.Backs initial () epoch' loglet) : epoch = epoch' := by
  obtain ⟨named, _⟩ := valid.inv.known () _ loglet backs.2
  obtain ⟨named', _⟩ := valid.inv.known () _ loglet backs'.2
  have bound := valid.inv.epoch_le ()
  have inside : epoch ∈ List.range (system.shared.ends.length + 1) :=
    List.mem_range.mpr (Nat.lt_succ_of_le (Nat.le_trans backs.1 bound))
  have inside' : epoch' ∈ List.range (system.shared.ends.length + 1) :=
    List.mem_range.mpr (Nat.lt_succ_of_le (Nat.le_trans backs'.1 bound))
  unfold Logs.DistinctIds at distinct
  rw [valid.inv.chain, chainOf_ids] at distinct
  exact List.inj_on_of_nodup_map distinct inside inside' (named.symm.trans named')

/-- An entry on a log server belongs to the only call that appends it. -/
theorem owner_of_stored (valid : (outline n initial).Valid system) (distinct : DistinctEntries system)
    {owner : Nat} {entry : Entry} {progress : Progress (VirtualLog.Future NativeLoglet.Future) LogletResult}
    (called : system.calls[owner]? = some ⟨((), .append entry), progress⟩) {loglet : LogletRef}
    {localPos : Nat} (stored : system.Stored loglet localPos entry) :
    (∃ startPos fut, progress = .running (.append loglet startPos fut)) ∨
      ∃ epoch, system.shared.Backs initial () epoch loglet ∧ progress =
        .finished (.ok (.pos (localToGlobal (startAt system.shared.ends epoch) localPos))) := by
  obtain ⟨server, present⟩ := stored
  obtain ⟨placer, placed⟩ := (valid.inv.heap loglet).1.held present
  rcases VirtualLog.placed_call valid placed with ⟨node, ⟨startPos, fut, pending⟩ | ⟨epoch, backs, returned⟩⟩
  · cases distinct owner placer _ _ entry called pending rfl rfl
    cases Option.some.inj (called.symm.trans pending)
    exact Or.inl ⟨startPos, fut, rfl⟩
  · cases distinct owner placer _ _ entry called returned rfl rfl
    cases Option.some.inj (called.symm.trans returned)
    exact Or.inr ⟨epoch, backs, rfl⟩

/-- Appends are placed at most once if none of them ended below its quorum while
a log server held its entry, and no reconfiguration gave an id again. -/
theorem at_most_once {initial : String} {earlier later : NativeVirtualLogs n}
    (before : (nativeVirtualLogs n).Run (Logs.UnderNewIds UnstoredExits) (new n initial) earlier)
    (after : (nativeVirtualLogs n).Run (Logs.UnderNewIds UnstoredExits) earlier later) :
    AtMostOnce earlier later := by
  obtain ⟨_, valid, orderly⟩ := solo_valid (valid_new n initial) (.fresh fun _ => rfl) before
  obtain ⟨run, valid', _⟩ := solo_valid valid orderly after
  have distinct : DistinctEntries later :=
    distinct_run (distinct_run (.fresh _) before) after
  refine ⟨?_, ?_, ?_, ?_⟩
  · intro owner entry globalPos reader result returned started reads
    obtain ⟨_, same, appended⟩ := (valid.finished returned).1
    cases same
    exact (VirtualLog.readPromise (nativeOnce n).toDurableOutline .fresh initial unit_single ()
      owner entry globalPos).result valid (appended.durableAt valid.inv) run started reads rfl
  · intro owner entry globalPos reader other returned reads
    obtain ⟨_, same, placed⟩ := (valid'.finished reads).1
    cases same
    obtain ⟨_, epoch, loglet, localPos, backs, occupied, rfl⟩ := placed entry rfl
    rcases owner_of_stored valid' distinct returned (stored_of_placed valid' occupied) with
      ⟨_, _, impossible⟩ | ⟨epoch', backs', same⟩
    · cases impossible
    · cases same
      rw [backs_epoch valid' (Logs.distinctIds_run (before.trans after)) backs backs']
  · intro owner entry future loglet localPos pending elsewhere stored
    rcases owner_of_stored valid' distinct pending stored with ⟨startPos, fut, same⟩ |
      ⟨_, _, impossible⟩
    · cases same
      exact elsewhere startPos fut rfl
    · cases impossible
  · intro owner entry error loglet localPos returned stored
    rcases owner_of_stored valid' distinct returned stored with ⟨_, _, impossible⟩ |
      ⟨_, _, impossible⟩ <;> cases impossible

end Runs

/-! ### Schedules -/

theorem native_foreign (index : Nat) : "native-0" ≠ generatedId (index + 1) :=
  foreign_of_head (by decide) index

def polls (index count : Nat) : List (NativeVirtualLogsAction n) := List.replicate count (.poll index)

def serve (loglet : LogletRef) (task : Task n) : List (NativeVirtualLogsAction n) :=
  [.background (.loglet loglet (.serve task))]

/-- One turn of every log server of the loglet. -/
def serveAll (loglet : LogletRef) : List (NativeVirtualLogsAction n) :=
  (List.finRange n).map fun server => .background (.loglet loglet (.serve (.logServer server)))

/-- From the first request of `append` or `seal` to its last reply. -/
def callLoglet (index : Nat) (loglet : LogletRef) : List (NativeVirtualLogsAction n) :=
  polls index 1 ++ serve loglet .sequencer ++ polls index (n + 2) ++ serveAll loglet ++
    polls index (n + 1)

/-- An append that was rejected seals the loglet itself, opens the next segment
and appends there. -/
def retry (index : Nat) (loglet newLoglet : LogletRef) : List (NativeVirtualLogsAction n) :=
  polls index 2 ++ callLoglet index loglet ++ polls index 10 ++ callLoglet index newLoglet

def readFrom (server : Fin 3) (index pos : Nat) (loglet : LogletRef) :
    List (NativeVirtualLogsAction 3) :=
  [.start ((), .read pos)] ++ polls index 3 ++ serve loglet (.logServer server) ++ polls index 1

/-- The seal overtakes the stores of the append on all servers but the first `ahead`. -/
def overtaken (ahead : Nat) : List (NativeVirtualLogsAction 3) :=
  let loglet : LogletRef := ⟨"native-0", 0⟩
  let servers := (List.finRange 3).map fun server => serve loglet (.logServer server)
  ([.start ((), .append (.new [1]))] : List (NativeVirtualLogsAction 3)) ++ polls 0 4 ++
    serve loglet .sequencer ++ polls 0 (1 + ahead) ++ (servers.take ahead).flatten ++
    ([.start ((), .seal)] : List (NativeVirtualLogsAction 3)) ++ polls 1 2 ++
    callLoglet 1 loglet ++ polls 0 (4 - ahead) ++ (servers.drop ahead).flatten ++ polls 0 4 ++
    retry 0 loglet ⟨"loglet-1", 1⟩

def retried : List (Call (Unit × LogletOp) (VirtualLog.Future NativeLoglet.Future) LogletResult) :=
  [⟨((), .append (.new [1])), .finished (.ok (.pos 2))⟩, ⟨((), .seal), .finished (.ok (.pos 2))⟩]

theorem not_at_most_once_overtaken :
    ¬ ∀ (n : Nat) (initial : String) (earlier later : NativeVirtualLogs n), 1 ≤ n →
      (∀ index, initial ≠ generatedId (index + 1)) →
      (nativeVirtualLogs n).Run SoloAppends (new n initial) earlier →
      (nativeVirtualLogs n).Run SoloAppends earlier later → AtMostOnce earlier later := by
  intro promised
  obtain ⟨earlier, later, before, after, _, seen⟩ := Machine.exists_runs_of_execute
    (nativeVirtualLogs 3) SoloAppends (new 3 "native-0") (overtaken 1)
    (readFrom 0 2 1 ⟨"native-0", 0⟩) System.calls retried
    (retried ++ [⟨((), .read 1), .finished (.ok (.entry (some (.new [1]))))⟩]) (by decide +kernel)
  have once := (promised 3 "native-0" earlier later (by decide) native_foreign before after).once
    0 (.new [1]) 2 2 1 (congrArg (fun calls => calls[0]?) seen)
    (congrArg (fun calls => calls[2]?) seen)
  cases once

/-- The entry is read in the segment of the retry. -/
theorem at_most_once_overtaken : ∃ earlier later : NativeVirtualLogs 3,
    earlier.Returned 0 ((), .append (.new [1])) (.ok (.pos 2)) ∧
    later.Returned 2 ((), .read 2) (.ok (.entry (some (.new [1])))) ∧ AtMostOnce earlier later := by
  obtain ⟨earlier, later, before, after, seen, seen'⟩ := Machine.exists_runs_of_execute
    (nativeVirtualLogs 3) (Logs.UnderNewIds UnstoredExits) (new 3 "native-0") (overtaken 0)
    (readFrom 0 2 2 ⟨"loglet-1", 1⟩) System.calls retried
    (retried ++ [⟨((), .read 2), .finished (.ok (.entry (some (.new [1]))))⟩]) (by decide +kernel)
  exact ⟨earlier, later, congrArg (fun calls => calls[0]?) seen,
    congrArg (fun calls => calls[2]?) seen', at_most_once before after⟩

end NativeVirtualLogs

end Relos
