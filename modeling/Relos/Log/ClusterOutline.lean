import Relos.Log.ClusterInvariant
import Relos.Log.Positions

set_option autoImplicit false

/-! The outline of virtual logs: what every suspended call knows, what every
returned result means, and the conditions under which the reconfiguration of a
shared instance keeps the cluster invariant. -/

namespace Relos

open Async Epochs

variable {Node State Fut Event : Type} {component : LogletComponent State Fut Event}

theorem Epochs.chainOf_ids (initial : String) (ends : List Nat) :
    (chainOf initial ends).ids = (List.range (ends.length + 1)).map (idAt initial) := by
  unfold chainOf LogChain.ids
  rw [List.map_map]
  rfl

namespace VirtualLog

/-- The operations in which `get_active_loglet` has this caller. -/
def Caller.Serves : Caller → LogletOp → Prop
  | .append, op => op.IsAppend
  | .reconfigure, op => op.IsAppend
  | .checkTail, op => op = .checkTail
  | .seal, op => op = .seal

/-- The conditions on the steps of a shared instance. A CAS that is going to
succeed must close the segment whose loglet this call sealed; a new loglet must
not replace another one; and the cached chain must not be replaced by a shorter
one. -/
def Coherent {Fut : Type} (cluster : Cluster Node State) (node : Node) : Future Fut → Prop
  | .reconfigureWrite loglet startPos version newChain _ =>
      cluster.metaStore.version = version →
        lastSegment newChain.segments.dropLast = some (loglet.logletId, startPos)
  | .reconfigureInsert _ _ newLogletId newLoglet =>
      ∀ held, cluster.Holds node newLogletId held → held = newLoglet
  | .installChain newChain _ =>
      (cluster.logs node).chain.segments.length ≤ newChain.segments.length
  | _ => True

/-- A CAS that is going to succeed gives the new segment an id that no other has. -/
def NamesAnew {Fut : Type} (cluster : Cluster Node State) : Future Fut → Prop
  | .reconfigureWrite _ _ version newChain _ =>
      cluster.metaStore.version = version → newChain.ids.Nodup
  | _ => True

instance {Fut : Type} (cluster : Cluster Node State) (future : Future Fut) :
    Decidable (NamesAnew cluster future) :=
  match future with
  | .reconfigureWrite _ _ version newChain _ =>
      inferInstanceAs (Decidable (cluster.metaStore.version = version → newChain.ids.Nodup))
  | .activeChain _ | .activeLoglet _ _ _ | .append _ _ _ | .checkTail _ _ _ | .seal _ _ _
  | .reconfigureSeal _ _ _ | .reconfigureVersion _ _ _ | .reconfigureChain _ _ _ _
  | .reconfigureCreate _ _ _ | .reconfigureInsert _ _ _ _ | .syncRead | .syncLoglets _ _ _
  | .installChain _ _ | .installVersion _ | .readChain _ | .readLoglets _ _ | .read _ _ _
  | .trimChain _ | .trimSegments _ _ | .trim _ _ _ _ _ => isTrue trivial

section Outline

variable (outline : LogletOutline component) (factory : Factory) (initial : String)

/-- A loglet that is being called backs an epoch of the cached chain. -/
def Located (cluster : Cluster Node State) (node : Node) (loglet : LogletRef) (startPos : Nat) :
    Prop :=
  ∃ epoch, cluster.Backs initial node epoch loglet ∧ startPos = startAt cluster.ends epoch

def SealedAt (cluster : Cluster Node State) (node : Node) (loglet : LogletRef)
    (startPos sealPos : Nat) : Prop :=
  Located initial cluster node loglet startPos ∧
    ∃ tail, outline.finalTail (cluster.heap loglet) = some tail ∧
      sealPos = localToGlobal startPos tail

/-- The chain of version `version`, with its loglets held by the instance. -/
def Installable (cluster : Cluster Node State) (node : Node) (newChain : LogChain)
    (version : Nat) : Prop :=
  version ≤ cluster.ends.length ∧ newChain = chainOf initial (cluster.ends.take version) ∧
    ∀ epoch, epoch ≤ version → ∃ loglet, cluster.Holds node (idAt initial epoch) loglet

/-- A chain that this call has written, while its new loglet is still missing. -/
def Written (cluster : Cluster Node State) (node : Node) (version : Nat) (newChain : LogChain)
    (newLogletId : String) : Prop :=
  version ≤ cluster.epoch node ∧ version + 1 ≤ cluster.ends.length ∧
    newChain = chainOf initial (cluster.ends.take (version + 1)) ∧
    newLogletId = idAt initial (version + 1)

/-- What a suspended call knows of its instance and of the loglet it calls. -/
def Knows (cluster : Cluster Node State) (index : Nat) (call : Node × LogletOp) :
    Future Fut → Prop
  | .activeChain caller => caller.Serves call.2
  | .activeLoglet caller startPos logletId => caller.Serves call.2 ∧
      ∃ epoch, epoch ≤ cluster.epoch call.1 ∧ logletId = idAt initial epoch ∧
        startPos = startAt cluster.ends epoch
  | .append loglet startPos future => call.2.IsAppend ∧
      Located initial cluster call.1 loglet startPos ∧
      outline.Running (cluster.heap loglet) index call.2 future
  | .checkTail loglet startPos future => call.2 = .checkTail ∧
      Located initial cluster call.1 loglet startPos ∧
      outline.Running (cluster.heap loglet) index .checkTail future
  | .seal loglet startPos future => call.2 = .seal ∧
      Located initial cluster call.1 loglet startPos ∧
      outline.Running (cluster.heap loglet) index .seal future
  | .reconfigureSeal loglet startPos future => call.2.IsAppend ∧
      Located initial cluster call.1 loglet startPos ∧
      outline.Running (cluster.heap loglet) index .seal future
  | .reconfigureVersion loglet startPos globalSealPos => call.2.IsAppend ∧
      SealedAt outline initial cluster call.1 loglet startPos globalSealPos
  | .reconfigureChain loglet startPos globalSealPos version => call.2.IsAppend ∧
      SealedAt outline initial cluster call.1 loglet startPos globalSealPos ∧
      version ≤ cluster.epoch call.1
  | .reconfigureWrite loglet startPos version newChain newLogletId => call.2.IsAppend ∧
      ∃ epoch globalSealPos, SealedAt outline initial cluster call.1 loglet startPos globalSealPos ∧
        version ≤ epoch ∧ epoch ≤ cluster.epoch call.1 ∧
        newChain = (chainOf initial (cluster.ends.take epoch)).extend globalSealPos newLogletId ∧
        newLogletId = idAt initial (epoch + 1)
  | .reconfigureCreate version newChain newLogletId => call.2.IsAppend ∧
      Written initial cluster call.1 version newChain newLogletId
  | .reconfigureInsert version newChain newLogletId newLoglet => call.2.IsAppend ∧
      Written initial cluster call.1 version newChain newLogletId ∧
      newLoglet.logletId = newLogletId ∧ (factory = .shared → newLoglet.serial = 0)
  | .syncRead => call.2.IsAppend
  | .syncLoglets todo newChain newVersion => call.2.IsAppend ∧
      newVersion ≤ cluster.ends.length ∧
      newChain = chainOf initial (cluster.ends.take newVersion) ∧
      (∀ segment, segment ∈ todo → ∃ epoch, epoch ≤ newVersion ∧
        segment.logletId = idAt initial epoch) ∧
      ∀ epoch, epoch ≤ newVersion → (∃ loglet, cluster.Holds call.1 (idAt initial epoch) loglet) ∨
        ∃ segment, segment ∈ todo ∧ segment.logletId = idAt initial epoch
  | .installChain newChain newVersion => call.2.IsAppend ∧
      Installable initial cluster call.1 newChain newVersion
  | .installVersion newVersion => call.2.IsAppend ∧ newVersion ≤ cluster.epoch call.1
  | .readChain globalPos => call.2 = .read globalPos
  | .readLoglets localPos logletId => ∃ globalPos epoch, call.2 = .read globalPos ∧
      epoch ≤ cluster.epoch call.1 ∧ logletId = idAt initial epoch ∧
      startAt cluster.ends epoch ≤ globalPos ∧
      localPos = globalToLocal (startAt cluster.ends epoch) globalPos
  | .read loglet localPos future => (∃ globalPos epoch, call.2 = .read globalPos ∧
      cluster.Backs initial call.1 epoch loglet ∧ startAt cluster.ends epoch ≤ globalPos ∧
      localPos = globalToLocal (startAt cluster.ends epoch) globalPos) ∧
      outline.Running (cluster.heap loglet) index (.read localPos) future
  | .trimChain globalPos => call.2 = .trim globalPos
  | .trimSegments globalPos _ => call.2 = .trim globalPos
  | .trim globalPos loglet localPos future _ => call.2 = .trim globalPos ∧
      outline.Running (cluster.heap loglet) index (.trim localPos) future

def Unused (cluster : Cluster Node State) (index : Nat) : Prop :=
  ∀ loglet, outline.Fresh (cluster.heap loglet) index

/-- Where a call may have left a trace: only in a loglet that it is appending to. -/
def Apart (cluster : Cluster Node State) (index : Nat) : Future Fut → Prop
  | .append loglet _ _ => ∀ other, other ≠ loglet → outline.Fresh (cluster.heap other) index
  | _ => Unused outline cluster index

def Running (cluster : Cluster Node State) (index : Nat) (call : Node × LogletOp)
    (future : Future Fut) : Prop :=
  Knows outline factory initial cluster index call future ∧ Apart outline cluster index future

/-- The conditions on the steps of the loglet calls below. -/
def LogletPollOk (cluster : Cluster Node State) (index : Nat) (op : LogletOp) : Future Fut → Prop
  | .append loglet _ future => outline.PollOk (cluster.heap loglet) index op future
  | .checkTail loglet _ future => outline.PollOk (cluster.heap loglet) index .checkTail future
  | .seal loglet _ future => outline.PollOk (cluster.heap loglet) index .seal future
  | .reconfigureSeal loglet _ future => outline.PollOk (cluster.heap loglet) index .seal future
  | .read loglet localPos future =>
      outline.PollOk (cluster.heap loglet) index (.read localPos) future
  | .trim _ loglet localPos future _ =>
      outline.PollOk (cluster.heap loglet) index (.trim localPos) future
  | _ => True

/-- The call's entry occupies the local position behind a global one. -/
def PlacedIn (cluster : Cluster Node State) (node : Node) (epoch owner : Nat) (entry : Entry)
    (globalPos : Nat) : Prop :=
  ∃ loglet localPos, cluster.Backs initial node epoch loglet ∧
    outline.Placed (cluster.heap loglet) owner entry localPos ∧
    globalPos = localToGlobal (startAt cluster.ends epoch) localPos

def PlacedAt (cluster : Cluster Node State) (node : Node) (owner : Nat) (entry : Entry)
    (globalPos : Nat) : Prop :=
  ∃ epoch, PlacedIn outline initial cluster node epoch owner entry globalPos

/-- The loglet call behind an append that returned. -/
def AppendedAt (cluster : Cluster Node State) (node : Node) (index : Nat) (entry : Entry)
    (globalPos : Nat) : Prop :=
  ∃ epoch loglet localPos, cluster.Backs initial node epoch loglet ∧
    outline.Finished (cluster.heap loglet) index (.append entry) (.ok (.pos localPos)) ∧
    globalPos = localToGlobal (startAt cluster.ends epoch) localPos ∧
    ∀ other, other ≠ loglet → outline.Fresh (cluster.heap other) index

/-- The loglet call behind a `check_tail` that returned. -/
def TailAt (cluster : Cluster Node State) (node : Node) (index globalPos : Nat) : Prop :=
  ∃ epoch loglet tail, cluster.Backs initial node epoch loglet ∧
    outline.Finished (cluster.heap loglet) index .checkTail (.ok (.pos tail)) ∧
    globalPos = localToGlobal (startAt cluster.ends epoch) tail

/-- What a result tells of the loglets. -/
def Yields (cluster : Cluster Node State) (index : Nat) (call : Node × LogletOp)
    (result : LogletResult) : Prop :=
  match call.2, result with
  | .append entry, .ok value => ∃ globalPos, value = .pos globalPos ∧
      AppendedAt outline initial cluster call.1 index entry globalPos
  | .checkTail, .ok value => ∃ globalPos, value = .pos globalPos ∧
      TailAt outline initial cluster call.1 index globalPos
  | .read globalPos, .ok value => ∃ found, value = .entry found ∧ ∀ entry, found = some entry →
      ∃ owner, PlacedAt outline initial cluster call.1 owner entry globalPos
  | .seal, .ok value => ∃ loglet startPos globalSealPos, value = .pos globalSealPos ∧
      SealedAt outline initial cluster call.1 loglet startPos globalSealPos
  | _, _ => True

def Finished (cluster : Cluster Node State) (index : Nat) (call : Node × LogletOp)
    (result : LogletResult) : Prop :=
  Yields outline initial cluster index call result ∧
    ((call.2.IsAppend → ∃ error, result = .error error) → Unused outline cluster index)

end Outline

/-! ### Stability -/

variable {outline : LogletOutline component} {factory : Factory} {initial : String}
  {cluster next : Cluster Node State} {index : Nat}

theorem Located.stable (inv : cluster.Inv outline factory initial)
    (grows : cluster.Grows outline index next) {node : Node} {loglet : LogletRef} {startPos : Nat}
    (located : Located initial cluster node loglet startPos) :
    Located initial next node loglet startPos := by
  obtain ⟨epoch, backs, rfl⟩ := located
  exact ⟨epoch, backs.stable grows, (grows.startAt inv backs.1).symm⟩

theorem SealedAt.stable (inv : cluster.Inv outline factory initial)
    (inv' : next.Inv outline factory initial) (grows : cluster.Grows outline index next)
    {node : Node} {loglet : LogletRef} {startPos sealPos : Nat}
    (sealedAt : SealedAt outline initial cluster node loglet startPos sealPos) :
    SealedAt outline initial next node loglet startPos sealPos := by
  obtain ⟨located, tail, final, same⟩ := sealedAt
  exact ⟨located.stable inv grows, tail,
    outline.finalTail_stable (inv.heap loglet) (inv'.heap loglet) (grows.heap loglet) final, same⟩

theorem take_stable (grows : cluster.Grows outline index next) {count : Nat}
    (inside : count ≤ cluster.ends.length) : next.ends.take count = cluster.ends.take count := by
  obtain ⟨more, same⟩ := grows.ends
  rw [← same, List.take_append_of_le_length inside]

theorem Installable.stable (grows : cluster.Grows outline index next) {node : Node}
    {newChain : LogChain} {version : Nat}
    (installable : Installable initial cluster node newChain version) :
    Installable initial next node newChain version := by
  obtain ⟨inside, same, held⟩ := installable
  refine ⟨Nat.le_trans inside grows.ends.length_le, ?_, fun epoch below => ?_⟩
  · rw [take_stable grows inside]
    exact same
  · obtain ⟨loglet, holds⟩ := held epoch below
    exact ⟨loglet, grows.loglets _ _ _ holds⟩

theorem Written.stable (grows : cluster.Grows outline index next) {node : Node}
    {newChain : LogChain} {version : Nat} {newLogletId : String}
    (written : Written initial cluster node version newChain newLogletId) :
    Written initial next node version newChain newLogletId := by
  obtain ⟨known, inside, same, named⟩ := written
  refine ⟨Nat.le_trans known (grows.epoch node), Nat.le_trans inside grows.ends.length_le, ?_, named⟩
  rw [take_stable grows inside]
  exact same

theorem PlacedIn.stable (inv : cluster.Inv outline factory initial)
    (inv' : next.Inv outline factory initial) (grows : cluster.Grows outline index next)
    {node : Node} {epoch owner : Nat} {entry : Entry} {globalPos : Nat}
    (placed : PlacedIn outline initial cluster node epoch owner entry globalPos) :
    PlacedIn outline initial next node epoch owner entry globalPos := by
  obtain ⟨loglet, localPos, backs, occupied, same⟩ := placed
  refine ⟨loglet, localPos, backs.stable grows,
    outline.placed_stable (inv.heap loglet) (inv'.heap loglet) (grows.heap loglet) occupied, ?_⟩
  rw [grows.startAt inv backs.1]
  exact same

theorem PlacedAt.stable (inv : cluster.Inv outline factory initial)
    (inv' : next.Inv outline factory initial) (grows : cluster.Grows outline index next)
    {node : Node} {owner : Nat} {entry : Entry} {globalPos : Nat}
    (placed : PlacedAt outline initial cluster node owner entry globalPos) :
    PlacedAt outline initial next node owner entry globalPos := by
  obtain ⟨epoch, held⟩ := placed
  exact ⟨epoch, held.stable inv inv' grows⟩

theorem AppendedAt.placedAt (inv : cluster.Inv outline factory initial) {node : Node}
    {entry : Entry} {globalPos : Nat}
    (appended : AppendedAt outline initial cluster node index entry globalPos) :
    PlacedAt outline initial cluster node index entry globalPos := by
  obtain ⟨epoch, loglet, localPos, backs, finished, same, _⟩ := appended
  obtain ⟨_, equal, placed⟩ := outline.append_placed (inv.heap loglet) finished
  cases equal
  exact ⟨epoch, loglet, localPos, backs, placed, same⟩

theorem AppendedAt.stable (inv : cluster.Inv outline factory initial)
    (inv' : next.Inv outline factory initial) (grows : cluster.Grows outline index next)
    {node : Node} {entry : Entry} {globalPos : Nat}
    (appended : AppendedAt outline initial cluster node index entry globalPos) :
    AppendedAt outline initial next node index entry globalPos := by
  obtain ⟨epoch, loglet, localPos, backs, finished, same, apart⟩ := appended
  refine ⟨epoch, loglet, localPos, backs.stable grows,
    outline.finished_stable (inv.heap loglet) (inv'.heap loglet) (grows.heap loglet) finished, ?_,
    fun other different => outline.fresh_stable (inv.heap other) (inv'.heap other)
      (grows.heap other) (apart other different)⟩
  rw [grows.startAt inv backs.1]
  exact same

theorem TailAt.stable (inv : cluster.Inv outline factory initial)
    (inv' : next.Inv outline factory initial) (grows : cluster.Grows outline index next)
    {node : Node} {globalPos : Nat}
    (tailAt : TailAt outline initial cluster node index globalPos) :
    TailAt outline initial next node index globalPos := by
  obtain ⟨epoch, loglet, tail, backs, finished, same⟩ := tailAt
  refine ⟨epoch, loglet, tail, backs.stable grows,
    outline.finished_stable (inv.heap loglet) (inv'.heap loglet) (grows.heap loglet) finished, ?_⟩
  rw [grows.startAt inv backs.1]
  exact same

theorem Knows.stable (inv : cluster.Inv outline factory initial)
    (inv' : next.Inv outline factory initial) (grows : cluster.Grows outline index next)
    {call : Node × LogletOp} {future : Future Fut}
    (running : Knows outline factory initial cluster index call future) :
    Knows outline factory initial next index call future := by
  have loglet : ∀ {loglet op fut}, outline.Running (cluster.heap loglet) index op fut →
      outline.Running (next.heap loglet) index op fut := fun {loglet} {_ _} held =>
    outline.running_stable (inv.heap loglet) (inv'.heap loglet) (grows.heap loglet) held
  have later : ∀ {epoch}, epoch ≤ cluster.epoch call.1 → epoch ≤ next.epoch call.1 :=
    fun inside => Nat.le_trans inside (grows.epoch call.1)
  cases future with
  | activeChain caller => exact running
  | activeLoglet caller startPos logletId =>
      obtain ⟨serves, epoch, inside, named, rfl⟩ := running
      exact ⟨serves, epoch, later inside, named, (grows.startAt inv inside).symm⟩
  | append target startPos fut =>
      exact ⟨running.1, running.2.1.stable inv grows, loglet running.2.2⟩
  | checkTail target startPos fut =>
      exact ⟨running.1, running.2.1.stable inv grows, loglet running.2.2⟩
  | «seal» target startPos fut =>
      exact ⟨running.1, running.2.1.stable inv grows, loglet running.2.2⟩
  | reconfigureSeal target startPos fut =>
      exact ⟨running.1, running.2.1.stable inv grows, loglet running.2.2⟩
  | reconfigureVersion target startPos globalSealPos =>
      exact ⟨running.1, running.2.stable inv inv' grows⟩
  | reconfigureChain target startPos globalSealPos version =>
      exact ⟨running.1, running.2.1.stable inv inv' grows, later running.2.2⟩
  | reconfigureWrite target startPos version newChain newLogletId =>
      obtain ⟨append, epoch, globalSealPos, sealedAt, older, inside, same, named⟩ := running
      refine ⟨append, epoch, globalSealPos, sealedAt.stable inv inv' grows, older, later inside, ?_,
        named⟩
      rw [take_stable grows (Nat.le_trans inside (inv.epoch_le call.1))]
      exact same
  | reconfigureCreate version newChain newLogletId => exact ⟨running.1, running.2.stable grows⟩
  | reconfigureInsert version newChain newLogletId newLoglet =>
      exact ⟨running.1, running.2.1.stable grows, running.2.2⟩
  | syncRead => exact running
  | syncLoglets todo newChain newVersion =>
      obtain ⟨append, inside, same, named, held⟩ := running
      refine ⟨append, Nat.le_trans inside grows.ends.length_le, ?_, named, fun epoch below => ?_⟩
      · rw [take_stable grows inside]
        exact same
      · rcases held epoch below with ⟨found, holds⟩ | waiting
        · exact Or.inl ⟨found, grows.loglets _ _ _ holds⟩
        · exact Or.inr waiting
  | installChain newChain newVersion => exact ⟨running.1, running.2.stable grows⟩
  | installVersion newVersion => exact ⟨running.1, later running.2⟩
  | readChain globalPos => exact running
  | readLoglets localPos logletId =>
      obtain ⟨globalPos, epoch, reads, inside, named, after, same⟩ := running
      refine ⟨globalPos, epoch, reads, later inside, named, ?_, ?_⟩ <;>
        rw [grows.startAt inv inside] <;> assumption
  | read target localPos fut =>
      obtain ⟨⟨globalPos, epoch, reads, backs, after, same⟩, held⟩ := running
      refine ⟨⟨globalPos, epoch, reads, backs.stable grows, ?_, ?_⟩, loglet held⟩ <;>
        rw [grows.startAt inv backs.1] <;> assumption
  | trimChain globalPos => exact running
  | trimSegments globalPos todo => exact running
  | trim globalPos target localPos fut todo => exact ⟨running.1, loglet running.2⟩

theorem Apart.stable (inv : cluster.Inv outline factory initial)
    (inv' : next.Inv outline factory initial) (grows : cluster.Grows outline index next)
    {future : Future Fut} (apart : Apart outline cluster index future) :
    Apart outline next index future := by
  have fresh : ∀ loglet, outline.Fresh (cluster.heap loglet) index →
      outline.Fresh (next.heap loglet) index := fun loglet =>
    outline.fresh_stable (inv.heap loglet) (inv'.heap loglet) (grows.heap loglet)
  cases future with
  | append loglet startPos fut => exact fun other different => fresh other (apart other different)
  | activeChain | activeLoglet | checkTail | «seal» | reconfigureSeal | reconfigureVersion
  | reconfigureChain | reconfigureWrite | reconfigureCreate | reconfigureInsert | syncRead
  | syncLoglets | installChain | installVersion | readChain | readLoglets | read | trimChain
  | trimSegments | trim => exact fun loglet => fresh loglet (apart loglet)

theorem Running.stable (inv : cluster.Inv outline factory initial)
    (inv' : next.Inv outline factory initial) (grows : cluster.Grows outline index next)
    {call : Node × LogletOp} {future : Future Fut}
    (running : Running outline factory initial cluster index call future) :
    Running outline factory initial next index call future :=
  ⟨running.1.stable inv inv' grows, running.2.stable inv inv' grows⟩

theorem Unused.stable (inv : cluster.Inv outline factory initial)
    (inv' : next.Inv outline factory initial) (grows : cluster.Grows outline index next)
    (unused : Unused outline cluster index) : Unused outline next index := fun loglet =>
  outline.fresh_stable (inv.heap loglet) (inv'.heap loglet) (grows.heap loglet) (unused loglet)

theorem Yields.stable (inv : cluster.Inv outline factory initial)
    (inv' : next.Inv outline factory initial) (grows : cluster.Grows outline index next)
    {call : Node × LogletOp} {result : LogletResult}
    (finished : Yields outline initial cluster index call result) :
    Yields outline initial next index call result := by
  obtain ⟨node, op⟩ := call
  unfold Yields at finished ⊢
  split at finished
  · obtain ⟨globalPos, same, appended⟩ := finished
    exact ⟨globalPos, same, appended.stable inv inv' grows⟩
  · obtain ⟨globalPos, same, tailAt⟩ := finished
    exact ⟨globalPos, same, tailAt.stable inv inv' grows⟩
  · obtain ⟨found, same, placed⟩ := finished
    refine ⟨found, same, fun entry present => ?_⟩
    obtain ⟨owner, occupied⟩ := placed entry present
    exact ⟨owner, occupied.stable inv inv' grows⟩
  · obtain ⟨loglet, startPos, globalSealPos, same, sealedAt⟩ := finished
    exact ⟨loglet, startPos, globalSealPos, same, sealedAt.stable inv inv' grows⟩
  · trivial

theorem Finished.stable (inv : cluster.Inv outline factory initial)
    (inv' : next.Inv outline factory initial) (grows : cluster.Grows outline index next)
    {call : Node × LogletOp} {result : LogletResult}
    (finished : Finished outline initial cluster index call result) :
    Finished outline initial next index call result :=
  ⟨finished.1.stable inv inv' grows, fun failed => (finished.2 failed).stable inv inv' grows⟩

/-! ### Loglet calls -/

/-- What a poll of a pending loglet call does to the cluster. -/
theorem await_cases {loglet : LogletRef} {op : LogletOp} {future : Fut} {pending : Fut → Future Fut}
    {resume : LogletResult → Option (Progress (Future Fut) LogletResult)}
    {progress : Progress (Future Fut) LogletResult}
    (polled : await component cluster index loglet op future pending resume =
      some (next, progress)) :
    ∃ state answer, component.poll (cluster.heap loglet) index op future = some (state, answer) ∧
      next = cluster.setHeap loglet state ∧
      ((∃ later, answer = .running later ∧ progress = .running (pending later)) ∨
        ∃ result, answer = .finished result ∧ resume result = some progress) := by
  unfold await at polled
  split at polled
  · cases polled
  · rename_i state later moved
    cases polled
    exact ⟨state, .running later, moved, rfl, Or.inl ⟨later, rfl, rfl⟩⟩
  · rename_i state result moved
    obtain ⟨answer, resumed, same⟩ := Option.map_eq_some_iff.mp polled
    cases same
    exact ⟨state, .finished result, moved, rfl, Or.inr ⟨result, rfl, resumed⟩⟩

theorem await_sound (inv : cluster.Inv outline factory initial) {loglet : LogletRef}
    {op : LogletOp} {future : Fut} {pending : Fut → Future Fut}
    {resume : LogletResult → Option (Progress (Future Fut) LogletResult)}
    {progress : Progress (Future Fut) LogletResult} (opOk : outline.OpOk op)
    (running : outline.Running (cluster.heap loglet) index op future)
    (pollOk : outline.PollOk (cluster.heap loglet) index op future)
    (polled : await component cluster index loglet op future pending resume =
      some (next, progress)) :
    next.Inv outline factory initial ∧
      (∀ other, other ≠ index → cluster.Grows outline other next) ∧
      (∀ other, other ≠ loglet → next.heap other = cluster.heap other) ∧
      ((∃ later, progress = .running (pending later) ∧
          outline.Running (next.heap loglet) index op later) ∨
        ∃ result, resume result = some progress ∧
          outline.Finished (next.heap loglet) index op result) := by
  obtain ⟨state, answer, moved, rfl, outcome⟩ := await_cases polled
  obtain ⟨kept, holds, rely⟩ := outline.poll_sound (inv.heap loglet) opOk running pollOk moved
  obtain ⟨inv', grows⟩ := inv.setHeap kept rely
  have updated : (cluster.setHeap loglet state).heap loglet = state := Function.update_self ..
  refine ⟨inv', grows, fun other different => Function.update_of_ne different .., ?_⟩
  rw [updated]
  rcases outcome with ⟨later, rfl, rfl⟩ | ⟨result, rfl, resumed⟩
  · exact Or.inl ⟨later, rfl, holds⟩
  · exact Or.inr ⟨result, resumed, holds⟩

theorem yields_error (call : Node × LogletOp) (error : RelosError) :
    Yields outline initial cluster index call (.error error) := by
  obtain ⟨node, op⟩ := call
  cases op <;> trivial

end VirtualLog

end Relos
