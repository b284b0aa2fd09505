import Relos.Log.ClusterOutline

set_option autoImplicit false

/-! One poll of a virtual log call, future by future, and the outline that the
polls add up to. -/

namespace Relos

open Async Epochs

namespace VirtualLog

variable {Node State Fut Event : Type} {component : LogletComponent State Fut Event}
  {outline : LogletOutline component} {factory : Factory} {initial : String}
  {cluster next : Cluster Node State} {index : Nat} {call : Node × LogletOp}
  {progress : Progress (Future Fut) LogletResult}

/-- What a poll of call `index` must leave behind. -/
def Kept (outline : LogletOutline component) (factory : Factory) (initial : String)
    (cluster : Cluster Node State) (index : Nat) (call : Node × LogletOp)
    (next : Cluster Node State) (progress : Progress (Future Fut) LogletResult) : Prop :=
  next.Inv outline factory initial ∧
    progress.Holds (Knows outline factory initial next index call)
      (Yields outline initial next index call) ∧
    ∀ other, other ≠ index → cluster.Grows outline other next

theorem Kept.suspended (inv : cluster.Inv outline factory initial) {future : Future Fut}
    (polled : suspend cluster future = some (next, progress))
    (running : Knows outline factory initial cluster index call future) :
    Kept outline factory initial cluster index call next progress := by
  cases polled
  exact ⟨inv, running, fun _ _ => .refl _⟩

theorem failed_holds (error : RelosError) :
    (Progress.finished (.error error)).Holds (Knows outline factory initial next index call)
      (Yields outline initial next index call) :=
  yields_error call error

theorem Kept.failed (inv : cluster.Inv outline factory initial) {error : RelosError}
    (polled : (finish cluster (.error error) : Poll Node State Fut) = some (next, progress)) :
    Kept outline factory initial cluster index call next progress := by
  cases polled
  exact ⟨inv, failed_holds error, fun _ _ => .refl _⟩

/-! ### Calls on the active loglet -/

theorem located_kept (inv : cluster.Inv outline factory initial)
    (grows : ∀ other, other ≠ index → cluster.Grows outline other next) {node : Node}
    {loglet : LogletRef} {startPos : Nat} (located : Located initial cluster node loglet startPos) :
    Located initial next node loglet startPos :=
  located.stable inv (grows (index + 1) (Nat.succ_ne_self index))

theorem resumeGlobal_cases {startPos : Nat} {result : LogletResult}
    (resumed : resumeGlobal startPos result = some progress) :
    (∃ pos, result = .ok (.pos pos) ∧ progress = .finished (.ok (.pos (localToGlobal startPos pos)))) ∨
      ∃ error, result = .error error ∧ progress = .finished (.error error) := by
  unfold resumeGlobal at resumed
  split at resumed
  · rename_i pos
    exact Or.inl ⟨pos, rfl, (Option.some.inj resumed).symm⟩
  · rename_i error
    exact Or.inr ⟨error, rfl, (Option.some.inj resumed).symm⟩
  · cases resumed

/-- A successful seal of a located loglet pins the global seal position. -/
theorem sealedAt_of_finished (inv' : next.Inv outline factory initial) {node : Node}
    {loglet : LogletRef} {startPos pos : Nat} (located : Located initial next node loglet startPos)
    (finished : outline.Finished (next.heap loglet) index .seal (.ok (.pos pos))) :
    SealedAt outline initial next node loglet startPos (localToGlobal startPos pos) := by
  obtain ⟨tail, same, final⟩ := outline.seal_final (inv'.heap loglet) finished
  cases same
  exact ⟨located, pos, final, rfl⟩

theorem append_kept (inv : cluster.Inv outline factory initial) {loglet : LogletRef}
    {startPos : Nat} {future : Fut} (opOk : outline.OpOk call.2)
    (running : Knows outline factory initial cluster index call (.append loglet startPos future))
    (apart : ∀ other, other ≠ loglet → outline.Fresh (cluster.heap other) index)
    (pollOk : outline.PollOk (cluster.heap loglet) index call.2 future)
    (polled : await component cluster index loglet call.2 future (.append loglet startPos)
      (resumeAppend startPos) = some (next, progress)) :
    Kept outline factory initial cluster index call next progress := by
  obtain ⟨node, op⟩ := call
  obtain ⟨append, located, pending⟩ := running
  obtain ⟨inv', grows, elsewhere, outcome⟩ := await_sound inv opOk pending pollOk polled
  have located' := located_kept inv grows located
  refine ⟨inv', ?_, grows⟩
  rcases outcome with ⟨later, rfl, running⟩ | ⟨result, resumed, finished⟩
  · exact ⟨append, located', running⟩
  · cases op with
    | append entry =>
        cases result with
        | ok value =>
            obtain ⟨pos, rfl, _⟩ := outline.append_placed (inv'.heap loglet) finished
            cases resumed
            obtain ⟨epoch, backs, rfl⟩ := located'
            exact ⟨_, rfl, epoch, loglet, pos, backs, finished, rfl,
              fun other different => by rw [elsewhere other different]; exact apart other different⟩
        | error error =>
            unfold resumeAppend at resumed
            split at resumed
            · rename_i impossible
              cases impossible
            · cases resumed
              exact append
            · rename_i same
              cases resumed
              exact failed_holds _
            · cases resumed
    | checkTail => exact append.elim
    | read pos => exact append.elim
    | trim pos => exact append.elim
    | «seal» => exact append.elim

/-- A poll that awaits a loglet's answer as a global position. -/
theorem awaitGlobal_kept (inv : cluster.Inv outline factory initial) {asked : LogletOp}
    {loglet : LogletRef} {startPos : Nat} {future : Fut} {pending : Fut → Future Fut}
    (opOk : outline.OpOk asked) (located : Located initial cluster call.1 loglet startPos)
    (running : outline.Running (cluster.heap loglet) index asked future)
    (pollOk : outline.PollOk (cluster.heap loglet) index asked future)
    (polled : await component cluster index loglet asked future pending (resumeGlobal startPos) =
      some (next, progress))
    (waits : ∀ later, Located initial next call.1 loglet startPos →
      outline.Running (next.heap loglet) index asked later →
        Knows outline factory initial next index call (pending later))
    (answers : ∀ pos, next.Inv outline factory initial →
      Located initial next call.1 loglet startPos →
        outline.Finished (next.heap loglet) index asked (.ok (.pos pos)) →
          Yields outline initial next index call (.ok (.pos (localToGlobal startPos pos)))) :
    Kept outline factory initial cluster index call next progress := by
  obtain ⟨inv', grows, _, outcome⟩ := await_sound inv opOk running pollOk polled
  have located' := located_kept inv grows located
  refine ⟨inv', ?_, grows⟩
  rcases outcome with ⟨later, rfl, running⟩ | ⟨result, resumed, finished⟩
  · exact waits later located' running
  · rcases resumeGlobal_cases resumed with ⟨pos, rfl, rfl⟩ | ⟨error, rfl, rfl⟩
    · exact answers pos inv' located' finished
    · exact failed_holds _

theorem checkTail_kept (inv : cluster.Inv outline factory initial) {loglet : LogletRef}
    {startPos : Nat} {future : Fut} (opOk : outline.OpOk .checkTail)
    (running : Knows outline factory initial cluster index call
      (.checkTail loglet startPos future))
    (pollOk : outline.PollOk (cluster.heap loglet) index .checkTail future)
    (polled : await component cluster index loglet .checkTail future (.checkTail loglet startPos)
      (resumeGlobal startPos) = some (next, progress)) :
    Kept outline factory initial cluster index call next progress := by
  obtain ⟨node, op⟩ := call
  obtain ⟨rfl, located, pending⟩ := running
  refine awaitGlobal_kept inv opOk located pending pollOk polled ?_ ?_
  · intro later located' running
    exact ⟨rfl, located', running⟩
  · intro pos inv' located' finished
    obtain ⟨epoch, backs, rfl⟩ := located'
    exact ⟨_, rfl, epoch, loglet, pos, backs, finished, rfl⟩

theorem seal_kept (inv : cluster.Inv outline factory initial) {loglet : LogletRef}
    {startPos : Nat} {future : Fut} (opOk : outline.OpOk .seal)
    (running : Knows outline factory initial cluster index call (.seal loglet startPos future))
    (pollOk : outline.PollOk (cluster.heap loglet) index .seal future)
    (polled : await component cluster index loglet .seal future (.seal loglet startPos)
      (resumeGlobal startPos) = some (next, progress)) :
    Kept outline factory initial cluster index call next progress := by
  obtain ⟨node, op⟩ := call
  obtain ⟨rfl, located, pending⟩ := running
  refine awaitGlobal_kept inv opOk located pending pollOk polled ?_ ?_
  · intro later located' running
    exact ⟨rfl, located', running⟩
  · intro pos inv' located' finished
    exact ⟨loglet, startPos, _, rfl, sealedAt_of_finished inv' located' finished⟩

theorem activeChain_kept (inv : cluster.Inv outline factory initial) {caller : Caller}
    (running : Knows outline factory initial cluster index call (.activeChain caller))
    (polled : (match (cluster.logs call.1).chain.activeSegment with
      | none => finish cluster (.error (.internal "no active segment in chain"))
      | some segment => suspend cluster (.activeLoglet caller segment.startPos segment.logletId)) =
        some (next, progress)) :
    Kept outline factory initial cluster index call next progress := by
  rw [inv.cached call.1, activeSegment_chainOf, inv.epoch_eq] at polled
  refine .suspended inv polled ⟨running, cluster.epoch call.1, Nat.le_refl _, rfl, ?_⟩
  exact startAt_take (Nat.le_refl _) (inv.epoch_le call.1)

theorem activeLoglet_kept (inv : cluster.Inv outline factory initial)
    (opOk : call.2.IsTrim → outline.Trims) {caller : Caller} {startPos : Nat} {logletId : String}
    (running : Knows outline factory initial cluster index call
      (.activeLoglet caller startPos logletId))
    (apart : Unused outline cluster index)
    (polled : (match (cluster.logs call.1).loglets[logletId]? with
      | none => finish cluster (.error (.internal s!"active loglet {logletId} not found"))
      | some loglet => suspend cluster (caller.proceed component call.2 loglet startPos)) =
        some (next, progress)) :
    Kept outline factory initial cluster index call next progress := by
  obtain ⟨serves, epoch, inside, rfl, rfl⟩ := running
  cases found : (cluster.logs call.1).loglets[idAt initial epoch]? with
  | none =>
      rw [found] at polled
      exact .failed inv polled
  | some loglet =>
      rw [found] at polled
      have located : Located initial cluster call.1 loglet (startAt cluster.ends epoch) :=
        ⟨epoch, ⟨inside, found⟩, rfl⟩
      refine .suspended inv polled ?_
      have begun : ∀ op, (op.IsTrim → outline.Trims) →
          outline.Running (cluster.heap loglet) index op (component.begin op) :=
        fun op allowed => outline.begin_running (inv.heap loglet) (outline.opOk allowed)
          (apart loglet)
      cases caller with
      | append => exact ⟨serves, located, begun _ opOk⟩
      | reconfigure => exact ⟨serves, located, begun _ (fun impossible => impossible.elim)⟩
      | checkTail => exact ⟨serves, located, begun _ (fun impossible => impossible.elim)⟩
      | «seal» => exact ⟨serves, located, begun _ (fun impossible => impossible.elim)⟩

/-! ### Reads and trims -/

theorem readChain_kept (inv : cluster.Inv outline factory initial) {globalPos : Nat}
    (running : Knows outline factory initial cluster index call (.readChain globalPos))
    (polled : (match (cluster.logs call.1).chain.findSegment globalPos with
      | none => finish cluster (.error (.internal s!"no segment found for position {globalPos}"))
      | some segment => suspend cluster (.readLoglets (globalToLocal segment.startPos globalPos)
          segment.logletId)) = some (next, progress)) :
    Kept outline factory initial cluster index call next progress := by
  cases found : (cluster.logs call.1).chain.findSegment globalPos with
  | none =>
      rw [found] at polled
      exact .failed inv polled
  | some segment =>
      rw [found] at polled
      rw [inv.cached call.1] at found
      obtain ⟨epoch, inside, rfl, after, _⟩ := findSegment_some found
      rw [inv.epoch_eq] at inside
      have start : startAt (cluster.ends.take (cluster.epoch call.1)) epoch =
          startAt cluster.ends epoch := startAt_take inside (inv.epoch_le call.1)
      rw [start] at after
      refine .suspended inv polled ⟨globalPos, epoch, running, inside, rfl, after, ?_⟩
      rw [← start]
      rfl

theorem readLoglets_kept (inv : cluster.Inv outline factory initial) {localPos : Nat} {logletId : String}
    (running : Knows outline factory initial cluster index call (.readLoglets localPos logletId))
    (apart : Unused outline cluster index)
    (polled : (match (cluster.logs call.1).loglets[logletId]? with
      | none => finish cluster (.error (.internal s!"loglet {logletId} not found"))
      | some loglet => suspend cluster
          (.read loglet localPos (component.begin (.read localPos)))) = some (next, progress)) :
    Kept outline factory initial cluster index call next progress := by
  obtain ⟨globalPos, epoch, reads, inside, rfl, after, same⟩ := running
  cases found : (cluster.logs call.1).loglets[idAt initial epoch]? with
  | none =>
      rw [found] at polled
      exact .failed inv polled
  | some loglet =>
      rw [found] at polled
      exact .suspended inv polled ⟨⟨globalPos, epoch, reads, ⟨inside, found⟩, after, same⟩,
        outline.begin_running (inv.heap loglet) (outline.opOk fun impossible => impossible.elim)
          (apart loglet)⟩

theorem localToGlobal_globalToLocal {start globalPos : Nat} (after : start ≤ globalPos) :
    localToGlobal start (globalToLocal start globalPos) = globalPos := by
  unfold localToGlobal globalToLocal
  omega

theorem read_kept (inv : cluster.Inv outline factory initial) {loglet : LogletRef}
    {localPos : Nat} {future : Fut} (opOk : outline.OpOk (.read localPos))
    (running : Knows outline factory initial cluster index call (.read loglet localPos future))
    (pollOk : outline.PollOk (cluster.heap loglet) index (.read localPos) future)
    (polled : await component cluster index loglet (.read localPos) future (.read loglet localPos)
      (fun result => some (.finished result)) = some (next, progress)) :
    Kept outline factory initial cluster index call next progress := by
  obtain ⟨node, op⟩ := call
  obtain ⟨⟨globalPos, epoch, rfl, backs, after, same⟩, pending⟩ := running
  obtain ⟨inv', grows, _, outcome⟩ := await_sound inv opOk pending pollOk polled
  have later := grows (index + 1) (Nat.succ_ne_self index)
  have backs' : next.Backs initial node epoch loglet := backs.stable later
  have start : startAt next.ends epoch = startAt cluster.ends epoch := later.startAt inv backs.1
  rw [← start] at after same
  refine ⟨inv', ?_, grows⟩
  rcases outcome with ⟨suspended, rfl, running⟩ | ⟨result, resumed, finished⟩
  · exact ⟨⟨globalPos, epoch, rfl, backs', after, same⟩, running⟩
  · cases resumed
    cases result with
    | ok value =>
        obtain ⟨found, rfl, placed⟩ := outline.read_placed (inv'.heap loglet) finished
        refine ⟨found, rfl, fun entry present => ?_⟩
        obtain ⟨owner, occupied⟩ := placed entry present
        refine ⟨owner, epoch, loglet, localPos, backs', occupied, ?_⟩
        rw [same, localToGlobal_globalToLocal after]
    | error error => exact failed_holds error

theorem trim_kept (inv : cluster.Inv outline factory initial) {globalPos : Nat}
    {loglet : LogletRef} {localPos : Nat} {future : Fut} {todo : List ChainSegment}
    (opOk : outline.OpOk (.trim localPos))
    (running : Knows outline factory initial cluster index call
      (.trim globalPos loglet localPos future todo))
    (pollOk : outline.PollOk (cluster.heap loglet) index (.trim localPos) future)
    (polled : await component cluster index loglet (.trim localPos) future
      (fun future => .trim globalPos loglet localPos future todo) (resumeTrim globalPos todo) =
        some (next, progress)) :
    Kept outline factory initial cluster index call next progress := by
  obtain ⟨trims, pending⟩ := running
  obtain ⟨inv', grows, _, outcome⟩ := await_sound inv opOk pending pollOk polled
  refine ⟨inv', ?_, grows⟩
  rcases outcome with ⟨suspended, rfl, running⟩ | ⟨result, resumed, _⟩
  · exact ⟨trims, running⟩
  · cases result with
    | ok value =>
        cases resumed
        exact trims
    | error error =>
        cases resumed
        exact failed_holds error

/-! ### Reconfiguration -/

theorem reconfigureSeal_kept (inv : cluster.Inv outline factory initial) {loglet : LogletRef}
    {startPos : Nat} {future : Fut} (opOk : outline.OpOk .seal)
    (running : Knows outline factory initial cluster index call
      (.reconfigureSeal loglet startPos future))
    (pollOk : outline.PollOk (cluster.heap loglet) index .seal future)
    (polled : await component cluster index loglet .seal future (.reconfigureSeal loglet startPos)
      (resumeReconfigure loglet startPos) = some (next, progress)) :
    Kept outline factory initial cluster index call next progress := by
  obtain ⟨append, located, pending⟩ := running
  obtain ⟨inv', grows, _, outcome⟩ := await_sound inv opOk pending pollOk polled
  have located' := located_kept inv grows located
  refine ⟨inv', ?_, grows⟩
  rcases outcome with ⟨later, rfl, running⟩ | ⟨result, resumed, finished⟩
  · exact ⟨append, located', running⟩
  · unfold resumeReconfigure at resumed
    split at resumed
    · cases resumed
      exact ⟨append, sealedAt_of_finished inv' located' finished⟩
    · cases resumed
      exact failed_holds _
    · cases resumed

/-- The CAS of a call that closes the segment it sealed. -/
theorem reconfigureWrite_kept (inv : cluster.Inv outline factory initial) {loglet : LogletRef}
    {startPos version : Nat} {newChain : LogChain} {newLogletId : String}
    (running : Knows outline factory initial cluster index call
      (.reconfigureWrite loglet startPos version newChain newLogletId))
    (coherent : Coherent cluster call.1
      (.reconfigureWrite loglet startPos version newChain newLogletId : Future Fut))
    (polled : (match cluster.metaStore.write newChain version with
      | (metaStore, true) => suspend { cluster with
          metaStore := metaStore, installed := cluster.installed ++ [newChain] }
            (.reconfigureCreate version newChain newLogletId)
      | (_, false) => suspend cluster .syncRead) = some (next, progress)) :
    Kept outline factory initial cluster index call next progress := by
  obtain ⟨append, epoch, sealPos, ⟨⟨backed, backs, rfl⟩, tail, final, rfl⟩, older, inside, rfl,
    rfl⟩ := running
  by_cases current : cluster.metaStore.version = version
  · have bound := inv.epoch_le call.1
    have latest : epoch = cluster.ends.length := by rw [inv.version] at current; omega
    subst latest
    have versionEq : version = cluster.ends.length := current.symm.trans inv.version
    subst versionEq
    have closes := coherent current
    rw [List.take_length] at closes polled
    -- The guard says that the closed segment is the one this call sealed.
    rw [lastSegment_extend, lastSegment_chainOf] at closes
    obtain ⟨closedId, closedStart⟩ := Prod.mk.inj (Option.some.inj closes)
    have named := (inv.known call.1 _ loglet backs.2).1
    have last : cluster.Backs initial call.1 cluster.ends.length loglet :=
      ⟨inside, by unfold Cluster.Holds; rw [closedId, named]; exact backs.2⟩
    rw [chainOf_extend, ← closedStart] at polled
    obtain ⟨inv', grows, endsEq⟩ := inv.write last final rfl
    have written : cluster.metaStore.write (chainOf initial (cluster.ends ++ [localToGlobal
        (startAt cluster.ends cluster.ends.length) tail])) cluster.ends.length =
          ({ chain := chainOf initial (cluster.ends ++ [localToGlobal
              (startAt cluster.ends cluster.ends.length) tail])
             version := cluster.metaStore.version + 1 }, true) := by
      unfold MemoryMetaStore.write
      rw [if_neg (not_not.mpr current)]
    rw [written] at polled
    cases polled
    refine ⟨inv', ⟨append, Nat.le_trans older inside, ?_, ?_, rfl⟩, fun other _ => grows other⟩
    · rw [endsEq, List.length_append]
      exact Nat.le_refl _
    · rw [endsEq, List.take_of_length_le (by rw [List.length_append]; exact Nat.le_refl _)]
  · have refused : cluster.metaStore.write
        ((chainOf initial (cluster.ends.take epoch)).extend
          (localToGlobal (startAt cluster.ends backed) tail) (idAt initial (epoch + 1))) version =
        (cluster.metaStore, false) := by
      unfold MemoryMetaStore.write
      rw [if_pos current]
    rw [refused] at polled
    exact .suspended inv polled append

theorem reconfigureCreate_kept (inv : cluster.Inv outline factory initial) {version : Nat}
    {newChain : LogChain} {newLogletId : String}
    (running : Knows outline factory initial cluster index call
      (.reconfigureCreate version newChain newLogletId))
    (polled : (match cluster.create factory newLogletId with
      | .error error => finish cluster (.error error)
      | .ok (newLoglet, next) =>
          suspend next (.reconfigureInsert version newChain newLogletId newLoglet)) =
        some (next, progress)) :
    Kept outline factory initial cluster index call next progress := by
  obtain ⟨append, written⟩ := running
  cases created : cluster.create factory newLogletId with
  | error error =>
      rw [created] at polled
      exact .failed inv polled
  | ok made =>
      obtain ⟨newLoglet, grown⟩ := made
      rw [created] at polled
      cases polled
      obtain ⟨inv', grows, named, first⟩ := inv.create created
      exact ⟨inv', ⟨append, written.stable (grows index), named, first⟩, fun other _ => grows other⟩

theorem syncRead_kept (inv : cluster.Inv outline factory initial)
    (running : Knows outline factory initial cluster index call .syncRead)
    (polled : suspend cluster (.syncLoglets cluster.metaStore.chain.segments
      cluster.metaStore.chain cluster.metaStore.version) = some (next, progress)) :
    Kept outline factory initial cluster index call next progress := by
  refine .suspended inv polled ⟨running, Nat.le_of_eq inv.version, ?_, ?_, ?_⟩
  · rw [inv.version, List.take_length]
    exact inv.chain
  · intro segment member
    rw [inv.chain] at member
    obtain ⟨epoch, inside, rfl⟩ := mem_chainOf member
    exact ⟨epoch, by rw [inv.version]; exact inside, rfl⟩
  · intro epoch inside
    rw [inv.version] at inside
    refine Or.inr ⟨segmentAt initial cluster.ends epoch, ?_, rfl⟩
    rw [inv.chain]
    exact List.mem_of_getElem? (chainOf_getElem? inside)

theorem create_logs {logletId : String} {loglet : LogletRef}
    (created : cluster.create factory logletId = .ok (loglet, next)) : next.logs = cluster.logs := by
  unfold Cluster.create at created
  split at created
  · cases created
  · split at created <;> cases created <;> rfl

theorem create_heap {logletId : String} {loglet : LogletRef}
    (created : cluster.create factory logletId = .ok (loglet, next)) : next.heap = cluster.heap := by
  unfold Cluster.create at created
  split at created
  · cases created
  · split at created <;> cases created <;> rfl

/-- A factory that shares loglets gives every segment its one loglet. -/
theorem createAll_shared (segments : List ChainSegment)
    (loglets : Std.ExtTreeMap String LogletRef) {made : Std.ExtTreeMap String LogletRef}
    (created : cluster.createAll .shared segments loglets = .ok (made, next)) :
    next = cluster ∧ ∀ logletId, made[logletId]? =
      if logletId ∈ segments.map ChainSegment.logletId then some (LogletRef.mk logletId 0)
      else loglets[logletId]? := by
  induction segments generalizing loglets with
  | nil =>
      cases created
      exact ⟨rfl, fun _ => rfl⟩
  | cons segment rest ih =>
      unfold Cluster.createAll Cluster.create at created
      cases failing : cluster.factoryError with
      | some error => rw [failing] at created; cases created
      | none =>
          rw [failing] at created
          obtain ⟨same, found⟩ := ih _ created
          refine ⟨same, fun logletId => ?_⟩
          rw [found, Std.ExtTreeMap.getElem?_insert]
          simp only [Std.compare_eq_iff_eq, List.map_cons, List.mem_cons]
          by_cases first : segment.logletId = logletId
          · subst first
            simp
          · have other : ¬ logletId = segment.logletId := fun equal => first equal.symm
            simp only [first, other, false_or, if_false]

/-- A call that is not appending has left no trace after its poll either. -/
theorem await_apart (inv : cluster.Inv outline factory initial)
    (fresh : Unused outline cluster index) {loglet : LogletRef}
    {op : LogletOp} {future : Fut} {pending : Fut → Future Fut}
    {resume : LogletResult → Option (Progress (Future Fut) LogletResult)} (plain : ¬ op.IsAppend)
    (opOk : outline.OpOk op) (running : outline.Running (cluster.heap loglet) index op future)
    (pollOk : outline.PollOk (cluster.heap loglet) index op future)
    (polled : await component cluster index loglet op future pending resume =
      some (next, progress)) : Unused outline next index := by
  obtain ⟨inv', _, elsewhere, outcome⟩ := await_sound inv opOk running pollOk polled
  intro other
  by_cases same : other = loglet
  · subst same
    rcases outcome with ⟨later, _, running⟩ | ⟨result, _, finished⟩
    · exact outline.running_fresh plain (inv'.heap other) running
    · exact outline.finished_fresh (inv'.heap other) finished fun appends => absurd appends plain
  · rw [elsewhere other same]
    exact fresh other

/-- A poll of a call that has left no trace in any loglet but those it appends to. -/
def LeftApart (outline : LogletOutline component) (next : Cluster Node State) (index : Nat)
    (op : LogletOp) (progress : Progress (Future Fut) LogletResult) : Prop :=
  progress.Holds (Apart outline next index) fun result =>
    (op.IsAppend → ∃ error, result = .error error) → Unused outline next index

theorem append_apart (inv : cluster.Inv outline factory initial) {loglet : LogletRef}
    {startPos : Nat} {future : Fut} (opOk : outline.OpOk call.2)
    (running : Knows outline factory initial cluster index call (.append loglet startPos future))
    (apart : ∀ other, other ≠ loglet → outline.Fresh (cluster.heap other) index)
    (pollOk : outline.PollOk (cluster.heap loglet) index call.2 future)
    (polled : await component cluster index loglet call.2 future (.append loglet startPos)
      (resumeAppend startPos) = some (next, progress)) :
    LeftApart outline next index call.2 progress := by
  obtain ⟨inv', _, elsewhere, outcome⟩ := await_sound inv opOk running.2.2 pollOk polled
  have others : ∀ other, other ≠ loglet → outline.Fresh (next.heap other) index := by
    intro other different
    rw [elsewhere other different]
    exact apart other different
  rcases outcome with ⟨later, rfl, _⟩ | ⟨result, resumed, finished⟩
  · exact others
  · have unused : (∃ error, result = .error error) → Unused outline next index := by
      intro failed other
      by_cases same : other = loglet
      · subst same
        exact outline.finished_fresh (inv'.heap other) finished fun _ => failed
      · exact others other same
    unfold resumeAppend at resumed
    split at resumed
    · cases resumed
      intro failed
      obtain ⟨_, impossible⟩ := failed running.1
      cases impossible
    · cases resumed
      exact unused ⟨_, rfl⟩
    · cases resumed
      exact fun _ => unused ⟨_, rfl⟩
    · cases resumed

/-- Any future that is not an append call asks for the same. -/
theorem leftApart_of_unused {op : LogletOp} (unused : Unused outline cluster index) :
    LeftApart outline cluster index op progress := by
  cases progress with
  | finished result => exact fun _ => unused
  | running future =>
      cases future with
      | append loglet startPos fut => exact fun other _ => unused other
      | activeChain | activeLoglet | checkTail | «seal» | reconfigureSeal | reconfigureVersion
      | reconfigureChain | reconfigureWrite | reconfigureCreate | reconfigureInsert | syncRead
      | syncLoglets | installChain | installVersion | readChain | readLoglets | read | trimChain
      | trimSegments | trim => exact unused

variable [DecidableEq Node]

theorem reconfigureInsert_kept (inv : cluster.Inv outline factory initial) {version : Nat}
    {newChain : LogChain} {newLogletId : String} {newLoglet : LogletRef}
    (running : Knows outline factory initial cluster index call
      (.reconfigureInsert version newChain newLogletId newLoglet))
    (coherent : Coherent cluster call.1
      (.reconfigureInsert version newChain newLogletId newLoglet : Future Fut))
    (polled : suspend (cluster.insertLoglet call.1 newLogletId newLoglet)
      (.installChain newChain (version + 1)) = some (next, progress)) :
    Kept outline factory initial cluster index call next progress := by
  obtain ⟨append, ⟨older, inside, chain, rfl⟩, named, first⟩ := running
  obtain ⟨inv', grows, held⟩ :=
    inv.insertLoglet named first ⟨version + 1, inside, rfl⟩ coherent
  cases polled
  refine ⟨inv', ⟨append, inside, chain, fun epoch below => ?_⟩, fun other _ => grows other⟩
  rcases Nat.le_succ_iff.mp below with earlier | rfl
  · obtain ⟨found, holds⟩ := inv.covered call.1 epoch (Nat.le_trans earlier older)
    exact ⟨found, (grows index).loglets _ _ _ holds⟩
  · exact ⟨newLoglet, held⟩

theorem syncLoglets_kept (inv : cluster.Inv outline factory initial) {segment : ChainSegment}
    {todo : List ChainSegment} {newChain : LogChain} {newVersion : Nat}
    (running : Knows outline factory initial cluster index call
      (.syncLoglets (segment :: todo) newChain newVersion))
    (polled : (if (cluster.logs call.1).loglets.contains segment.logletId then
        suspend cluster (.syncLoglets todo newChain newVersion)
      else
        match cluster.create factory segment.logletId with
        | .error error => finish cluster (.error error)
        | .ok (loglet, next) => suspend (next.insertLoglet call.1 segment.logletId loglet)
            (.syncLoglets todo newChain newVersion)) = some (next, progress)) :
    Kept outline factory initial cluster index call next progress := by
  obtain ⟨append, inside, chain, named, held⟩ := running
  have namedTodo : ∀ other, other ∈ todo → ∃ epoch, epoch ≤ newVersion ∧
      other.logletId = idAt initial epoch := fun other member => named other (.tail _ member)
  split at polled
  · rename_i known
    refine .suspended inv polled ⟨append, inside, chain, namedTodo, fun epoch below => ?_⟩
    rcases held epoch below with found | ⟨other, member, same⟩
    · exact Or.inl found
    · rcases List.mem_cons.mp member with rfl | later
      · obtain ⟨loglet, holds⟩ := Option.isSome_iff_exists.mp
          (Std.ExtTreeMap.isSome_getElem?_eq_contains.trans known)
        exact Or.inl ⟨loglet, by rw [← same]; exact holds⟩
      · exact Or.inr ⟨other, later, same⟩
  · rename_i missing
    cases created : cluster.create factory segment.logletId with
    | error error =>
        rw [created] at polled
        exact .failed inv polled
    | ok made =>
        obtain ⟨loglet, grown⟩ := made
        rw [created] at polled
        cases polled
        obtain ⟨inv', grows, createdName, first⟩ := inv.create created
        have sameEnds : ∀ count, count ≤ cluster.ends.length →
            grown.ends.take count = cluster.ends.take count :=
          fun count below => take_stable (grows index) below
        have absent : ∀ other, ¬ cluster.Holds call.1 segment.logletId other := by
          intro other holds
          refine missing ?_
          rw [← Std.ExtTreeMap.isSome_getElem?_eq_contains]
          exact Option.isSome_iff_exists.mpr ⟨other, holds⟩
        have sameLogs := create_logs created
        obtain ⟨epoch, below, nameEq⟩ := named segment (.head _)
        obtain ⟨inserted, grows', holds'⟩ := inv'.insertLoglet createdName first
          ⟨epoch, Nat.le_trans below (Nat.le_trans inside (grows index).ends.length_le), nameEq⟩
          (by
            intro other holds
            unfold Cluster.Holds at holds
            rw [sameLogs] at holds
            exact absurd holds (absent other))
        have grows'' : ∀ other, cluster.Grows outline other
            (grown.insertLoglet call.1 segment.logletId loglet) :=
          fun other => (grows other).trans (grows' other)
        refine ⟨inserted, ⟨append, Nat.le_trans inside (grows'' index).ends.length_le, ?_,
          namedTodo, fun epoch below => ?_⟩, fun other _ => grows'' other⟩
        · rw [take_stable (grows'' index) inside]
          exact chain
        · rcases held epoch below with ⟨found, holds⟩ | ⟨other, member, same⟩
          · exact Or.inl ⟨found, (grows'' index).loglets _ _ _ holds⟩
          · rcases List.mem_cons.mp member with rfl | later
            · exact Or.inl ⟨loglet, by rw [← same]; exact holds'⟩
            · exact Or.inr ⟨other, later, same⟩

theorem installChain_kept (inv : cluster.Inv outline factory initial) {newChain : LogChain}
    {newVersion : Nat}
    (running : Knows outline factory initial cluster index call
      (.installChain newChain newVersion))
    (coherent : Coherent cluster call.1 (.installChain newChain newVersion : Future Fut))
    (polled : suspend (cluster.setChain call.1 newChain) (.installVersion newVersion) =
      some (next, progress)) :
    Kept outline factory initial cluster index call next progress := by
  obtain ⟨append, inside, rfl, held⟩ := running
  have forward : cluster.epoch call.1 ≤ newVersion := by
    have grown : (cluster.logs call.1).chain.segments.length ≤
      (chainOf initial (cluster.ends.take newVersion)).segments.length := coherent
    rw [inv.cached, chainOf_length, chainOf_length, inv.epoch_eq, List.length_take] at grown
    omega
  obtain ⟨inv', grows, epochEq⟩ := inv.setChain inside forward held
  cases polled
  exact ⟨inv', ⟨append, Nat.le_of_eq epochEq.symm⟩, fun other _ => grows other⟩

theorem installVersion_kept (inv : cluster.Inv outline factory initial) {newVersion : Nat}
    (running : Knows outline factory initial cluster index call (.installVersion newVersion))
    (polled : suspend (cluster.setVersion call.1 newVersion) (.activeChain .append) =
      some (next, progress)) :
    Kept outline factory initial cluster index call next progress := by
  obtain ⟨append, inside⟩ := running
  obtain ⟨inv', grows⟩ := inv.setVersion inside
  cases polled
  exact ⟨inv', append, fun other _ => grows other⟩

/-! ### The outline -/

theorem trimSegments_kept (inv : cluster.Inv outline factory initial)
    (opOk : call.2.IsTrim → outline.Trims) {globalPos : Nat} {segment : ChainSegment}
    {todo : List ChainSegment}
    (running : Knows outline factory initial cluster index call
      (.trimSegments globalPos (segment :: todo)))
    (apart : Unused outline cluster index)
    (polled : poll factory component cluster index call
      (.trimSegments globalPos (segment :: todo)) = some (next, progress)) :
    Kept outline factory initial cluster index call next progress := by
  have trims : outline.Trims := opOk (by rw [show call.2 = .trim globalPos from running]; trivial)
  simp only [poll] at polled
  split at polled
  · split at polled
    · exact .suspended inv polled running
    · exact .suspended inv polled ⟨running,
        outline.begin_running (inv.heap _) (outline.opOk fun _ => trims) (apart _)⟩
  · exact .suspended inv polled running

theorem poll_kept (inv : cluster.Inv outline factory initial)
    (opOk : call.2.IsTrim → outline.Trims) {future : Future Fut}
    (running : Knows outline factory initial cluster index call future)
    (apart : Apart outline cluster index future)
    (coherent : Coherent cluster call.1 future)
    (logletOk : LogletPollOk outline cluster index call.2 future)
    (polled : poll factory component cluster index call future = some (next, progress)) :
    Kept outline factory initial cluster index call next progress := by
  have plain : ∀ {op : LogletOp}, ¬ op.IsTrim → outline.OpOk op :=
    fun notTrim => outline.opOk fun trims => absurd trims notTrim
  cases future with
  | activeChain caller => exact activeChain_kept inv running polled
  | activeLoglet caller startPos logletId => exact activeLoglet_kept inv opOk running apart polled
  | append loglet startPos future =>
      exact append_kept inv (outline.opOk opOk) running apart logletOk polled
  | checkTail loglet startPos future =>
      exact checkTail_kept inv (plain id) running logletOk polled
  | «seal» loglet startPos future => exact seal_kept inv (plain id) running logletOk polled
  | reconfigureSeal loglet startPos future =>
      exact reconfigureSeal_kept inv (plain id) running logletOk polled
  | reconfigureVersion loglet startPos globalSealPos =>
      exact .suspended inv polled ⟨running.1, running.2, inv.version_le call.1⟩
  | reconfigureChain loglet startPos globalSealPos version =>
      obtain ⟨append, sealedAt, older⟩ := running
      have named : generateLogletId (cluster.logs call.1).chain =
          idAt initial (cluster.epoch call.1 + 1) := by
        rw [inv.cached call.1, generateLogletId_chainOf, inv.epoch_eq]
      refine .suspended inv polled ⟨append, cluster.epoch call.1, globalSealPos, sealedAt, older,
        Nat.le_refl _, ?_, named⟩
      rw [← inv.cached call.1]
  | reconfigureWrite loglet startPos version newChain newLogletId =>
      exact reconfigureWrite_kept inv running coherent polled
  | reconfigureCreate version newChain newLogletId =>
      exact reconfigureCreate_kept inv running polled
  | reconfigureInsert version newChain newLogletId newLoglet =>
      exact reconfigureInsert_kept inv running coherent polled
  | syncRead => exact syncRead_kept inv running polled
  | syncLoglets todo newChain newVersion =>
      cases todo with
      | nil =>
          obtain ⟨append, inside, chain, _, held⟩ := running
          refine .suspended inv polled ⟨append, inside, chain, fun epoch below => ?_⟩
          exact (held epoch below).resolve_right fun ⟨_, impossible, _⟩ => nomatch impossible
      | cons segment todo => exact syncLoglets_kept inv running polled
  | installChain newChain newVersion => exact installChain_kept inv running coherent polled
  | installVersion newVersion => exact installVersion_kept inv running polled
  | readChain globalPos => exact readChain_kept inv running polled
  | readLoglets localPos logletId => exact readLoglets_kept inv running apart polled
  | read loglet localPos future => exact read_kept inv (plain id) running logletOk polled
  | trimChain globalPos => exact .suspended inv polled running
  | trimSegments globalPos todo =>
      cases todo with
      | nil =>
          cases polled
          obtain ⟨node, op⟩ := call
          have trims : op = .trim globalPos := running
          subst trims
          exact ⟨inv, trivial, fun _ _ => .refl _⟩
      | cons segment todo => exact trimSegments_kept inv opOk running apart polled
  | trim globalPos loglet localPos future todo =>
      have trims : outline.Trims := by
        refine opOk ?_
        rw [running.1]
        trivial
      exact trim_kept inv (outline.opOk fun _ => trims) running logletOk polled

/-- Futures that call no loglet leave the loglets alone. -/
def Future.IsLocal : Future Fut → Prop
  | .append _ _ _ | .checkTail _ _ _ | .seal _ _ _ | .reconfigureSeal _ _ _ | .read _ _ _
  | .trim _ _ _ _ _ => False
  | _ => True

/-- A poll that calls no loglet changes no loglet and no log of another node. -/
theorem poll_local {future : Future Fut}
    (polled : poll factory component cluster index call future = some (next, progress))
    (isLocal : future.IsLocal) :
    next.heap = cluster.heap ∧ ∀ who, who ≠ call.1 → next.logs who = cluster.logs who := by
  have unchanged : cluster.heap = cluster.heap ∧
      ∀ who, who ≠ call.1 → cluster.logs who = cluster.logs who := ⟨rfl, fun _ _ => rfl⟩
  have kept : ∀ (other : Cluster Node State) (log : VirtualLog) who, who ≠ call.1 →
      (other.setLog call.1 log).logs who = other.logs who :=
    fun _ _ _ stranger => Function.update_of_ne stranger ..
  cases future with
  | append | checkTail | «seal» | reconfigureSeal | read | trim => exact isLocal.elim
  | activeChain caller =>
      simp only [poll] at polled
      split at polled <;> cases polled <;> exact unchanged
  | activeLoglet caller startPos logletId =>
      simp only [poll] at polled
      split at polled <;> cases polled <;> exact unchanged
  | reconfigureVersion loglet startPos globalSealPos =>
      cases polled
      exact unchanged
  | reconfigureChain loglet startPos globalSealPos version =>
      cases polled
      exact unchanged
  | reconfigureWrite loglet startPos version newChain newLogletId =>
      simp only [poll] at polled
      split at polled <;> cases polled <;> exact unchanged
  | reconfigureCreate version newChain newLogletId =>
      simp only [poll] at polled
      split at polled
      · cases polled
        exact unchanged
      · rename_i created
        cases polled
        exact ⟨create_heap created, fun who _ => congrFun (create_logs created) who⟩
  | reconfigureInsert version newChain newLogletId newLoglet =>
      cases polled
      exact ⟨rfl, kept _ _⟩
  | syncRead =>
      cases polled
      exact unchanged
  | syncLoglets todo newChain newVersion =>
      cases todo with
      | nil =>
          cases polled
          exact unchanged
      | cons segment todo =>
          simp only [poll] at polled
          split at polled
          · cases polled
            exact unchanged
          · split at polled
            · cases polled
              exact unchanged
            · rename_i created
              cases polled
              have sameHeap := create_heap created
              refine ⟨sameHeap, fun who stranger => ?_⟩
              exact (kept _ _ who stranger).trans (congrFun (create_logs created) who)
  | installChain newChain newVersion =>
      cases polled
      exact ⟨rfl, kept _ _⟩
  | installVersion newVersion =>
      cases polled
      exact ⟨rfl, kept _ _⟩
  | readChain globalPos =>
      simp only [poll] at polled
      split at polled <;> cases polled <;> exact unchanged
  | readLoglets localPos logletId =>
      simp only [poll] at polled
      split at polled <;> cases polled <;> exact unchanged
  | trimChain globalPos =>
      cases polled
      exact unchanged
  | trimSegments globalPos todo =>
      cases todo with
      | nil =>
          cases polled
          exact unchanged
      | cons segment todo =>
          simp only [poll] at polled
          split at polled
          · split at polled <;> cases polled <;> exact unchanged
          · cases polled
            exact unchanged

theorem poll_apart (inv : cluster.Inv outline factory initial)
    (opOk : call.2.IsTrim → outline.Trims) {future : Future Fut}
    (running : Knows outline factory initial cluster index call future)
    (apart : Apart outline cluster index future)
    (logletOk : LogletPollOk outline cluster index call.2 future)
    (polled : poll factory component cluster index call future = some (next, progress)) :
    LeftApart outline next index call.2 progress := by
  have plain : ∀ {op : LogletOp}, ¬ op.IsTrim → outline.OpOk op :=
    fun notTrim => outline.opOk fun trims => absurd trims notTrim
  cases future with
  | append loglet startPos future =>
      exact append_apart inv (outline.opOk opOk) running apart logletOk polled
  | checkTail loglet startPos future =>
      exact leftApart_of_unused (await_apart inv apart id (plain id) running.2.2 logletOk polled)
  | «seal» loglet startPos future =>
      exact leftApart_of_unused (await_apart inv apart id (plain id) running.2.2 logletOk polled)
  | reconfigureSeal loglet startPos future =>
      exact leftApart_of_unused (await_apart inv apart id (plain id) running.2.2 logletOk polled)
  | read loglet localPos future =>
      exact leftApart_of_unused (await_apart inv apart id (plain id) running.2 logletOk polled)
  | trim globalPos loglet localPos future todo =>
      have trims : outline.Trims := by
        refine opOk ?_
        rw [running.1]
        trivial
      exact leftApart_of_unused (await_apart inv apart id (outline.opOk fun _ => trims) running.2 logletOk
        polled)
  | activeChain | activeLoglet | reconfigureVersion | reconfigureChain | reconfigureWrite
  | reconfigureCreate | reconfigureInsert | syncRead | syncLoglets | installChain | installVersion
  | readChain | readLoglets | trimChain | trimSegments =>
      have unused : Unused outline next index := by
        unfold Unused
        rw [(poll_local polled trivial).1]
        exact apart
      exact leftApart_of_unused unused

theorem openLog_kept (inv : cluster.Inv outline .shared initial) (node : Node) :
    (cluster.openLog .shared node).Inv outline .shared initial ∧
      ∀ other, cluster.Grows outline other (cluster.openLog .shared node) := by
  unfold Cluster.openLog
  cases created : cluster.createAll .shared cluster.metaStore.chain.segments ∅ with
  | error error => exact ⟨inv, fun _ => .refl _⟩
  | ok made =>
      obtain ⟨loglets, next⟩ := made
      obtain ⟨rfl, found⟩ := createAll_shared _ _ created
      have present : ∀ epoch, epoch ≤ next.ends.length →
          loglets[idAt initial epoch]? = some ⟨idAt initial epoch, 0⟩ := by
        intro epoch inside
        rw [found, if_pos]
        rw [inv.chain]
        exact List.mem_map.mpr ⟨_, List.mem_of_getElem? (chainOf_getElem? inside), rfl⟩
      obtain ⟨inv', grows, _⟩ := inv.setLog node
        { chain := next.metaStore.chain, chainVersion := next.metaStore.version, loglets := loglets }
        (by rw [List.take_length]; exact inv.chain) (Nat.le_refl _) (inv.epoch_le node)
        (Nat.le_of_eq inv.version)
        (by
          intro logletId loglet held
          obtain ⟨named, first, epoch, inside, rfl⟩ := inv.known node logletId loglet held
          rw [present epoch inside]
          obtain ⟨id, serial⟩ := loglet
          cases named
          cases first rfl
          rfl)
        (by
          intro logletId loglet held
          rw [found] at held
          split at held
          · rename_i member
            obtain ⟨segment, inside, rfl⟩ := List.mem_map.mp member
            rw [inv.chain] at inside
            obtain ⟨epoch, bound, rfl⟩ := mem_chainOf inside
            cases held
            exact ⟨rfl, fun _ => rfl, epoch, bound, rfl⟩
          · cases held)
        (fun epoch inside => ⟨_, present epoch inside⟩)
      exact ⟨inv', grows⟩

variable (Node) in
/-- Virtual logs over loglets that follow `outline`. With factories that give a
new loglet at every creation, there is one instance. -/
def virtualLogOutline (outline : LogletOutline component) (factory : Factory) (initial : String) :
    Outline (virtualLogComponent factory component :
      Component (Cluster Node State) _ _ _ (ClusterEvent Node Event)) where
  OpOk call := call.2.IsTrim → outline.Trims
  PollOk cluster index call future := Coherent cluster call.1 future ∧
    LogletPollOk outline cluster index call.2 future
  EventOk cluster
    | .loglet loglet event => outline.EventOk (cluster.heap loglet) event
    | .openLog _ => factory = .shared
    | .factory _ => True
  Inv := Cluster.Inv outline factory initial
  Fresh := Unused outline
  Running := Running outline factory initial
  Finished := Finished outline initial
  Rely := Cluster.Grows outline
  begin_running := by
    intro cluster index call _ _ fresh
    obtain ⟨node, op⟩ := call
    cases op with
    | append entry => exact ⟨trivial, fresh⟩
    | checkTail => exact ⟨rfl, fresh⟩
    | read pos => exact ⟨rfl, fresh⟩
    | trim pos => exact ⟨rfl, fresh⟩
    | «seal» => exact ⟨rfl, fresh⟩
  poll_sound := by
    intro cluster index call future next progress inv opOk running pollOk polled
    obtain ⟨inv', holds, grows⟩ :=
      poll_kept inv opOk running.1 running.2 pollOk.1 pollOk.2 polled
    have apart := poll_apart inv opOk running.1 running.2 pollOk.2 polled
    refine ⟨inv', ?_, grows⟩
    cases progress with
    | running later => exact ⟨holds, apart⟩
    | finished result => exact ⟨holds, apart⟩
  background_sound := by
    intro cluster event next inv eventOk ran
    cases event with
    | loglet loglet event =>
        obtain ⟨state, moved, rfl⟩ := Option.map_eq_some_iff.mp ran
        obtain ⟨kept, rely⟩ := outline.background_sound (inv.heap loglet) eventOk moved
        obtain ⟨inv', _⟩ := inv.setHeap kept fun other (_ : other ≠ 0) => rely other
        refine ⟨inv', fun index => ?_⟩
        obtain ⟨_, grows⟩ := inv.setHeap kept fun other (_ : other ≠ index + 1) => rely other
        exact grows index (Nat.succ_ne_self index).symm
    | openLog node =>
        cases eventOk
        cases ran
        exact openLog_kept inv node
    | factory error =>
        cases ran
        exact ⟨⟨inv.chain, inv.version, inv.installed, inv.ordered, inv.heap,
          inv.cached, inv.epoch_le, inv.version_le, inv.known, inv.covered, inv.closed⟩,
          fun _ => ⟨List.prefix_refl _, fun _ _ _ held => held, fun _ => Nat.le_refl _,
            fun _ => outline.rely_refl _ _⟩⟩
  fresh_stable := fun inv inv' grows unused => Unused.stable inv inv' grows unused
  running_stable inv inv' grows running := running.stable inv inv' grows
  finished_stable inv inv' grows finished := finished.stable inv inv' grows

end VirtualLog

end Relos
