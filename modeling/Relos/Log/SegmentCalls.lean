import Relos.Log.NativeRefinement
import Relos.Log.SegmentedLog
import Relos.Log.VirtualLog

set_option autoImplicit false

/-! One virtual log over loglets that answer as memory loglets: how its state lays out
the segmented log, between the calls to its loglets and during one. -/

namespace Relos

open Async Epochs

variable {State Fut Event : Type}

/-- A loglet that is used one call at a time answers as a memory loglet. -/
structure ActsAsMemory (component : LogletComponent State Fut Event) (quiet : Event → Prop)
    (initial : State) where
  simulation : Simulation component memorySpec quiet
  steady : ∀ {state : State} {index : Nat} {memory : MemoryLoglet} (other : Nat),
    simulation.Idle state index memory → simulation.Idle state other memory
  fresh : simulation.Idle initial 0 .new

/-- The log servers of every loglet stay alive, and nobody else touches the instance. -/
def ClusterEvent.IsQuiet (quiet : Event → Prop) : ClusterEvent Unit Event → Prop
  | .loglet _ event => quiet event
  | .openLog _ | .factory _ => False

instance (quiet : Event → Prop) [∀ event, Decidable (quiet event)] :
    (event : ClusterEvent Unit Event) → Decidable (event.IsQuiet quiet)
  | .loglet _ event => inferInstanceAs (Decidable (quiet event))
  | .openLog _ | .factory _ => isFalse id

theorem ClusterEvent.IsQuiet.cases {component : LogletComponent State Fut Event}
    {quiet : Event → Prop} {cluster next : Cluster Unit State} {event : ClusterEvent Unit Event}
    (permitted : event.IsQuiet quiet)
    (ran : (virtualLogComponent .fresh component).background cluster event = some next) :
    ∃ loglet inner found, quiet inner ∧
      component.background (cluster.heap loglet) inner = some found ∧
      next = cluster.setHeap loglet found := by
  cases event with
  | loglet loglet inner =>
      obtain ⟨found, moved, same⟩ := Option.map_eq_some_iff.mp ran
      exact ⟨loglet, inner, found, permitted, moved, same.symm⟩
  | openLog node => exact permitted.elim
  | factory error => exact permitted.elim

namespace SegmentedLog

/-- The loglet of a segment. -/
structure Backs (initial : String) (cluster : Cluster Unit State) (index : Nat)
    (loglet : LogletRef) : Prop where
  held : (cluster.logs ()).loglets[idAt initial index]? = some loglet
  named : loglet.logletId = idAt initial index
  made : loglet.serial < cluster.nextSerial

/-- Segments of one id have one loglet. -/
theorem Backs.unique {initial : String} {cluster : Cluster Unit State} {index index' : Nat}
    {loglet other : LogletRef} (backs : Backs initial cluster index loglet)
    (backs' : Backs initial cluster index' other) (same : idAt initial index = idAt initial index') :
    loglet = other := by
  have held := backs.held
  rw [same] at held
  exact Option.some.inj (held.symm.trans backs'.held)

variable {component : LogletComponent State Fut Event} {quiet : Event → Prop} {state : State}
  (acts : ActsAsMemory component quiet state)

/-- The loglet stands between two calls and holds what the memory loglet holds. -/
def Rests (loglet : State) (memory : MemoryLoglet) : Prop := acts.simulation.Idle loglet 0 memory

/-- The instance lays out the log. Only the loglets in `idle` need to rest. -/
structure Lays (initial : String) (log : SegmentedLog initial) (cluster : Cluster Unit State)
    (idle : LogletRef → Prop) : Prop where
  working : cluster.factoryError = none
  metaStore : cluster.metaStore = { chain := chainOf initial log.ends, version := log.last }
  chain : (cluster.logs ()).chain = chainOf initial log.ends
  version : (cluster.logs ()).chainVersion = log.last
  parts : ∀ index, index ≤ log.last → ∃ loglet, Backs initial cluster index loglet ∧
    (idle loglet → Rests acts (cluster.heap loglet) (log.loglet index))
  untouched : ∀ loglet, idle loglet → cluster.nextSerial ≤ loglet.serial →
    Rests acts (cluster.heap loglet) .new

/-- All loglets rest. -/
abbrev AtRest (initial : String) (log : SegmentedLog initial) (cluster : Cluster Unit State) : Prop :=
  Lays acts initial log cluster fun _ => True

/-- A call to the loglet of a segment is under way. -/
structure Calls (initial : String) (log : SegmentedLog initial) (cluster : Cluster Unit State)
    (index epoch : Nat) (loglet : LogletRef) (op : LogletOp) (future : Fut) : Prop where
  inside : epoch ≤ log.last
  backs : Backs initial cluster epoch loglet
  busy : acts.simulation.Busy (cluster.heap loglet) index (log.loglet epoch) op future
  lays : Lays acts initial log cluster (· ≠ loglet)

theorem atRest_new (initial : String) : AtRest acts initial .new (Cluster.new initial state) where
  working := rfl
  metaStore := rfl
  chain := rfl
  version := rfl
  parts := by
    intro index inside
    cases Nat.le_zero.mp inside
    exact ⟨⟨initial, 0⟩, ⟨Std.ExtTreeMap.getElem?_insert_self, rfl, Nat.one_pos⟩, fun _ => acts.fresh⟩
  untouched _ _ _ := acts.fresh

variable {acts} {initial : String} {log : SegmentedLog initial} {cluster next : Cluster Unit State}
  {idle : LogletRef → Prop} {index epoch : Nat} {loglet : LogletRef} {op : LogletOp} {future : Fut}

theorem heap_self {found : State} : (cluster.setHeap loglet found).heap loglet = found :=
  Function.update_self ..

theorem heap_of_ne {other : LogletRef} {found : State} (different : other ≠ loglet) :
    (cluster.setHeap loglet found).heap other = cluster.heap other :=
  Function.update_of_ne different ..

theorem Backs.setHeap {other : LogletRef} {found : State} (backs : Backs initial cluster index other) :
    Backs initial (cluster.setHeap loglet found) index other :=
  ⟨backs.held, backs.named, backs.made⟩

/-- One loglet changes on its own. -/
theorem Lays.setHeap (lays : Lays acts initial log cluster idle) {found : State}
    (kept : idle loglet → ∀ memory, Rests acts (cluster.heap loglet) memory →
      Rests acts found memory) : Lays acts initial log (cluster.setHeap loglet found) idle := by
  have same : ∀ other memory, idle other → Rests acts (cluster.heap other) memory →
      Rests acts ((cluster.setHeap loglet found).heap other) memory := by
    intro other memory rests held
    by_cases here : other = loglet
    · subst here
      rw [heap_self]
      exact kept rests memory held
    · rw [heap_of_ne here]
      exact held
  refine ⟨lays.working, lays.metaStore, lays.chain, lays.version, fun index inside => ?_,
    fun other rests later => same other .new rests (lays.untouched other rests later)⟩
  obtain ⟨other, backs, held⟩ := lays.parts index inside
  exact ⟨other, backs.setHeap, fun rests => same other _ rests (held rests)⟩

theorem Lays.mono {fewer : LogletRef → Prop} (lays : Lays acts initial log cluster idle)
    (weaker : ∀ loglet, fewer loglet → idle loglet) : Lays acts initial log cluster fewer := by
  refine ⟨lays.working, lays.metaStore, lays.chain, lays.version, fun index inside => ?_,
    fun other rests => lays.untouched other (weaker other rests)⟩
  obtain ⟨other, backs, held⟩ := lays.parts index inside
  exact ⟨other, backs, fun rests => held (weaker other rests)⟩

/-- The call to a loglet has ended. -/
theorem Lays.finish (lays : Lays acts initial log cluster (· ≠ loglet))
    (backs : Backs initial cluster epoch loglet) {found : State} {memory : MemoryLoglet}
    (rests : Rests acts found memory) :
    AtRest acts initial (log.setLoglet epoch memory) (cluster.setHeap loglet found) := by
  refine ⟨lays.working, lays.metaStore, lays.chain, lays.version, fun index bound => ?_,
    fun other _ later => ?_⟩
  · obtain ⟨other, backs', held⟩ := lays.parts index bound
    refine ⟨other, backs'.setHeap, fun _ => ?_⟩
    by_cases here : idAt initial index = idAt initial epoch
    · rw [backs'.unique backs here, heap_self, setLoglet_same here]
      exact rests
    · have different : other ≠ loglet := by
        intro same
        exact here (backs'.named.symm.trans ((congrArg LogletRef.logletId same).trans backs.named))
      rw [heap_of_ne different, setLoglet_of_ne here]
      exact held different
  · have different : other ≠ loglet := by
      rintro rfl
      exact absurd backs.made (Nat.not_lt.mpr later)
    rw [heap_of_ne different]
    exact lays.untouched other different later

theorem Lays.found (lays : AtRest acts initial log cluster) (inside : index ≤ log.last) :
    ∃ loglet, Backs initial cluster index loglet ∧
      Rests acts (cluster.heap loglet) (log.loglet index) := by
  obtain ⟨loglet, backs, held⟩ := lays.parts index inside
  exact ⟨loglet, backs, held trivial⟩

/-! ### Calls to a loglet -/

theorem Calls.start (lays : AtRest acts initial log cluster) (inside : epoch ≤ log.last)
    (backs : Backs initial cluster epoch loglet) (index : Nat) (op : LogletOp) :
    Calls acts initial log cluster index epoch loglet op (component.begin op) := by
  obtain ⟨other, backs', rests⟩ := lays.found inside
  cases backs'.unique backs rfl
  exact ⟨inside, backs, acts.simulation.start (acts.steady index rests) trivial,
    lays.mono fun _ _ => trivial⟩

/-- A background step of any loglet. -/
theorem Lays.background {found : State} {event : Event} (lays : Lays acts initial log cluster idle)
    (permitted : quiet event) (ran : component.background (cluster.heap loglet) event = some found) :
    Lays acts initial log (cluster.setHeap loglet found) idle :=
  lays.setHeap fun _ _ rests => acts.simulation.idle_background rests permitted ran

theorem Calls.background {other : LogletRef} {found : State} {event : Event}
    (calls : Calls acts initial log cluster index epoch loglet op future) (permitted : quiet event)
    (ran : component.background (cluster.heap other) event = some found) :
    Calls acts initial log (cluster.setHeap other found) index epoch loglet op future := by
  refine ⟨calls.inside, calls.backs.setHeap, ?_, calls.lays.background permitted ran⟩
  by_cases here : loglet = other
  · subst here
    rw [heap_self]
    exact acts.simulation.busy_background calls.busy permitted ran
  · rw [heap_of_ne here]
    exact calls.busy

theorem Calls.running {found : State} {later : Fut}
    (calls : Calls acts initial log cluster index epoch loglet op future)
    (ran : component.poll (cluster.heap loglet) index op future = some (found, .running later)) :
    Calls acts initial log (cluster.setHeap loglet found) index epoch loglet op later := by
  refine ⟨calls.inside, calls.backs.setHeap, ?_, ?_⟩
  · rw [heap_self]
    exact acts.simulation.poll calls.busy ran
  · exact calls.lays.setHeap fun impossible => absurd rfl impossible

/-- One poll of a call: it goes on, or the caller resumes with the answer of the log. -/
theorem Calls.await (calls : Calls acts initial log cluster index epoch loglet op future)
    {pending : Fut → VirtualLog.Future Fut}
    {resume : LogletResult → Option (Progress (VirtualLog.Future Fut) LogletResult)}
    {progress : Progress (VirtualLog.Future Fut) LogletResult}
    (polled : VirtualLog.await component cluster index loglet op future pending resume =
      some (next, progress)) :
    (∃ later, progress = .running (pending later) ∧
      Calls acts initial log next index epoch loglet op later) ∨
    (resume ((log.loglet epoch).call op).2 = some progress ∧
      AtRest acts initial (log.call epoch op) next) := by
  unfold VirtualLog.await at polled
  split at polled
  · cases polled
  · rename_i found later ran
    cases polled
    exact Or.inl ⟨later, rfl, calls.running ran⟩
  · rename_i found result ran
    obtain ⟨answers, rests⟩ := acts.simulation.poll calls.busy ran
    obtain ⟨outcome, resumed, same⟩ := Option.map_eq_some_iff.mp polled
    cases same
    cases answers
    exact Or.inr ⟨resumed, calls.lays.finish calls.backs (acts.steady 0 rests)⟩

/-- The caller of the instance returns, with background steps of the loglets in between. -/
def Returns (component : LogletComponent State Fut Event) (quiet : Event → Prop) (index : Nat)
    (call : Unit × LogletOp) (cluster : Cluster Unit State) (future : VirtualLog.Future Fut) :
    Prop :=
  ∃ last result, (virtualLogComponent .fresh component).Completes (ClusterEvent.IsQuiet quiet) index
    call cluster future last result

theorem Returns.running {call : Unit × LogletOp} {future later : VirtualLog.Future Fut}
    (polled : VirtualLog.poll .fresh component cluster index call future =
      some (next, .running later)) (rest : Returns component quiet index call next later) :
    Returns component quiet index call cluster future := by
  obtain ⟨last, result, completes⟩ := rest
  exact ⟨last, result, .running polled completes⟩

theorem Returns.finished {call : Unit × LogletOp} {future : VirtualLog.Future Fut}
    {result : LogletResult} (polled : VirtualLog.poll .fresh component cluster index call future =
      some (next, .finished result)) : Returns component quiet index call cluster future :=
  ⟨next, result, .finished polled⟩

/-- A caller that awaits a loglet returns if it does so with the answer of the log. -/
theorem Calls.returns (calls : Calls acts initial log cluster index epoch loglet op future)
    {call : Unit × LogletOp} {pending : Fut → VirtualLog.Future Fut}
    {resume : LogletResult → Option (Progress (VirtualLog.Future Fut) LogletResult)}
    (polls : ∀ (cluster : Cluster Unit State) (future : Fut),
      VirtualLog.poll .fresh component cluster index call (pending future) =
        VirtualLog.await component cluster index loglet op future pending resume)
    {progress : Progress (VirtualLog.Future Fut) LogletResult}
    (resumed : resume ((log.loglet epoch).call op).2 = some progress)
    (rest : ∀ (next : Cluster Unit State) (later : VirtualLog.Future Fut),
      AtRest acts initial (log.call epoch op) next → progress = .running later →
        Returns component quiet index call next later) :
    Returns component quiet index call cluster (pending future) := by
  obtain ⟨last, result, completes⟩ := acts.simulation.completes calls.busy
  generalize holds : cluster.heap loglet = found at completes
  induction completes generalizing cluster with
  | @finished found last future result ran =>
      subst holds
      obtain ⟨answers, rests⟩ := acts.simulation.poll calls.busy ran
      have polled : VirtualLog.poll .fresh component cluster index call (pending future) =
          some (cluster.setHeap loglet last, progress) := by
        cases answers
        rw [polls]
        unfold VirtualLog.await
        rw [ran]
        dsimp only
        rw [resumed]
        rfl
      cases progress with
      | finished result => exact .finished polled
      | running later =>
          have ended := calls.lays.finish calls.backs (acts.steady 0 rests)
          exact .running polled (rest _ later ended rfl)
  | @running found middle last future later result ran _ ih =>
      subst holds
      have polled : VirtualLog.poll .fresh component cluster index call (pending future) =
          some (cluster.setHeap loglet middle, .running (pending later)) := by
        rw [polls]
        unfold VirtualLog.await
        rw [ran]
        rfl
      exact .running polled (ih (calls.running ran) heap_self)
  | @background found middle last future result event permitted ran _ ih =>
      subst holds
      obtain ⟨last, result, completes⟩ := ih (calls.background permitted ran) heap_self
      have ran' : (virtualLogComponent .fresh component).background cluster (.loglet loglet event) =
          some (cluster.setHeap loglet middle) := by
        dsimp only [virtualLogComponent]
        rw [ran]
        rfl
      have permitted' : ClusterEvent.IsQuiet quiet (.loglet loglet event) := permitted
      exact ⟨last, result, .background permitted' ran' completes⟩

end SegmentedLog

end Relos
