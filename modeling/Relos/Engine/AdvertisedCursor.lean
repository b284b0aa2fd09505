import Relos.Engine.BatchResults
import Relos.Engine.ReplicatedViews

set_option autoImplicit false

/-! The cursor that a server puts on the entries it proposes. An apply changes the view
map that it is read from before its transaction commits, and also when it then fails. -/

namespace Relos

open Async BaseEngine Serial ViewTracking

namespace TrackedReplicas

variable {Node Memory Choice : Type}

/-- What the view-tracking header of the entry holds. -/
def metadataOf (codec : Bincode ViewTrackingMetadata) (entry : Entry) :
    Option ViewTrackingMetadata :=
  (entry.getHeader header).bind fun bytes => (codec.deserialize bytes).toOption

/-- The view that the server has of itself, as `propose` reads it. -/
def ownView (serverId : Node → Nat) (system : TrackedReplicas Node Memory) (node : Node) :
    Option Nat :=
  (system.shared.engines node).map fun engine => engine.memory.1[serverId node]?.getD 0

/-- Engines are created with an empty view map. -/
def Restarting (_ : TrackedReplicas Node Memory) : TrackedAction Node Memory Choice → Prop
  | .background (.new _ memory) => memory.1 = ∅
  | .start _ | .poll _ | .background (.turn _ _) | .background (.stop _) => True

/-- The engine of this server runs on. -/
def Unrestarted (node : Node) (system : TrackedReplicas Node Memory)
    (action : TrackedAction Node Memory Choice) : Prop :=
  system.Restarting action ∧ action ≠ .background (.stop node)

instance (system : TrackedReplicas Node Memory) (action : TrackedAction Node Memory Choice) :
    Decidable (system.Restarting action) :=
  match action with
  | .background (.new _ memory) => inferInstanceAs (Decidable (memory.1 = ∅))
  | .start _ | .poll _ | .background (.turn _ _) | .background (.stop _) => isTrue trivial

variable [DecidableEq Node]

/-- In this step a call of `propose` puts the header on its entry. -/
def Passes (codec : Bincode ViewTrackingMetadata) (serverId : Node → Nat)
    (inner : Applicator Memory Choice) (node : Node) (sent : Entry)
    (system next : TrackedReplicas Node Memory) : Prop :=
  ∃ index entry, system.Pending index (.engine node (.propose entry)) .enter ∧
    (trackedReplicas codec serverId inner).step system (.poll index) = some next ∧
    next.Pending index (.engine node (.propose entry)) (.send (.propose sent))

/-- Headers that a server puts on its entries name the server and a cursor that its store
has reached, in this state and in all that follow. Until its engine stops the cursors of
later headers are no smaller. -/
structure SoundCursors (codec : Bincode ViewTrackingMetadata) (serverId : Node → Nat)
    (inner : Applicator Memory Choice) (system : TrackedReplicas Node Memory) : Prop where
  bounded : ∀ node sent next later, Passes codec serverId inner node sent system next →
    (trackedReplicas codec serverId inner).Run Restarting system later →
    ∃ view cursor, metadataOf codec sent = some ⟨serverId node, view⟩ ∧
      persistedCursor (later.shared.stores node) = .ok cursor ∧ view ≤ cursor
  rising : ∀ node sent sent' next later last metadata metadata',
    Passes codec serverId inner node sent system next →
    (trackedReplicas codec serverId inner).Run (Unrestarted node) next later →
    Passes codec serverId inner node sent' later last →
    metadataOf codec sent = some metadata → metadataOf codec sent' = some metadata' →
    metadata.cursor ≤ metadata'.cursor

variable {codec : Bincode ViewTrackingMetadata} {serverId : Node → Nat}
  {inner : Applicator Memory Choice} {node : Node} {sent : Entry}
  {system next later : TrackedReplicas Node Memory}

/-- The header is made of the view that the server has of itself. -/
theorem Passes.metadata (lawful : codec.Lawful)
    (passes : Passes codec serverId inner node sent system next) :
    ∃ view, ownView serverId system node = some view ∧
      metadataOf codec sent = some ⟨serverId node, view⟩ := by
  obtain ⟨index, entry, pending, moved, passed⟩ := passes
  obtain ⟨call, future, shared, progress, pending', polled, rfl⟩ := Component.step_poll moved
  obtain ⟨rfl, rfl⟩ : call = .engine node (.propose entry) ∧ future = .enter := by
    cases Option.some.inj (pending'.symm.trans pending)
    exact ⟨rfl, rfl⟩
  have going : progress = .running (.send (.propose sent)) := by
    have inside := (List.getElem?_eq_some_iff.mp pending).1
    have here := passed
    unfold System.Pending at here
    dsimp only at here
    rw [List.getElem?_set_self inside] at here
    exact congrArg Call.progress (Option.some.inj here)
  subst going
  simp only [replicaComponent, Replicas.poll] at polled
  split at polled
  · rename_i engine running
    obtain ⟨bytes, serialized, read⟩ := lawful ⟨serverId node, engine.memory.1[serverId node]?.getD 0⟩
    simp only [enter, propose, serialized] at polled
    cases polled
    refine ⟨engine.memory.1[serverId node]?.getD 0, ?_, ?_⟩
    · unfold ownView
      rw [running]
      rfl
    · unfold metadataOf Entry.getHeader Entry.withHeader
      dsimp only
      rw [Std.ExtTreeMap.getElem?_insert_self, Option.bind_some, read]
      rfl
  · cases polled

/-- A call of `propose` on an engine that runs puts a header on its entry. -/
theorem exists_passes (lawful : codec.Lawful) {index : Nat} {entry : Entry}
    {engine : BaseEngine (Views × Memory)} (running : system.shared.engines node = some engine)
    (pending : system.Pending index (.engine node (.propose entry)) .enter) :
    ∃ sent next, Passes codec serverId inner node sent system next := by
  obtain ⟨bytes, serialized, -⟩ := lawful ⟨serverId node, engine.memory.1[serverId node]?.getD 0⟩
  have polled : (replicaComponent (enter codec serverId) (applicator codec inner)).poll system.shared
      index (.engine node (.propose entry)) .enter =
        some (system.shared, .running (.send (.propose (entry.withHeader header bytes)))) := by
    simp only [replicaComponent, Replicas.poll, running, enter, propose, serialized]
    rfl
  refine ⟨entry.withHeader header bytes, _, index, entry, pending,
    Component.step_of_poll pending polled, ?_⟩
  unfold System.Pending
  rw [List.getElem?_set_self (List.getElem?_eq_some_iff.mp pending).1]

/-! ### The view that a server has of itself -/

/-- An apply leaves a view or makes it the position that it applies. -/
theorem apply_view {choice : Bool × Choice} {memory : Views × Memory} {txn : MemoryWriteTx}
    {entry : Entry} {pos : Nat} (key : Nat) :
    ((applicator codec inner).apply choice memory txn entry pos).1.1[key]? = memory.1[key]? ∨
      ((applicator codec inner).apply choice memory txn entry pos).1.1[key]? = some pos := by
  cases held : entry.getHeader header with
  | none =>
      rw [apply_bare codec held]
      exact Or.inl rfl
  | some bytes =>
      cases decoded : codec.deserialize bytes with
      | error error =>
          rw [apply_undecoded held decoded]
          exact Or.inl rfl
      | ok metadata =>
          rw [apply_decoded held decoded]
          dsimp only
          split
          · rw [Std.ExtTreeMap.getElem?_insert]
            split
            · exact Or.inr rfl
            · exact Or.inl rfl
          · exact Or.inl rfl

/-- No server has recorded a view of itself that its store has not reached. -/
def Reached (serverId : Node → Nat) (system : TrackedReplicas Node Memory) (counts : Node → Nat) :
    Prop :=
  ∀ node view, ownView serverId system node = some view → view ≤ counts node + 1

/-- The counts are how many entries the stores hold. -/
structure Own (serverId : Node → Nat) (system : TrackedReplicas Node Memory) (entries : List Entry)
    (counts : Node → Nat) : Prop where
  inv : system.shared.Inv (fun _ _ => True) entries counts
  reached : Reached serverId system counts

variable {entries : List Entry} {counts : Node → Nat}

omit [DecidableEq Node] in
theorem Own.persisted (own : Own serverId system entries counts) (node : Node) :
    persistedCursor (system.shared.stores node) = .ok (counts node + 1) :=
  (own.inv.nodes node).applied.persistedCursor own.inv.capacity

omit [DecidableEq Node] in
/-- The entry that a loop is about to apply is the next one of its store. -/
theorem Own.reading (own : Own serverId system entries counts) {engine : BaseEngine (Views × Memory)}
    {entry : Entry} (running : system.shared.engines node = some engine)
    (reading : engine.reading = some entry) : engine.cursor = counts node + 1 := by
  obtain ⟨resultTx, handler, serving⟩ := serving_of_reading reading
  have fits := (own.inv.nodes node).fits engine running
  unfold BaseEngine.Fits at fits
  rw [serving] at fits
  exact fits.1

omit [DecidableEq Node] in
theorem ownView_eq {engine : BaseEngine (Views × Memory)}
    (running : system.shared.engines node = some engine) :
    ownView serverId system node = some (engine.memory.1[serverId node]?.getD 0) := by
  unfold ownView
  rw [running]
  rfl

/-- In one step the view stays, becomes the position that is applied, or starts anew. -/
theorem Own.view_step {action : TrackedAction Node Memory Choice}
    (own : Own serverId system entries counts) (allowed : system.Restarting action)
    (moved : (trackedReplicas codec serverId inner).step system action = some next)
    {view : Nat} (seen : ownView serverId next node = some view) :
    ownView serverId system node = some view ∨
      (view = counts node + 1 ∧ (ownView serverId system node).isSome = true) ∨
      (view = 0 ∧ ownView serverId system node = none) := by
  obtain ⟨engine, running, rfl⟩ := Option.map_eq_some_iff.mp seen
  cases Replicas.step_origin moved running with
  | kept before ran memory accepted =>
      rw [memory]
      exact Or.inl (ownView_eq ran)
  | applied choice before entry same found reading memory accepted =>
      have cursor := own.reading found reading
      rw [memory, ownView_eq found]
      rcases apply_view (serverId node) with kept | recorded
      · rw [kept]
        exact Or.inl rfl
      · rw [recorded, cursor]
        exact Or.inr (Or.inl ⟨rfl, rfl⟩)
  | opened memory same idle opened =>
      subst same
      have empty : memory.1 = ∅ := allowed
      rw [BaseEngine.new_memory opened, empty]
      refine Or.inr (Or.inr ⟨rfl, ?_⟩)
      unfold ownView
      rw [idle]
      rfl

theorem Own.step {action : TrackedAction Node Memory Choice}
    (own : Own serverId system entries counts) (allowed : system.Restarting action)
    (moved : (trackedReplicas codec serverId inner).step system action = some next) :
    ∃ entries' counts', Own serverId next entries' counts' ∧
      ∀ node, counts node ≤ counts' node := by
  obtain ⟨entries', counts', inv, -, later⟩ := own.inv.step (carries_trivially _) moved
  refine ⟨entries', counts', ⟨inv, fun node view seen => ?_⟩, later⟩
  have more := later node
  rcases own.view_step allowed moved seen with before | ⟨rfl, -⟩ | ⟨rfl, -⟩
  · have bound := own.reached node view before
    omega
  · omega
  · omega

/-- While the engine runs, the view never goes back. -/
theorem Own.rises {action : TrackedAction Node Memory Choice}
    (own : Own serverId system entries counts) (allowed : Unrestarted node system action)
    (moved : (trackedReplicas codec serverId inner).step system action = some next)
    {view : Nat} (seen : ownView serverId system node = some view) :
    ∃ view', ownView serverId next node = some view' ∧ view ≤ view' := by
  obtain ⟨before, running, -⟩ := Option.map_eq_some_iff.mp seen
  have remains := Replicas.step_running moved (Option.isSome_of_eq_some running) allowed.2
  obtain ⟨engine, running'⟩ := Option.isSome_iff_exists.mp remains
  refine ⟨_, ownView_eq running', ?_⟩
  rcases own.view_step allowed.1 moved (ownView_eq running') with same | ⟨reached, -⟩ | ⟨-, absent⟩
  · exact Nat.le_of_eq (Option.some.inj (seen.symm.trans same))
  · rw [reached]
    exact own.reached node view seen
  · rw [seen] at absent
    cases absent

theorem Own.run (own : Own serverId system entries counts)
    (run : (trackedReplicas codec serverId inner).Run Restarting system later) :
    ∃ entries' counts', Own serverId later entries' counts' ∧
      ∀ node, counts node ≤ counts' node := by
  refine run.invariant (fun state => ∃ entries' counts', Own serverId state entries' counts' ∧
    ∀ node, counts node ≤ counts' node) ⟨entries, counts, own, fun _ => Nat.le_refl _⟩ ?_
  intro state action next held allowed moved
  obtain ⟨entries', counts', own', more⟩ := held
  obtain ⟨entries'', counts'', own'', more'⟩ := own'.step allowed moved
  exact ⟨entries'', counts'', own'', fun node => Nat.le_trans (more node) (more' node)⟩

theorem Own.rises_run (own : Own serverId system entries counts)
    (run : (trackedReplicas codec serverId inner).Run (Unrestarted node) system later)
    {view : Nat} (seen : ownView serverId system node = some view) :
    ∃ view', ownView serverId later node = some view' ∧ view ≤ view' := by
  have kept := run.invariant (fun state => (∃ entries counts, Own serverId state entries counts) ∧
    ∃ view', ownView serverId state node = some view' ∧ view ≤ view')
    ⟨⟨entries, counts, own⟩, view, seen, Nat.le_refl view⟩ ?_
  · exact kept.2
  · intro state action next held allowed moved
    obtain ⟨⟨entries', counts', own'⟩, view', seen', below⟩ := held
    obtain ⟨entries'', counts'', own'', -⟩ := own'.step allowed.1 moved
    obtain ⟨view'', seen'', below'⟩ := own'.rises allowed moved seen'
    exact ⟨⟨entries'', counts'', own''⟩, view'', seen'', Nat.le_trans below below'⟩

omit [DecidableEq Node] in
theorem Own.new (codec : Bincode ViewTrackingMetadata) (serverId : Node → Nat)
    (inner : Applicator Memory Choice) : Own serverId (new Node Memory) [] fun _ => 0 where
  inv := .new (carries_trivially (applicator codec inner))
  reached _ _ impossible := by cases impossible

/-- In every run with restarts, failing applies and records that are skipped, servers
advertise only cursors that their stores have reached, and never smaller ones later. -/
theorem cursors_sound (lawful : codec.Lawful)
    (run : (trackedReplicas codec serverId inner).Run Restarting (new Node Memory) system) :
    SoundCursors codec serverId inner system := by
  obtain ⟨entries, counts, own, -⟩ := (Own.new codec serverId inner).run run
  constructor
  · intro node sent next later passes after
    obtain ⟨view, seen, carried⟩ := passes.metadata lawful
    obtain ⟨entries', counts', own', more⟩ := own.run after
    have reached := own.reached node view seen
    have further := more node
    exact ⟨view, _, carried, own'.persisted node, by omega⟩
  · intro node sent sent' next later last metadata metadata' passes after passes' carried carried'
    obtain ⟨view, seen, same⟩ := passes.metadata lawful
    obtain ⟨view', seen', same'⟩ := passes'.metadata lawful
    obtain ⟨index, entry, -, moved, -⟩ := passes
    have remains : Unrestarted node system (.poll index : TrackedAction Node Memory Choice) :=
      ⟨trivial, fun impossible => by cases impossible⟩
    obtain ⟨view'', seen'', below⟩ :=
      own.rises_run ((Machine.Run.single remains moved).trans after) seen
    cases Option.some.inj (same.symm.trans carried)
    cases Option.some.inj (same'.symm.trans carried')
    cases Option.some.inj (seen'.symm.trans seen'')
    exact below

/-! ### A header that is read in the middle of an apply -/

/-- Eight bytes for each of the two. -/
def twoWords : Bincode ViewTrackingMetadata :=
  .ofFormat ((Format.count.pair Format.count).map (fun metadata => (metadata.serverId, metadata.cursor))
    (fun fields => some ⟨fields.1, fields.2⟩) fun _ => rfl)

/-- The apply of the first entry fails after it has recorded the view, and a second call
of `propose` starts. -/
def readAfterFailure : List PayloadAction :=
  opened ++ serve 0 true (.propose (.new [1])) 3 ++
    [.background (.turn true (true, some (.store "full"))), .start (.engine true (.propose (.new [2])))]

/-- The header says 1, which the failed apply recorded, and the store has reached 1. -/
theorem cursors_sound_failed : ∃ (system next : TrackedReplicas Bool Unit) (sent : Entry),
    Passes twoWords serverIds payloads true sent system next ∧
    metadataOf twoWords sent = some ⟨1, 1⟩ ∧
    persistedCursor (system.shared.stores true) = .ok 1 ∧
    SoundCursors twoWords serverIds payloads system := by
  obtain ⟨system, run, seen⟩ := Machine.exists_run_of_execute
    (trackedReplicas twoWords serverIds payloads) Restarting (new Bool Unit) readAfterFailure
    (fun system => (system.calls[1]?, ownView serverIds system true,
      persistedCursor (system.shared.stores true)))
    (some ⟨.engine true (.propose (.new [2])), .running .enter⟩, some 1, .ok 1) (by decide +kernel)
  obtain ⟨pending, rest⟩ := Prod.mk.inj seen
  obtain ⟨view, cursor⟩ := Prod.mk.inj rest
  obtain ⟨engine, running, -⟩ := Option.map_eq_some_iff.mp view
  have lawful : twoWords.Lawful := Bincode.ofFormat_lawful _
  obtain ⟨sent, next, passes⟩ := exists_passes lawful running pending
  obtain ⟨carried, same, metadata⟩ := passes.metadata lawful
  cases Option.some.inj (same.symm.trans view)
  exact ⟨system, next, sent, passes, metadata, cursor, cursors_sound lawful run⟩

end TrackedReplicas

end Relos
