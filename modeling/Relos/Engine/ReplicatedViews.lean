import Relos.Engine.ViewTracking
import Mathlib.Data.List.Induction

set_option autoImplicit false

/-! View maps as replicated state. An apply that gets the lock of the view map and is
accepted takes the map one entry further; one that misses the lock loses its update, and
one that fails has made it too early. -/

namespace Relos

open Async BaseEngine

namespace ViewTracking

variable (codec : Bincode ViewTrackingMetadata)

/-- The server that the header of the entry names. -/
def trackedBy (entry : Entry) : Option Nat :=
  (entry.getHeader header).bind fun bytes =>
    (codec.deserialize bytes).toOption.map ViewTrackingMetadata.serverId

/-- What an apply that gets the lock records. -/
def recordView (views : Views) (entry : Entry) (pos : Nat) : Views :=
  match trackedBy codec entry with
  | some serverId => views.insert serverId pos
  | none => views

/-- The views of a log: a function of its entries only. -/
def viewsAfter (entries : List Entry) : Views :=
  (entries.zipIdx logPosBegin).foldl
    (fun views placed => recordView codec views placed.1 placed.2) ∅

/-- The last entry of the server is at this position. -/
def LastTracked (entries : List Entry) (serverId pos : Nat) : Prop :=
  ∃ slot entry, pos = slot + 1 ∧ entries[slot]? = some entry ∧
    trackedBy codec entry = some serverId ∧
    ∀ later found, slot < later → entries[later]? = some found →
      trackedBy codec found ≠ some serverId

theorem viewsAfter_concat (entries : List Entry) (entry : Entry) :
    viewsAfter codec (entries ++ [entry]) =
      recordView codec (viewsAfter codec entries) entry (entries.length + 1) := by
  unfold viewsAfter
  rw [List.zipIdx_append, List.foldl_append, logPosBegin, Nat.add_comm 1]
  rfl

variable {codec} {entries : List Entry} {entry : Entry} {serverId pos : Nat}

theorem lastTracked_own (tracked : trackedBy codec entry = some serverId) :
    LastTracked codec (entries ++ [entry]) serverId pos ↔ pos = entries.length + 1 := by
  have last : (entries ++ [entry])[entries.length]? = some entry := List.getElem?_concat_length
  constructor
  · rintro ⟨slot, found, rfl, present, -, final⟩
    have inside := (List.getElem?_eq_some_iff.mp present).1
    rw [List.length_append, List.length_singleton] at inside
    by_cases before : slot < entries.length
    · exact absurd tracked (final _ _ before last)
    · omega
  · rintro rfl
    refine ⟨entries.length, entry, rfl, last, tracked, fun later found after present => ?_⟩
    have inside := (List.getElem?_eq_some_iff.mp present).1
    rw [List.length_append, List.length_singleton] at inside
    omega

theorem lastTracked_other (other : trackedBy codec entry ≠ some serverId) :
    LastTracked codec (entries ++ [entry]) serverId pos ↔
      LastTracked codec entries serverId pos := by
  constructor
  · rintro ⟨slot, found, rfl, present, named, final⟩
    rcases getElem?_of_concat present with earlier | ⟨-, rfl⟩
    · exact ⟨slot, found, rfl, earlier, named, fun later after there found =>
        final later after there (getElem?_of_longer (List.prefix_append _ _) found)⟩
    · exact absurd named other
  · rintro ⟨slot, found, rfl, present, named, final⟩
    refine ⟨slot, found, rfl, getElem?_of_longer (List.prefix_append _ _) present, named,
      fun later after there found => ?_⟩
    rcases getElem?_of_concat found with earlier | ⟨-, rfl⟩
    · exact final later after there earlier
    · exact other

theorem exists_lastTracked (member : entry ∈ entries)
    (tracked : trackedBy codec entry = some serverId) :
    ∃ pos, LastTracked codec entries serverId pos := by
  induction entries using List.reverseRecOn with
  | nil => cases member
  | append_singleton entries last ih =>
      by_cases own : trackedBy codec last = some serverId
      · exact ⟨_, (lastTracked_own own).mpr rfl⟩
      · rcases List.mem_append.mp member with earlier | single
        · obtain ⟨pos, found⟩ := ih earlier
          exact ⟨pos, (lastTracked_other own).mpr found⟩
        · rw [List.mem_singleton.mp single] at tracked
          exact absurd tracked own

variable (codec entries serverId pos) in
/-- The map holds the position of the last entry of every server that has one. -/
theorem viewsAfter_last :
    (viewsAfter codec entries)[serverId]? = some pos ↔ LastTracked codec entries serverId pos := by
  induction entries using List.reverseRecOn with
  | nil =>
      constructor
      · intro impossible
        cases impossible
      · rintro ⟨slot, entry, -, found, -⟩
        cases found
  | append_singleton entries entry ih =>
      rw [viewsAfter_concat]
      unfold recordView
      by_cases own : trackedBy codec entry = some serverId
      · rw [lastTracked_own own, own]
        dsimp only
        rw [Std.ExtTreeMap.getElem?_insert_self]
        exact Option.some_inj.trans eq_comm
      · rw [lastTracked_other own, ← ih]
        split
        · rename_i other named
          rw [Std.ExtTreeMap.getElem?_insert, if_neg]
          intro same
          exact own (Std.LawfulEqCmp.eq_of_compare same ▸ named)
        · rfl

variable (codec)

section Applies

variable {Memory Choice : Type} {inner : Applicator Memory Choice} {choice : Bool × Choice}
  {memory : Views × Memory} {txn : MemoryWriteTx} {entry : Entry} {pos : Nat}

theorem apply_bare (bare : entry.getHeader header = none) :
    (applicator codec inner).apply choice memory txn entry pos =
      ((memory.1, (inner.apply choice.2 memory.2 txn entry pos).1),
        (inner.apply choice.2 memory.2 txn entry pos).2) := by
  unfold applicator
  dsimp only
  rw [bare]

variable {codec} in
theorem apply_undecoded {bytes : Bytes} {error : RelosError}
    (held : entry.getHeader header = some bytes) (failed : codec.deserialize bytes = .error error) :
    (applicator codec inner).apply choice memory txn entry pos = (memory, .error error) := by
  unfold applicator
  dsimp only
  rw [held]
  dsimp only
  rw [failed]

variable {codec} in
theorem apply_decoded {bytes : Bytes} {metadata : ViewTrackingMetadata}
    (held : entry.getHeader header = some bytes)
    (decoded : codec.deserialize bytes = .ok metadata) :
    (applicator codec inner).apply choice memory txn entry pos =
      ((if choice.1 = true then memory.1.insert metadata.serverId pos else memory.1,
        (inner.apply choice.2 memory.2 txn entry pos).1),
        (inner.apply choice.2 memory.2 txn entry pos).2) := by
  unfold applicator
  dsimp only
  rw [held]
  dsimp only
  rw [decoded]

/-- An accepted apply that gets the lock takes the map one entry further, and a rejected
one that records nothing leaves it. -/
theorem apply_recorded (kept : trackedBy codec entry ≠ none → choice.1 = true ∧
      (inner.apply choice.2 memory.2 txn entry pos).2.isOk = true) :
    ((applicator codec inner).apply choice memory txn entry pos).1.1 =
      if ((applicator codec inner).apply choice memory txn entry pos).2.isOk = true then
        recordView codec memory.1 entry pos
      else memory.1 := by
  cases held : entry.getHeader header with
  | none =>
      have untracked : trackedBy codec entry = none := by
        unfold trackedBy
        rw [held]
        rfl
      unfold recordView
      rw [apply_bare codec held, untracked]
      exact (ite_self _).symm
  | some bytes =>
      cases decoded : codec.deserialize bytes with
      | error error =>
          rw [apply_undecoded held decoded]
          rfl
      | ok metadata =>
          have tracked : trackedBy codec entry = some metadata.serverId := by
            unfold trackedBy
            rw [held, Option.bind_some, decoded]
            rfl
          obtain ⟨locked, accepted⟩ := kept (tracked ▸ Option.some_ne_none _)
          unfold recordView
          rw [apply_decoded held decoded, tracked, if_pos locked, if_pos accepted]

end Applies

end ViewTracking

theorem Consistent.accepted_le {Memory : Type} {engine : BaseEngine Memory} {store : MemoryStore}
    {Holds : List Entry → StoreData → Prop} {entries : List Entry} {count : Nat}
    (consistent : Consistent Holds entries count store (some engine)) :
    engine.accepted ≤ entries.length := by
  have inside := consistent.applied.inside
  have fits := consistent.fits engine rfl
  unfold BaseEngine.Fits at fits
  cases serving : engine.serving with
  | none =>
      rw [serving] at fits
      rw [accepted_idle serving, show engine.cursor = count + 1 from fits]
      exact inside
  | some current =>
      obtain ⟨resultTx, phase⟩ := current
      rw [serving] at fits
      rw [accepted_serving serving]
      cases phase with
      | append | checkTail | play =>
          rw [show engine.cursor = count + 1 from fits]
          exact inside
      | read handler entry =>
          rw [show engine.cursor = count + 1 from fits.1]
          exact inside
      | staged handler txn rv =>
          rw [show engine.cursor = count + 1 from fits.1]
          exact fits.2.inside
      | committed handler rv =>
          rw [show engine.cursor = count from fits]
          exact inside

namespace TrackedReplicas

open ViewTracking

variable {Node Memory Choice : Type}

/-- The entries of a log that was neither sealed nor trimmed. -/
def entries (system : TrackedReplicas Node Memory) : List Entry :=
  system.shared.log.loglet.entries.filterMap id

/-- View maps are a function of the applied prefix, with a value for each server that
has a header in it. -/
structure ReplicatedViews (codec : Bincode ViewTrackingMetadata)
    (system : TrackedReplicas Node Memory) : Prop where
  agree : ∀ node node' engine engine', system.shared.engines node = some engine →
    system.shared.engines node' = some engine' → engine.accepted = engine'.accepted →
    engine.memory.1 = engine'.memory.1
  determined : ∀ node engine, system.shared.engines node = some engine →
    engine.memory.1 = viewsAfter codec (system.entries.take engine.accepted)
  current : ∀ node engine entry serverId, system.shared.engines node = some engine →
    entry ∈ system.entries.take engine.accepted → trackedBy codec entry = some serverId →
    ∃ view, engine.memory.1[serverId]? = some view ∧
      LastTracked codec (system.entries.take engine.accepted) serverId view

/-- An apply of an entry with a header gets the lock and is accepted. -/
def RecordKept (codec : Bincode ViewTrackingMetadata) (inner : Applicator Memory Choice)
    (choice : Bool × Choice) (store : MemoryStore) (engine : BaseEngine (Views × Memory)) :
    Option Entry → Prop
  | some entry => trackedBy codec entry ≠ none → choice.1 = true ∧
      (inner.apply choice.2 engine.memory.2 store.beginWriteTxn entry engine.cursor).2.isOk = true
  | none => True

def TurnKept (codec : Bincode ViewTrackingMetadata) (inner : Applicator Memory Choice)
    (choice : Bool × Choice) (store : MemoryStore) : Option (BaseEngine (Views × Memory)) → Prop
  | some engine => RecordKept codec inner choice store engine engine.reading
  | none => True

/-- The entries that the store of the server holds. -/
def applied (system : TrackedReplicas Node Memory) (node : Node) : List Entry :=
  match persistedCursor (system.shared.stores node) with
  | .ok cursor => system.entries.take (cursor - 1)
  | .error _ => []

/-- No record is missed or made too early, and no map starts empty on a store with
entries that belong in it. -/
def Recording (codec : Bincode ViewTrackingMetadata) (inner : Applicator Memory Choice)
    (system : TrackedReplicas Node Memory) : TrackedAction Node Memory Choice → Prop
  | .background (.turn node choice) =>
      TurnKept codec inner choice (system.shared.stores node) (system.shared.engines node)
  | .background (.new node memory) => memory.1 = ∅ ∧ viewsAfter codec (system.applied node) = ∅
  | .start _ | .poll _ | .background (.stop _) => True

instance (codec : Bincode ViewTrackingMetadata) (inner : Applicator Memory Choice)
    (choice : Bool × Choice) (store : MemoryStore) (engine : BaseEngine (Views × Memory)) :
    (reading : Option Entry) → Decidable (RecordKept codec inner choice store engine reading)
  | some entry => inferInstanceAs (Decidable (trackedBy codec entry ≠ none → choice.1 = true ∧
      (inner.apply choice.2 engine.memory.2 store.beginWriteTxn entry engine.cursor).2.isOk = true))
  | none => isTrue trivial

instance (codec : Bincode ViewTrackingMetadata) (inner : Applicator Memory Choice)
    (choice : Bool × Choice) (store : MemoryStore) :
    (engine : Option (BaseEngine (Views × Memory))) →
      Decidable (TurnKept codec inner choice store engine)
  | some engine =>
      inferInstanceAs (Decidable (RecordKept codec inner choice store engine engine.reading))
  | none => isTrue trivial

instance (codec : Bincode ViewTrackingMetadata) (inner : Applicator Memory Choice)
    (system : TrackedReplicas Node Memory) (action : TrackedAction Node Memory Choice) :
    Decidable (system.Recording codec inner action) :=
  match action with
  | .background (.turn node choice) => inferInstanceAs (Decidable
      (TurnKept codec inner choice (system.shared.stores node) (system.shared.engines node)))
  | .background (.new node memory) => inferInstanceAs (Decidable
      (memory.1 = ∅ ∧ viewsAfter codec (system.applied node) = ∅))
  | .start _ | .poll _ | .background (.stop _) => isTrue trivial

variable {codec : Bincode ViewTrackingMetadata} {serverId : Node → Nat}
  {inner : Applicator Memory Choice} {system next : TrackedReplicas Node Memory}
  {entries entries' : List Entry} {counts counts' : Node → Nat}

/-- Every map has come exactly as far as the applicator. -/
structure Viewed (codec : Bincode ViewTrackingMetadata) (system : TrackedReplicas Node Memory)
    (entries : List Entry) (counts : Node → Nat) : Prop where
  inv : system.shared.Inv (fun _ _ => True) entries counts
  views : ∀ node engine, system.shared.engines node = some engine →
    engine.memory.1 = viewsAfter codec (entries.take engine.accepted)

theorem Viewed.entries_eq (viewed : Viewed codec system entries counts) :
    system.entries = entries := by
  unfold TrackedReplicas.entries
  rw [viewed.inv.log]
  unfold MemoryLoglet.holding
  rw [List.filterMap_map]
  exact List.filterMap_some

theorem Viewed.agreed (viewed : Viewed codec system entries counts) :
    system.ReplicatedViews codec := by
  have determined : ∀ node engine, system.shared.engines node = some engine →
      engine.memory.1 = viewsAfter codec (system.entries.take engine.accepted) := by
    rw [viewed.entries_eq]
    exact viewed.views
  refine ⟨fun node node' engine engine' running running' same => ?_, determined,
    fun node engine entry serverId running member tracked => ?_⟩
  · rw [determined node engine running, determined node' engine' running', same]
  · obtain ⟨view, last⟩ := exists_lastTracked member tracked
    refine ⟨view, ?_, last⟩
    rw [determined node engine running]
    exact (viewsAfter_last codec _ serverId view).mpr last

theorem Viewed.later (viewed : Viewed codec system entries counts)
    (inv : next.shared.Inv (fun _ _ => True) entries' counts') (more : entries <+: entries')
    (kept : ∀ node engine, next.shared.engines node = some engine →
      (∃ before, system.shared.engines node = some before ∧ engine.memory = before.memory ∧
        engine.accepted = before.accepted) ∨
      engine.memory.1 = viewsAfter codec (entries'.take engine.accepted)) :
    Viewed codec next entries' counts' where
  inv := inv
  views node engine running := by
    rcases kept node engine running with ⟨before, ran, memory, accepted⟩ | exact
    · have consistent := viewed.inv.nodes node
      rw [ran] at consistent
      rw [memory, accepted, take_of_longer more consistent.accepted_le]
      exact viewed.views node before ran
    · exact exact

/-- The apply that a loop is about to make takes its map one entry further. -/
theorem Viewed.apply (viewed : Viewed codec system entries counts) {node : Node}
    {engine : BaseEngine (Views × Memory)} {entry : Entry} {choice : Bool × Choice}
    {txn : MemoryWriteTx} (running : system.shared.engines node = some engine)
    (reading : engine.reading = some entry)
    (kept : trackedBy codec entry ≠ none → choice.1 = true ∧
      (inner.apply choice.2 engine.memory.2 txn entry engine.cursor).2.isOk = true) :
    engine.cursor ≤ entries.length ∧
      ((applicator codec inner).apply choice engine.memory txn entry engine.cursor).1.1 =
        viewsAfter codec (entries.take
          (if ((applicator codec inner).apply choice engine.memory txn entry
            engine.cursor).2.isOk = true then engine.cursor else engine.accepted)) := by
  obtain ⟨resultTx, handler, serving⟩ := serving_of_reading reading
  have fits := (viewed.inv.nodes node).fits engine running
  unfold BaseEngine.Fits at fits
  rw [serving] at fits
  obtain ⟨cursor, found⟩ := fits
  have inside := (List.getElem?_eq_some_iff.mp found).1
  have before := accepted_reading reading
  refine ⟨by omega, ?_⟩
  rw [apply_recorded codec kept, viewed.views node engine running]
  split
  · rw [before, cursor, List.take_add_one, found, Option.toList_some, viewsAfter_concat,
      List.length_take, Nat.min_eq_left (Nat.le_of_lt inside), Nat.add_sub_cancel]
  · rfl

theorem Viewed.new (inner : Applicator Memory Choice) :
    Viewed codec (new Node Memory) [] fun _ => 0 where
  inv := .new (carries_trivially (applicator codec inner))
  views _ _ impossible := by cases impossible

/-- An engine starts where its store stands. -/
theorem Viewed.open (viewed : Viewed codec system entries counts) {node : Node}
    {memory : Views × Memory} {engine : BaseEngine (Views × Memory)}
    (recording : memory.1 = ∅ ∧ viewsAfter codec (system.applied node) = ∅)
    (opened : BaseEngine.new (system.shared.stores node) memory = .ok engine) :
    engine.accepted ≤ entries.length ∧
      engine.memory.1 = viewsAfter codec (entries.take engine.accepted) := by
  obtain ⟨empty, untracked⟩ := recording
  have cursor := (viewed.inv.nodes node).applied.persistedCursor viewed.inv.capacity
  have same : system.applied node = entries.take (counts node) := by
    unfold applied
    rw [show persistedCursor (system.shared.stores node) = _ from cursor, viewed.entries_eq]
    rfl
  unfold BaseEngine.new at opened
  rw [show persistedCursor (system.shared.stores node) = _ from cursor] at opened
  cases opened
  rw [same] at untracked
  exact ⟨(viewed.inv.nodes node).applied.inside, empty.trans untracked.symm⟩

variable [DecidableEq Node]

theorem Viewed.step {action : TrackedAction Node Memory Choice}
    (viewed : Viewed codec system entries counts) (recording : system.Recording codec inner action)
    (moved : (trackedReplicas codec serverId inner).step system action = some next) :
    ∃ entries' counts', Viewed codec next entries' counts' := by
  obtain ⟨entries', counts', inv, more, -⟩ := viewed.inv.step (carries_trivially _) moved
  refine ⟨entries', counts', viewed.later inv more fun node engine running => ?_⟩
  cases Replicas.step_origin moved running with
  | kept before ran memory accepted => exact Or.inl ⟨before, ran, memory, accepted⟩
  | applied choice before entry same found reading memory accepted =>
      subst same
      refine Or.inr ?_
      unfold Recording at recording
      dsimp only at recording
      rw [found] at recording
      unfold TurnKept at recording
      dsimp only at recording
      rw [reading] at recording
      obtain ⟨inside, views⟩ := viewed.apply found reading recording
      rw [memory, accepted, views, take_of_longer more]
      split
      · exact inside
      · have bound := accepted_reading reading
        omega
  | opened memory same idle opened =>
      subst same
      obtain ⟨inside, views⟩ := viewed.open recording opened
      rw [take_of_longer more inside]
      exact Or.inr views

/-- Where every record gets the lock and belongs to an accepted apply, equal prefixes
give equal maps, with the last entry of each server in them. -/
theorem replicated_views
    (run : (trackedReplicas codec serverId inner).Run (Recording codec inner) (new Node Memory)
      system) : system.ReplicatedViews codec := by
  have viewed : ∃ entries counts, Viewed codec system entries counts :=
    run.invariant (fun state => ∃ entries counts, Viewed codec state entries counts)
      ⟨[], _, .new inner⟩ fun _ _ _ ⟨_, _, viewed⟩ recording moved => viewed.step recording moved
  obtain ⟨entries, counts, viewed⟩ := viewed
  exact viewed.agreed

/-- What server 1 and server 2 have applied, and the view that they have of server 1. -/
def comparedViews (system : TrackedReplicas Bool Unit) :
    Option (Nat × Option Nat) × Option (Nat × Option Nat) :=
  ((system.shared.engines true).map fun engine => (engine.accepted, engine.memory.1[1]?),
    (system.shared.engines false).map fun engine => (engine.accepted, engine.memory.1[1]?))

/-- Server 2 applies the entry of server 1, with or without the lock of its view map. -/
def bothApply (locked : Bool) : List PayloadAction :=
  opened ++ serve 0 true (.propose (.new [1])) 7 ++ serve 1 false .sync 3 ++
    [.background (.turn false (locked, none))] ++
    List.replicate 3 (.background (.turn false (true, none)))

/-- A reader of the view map holds its lock while server 2 applies the entry. -/
theorem not_replicated_views_unlocked :
    ¬ ∀ system : TrackedReplicas Bool Unit,
      (trackedReplicas fixedInts serverIds payloads).Run Undisturbed (new Bool Unit) system →
      system.ReplicatedViews fixedInts := by
  intro replicated
  obtain ⟨system, run, seen⟩ := Machine.exists_run_of_execute
    (trackedReplicas fixedInts serverIds payloads) Undisturbed (new Bool Unit) (bothApply false)
    comparedViews (some (1, some 1), some (1, none)) (by decide +kernel)
  obtain ⟨first, second⟩ := Prod.mk.inj seen
  obtain ⟨engine, running, view⟩ := Option.map_eq_some_iff.mp first
  obtain ⟨engine', running', view'⟩ := Option.map_eq_some_iff.mp second
  obtain ⟨accepted, recorded⟩ := Prod.mk.inj view
  obtain ⟨accepted', recorded'⟩ := Prod.mk.inj view'
  have same := (replicated system run).agree true false engine engine' running running'
    (accepted.trans accepted'.symm)
  rw [same, recorded'] at recorded
  cases recorded

theorem replicated_views_locked : ∃ system : TrackedReplicas Bool Unit,
    comparedViews system = (some (1, some 1), some (1, some 1)) ∧
      system.ReplicatedViews fixedInts := by
  obtain ⟨system, run, seen⟩ := Machine.exists_run_of_execute
    (trackedReplicas fixedInts serverIds payloads) (Recording fixedInts payloads) (new Bool Unit)
    (bothApply true) comparedViews (some (1, some 1), some (1, some 1)) (by decide +kernel)
  exact ⟨system, seen, replicated_views run⟩

end TrackedReplicas

end Relos
