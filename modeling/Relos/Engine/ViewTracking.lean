import Relos.Engine.Replication
import Mathlib.Data.Fintype.Basic

set_option autoImplicit false

/-! The engine that records how far the servers have played the log, and the
prefix of the log that it calls safe to trim. -/

namespace Relos

open Async BaseEngine

structure ViewTrackingMetadata where
  serverId : Nat
  cursor : Nat
deriving DecidableEq

/-- The view map. Nothing depends on the order of its keys. -/
abbrev Views := Std.ExtTreeMap Nat Nat

namespace ViewTracking

variable {Node Memory Choice : Type}

def header : String := "view_tracking"

def trimPrefix (views : Views) : Option Nat := (views.toList.map Prod.snd).min?

/-- `ViewTrackingEngine::propose` up to the call of the engine below. -/
def propose (codec : Bincode ViewTrackingMetadata) (serverId : Nat) (views : Views) (entry : Entry) :
    Result Entry :=
  let cursor := views[serverId]?.getD 0
  (codec.serialize { serverId := serverId, cursor := cursor }).map (entry.withHeader header)

/-- The engine side, with the view map that it shares with its applicator. -/
def enter (codec : Bincode ViewTrackingMetadata) (serverId : Node → Nat) (node : Node)
    (memory : Views × Memory) : EngineOp → Result EngineOp
  | .propose entry => (propose codec (serverId node) memory.1 entry).map .propose
  | .sync => .ok .sync

/-- The choice says whether `try_write` gets the lock of the view map. -/
def applicator (codec : Bincode ViewTrackingMetadata) (inner : Applicator Memory Choice) :
    Applicator (Views × Memory) (Bool × Choice) where
  apply choice memory txn entry pos :=
    let delegate (views : Views) :=
      let (held, result) := inner.apply choice.2 memory.2 txn entry pos
      ((views, held), result)
    match entry.getHeader header with
    | some bytes =>
        match codec.deserialize bytes with
        | .ok metadata =>
            delegate (if choice.1 then memory.1.insert metadata.serverId pos else memory.1)
        | .error error => (memory, .error error)
    | none => delegate memory.1

end ViewTracking

abbrev TrackedReplicas (Node Memory : Type) :=
  System (Replicas Node (Views × Memory)) (ReplicaOp Node) Replicas.Future EngineResult

abbrev TrackedAction (Node Memory Choice : Type) :=
  Action (ReplicaOp Node) (ReplicaEvent Node (Views × Memory) (Bool × Choice))

abbrev trackedReplicas {Node Memory Choice : Type} [DecidableEq Node]
    (codec : Bincode ViewTrackingMetadata) (serverId : Node → Nat)
    (inner : Applicator Memory Choice) :
    Machine (TrackedReplicas Node Memory) (TrackedAction Node Memory Choice) :=
  (replicaComponent (ViewTracking.enter codec serverId) (ViewTracking.applicator codec inner)).machine

namespace TrackedReplicas

variable {Node Memory Choice : Type}

def new (Node Memory : Type) : TrackedReplicas Node Memory := .fresh (.new Node (Views × Memory))

/-- No recorded view, and no safe prefix, is ahead of the store of a server. -/
structure SafeViews (serverId : Node → Nat) (system : TrackedReplicas Node Memory) : Prop where
  recorded : ∀ node engine server view cursor, system.shared.engines node = some engine →
    engine.memory.1[serverId server]? = some view →
    persistedCursor (system.shared.stores server) = .ok cursor → view ≤ cursor
  trimmed : ∀ node engine server view cursor pos, system.shared.engines node = some engine →
    engine.memory.1[serverId server]? = some view →
    persistedCursor (system.shared.stores server) = .ok cursor →
    ViewTracking.trimPrefix engine.memory.1 = some pos → pos ≤ cursor

/-- Proposes, syncs and steps of the apply loops. Engines start with an empty view
map and none stops. -/
def Undisturbed (_ : TrackedReplicas Node Memory) : TrackedAction Node Memory Choice → Prop
  | .start (.engine _ _) => True
  | .start (.append _) => False
  | .poll _ => True
  | .background (.turn _ _) => True
  | .background (.stop _) => False
  | .background (.new _ memory) => memory.1 = ∅

instance (system : TrackedReplicas Node Memory) (action : TrackedAction Node Memory Choice) :
    Decidable (system.Undisturbed action) :=
  match action with
  | .start (.engine _ _) | .poll _ | .background (.turn _ _) => isTrue trivial
  | .start (.append _) | .background (.stop _) => isFalse id
  | .background (.new _ memory) => inferInstanceAs (Decidable (memory.1 = ∅))

/-- The server id and the position that the next turn of the loop would record. -/
def nextView (codec : Bincode ViewTrackingMetadata) (engine : BaseEngine (Views × Memory)) :
    Option (Nat × Nat) :=
  match engine.serving with
  | some (_, .read _ entry) => (entry.getHeader ViewTracking.header).bind fun bytes =>
      (codec.deserialize bytes).toOption.map fun metadata => (metadata.serverId, engine.cursor)
  | _ => none

def Behind (store : MemoryStore) (pos : Nat) : Prop :=
  match persistedCursor store with
  | .ok cursor => cursor < pos
  | .error _ => False

/-- The server whose view the turn would record has entries before it to apply. -/
def Overtakes (codec : Bincode ViewTrackingMetadata) (serverId : Node → Nat)
    (system : TrackedReplicas Node Memory) (node : Node) : Prop :=
  ∃ server, match (system.shared.engines node).bind (nextView codec) with
    | some (id, pos) => serverId server = id ∧ Behind (system.shared.stores server) pos
    | none => False

instance (store : MemoryStore) (pos : Nat) : Decidable (Behind store pos) := by
  unfold Behind
  split <;> infer_instance

instance [Fintype Node] (codec : Bincode ViewTrackingMetadata) (serverId : Node → Nat)
    (system : TrackedReplicas Node Memory) (node : Node) :
    Decidable (system.Overtakes codec serverId node) := by
  unfold Overtakes
  split <;> infer_instance

/-- No view is recorded ahead of the server it names. Engines may stop and be
created anew with an empty view map, and entries may be appended directly. -/
def Abreast (codec : Bincode ViewTrackingMetadata) (serverId : Node → Nat)
    (system : TrackedReplicas Node Memory) : TrackedAction Node Memory Choice → Prop
  | .background (.turn node choice) => choice.1 = true → ¬ system.Overtakes codec serverId node
  | .background (.new _ memory) => memory.1 = ∅
  | _ => True

instance [Fintype Node] (codec : Bincode ViewTrackingMetadata) (serverId : Node → Nat)
    (system : TrackedReplicas Node Memory) (action : TrackedAction Node Memory Choice) :
    Decidable (system.Abreast codec serverId action) :=
  match action with
  | .background (.turn node choice) =>
      inferInstanceAs (Decidable (choice.1 = true → ¬ system.Overtakes codec serverId node))
  | .background (.new _ memory) => inferInstanceAs (Decidable (memory.1 = ∅))
  | .start _ | .poll _ | .background (.stop _) => isTrue trivial

/-! ### Safety -/

theorem trimPrefix_le {views : Views} {key view pos : Nat} (recorded : views[key]? = some view)
    (trims : ViewTracking.trimPrefix views = some pos) : pos ≤ view := by
  have member : view ∈ views.toList.map Prod.snd :=
    List.mem_map.mpr ⟨(key, view), Std.ExtTreeMap.mem_toList_iff_getElem?_eq_some.mpr recorded, rfl⟩
  exact (List.min?_eq_some_iff.mp trims).2 view member

/-- An apply records at most the position it applies, under the id in the header. -/
theorem apply_views {codec : Bincode ViewTrackingMetadata} {inner : Applicator Memory Choice}
    {choice : Bool × Choice} {memory : Views × Memory} {txn : MemoryWriteTx} {entry : Entry}
    {pos key view : Nat}
    (recorded : ((ViewTracking.applicator codec inner).apply choice memory txn entry pos).1.1[key]? =
      some view) :
    memory.1[key]? = some view ∨ (choice.1 = true ∧ view = pos ∧ ∃ bytes metadata,
      entry.getHeader ViewTracking.header = some bytes ∧ codec.deserialize bytes = .ok metadata ∧
      metadata.serverId = key) := by
  unfold ViewTracking.applicator at recorded
  simp only at recorded
  split at recorded
  · rename_i bytes held
    split at recorded
    · rename_i metadata decoded
      simp only at recorded
      split at recorded
      · rename_i locked
        rw [Std.ExtTreeMap.getElem?_insert] at recorded
        split at recorded
        · rename_i same
          cases recorded
          exact Or.inr ⟨locked, rfl, bytes, metadata, held, decoded,
            Std.LawfulEqCmp.eq_of_compare same⟩
        · exact Or.inl recorded
      · exact Or.inl recorded
    · exact Or.inl recorded
  · exact Or.inl recorded

/-- Every recorded view is at most the cursor of the server it names. -/
def Recorded (serverId : Node → Nat) (replicas : Replicas Node (Views × Memory))
    (counts : Node → Nat) : Prop :=
  ∀ node engine server view, replicas.engines node = some engine →
    engine.memory.1[serverId server]? = some view → view ≤ counts server + 1

def Guarded (serverId : Node → Nat) (replicas : Replicas Node (Views × Memory)) : Prop :=
  ∃ entries counts, replicas.Inv (fun _ _ => True) entries counts ∧
    Recorded serverId replicas counts

theorem Recorded.later {serverId : Node → Nat} {replicas next : Replicas Node (Views × Memory)}
    {counts counts' : Node → Nat} (recorded : Recorded serverId replicas counts)
    (later : ∀ node, counts node ≤ counts' node)
    (kept : ∀ node engine server view, next.engines node = some engine →
      engine.memory.1[serverId server]? = some view →
      (∃ before, replicas.engines node = some before ∧
        before.memory.1[serverId server]? = some view) ∨ view ≤ counts server + 1) :
    Recorded serverId next counts' := by
  intro node engine server view running seen
  have bound := later server
  rcases kept node engine server view running seen with ⟨before, ran, held⟩ | safe
  · have earlier := recorded node before server view ran held
    omega
  · omega

theorem carries_trivially (applicator : Applicator Memory Choice) :
    applicator.Carries fun _ _ => True where
  empty := trivial
  step := fun _ _ => trivial

variable [DecidableEq Node] {codec : Bincode ViewTrackingMetadata} {serverId : Node → Nat}
  {inner : Applicator Memory Choice}

theorem Guarded.step {system next : TrackedReplicas Node Memory}
    {action : TrackedAction Node Memory Choice} (guarded : Guarded serverId system.shared)
    (allowed : system.Abreast codec serverId action)
    (moved : (trackedReplicas codec serverId inner).step system action = some next) :
    Guarded serverId next.shared := by
  obtain ⟨entries, counts, inv, recorded⟩ := guarded
  obtain ⟨entries', counts', inv', _, later⟩ := inv.step (carries_trivially _) moved
  refine ⟨entries', counts', inv', recorded.later later fun node engine server view running seen => ?_⟩
  cases Replicas.step_origin moved running with
  | kept before ran memory accepted =>
      rw [memory] at seen
      exact Or.inl ⟨before, ran, seen⟩
  | applied choice before entry same found reading memory accepted =>
      subst same
      rw [memory] at seen
      rcases apply_views seen with held | ⟨locked, rfl, bytes, metadata, held, decoded, named⟩
      · exact Or.inl ⟨before, found, held⟩
      · have cursor := (inv.nodes server).applied.persistedCursor inv.capacity
        refine Or.inr (Nat.not_lt.mp fun behind => allowed locked ⟨server, ?_⟩)
        have view : nextView codec before = some (serverId server, before.cursor) := by
          obtain ⟨resultTx, handler, serving⟩ := serving_of_reading reading
          unfold nextView
          rw [serving]
          simp only [held, Option.bind_some, decoded]
          rw [← named]
          rfl
        rw [found, Option.bind_some, view]
        refine ⟨rfl, ?_⟩
        unfold Behind
        rw [show persistedCursor (system.shared.stores server) = _ from cursor]
        exact behind
  | opened memory same idle opened =>
      subst same
      have empty : memory.1 = ∅ := allowed
      have fresh := BaseEngine.new_memory opened
      rw [fresh, empty] at seen
      cases seen

omit [DecidableEq Node] in
theorem SafeViews.of_guarded {system : TrackedReplicas Node Memory}
    (guarded : Guarded serverId system.shared) : system.SafeViews serverId := by
  obtain ⟨entries, counts, inv, recorded⟩ := guarded
  have bound : ∀ node engine server view cursor, system.shared.engines node = some engine →
      engine.memory.1[serverId server]? = some view →
      persistedCursor (system.shared.stores server) = .ok cursor → view ≤ cursor := by
    intro node engine server view cursor running seen persisted
    rw [show persistedCursor (system.shared.stores server) = .ok (counts server + 1) from
      (inv.nodes server).applied.persistedCursor inv.capacity] at persisted
    cases persisted
    exact recorded node engine server view running seen
  refine ⟨bound, fun node engine server view cursor pos running seen persisted trims => ?_⟩
  exact Nat.le_trans (trimPrefix_le seen trims)
    (bound node engine server view cursor running seen persisted)

/-- Views are safe as long as none is recorded ahead of the server it names. -/
theorem safe_views {system : TrackedReplicas Node Memory}
    (run : (trackedReplicas codec serverId inner).Run (Abreast codec serverId) (new Node Memory)
      system) : system.SafeViews serverId := by
  refine .of_guarded (run.invariant (fun state => Guarded serverId state.shared) ?_ ?_)
  · exact ⟨[], fun _ => 0, .new (carries_trivially (ViewTracking.applicator codec inner)),
      fun _ _ _ _ impossible => nomatch impossible⟩
  · intro state action next guarded allowed moved
    exact guarded.step allowed moved

/-! ### Schedules -/

/-- Two integers of eight bytes each. -/
def fixedInts : Bincode ViewTrackingMetadata where
  serialize metadata :=
    .ok (Serial.toLeBytes 8 metadata.serverId ++ Serial.toLeBytes 8 metadata.cursor)
  deserialize bytes :=
    if 16 ≤ bytes.length then
      .ok { serverId := Serial.fromLeBytes (bytes.take 8)
            cursor := Serial.fromLeBytes ((bytes.drop 8).take 8) }
    else .error (.serialization "io error: unexpected end of file")

def serverIds : Bool → Nat
  | true => 1
  | false => 2

abbrev PayloadAction := TrackedAction Bool Unit (Option RelosError)

def opened : List PayloadAction := [.background (.new true (∅, ())), .background (.new false (∅, ()))]

/-- A call that reaches the apply loop, and steps of the loop. -/
def serve (index : Nat) (node : Bool) (op : EngineOp) (turns : Nat) : List PayloadAction :=
  [.start (.engine node op), .poll index, .poll index] ++
    List.replicate turns (.background (.turn node (true, none)))

/-- Server 1 has appended its entry and applied nothing when server 2 applies it. -/
def behind : List PayloadAction :=
  opened ++ serve 0 false (.propose (.new [2])) 7 ++ serve 1 true (.propose (.new [1])) 2 ++
    serve 2 false .sync 4

/-- What server 2 has recorded of server 1, and how far server 1 has come. -/
def observed (system : TrackedReplicas Bool Unit) : Option (Option Nat) × Result Nat :=
  ((system.shared.engines false).map fun engine => engine.memory.1[1]?,
    persistedCursor (system.shared.stores true))

theorem not_safe_views_behind :
    ¬ ∀ system : TrackedReplicas Bool Unit,
      (trackedReplicas fixedInts serverIds payloads).Run Undisturbed (new Bool Unit) system →
      system.SafeViews serverIds := by
  intro safe
  obtain ⟨system, run, seen⟩ := Machine.exists_run_of_execute
    (trackedReplicas fixedInts serverIds payloads) Undisturbed (new Bool Unit) behind observed
    (some (some 2), .ok 1) (by decide +kernel)
  obtain ⟨views, cursor⟩ := Prod.mk.inj seen
  obtain ⟨engine, running, recorded⟩ := Option.map_eq_some_iff.mp views
  have ahead := (safe system run).recorded false engine true 2 1 running recorded cursor
  omega

/-- Server 2 applies the entry of server 1 after server 1 did. -/
theorem safe_views_abreast : ∃ system : TrackedReplicas Bool Unit,
    observed system = (some (some 1), .ok 2) ∧ system.SafeViews serverIds := by
  obtain ⟨system, run, seen⟩ := Machine.exists_run_of_execute
    (trackedReplicas fixedInts serverIds payloads) (Abreast fixedInts serverIds) (new Bool Unit)
    (opened ++ serve 0 true (.propose (.new [1])) 7 ++ serve 1 false .sync 7) observed
    (some (some 1), .ok 2) (by decide +kernel)
  exact ⟨system, seen, safe_views run⟩

end TrackedReplicas

end Relos
