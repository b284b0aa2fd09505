import Relos.Log.ClusterSteps

set_option autoImplicit false

/-! What an acknowledged append means for the whole cluster: no other append has
its global position, and calls that start later on an instance that knows its
segment read it back and see a tail beyond it. -/

namespace Relos

open Async Epochs

namespace Epochs

variable {ends : List Nat}

/-- The global position lies in this epoch. -/
structure Within (ends : List Nat) (epoch globalPos : Nat) : Prop where
  inside : epoch ≤ ends.length
  after : startAt ends epoch ≤ globalPos
  before : ∀ endPos, ends[epoch]? = some endPos → globalPos < endPos

theorem Within.lt_start (ordered : Ordered ends) {epoch later globalPos : Nat}
    (within : Within ends epoch globalPos) (earlier : epoch < later)
    (inside : later ≤ ends.length) : globalPos < startAt ends later := by
  have known : ends[epoch]? = some ends[epoch] := List.getElem?_eq_getElem (by omega)
  have bound := within.before _ known
  have mono : startAt ends (epoch + 1) ≤ startAt ends later := ordered.startAt_mono earlier inside
  rw [startAt_succ known] at mono
  omega

theorem Within.unique (ordered : Ordered ends) {left right globalPos : Nat}
    (first : Within ends left globalPos) (second : Within ends right globalPos) : left = right := by
  rcases Nat.lt_trichotomy left right with before | same | after
  · have bound := first.lt_start ordered before second.inside
    have start := second.after
    omega
  · exact same
  · have bound := second.lt_start ordered after first.inside
    have start := first.after
    omega

/-- A chain that knows the epoch finds its segment. -/
theorem Within.findSegment (ordered : Ordered ends) {initial : String} {count epoch globalPos : Nat}
    (within : Within ends epoch globalPos) (known : epoch ≤ count) (inside : count ≤ ends.length) :
    (chainOf initial (ends.take count)).findSegment globalPos =
      some (segmentAt initial (ends.take count) epoch) := by
  refine findSegment_chainOf (ordered.take count) (by rw [List.length_take]; omega) ?_ ?_
  · rw [startAt_take known inside]
    exact within.after
  · intro endPos closed
    rw [List.getElem?_take] at closed
    split at closed
    · exact within.before endPos closed
    · cases closed

end Epochs

namespace VirtualLog

variable {Node State Fut Event : Type} {component : LogletComponent State Fut Event}

section Positions

variable {outline : LogletOutline component} {factory : Factory} {initial : String}
  {cluster : Cluster Node State}

/-- An occupied local position lies within the epoch of its loglet. -/
theorem placed_within (inv : cluster.Inv outline factory initial)
    (single : factory = .fresh → Subsingleton Node) {node : Node} {epoch : Nat} {loglet : LogletRef}
    {owner localPos : Nat} {entry : Entry} (backs : cluster.Backs initial node epoch loglet)
    (placed : outline.Placed (cluster.heap loglet) owner entry localPos) :
    Within cluster.ends epoch (localToGlobal (startAt cluster.ends epoch) localPos) := by
  have positive := outline.placed_pos (inv.heap loglet) placed
  simp only [logPosBegin] at positive
  refine ⟨Nat.le_trans backs.1 (inv.epoch_le node), ?_, fun endPos closed => ?_⟩
  · unfold localToGlobal
    omega
  · obtain ⟨other, backing, tail, held, final, rfl⟩ := inv.closed epoch endPos closed
    have same := inv.agree single backs.2 held
    subst same
    have below := outline.placed_below (inv.heap loglet) placed final
    unfold localToGlobal
    omega

theorem PlacedAt.unique (inv : cluster.Inv outline factory initial)
    (single : factory = .fresh → Subsingleton Node) {node node' : Node} {owner owner' : Nat}
    {entry entry' : Entry} {globalPos : Nat}
    (left : PlacedAt outline initial cluster node owner entry globalPos)
    (right : PlacedAt outline initial cluster node' owner' entry' globalPos) :
    owner = owner' ∧ entry = entry' := by
  obtain ⟨epoch, loglet, localPos, backs, placed, rfl⟩ := left
  obtain ⟨epoch', loglet', localPos', backs', placed', same⟩ := right
  have within := placed_within inv single backs placed
  have within' := placed_within inv single backs' placed'
  rw [← same] at within'
  have epochs := within.unique inv.ordered within'
  subst epochs
  have loglets := inv.agree single backs.2 backs'.2
  subst loglets
  have positive := outline.placed_pos (inv.heap loglet) placed
  have positive' := outline.placed_pos (inv.heap loglet) placed'
  have locals : localPos = localPos' := by
    unfold localToGlobal at same
    simp only [logPosBegin] at positive positive'
    omega
  subst locals
  exact outline.placed_unique (inv.heap loglet) placed placed'

end Positions

/-! ### Acknowledged entries -/

variable {outline : DurableOutline component} {factory : Factory} {initial : String}
  {cluster next : Cluster Node State} {index : Nat}

/-- The entry is durable in a loglet that the instance knows. -/
def DurableAt (outline : DurableOutline component) (initial : String) (cluster : Cluster Node State)
    (node : Node) (owner : Nat) (entry : Entry) (globalPos : Nat) : Prop :=
  ∃ epoch loglet localPos, cluster.Backs initial node epoch loglet ∧
    (outline.durable owner entry localPos).Fact (cluster.heap loglet) ∧
    globalPos = localToGlobal (startAt cluster.ends epoch) localPos

theorem AppendedAt.durableAt (inv : cluster.Inv outline.toLogletOutline factory initial)
    {node : Node} {entry : Entry} {globalPos : Nat}
    (appended : AppendedAt outline.toLogletOutline initial cluster node index entry globalPos) :
    DurableAt outline initial cluster node index entry globalPos := by
  obtain ⟨epoch, loglet, localPos, backs, finished, same, _⟩ := appended
  exact ⟨epoch, loglet, localPos, backs, outline.append_durable (inv.heap loglet) finished, same⟩

theorem fact_stable (inv : cluster.Inv outline.toLogletOutline factory initial)
    (inv' : next.Inv outline.toLogletOutline factory initial)
    (grows : cluster.Grows outline.toLogletOutline index next) {loglet : LogletRef}
    {owner localPos : Nat} {entry : Entry}
    (fact : (outline.durable owner entry localPos).Fact (cluster.heap loglet)) :
    (outline.durable owner entry localPos).Fact (next.heap loglet) :=
  (outline.durable owner entry localPos).fact_stable (inv.heap loglet) (inv'.heap loglet)
    (grows.heap loglet) fact

theorem fact_pos (inv : cluster.Inv outline.toLogletOutline factory initial) {loglet : LogletRef}
    {owner localPos : Nat} {entry : Entry}
    (fact : (outline.durable owner entry localPos).Fact (cluster.heap loglet)) : 1 ≤ localPos :=
  outline.placed_pos (inv.heap loglet) (outline.durable_placed (inv.heap loglet) fact)

theorem DurableAt.stable (inv : cluster.Inv outline.toLogletOutline factory initial)
    (inv' : next.Inv outline.toLogletOutline factory initial)
    (grows : cluster.Grows outline.toLogletOutline index next) {node : Node} {owner : Nat}
    {entry : Entry} {globalPos : Nat}
    (durable : DurableAt outline initial cluster node owner entry globalPos) :
    DurableAt outline initial next node owner entry globalPos := by
  obtain ⟨epoch, loglet, localPos, backs, fact, same⟩ := durable
  refine ⟨epoch, loglet, localPos, backs.stable grows, fact_stable inv inv' grows fact, ?_⟩
  rw [grows.startAt inv backs.1]
  exact same

/-! ### Reads -/

/-- What a read of the position knows on its way. -/
def ReadRunning (outline : DurableOutline component) (owner : Nat) (entry : Entry) (node : Node)
    (cluster : Cluster Node State) : Future Fut → Prop
  | .readLoglets localPos logletId => ∃ loglet, cluster.Holds node logletId loglet ∧
      (outline.durable owner entry localPos).Fact (cluster.heap loglet)
  | .read loglet localPos future =>
      (outline.durable owner entry localPos).Fact (cluster.heap loglet) ∧
      (outline.durable owner entry localPos).Running (cluster.heap loglet) (.read localPos) future
  | _ => True

theorem ReadRunning.stable (inv : cluster.Inv outline.toLogletOutline factory initial)
    (inv' : next.Inv outline.toLogletOutline factory initial)
    (grows : cluster.Grows outline.toLogletOutline index next) {owner : Nat} {entry : Entry}
    {node : Node} {future : Future Fut} (running : ReadRunning outline owner entry node cluster future) :
    ReadRunning outline owner entry node next future := by
  unfold ReadRunning at running ⊢
  split
  · obtain ⟨loglet, held, fact⟩ := running
    exact ⟨loglet, grows.loglets _ _ _ held, fact_stable inv inv' grows fact⟩
  · rename_i loglet localPos future
    obtain ⟨fact, running⟩ := running
    exact ⟨fact_stable inv inv' grows fact, (outline.durable owner entry localPos).running_stable
      (inv.heap loglet) (inv'.heap loglet) fact (grows.heap loglet) running⟩
  · trivial

/-- The futures of a read. -/
theorem running_read {outline : LogletOutline component} {node : Node} {globalPos : Nat}
    {future : Future Fut}
    (running : Knows outline factory initial cluster index (node, .read globalPos) future) :
    future = .readChain globalPos ∨ (∃ localPos logletId, future = .readLoglets localPos logletId) ∨
      ∃ loglet localPos fut, future = .read loglet localPos fut := by
  cases future with
  | readChain pos =>
      have same : LogletOp.read globalPos = .read pos := running
      cases same
      exact Or.inl rfl
  | readLoglets localPos logletId => exact Or.inr (Or.inl ⟨_, _, rfl⟩)
  | read loglet localPos fut => exact Or.inr (Or.inr ⟨_, _, _, rfl⟩)
  | activeChain caller => cases caller <;> cases running
  | activeLoglet caller startPos logletId => cases caller <;> cases running.1
  | append loglet startPos fut => cases running.1
  | checkTail loglet startPos fut => cases running.1
  | «seal» loglet startPos fut => cases running.1
  | reconfigureSeal loglet startPos fut => cases running.1
  | reconfigureVersion loglet startPos globalSealPos => cases running.1
  | reconfigureChain loglet startPos globalSealPos version => cases running.1
  | reconfigureWrite loglet startPos version newChain newLogletId => cases running.1
  | reconfigureCreate version newChain newLogletId => cases running.1
  | reconfigureInsert version newChain newLogletId newLoglet => cases running.1
  | syncRead => cases running
  | syncLoglets todo newChain newVersion => cases running.1
  | installChain newChain newVersion => cases running.1
  | installVersion newVersion => cases running.1
  | trimChain pos => cases running
  | trimSegments pos todo => cases running
  | trim pos loglet localPos fut todo => cases running.1

variable [DecidableEq Node] {progress : Progress (Future Fut) LogletResult}

theorem read_poll (inv : cluster.Inv outline.toLogletOutline factory initial)
    (single : factory = .fresh → Subsingleton Node) {node : Node} {owner globalPos : Nat}
    {entry : Entry} (durable : DurableAt outline initial cluster node owner entry globalPos)
    {future : Future Fut} (running : Knows outline.toLogletOutline factory initial cluster index
      (node, .read globalPos) future)
    (logletOk : LogletPollOk outline.toLogletOutline cluster index (.read globalPos) future)
    (known : ReadRunning outline owner entry node cluster future)
    (polled : poll factory component cluster index (node, .read globalPos) future =
      some (next, progress)) :
    progress.Holds (ReadRunning outline owner entry node next)
      fun result => result = .ok (.entry (some entry)) := by
  rcases running_read running with rfl | ⟨localPos, logletId, rfl⟩ | ⟨loglet, localPos, fut, rfl⟩
  · obtain ⟨epoch, loglet, localPos, backs, fact, rfl⟩ := durable
    have placed := outline.durable_placed (inv.heap loglet) fact
    have within := placed_within inv single backs placed
    have bound := inv.epoch_le node
    simp only [poll] at polled
    rw [inv.cached node, within.findSegment inv.ordered backs.1 bound] at polled
    cases polled
    have localEq : globalToLocal
        (segmentAt initial (cluster.ends.take (cluster.epoch node)) epoch).startPos
        (localToGlobal (startAt cluster.ends epoch) localPos) = localPos := by
      have positive := fact_pos inv fact
      simp only [segmentAt]
      rw [startAt_take backs.1 bound]
      unfold globalToLocal localToGlobal
      omega
    refine ⟨loglet, backs.2, ?_⟩
    rw [localEq]
    exact fact
  · obtain ⟨loglet, held, fact⟩ := known
    simp only [poll] at polled
    rw [show (cluster.logs node).loglets[logletId]? = some loglet from held] at polled
    cases polled
    exact ⟨fact, (outline.durable owner entry localPos).begin_running (inv.heap loglet) fact⟩
  · obtain ⟨fact, pending⟩ := known
    have opOk : outline.OpOk (.read localPos) := outline.opOk fun impossible => impossible.elim
    obtain ⟨state, answer, moved, rfl, outcome⟩ := await_cases polled
    obtain ⟨kept, _, rely⟩ := outline.poll_sound (inv.heap loglet) opOk running.2 logletOk moved
    have fact' := (outline.durable owner entry localPos).fact_stable (inv.heap loglet) kept
      (rely (index + 1) (Nat.succ_ne_self index)) fact
    have holds := (outline.durable owner entry localPos).poll_sound (inv.heap loglet) fact opOk
      running.2 logletOk pending moved
    have updated : (cluster.setHeap loglet state).heap loglet = state := Function.update_self ..
    rcases outcome with ⟨later, rfl, rfl⟩ | ⟨result, rfl, resumed⟩
    · change (outline.durable owner entry localPos).Fact ((cluster.setHeap loglet state).heap loglet) ∧
        (outline.durable owner entry localPos).Running ((cluster.setHeap loglet state).heap loglet)
          (.read localPos) later
      rw [updated]
      exact ⟨fact', holds⟩
    · cases resumed
      exact outline.durable_read holds

/-- Reads of the position on this instance return the entry. -/
def readPromise (outline : DurableOutline component) (factory : Factory) (initial : String)
    (single : factory = .fresh → Subsingleton Node) (node : Node) (owner : Nat) (entry : Entry)
    (globalPos : Nat) :
    Outline.Promise (virtualLogOutline Node outline.toLogletOutline factory initial) where
  Fact cluster := DurableAt outline initial cluster node owner entry globalPos
  Running cluster call future := call = (node, .read globalPos) →
    ReadRunning outline owner entry node cluster future
  Finished call result := call = (node, .read globalPos) → result = .ok (.entry (some entry))
  fact_stable inv inv' grows durable := durable.stable inv inv' grows
  begin_running := by
    intro cluster call _ _ same
    subst same
    trivial
  poll_sound := by
    intro cluster index call future next progress inv durable _ running pollOk known polled
    by_cases same : call = (node, .read globalPos)
    · subst same
      exact (read_poll inv single durable running.1 pollOk.2 (known rfl) polled).imp
        (fun _ held _ => held) (fun _ held _ => held)
    · cases progress with
      | running future => exact fun equal => absurd equal same
      | finished result => exact fun equal => absurd equal same
  running_stable inv inv' _ grows known same := (known same).stable inv inv' grows

/-! ### Tails -/

/-- What a `check_tail` knows on its way: the segment it asks lies beyond the
position, or is the one that holds it. -/
def TailRunning (outline : DurableOutline component) (owner : Nat) (entry : Entry)
    (globalPos : Nat) (node : Node) (cluster : Cluster Node State) : Future Fut → Prop
  | .activeLoglet _ startPos logletId => globalPos < startPos ∨
      ∃ loglet localPos, cluster.Holds node logletId loglet ∧
        (outline.durable owner entry localPos).Fact (cluster.heap loglet) ∧
        globalPos = localToGlobal startPos localPos
  | .checkTail loglet startPos future => globalPos < startPos ∨
      ∃ localPos, (outline.durable owner entry localPos).Fact (cluster.heap loglet) ∧
        (outline.durable owner entry localPos).Running (cluster.heap loglet) .checkTail future ∧
        globalPos = localToGlobal startPos localPos
  | _ => True

omit [DecidableEq Node] in
theorem TailRunning.stable (inv : cluster.Inv outline.toLogletOutline factory initial)
    (inv' : next.Inv outline.toLogletOutline factory initial)
    (grows : cluster.Grows outline.toLogletOutline index next) {owner globalPos : Nat}
    {entry : Entry} {node : Node} {future : Future Fut}
    (running : TailRunning outline owner entry globalPos node cluster future) :
    TailRunning outline owner entry globalPos node next future := by
  unfold TailRunning at running ⊢
  split
  · rcases running with before | ⟨loglet, localPos, held, fact, same⟩
    · exact Or.inl before
    · exact Or.inr ⟨loglet, localPos, grows.loglets _ _ _ held, fact_stable inv inv' grows fact,
        same⟩
  · rename_i loglet startPos future
    rcases running with before | ⟨localPos, fact, running, same⟩
    · exact Or.inl before
    · exact Or.inr ⟨localPos, fact_stable inv inv' grows fact,
        (outline.durable owner entry localPos).running_stable (inv.heap loglet)
          (inv'.heap loglet) fact (grows.heap loglet) running, same⟩
  · trivial

omit [DecidableEq Node] in
/-- The futures of a `check_tail`. -/
theorem running_checkTail {outline : LogletOutline component} {node : Node} {future : Future Fut}
    (running : Knows outline factory initial cluster index (node, .checkTail) future) :
    (∃ caller, future = .activeChain caller) ∨
      (∃ caller startPos logletId, future = .activeLoglet caller startPos logletId ∧
        caller = .checkTail) ∨
      ∃ loglet startPos fut, future = .checkTail loglet startPos fut := by
  cases future with
  | activeChain caller => exact Or.inl ⟨caller, rfl⟩
  | activeLoglet caller startPos logletId =>
      refine Or.inr (Or.inl ⟨caller, startPos, logletId, rfl, ?_⟩)
      cases caller with
      | checkTail => rfl
      | append => exact running.1.elim
      | reconfigure => exact running.1.elim
      | «seal» => cases running.1
  | checkTail loglet startPos fut => exact Or.inr (Or.inr ⟨_, _, _, rfl⟩)
  | append loglet startPos fut => exact running.1.elim
  | «seal» loglet startPos fut => cases running.1
  | reconfigureSeal loglet startPos fut => exact running.1.elim
  | reconfigureVersion loglet startPos globalSealPos => exact running.1.elim
  | reconfigureChain loglet startPos globalSealPos version => exact running.1.elim
  | reconfigureWrite loglet startPos version newChain newLogletId => exact running.1.elim
  | reconfigureCreate version newChain newLogletId => exact running.1.elim
  | reconfigureInsert version newChain newLogletId newLoglet => exact running.1.elim
  | syncRead => exact running.elim
  | syncLoglets todo newChain newVersion => exact running.1.elim
  | installChain newChain newVersion => exact running.1.elim
  | installVersion newVersion => exact running.1.elim
  | readChain pos => cases running
  | readLoglets localPos logletId =>
      obtain ⟨_, _, impossible, _⟩ := running
      cases impossible
  | read loglet localPos fut =>
      obtain ⟨⟨_, _, impossible, _⟩, _⟩ := running
      cases impossible
  | trimChain pos => cases running
  | trimSegments pos todo => cases running
  | trim pos loglet localPos fut todo => cases running.1

theorem tail_poll (inv : cluster.Inv outline.toLogletOutline factory initial)
    (single : factory = .fresh → Subsingleton Node) {node : Node} {owner globalPos : Nat}
    {entry : Entry} (durable : DurableAt outline initial cluster node owner entry globalPos)
    {future : Future Fut} (running : Knows outline.toLogletOutline factory initial cluster index
      (node, .checkTail) future)
    (logletOk : LogletPollOk outline.toLogletOutline cluster index .checkTail future)
    (known : TailRunning outline owner entry globalPos node cluster future)
    (polled : poll factory component cluster index (node, .checkTail) future =
      some (next, progress)) :
    progress.Holds (TailRunning outline owner entry globalPos node next)
      fun result => ∃ tail, result = .ok (.pos tail) ∧ globalPos < tail := by
  rcases running_checkTail running with ⟨caller, rfl⟩ | ⟨caller, startPos, logletId, rfl, rfl⟩ |
    ⟨loglet, startPos, fut, rfl⟩
  · obtain ⟨epoch, loglet, localPos, backs, fact, rfl⟩ := durable
    have within := placed_within inv single backs (outline.durable_placed (inv.heap loglet) fact)
    have bound := inv.epoch_le node
    simp only [poll] at polled
    rw [inv.cached node, activeSegment_chainOf, inv.epoch_eq,
      startAt_take (Nat.le_refl _) bound] at polled
    cases polled
    rcases Nat.lt_or_eq_of_le backs.1 with earlier | rfl
    · exact Or.inl (within.lt_start inv.ordered earlier bound)
    · exact Or.inr ⟨loglet, localPos, backs.2, fact, rfl⟩
  · obtain ⟨_, epoch, inside, rfl, rfl⟩ := running
    obtain ⟨loglet, held⟩ := inv.covered node epoch inside
    simp only [poll] at polled
    rw [show (cluster.logs node).loglets[idAt initial epoch]? = some loglet from held] at polled
    cases polled
    rcases known with before | ⟨found, localPos, holds, fact, same⟩
    · exact Or.inl before
    · cases Option.some.inj (held.symm.trans holds)
      exact Or.inr ⟨localPos, fact, (outline.durable owner entry localPos).begin_running
        (inv.heap loglet) fact, same⟩
  · have opOk : outline.OpOk .checkTail := outline.opOk fun impossible => impossible.elim
    obtain ⟨state, answer, moved, rfl, outcome⟩ := await_cases polled
    obtain ⟨kept, holds, rely⟩ :=
      outline.poll_sound (inv.heap loglet) opOk running.2.2 logletOk moved
    have updated : (cluster.setHeap loglet state).heap loglet = state := Function.update_self ..
    rcases outcome with ⟨later, rfl, rfl⟩ | ⟨result, rfl, resumed⟩
    · rcases known with before | ⟨localPos, fact, pending, same⟩
      · exact Or.inl before
      · refine Or.inr ⟨localPos, ?_, ?_, same⟩
        · rw [updated]
          exact (outline.durable owner entry localPos).fact_stable (inv.heap loglet) kept
            (rely (index + 1) (Nat.succ_ne_self index)) fact
        · rw [updated]
          exact (outline.durable owner entry localPos).poll_sound (inv.heap loglet) fact opOk
            running.2.2 logletOk pending moved
    · obtain ⟨tail, rfl, positive⟩ := outline.tail_pos kept holds
      cases resumed
      refine ⟨_, rfl, ?_⟩
      simp only [logPosBegin] at positive
      unfold localToGlobal
      rcases known with before | ⟨localPos, fact, pending, rfl⟩
      · omega
      · have finished := (outline.durable owner entry localPos).poll_sound (inv.heap loglet) fact
          opOk running.2.2 logletOk pending moved
        have beyond := outline.durable_tail finished
        have inside := fact_pos inv fact
        unfold localToGlobal
        omega

/-- Tails seen by this instance are beyond the position. -/
def tailPromise (outline : DurableOutline component) (factory : Factory) (initial : String)
    (single : factory = .fresh → Subsingleton Node) (node : Node) (owner : Nat) (entry : Entry)
    (globalPos : Nat) :
    Outline.Promise (virtualLogOutline Node outline.toLogletOutline factory initial) where
  Fact cluster := DurableAt outline initial cluster node owner entry globalPos
  Running cluster call future := call = (node, .checkTail) →
    TailRunning outline owner entry globalPos node cluster future
  Finished call result := call = (node, .checkTail) →
    ∃ tail, result = .ok (.pos tail) ∧ globalPos < tail
  fact_stable inv inv' grows durable := durable.stable inv inv' grows
  begin_running := by
    intro cluster call _ _ same
    subst same
    trivial
  poll_sound := by
    intro cluster index call future next progress inv durable _ running pollOk known polled
    by_cases same : call = (node, .checkTail)
    · subst same
      exact (tail_poll inv single durable running.1 pollOk.2 (known rfl) polled).imp
        (fun _ held _ => held) (fun _ held _ => held)
    · cases progress with
      | running future => exact fun equal => absurd equal same
      | finished result => exact fun equal => absurd equal same
  running_stable inv inv' _ grows known same := (known same).stable inv inv' grows

end VirtualLog

end Relos
