import Relos.Async.Outline

set_option autoImplicit false

/-! Clients that run one call at a time. Each client has a part of the shared
state that only its own calls and its own events change; a private outline
says what holds of that part while the client is idle and at each suspension
of its one running call. Calls that change no such part belong to no client. -/

namespace Async

variable {Shared Op Fut Res Event Client : Type} {component : Component Shared Op Fut Res Event}

def System.Idle (client : Op → Option Client) (system : System Shared Op Fut Res) (who : Client) : Prop :=
  ∀ index op future, system.Pending index op future → client op ≠ some who

theorem System.idle_iff {client : Op → Option Client} {system : System Shared Op Fut Res} {who : Client} :
    system.Idle client who ↔
      ∀ call, call ∈ system.calls → Call.Meets (fun op (_ : Fut) => client op ≠ some who) (some call) := by
  constructor
  · intro idle call member
    obtain ⟨index, found⟩ := List.getElem?_of_mem member
    obtain ⟨op, progress⟩ := call
    cases progress with
    | running future => exact idle index op future found
    | finished result => trivial
  · intro idle index op future pending
    exact idle _ (List.mem_of_getElem? pending)

instance (client : Op → Option Client) [DecidableEq Client] (system : System Shared Op Fut Res)
    (who : Client) : Decidable (system.Idle client who) :=
  decidable_of_iff _ System.idle_iff.symm

/-- A client starts a call, and undergoes an event, only while it is idle. -/
def OneEach (client : Op → Option Client) (touches : Event → Option Client)
    (system : System Shared Op Fut Res) : Action Op Event → Prop
  | .start op => ∀ who, client op = some who → system.Idle client who
  | .poll _ => True
  | .background event => ∀ who, touches event = some who → system.Idle client who

instance (client : Op → Option Client) [DecidableEq Client] (touches : Event → Option Client)
    (system : System Shared Op Fut Res) :
    (action : Action Op Event) → Decidable (OneEach client touches system action)
  | .start op => inferInstanceAs (Decidable (∀ who, who ∈ client op → system.Idle client who))
  | .poll _ => isTrue trivial
  | .background event =>
      inferInstanceAs (Decidable (∀ who, who ∈ touches event → system.Idle client who))

/-- No client has two running calls. -/
def System.Alone (client : Op → Option Client) (system : System Shared Op Fut Res) : Prop :=
  ∀ left right op op' future future' who, system.Pending left op future →
    system.Pending right op' future' → client op = some who → client op' = some who → left = right

structure PrivateOutline (outline : Outline component) (client : Op → Option Client)
    (touches : Event → Option Client) where
  Local : Type
  view : Shared → Client → Local
  Idle : Local → Prop
  Busy : Local → Op → Fut → Prop
  PollOk : Shared → Op → Fut → Prop
  begin_busy : ∀ {mine op}, Idle mine → Busy mine op (component.begin op)
  poll_busy : ∀ {shared index op future next progress who}, client op = some who →
    outline.Inv shared → outline.Running shared index op future → PollOk shared op future →
    component.poll shared index op future = some (next, progress) →
    Busy (view shared who) op future →
    progress.Holds (Busy (view next who) op) fun _ => Idle (view next who)
  poll_frame : ∀ {shared index op future next progress who}, client op ≠ some who →
    outline.Running shared index op future →
    component.poll shared index op future = some (next, progress) →
    view next who = view shared who
  event_frame : ∀ {shared event next who}, outline.Inv shared → outline.EventOk shared event →
    component.background shared event = some next → touches event ≠ some who →
    view next who = view shared who
  event_idle : ∀ {shared event next who}, outline.Inv shared → outline.EventOk shared event →
    component.background shared event = some next → touches event = some who →
    Idle (view shared who) → Idle (view next who)

variable {outline : Outline component} {client : Op → Option Client} {touches : Event → Option Client}

/-- The polled call meets the condition of its client. -/
def PrivateOutline.permit (own : PrivateOutline outline client touches)
    (system : System Shared Op Fut Res) : Action Op Event → Prop
  | .poll index => ∀ op future, system.Pending index op future → own.PollOk system.shared op future
  | .start _ | .background _ => True

structure PrivateOutline.Orderly (own : PrivateOutline outline client touches)
    (system : System Shared Op Fut Res) : Prop where
  alone : system.Alone client
  idle : ∀ who, system.Idle client who → own.Idle (own.view system.shared who)
  busy : ∀ index op future who, system.Pending index op future → client op = some who →
    own.Busy (own.view system.shared who) op future

variable {own : PrivateOutline outline client touches}

theorem PrivateOutline.Orderly.fresh {shared : Shared}
    (idle : ∀ who, own.Idle (own.view shared who)) :
    own.Orderly (System.fresh shared) where
  alone := by
    intro left right op op' future future' who pending
    cases pending
  idle who _ := idle who
  busy := by
    intro index op future who pending
    cases pending

theorem pending_start {system : System Shared Op Fut Res} {op op' : Op} {index : Nat} {future : Fut}
    (pending : System.Pending
      { system with calls := system.calls ++ [⟨op, .running (component.begin op)⟩] }
      index op' future) :
    system.Pending index op' future ∨
      (index = system.calls.length ∧ op' = op ∧ future = component.begin op) := by
  rcases getElem?_of_concat pending with earlier | ⟨same, equal⟩
  · exact Or.inl earlier
  · cases equal
    exact Or.inr ⟨same, rfl, rfl⟩

theorem pending_poll {system : System Shared Op Fut Res} {shared : Shared} {op op' : Op}
    {progress : Progress Fut Res} {index other : Nat} {future : Fut}
    (pending : System.Pending
      { shared := shared, calls := system.calls.set index ⟨op, progress⟩ } other op' future) :
    (other = index ∧ op' = op ∧ progress = .running future) ∨
      (other ≠ index ∧ system.Pending other op' future) := by
  rcases getElem?_poll pending with ⟨same, equal⟩ | earlier
  · cases equal
    exact Or.inl ⟨same, rfl, rfl⟩
  · exact Or.inr earlier

/-- Calls that were running stay so when another call starts or is polled. -/
theorem System.Pending.start {system : System Shared Op Fut Res} {op : Op}
    {added : Call Op Fut Res} {index : Nat} {future : Fut} (pending : system.Pending index op future) :
    System.Pending { system with calls := system.calls ++ [added] } index op future := by
  unfold System.Pending at pending ⊢
  rw [List.getElem?_append_left (List.getElem?_eq_some_iff.mp pending).1]
  exact pending

theorem System.Pending.poll_other {system : System Shared Op Fut Res} {shared : Shared} {op : Op}
    {polled : Call Op Fut Res} {index other : Nat} {future : Fut} (different : other ≠ index)
    (pending : system.Pending other op future) :
    System.Pending { shared := shared, calls := system.calls.set index polled } other op future := by
  unfold System.Pending at pending ⊢
  rw [List.getElem?_set_ne (fun same => different same.symm)]
  exact pending

theorem System.Pending.poll_self {system : System Shared Op Fut Res} {shared : Shared}
    {op op' : Op} {index : Nat} {future later : Fut} (pending : system.Pending index op future) :
    System.Pending { shared := shared, calls := system.calls.set index ⟨op', .running later⟩ }
      index op' later := by
  unfold System.Pending at pending ⊢
  rw [List.getElem?_set_self (List.getElem?_eq_some_iff.mp pending).1]

theorem System.Pending.poll_finished {system : System Shared Op Fut Res} {shared : Shared}
    {op op' : Op} {index : Nat} {future : Fut} {result : Res}
    (pending : system.Pending index op future) :
    System.Returned { shared := shared, calls := system.calls.set index ⟨op', .finished result⟩ }
      index op' result := by
  unfold System.Pending at pending
  unfold System.Returned
  rw [List.getElem?_set_self (List.getElem?_eq_some_iff.mp pending).1]

theorem System.Pending.same {system : System Shared Op Fut Res} {op op' : Op} {index : Nat}
    {future future' : Fut} (pending : system.Pending index op future)
    (pending' : system.Pending index op' future') : op = op' ∧ future = future' := by
  unfold System.Pending at pending pending'
  rw [pending] at pending'
  cases pending'
  exact ⟨rfl, rfl⟩

theorem PrivateOutline.Orderly.step {system next : System Shared Op Fut Res}
    {action : Action Op Event} (orderly : own.Orderly system) (valid : outline.Valid system)
    (permitted : OneEach client touches system action) (allowed : outline.permit system action)
    (met : own.permit system action) (moved : component.machine.step system action = some next) :
    own.Orderly next := by
  cases action with
  | start op =>
      rw [Component.step_start moved]
      refine ⟨?_, ?_, ?_⟩
      · intro left right one two future future' who pending pending' mine mine'
        rcases pending_start pending with earlier | ⟨rfl, rfl, rfl⟩
        · rcases pending_start pending' with earlier' | ⟨rfl, rfl, rfl⟩
          · exact orderly.alone _ _ _ _ _ _ who earlier earlier' mine mine'
          · exact absurd mine (permitted who mine' _ _ _ earlier)
        · rcases pending_start pending' with earlier' | ⟨rfl, rfl, rfl⟩
          · exact absurd mine' (permitted who mine _ _ _ earlier')
          · rfl
      · intro who idle
        refine orderly.idle who fun index other future pending => ?_
        exact idle index other future pending.start
      · intro index other future who pending mine
        rcases pending_start pending with earlier | ⟨rfl, rfl, rfl⟩
        · exact orderly.busy _ _ _ who earlier mine
        · exact own.begin_busy (orderly.idle who (permitted who mine))
  | poll index =>
      obtain ⟨op, future, shared, progress, pending, polled, rfl⟩ := Component.step_poll moved
      have running := valid.running pending
      have pollOk := met op future pending
      refine ⟨?_, ?_, ?_⟩
      · intro left right one two future₁ future₂ who first second mine mine'
        rcases pending_poll first with ⟨rfl, rfl, _⟩ | ⟨_, earlier⟩
        · rcases pending_poll second with ⟨rfl, rfl, _⟩ | ⟨_, earlier'⟩
          · rfl
          · exact orderly.alone _ _ _ _ _ _ who pending earlier' mine mine'
        · rcases pending_poll second with ⟨rfl, rfl, _⟩ | ⟨_, earlier'⟩
          · exact orderly.alone _ _ _ _ _ _ who earlier pending mine mine'
          · exact orderly.alone _ _ _ _ _ _ who earlier earlier' mine mine'
      · intro who idle
        by_cases mine : client op = some who
        · have holds := own.poll_busy mine valid.inv running pollOk polled
            (orderly.busy _ _ _ who pending mine)
          cases progress with
          | running later => exact absurd mine (idle _ _ _ pending.poll_self)
          | finished result => exact holds
        · rw [own.poll_frame mine running polled]
          refine orderly.idle who fun other op' future' before same => ?_
          by_cases polledCall : other = index
          · subst polledCall
            exact mine ((before.same pending).1 ▸ same)
          · exact idle other op' future' (before.poll_other polledCall) same
      · intro other op' future' who after mine
        rcases pending_poll after with ⟨rfl, rfl, rfl⟩ | ⟨different, earlier⟩
        · exact own.poll_busy mine valid.inv running pollOk polled (orderly.busy _ _ _ who pending mine)
        · have stranger : client op ≠ some who := fun same =>
            different (orderly.alone _ _ _ _ _ _ who earlier pending mine same)
          rw [own.poll_frame stranger running polled]
          exact orderly.busy _ _ _ who earlier mine
  | background event =>
      obtain ⟨shared, ran, rfl⟩ := Component.step_background moved
      refine ⟨orderly.alone, ?_, ?_⟩
      · intro who idle
        by_cases touched : touches event = some who
        · exact own.event_idle valid.inv allowed ran touched (orderly.idle who idle)
        · rw [own.event_frame valid.inv allowed ran touched]
          exact orderly.idle who idle
      · intro index op future who pending mine
        by_cases touched : touches event = some who
        · exact absurd mine (permitted who touched _ _ _ pending)
        · rw [own.event_frame valid.inv allowed ran touched]
          exact orderly.busy _ _ _ who pending mine

/-- Runs of clients that are idle when they start a call have every permission
that the private outline implies. -/
theorem PrivateOutline.orderly_run {permit : System Shared Op Fut Res → Action Op Event → Prop}
    {system next : System Shared Op Fut Res} (valid : outline.Valid system)
    (orderly : own.Orderly system)
    (oneEach : ∀ state action, permit state action → OneEach client touches state action)
    (enough : ∀ state action, outline.Valid state → own.Orderly state → permit state action →
      outline.permit state action ∧ own.permit state action)
    (run : component.machine.Run permit system next) :
    component.machine.Run outline.permit system next ∧ outline.Valid next ∧ own.Orderly next := by
  refine run.strengthen (fun state => outline.Valid state ∧ own.Orderly state) ⟨valid, orderly⟩ ?_
  rintro state action last ⟨kept, keptOrder⟩ permitted moved
  obtain ⟨allowed, met⟩ := enough state action kept keptOrder permitted
  exact ⟨allowed, kept.step allowed moved,
    keptOrder.step kept (oneEach state action permitted) allowed met moved⟩

end Async
