import Relos.Async.Component

set_option autoImplicit false

/-! A component around another one: a call is turned down at its first poll, or it runs one
call of the component below and answers what it makes of the result. -/

namespace Async

variable {Shared Op Fut Res Event Op' Fut' Res' : Type}

/-! ### Two systems over one state -/

/-- Each call of the one system stands above a call of the other. -/
structure Paired (Above : Call Op' Fut' Res' → Call Op Fut Res → Prop)
    (outer : System Shared Op' Fut' Res') (inner : System Shared Op Fut Res) : Prop where
  shared : inner.shared = outer.shared
  length : inner.calls.length = outer.calls.length
  calls : ∀ (index : Nat) call, outer.calls[index]? = some call →
    ∃ below, inner.calls[index]? = some below ∧ Above call below

namespace Paired

variable {Above : Call Op' Fut' Res' → Call Op Fut Res → Prop} {outer : System Shared Op' Fut' Res'}
  {inner : System Shared Op Fut Res} {index : Nat} {call : Call Op' Fut' Res'} {below : Call Op Fut Res}

theorem fresh (shared : Shared) : Paired Above (.fresh shared) (.fresh shared) where
  shared := rfl
  length := rfl
  calls _ _ impossible := by cases impossible

theorem add (paired : Paired Above outer inner) (above : Above call below) :
    Paired Above { outer with calls := outer.calls ++ [call] }
      { inner with calls := inner.calls ++ [below] } where
  shared := paired.shared
  length := by
    rw [List.length_append, List.length_append, paired.length]
    rfl
  calls index found held := by
    rcases getElem?_of_concat held with earlier | ⟨rfl, rfl⟩
    · obtain ⟨before, present, same⟩ := paired.calls index found earlier
      exact ⟨before, getElem?_of_longer (List.prefix_append _ _) present, same⟩
    · exact ⟨below, by rw [← paired.length]; exact List.getElem?_concat_length, above⟩

/-- A call and the one below it change together. -/
theorem set (paired : Paired Above outer inner) (shared : Shared) (above : Above call below) :
    Paired Above ⟨shared, outer.calls.set index call⟩ ⟨shared, inner.calls.set index below⟩ where
  shared := rfl
  length := by
    rw [List.length_set, List.length_set]
    exact paired.length
  calls other found held := by
    rcases getElem?_poll held with ⟨rfl, rfl⟩ | ⟨different, earlier⟩
    · refine ⟨below, ?_, above⟩
      have inside := (List.getElem?_eq_some_iff.mp held).1
      rw [List.length_set, ← paired.length] at inside
      exact List.getElem?_set_self inside
    · obtain ⟨before, present, same⟩ := paired.calls other found earlier
      refine ⟨before, ?_, same⟩
      rw [List.getElem?_set_ne fun equal => different equal.symm]
      exact present

/-- Only the call above has moved. -/
theorem set_outer (paired : Paired Above outer inner) (present : inner.calls[index]? = some below)
    (above : Above call below) : Paired Above ⟨outer.shared, outer.calls.set index call⟩ inner where
  shared := paired.shared
  length := by
    rw [List.length_set]
    exact paired.length
  calls other found held := by
    rcases getElem?_poll held with ⟨rfl, rfl⟩ | ⟨-, earlier⟩
    · exact ⟨below, present, above⟩
    · exact paired.calls other found earlier

/-- Every call below has one above it. -/
theorem above (paired : Paired Above outer inner) (found : inner.calls[index]? = some below) :
    ∃ call, outer.calls[index]? = some call ∧ Above call below := by
  have inside := (List.getElem?_eq_some_iff.mp found).1
  rw [paired.length] at inside
  obtain ⟨held, present, same⟩ := paired.calls index _ (List.getElem?_eq_getElem inside)
  cases Option.some.inj (present.symm.trans found)
  exact ⟨_, List.getElem?_eq_getElem inside, same⟩

end Paired

/-- Such calls are made, and the background takes such steps from where it stands. -/
def Within (Allowed : Op → Prop) (quiet : Shared → Event → Prop) (system : System Shared Op Fut Res) :
    Action Op Event → Prop
  | .start op => Allowed op
  | .poll _ => True
  | .background event => quiet system.shared event

instance (Allowed : Op → Prop) (quiet : Shared → Event → Prop) (system : System Shared Op Fut Res)
    [∀ op, Decidable (Allowed op)] [∀ shared event, Decidable (quiet shared event)] :
    (action : Action Op Event) → Decidable (Within Allowed quiet system action)
  | .start op => inferInstanceAs (Decidable (Allowed op))
  | .poll _ => isTrue trivial
  | .background event => inferInstanceAs (Decidable (quiet system.shared event))

/-! ### Wrappers -/

/-- What a call asks of the component below, and what it makes of the result. -/
structure Wrapper (Op' Res' Op Res : Type) where
  prepare : Op' → Except Res' Op
  answer : Op' → Res → Option Res'

inductive Wrapped (Op Fut : Type) where
  | enter
  | inside (op : Op) (future : Fut)
deriving DecidableEq

namespace Wrapper

variable (wrapper : Wrapper Op' Res' Op Res) (component : Component Shared Op Fut Res Event)

/-- A call goes on once the one below it has advanced. -/
def resume (op : Op') (called : Op) : Progress Fut Res → Option (Progress (Wrapped Op Fut) Res')
  | .running future => some (.running (.inside called future))
  | .finished result => (wrapper.answer op result).map .finished

def around : Component Shared Op' (Wrapped Op Fut) Res' Event where
  begin _ := .enter
  poll shared index op
    | .enter =>
        match wrapper.prepare op with
        | .error reply => some (shared, .finished reply)
        | .ok called => some (shared, .running (.inside called (component.begin called)))
    | .inside called future =>
        (component.poll shared index called future).bind fun outcome =>
          (wrapper.resume op called outcome.2).map fun progress => (outcome.1, progress)
  background := component.background

/-- A call and the one below it. One that is turned down stands above an idle call, which is
never polled. -/
inductive CallMirrors (idle : Op' → Op) : Call Op' (Wrapped Op Fut) Res' → Call Op Fut Res → Prop
  | entering {op : Op'} {called : Op} : wrapper.prepare op = .ok called →
      CallMirrors idle ⟨op, .running .enter⟩ ⟨called, .running (component.begin called)⟩
  | inside {op : Op'} {called : Op} {future : Fut} : wrapper.prepare op = .ok called →
      CallMirrors idle ⟨op, .running (.inside called future)⟩ ⟨called, .running future⟩
  | answered {op : Op'} {called : Op} {result : Res} {reply : Res'} :
      wrapper.prepare op = .ok called → wrapper.answer op result = some reply →
      CallMirrors idle ⟨op, .finished reply⟩ ⟨called, .finished result⟩
  | refusing {op : Op'} {reply : Res'} : wrapper.prepare op = .error reply →
      CallMirrors idle ⟨op, .running .enter⟩ ⟨idle op, .running (component.begin (idle op))⟩
  | refused {op : Op'} {reply : Res'} : wrapper.prepare op = .error reply →
      CallMirrors idle ⟨op, .finished reply⟩ ⟨idle op, .running (component.begin (idle op))⟩

abbrev Mirrors (idle : Op' → Op) (outer : System Shared Op' (Wrapped Op Fut) Res')
    (inner : System Shared Op Fut Res) : Prop :=
  Paired (wrapper.CallMirrors component idle) outer inner

/-- The call below. -/
def below (idle : Op' → Op) (op : Op') : Op :=
  match wrapper.prepare op with
  | .ok called => called
  | .error _ => idle op

def lower (idle : Op' → Op) : Action Op' Event → Action Op Event
  | .start op => .start (wrapper.below idle op)
  | .poll index => .poll index
  | .background event => .background event

variable {wrapper component} {idle : Op' → Op} {outer next : System Shared Op' (Wrapped Op Fut) Res'}
  {inner : System Shared Op Fut Res}

theorem below_ok {op : Op'} {called : Op} (prepared : wrapper.prepare op = .ok called) :
    wrapper.below idle op = called := by
  unfold below
  rw [prepared]

theorem below_error {op : Op'} {reply : Res'} (prepared : wrapper.prepare op = .error reply) :
    wrapper.below idle op = idle op := by
  unfold below
  rw [prepared]

theorem Mirrors.start (mirrors : wrapper.Mirrors component idle outer inner) (op : Op') :
    wrapper.Mirrors component idle
      { outer with calls := outer.calls ++ [⟨op, .running .enter⟩] }
      { inner with calls := inner.calls ++
          [⟨wrapper.below idle op, .running (component.begin (wrapper.below idle op))⟩] } := by
  refine mirrors.add ?_
  cases prepared : wrapper.prepare op with
  | ok called =>
      rw [below_ok prepared]
      exact .entering prepared
  | error reply =>
      rw [below_error prepared]
      exact .refusing prepared

/-- The component below follows every step, or stays. -/
theorem Mirrors.step (mirrors : wrapper.Mirrors component idle outer inner) {action : Action Op' Event}
    (moved : (wrapper.around component).machine.step outer action = some next) :
    ∃ next', (next' = inner ∨
        component.machine.step inner (wrapper.lower idle action) = some next') ∧
      wrapper.Mirrors component idle next next' := by
  cases action with
  | start op =>
      rw [Component.step_start moved]
      exact ⟨_, Or.inr rfl, mirrors.start op⟩
  | poll index =>
      obtain ⟨op, future, shared, progress, pending, polled, rfl⟩ := Component.step_poll moved
      obtain ⟨below, present, same⟩ := mirrors.calls index _ pending
      cases same with
      | entering prepared =>
          simp only [around, prepared] at polled
          cases polled
          exact ⟨inner, Or.inl rfl, mirrors.set_outer present (.inside prepared)⟩
      | refusing prepared =>
          simp only [around, prepared] at polled
          cases polled
          exact ⟨inner, Or.inl rfl, mirrors.set_outer present (.refused prepared)⟩
      | @inside _ called future prepared =>
          obtain ⟨⟨state, answer⟩, ran, resumed⟩ := Option.bind_eq_some_iff.mp polled
          obtain ⟨later, went, same⟩ := Option.map_eq_some_iff.mp resumed
          cases same
          rw [← mirrors.shared] at ran
          refine ⟨_, Or.inr (Component.step_of_poll present ran), mirrors.set state ?_⟩
          cases answer with
          | running future =>
              cases went
              exact .inside prepared
          | finished result =>
              obtain ⟨reply, answers, rfl⟩ := Option.map_eq_some_iff.mp went
              exact .answered prepared answers
  | background event =>
      obtain ⟨shared, ran, rfl⟩ := Component.step_background moved
      change component.background outer.shared event = some shared at ran
      rw [← mirrors.shared] at ran
      exact ⟨_, Or.inr (Component.step_of_background ran), rfl, mirrors.length, mirrors.calls⟩

/-- Every run is one of the component below, seen through its replies. -/
theorem Mirrors.run {permit : System Shared Op Fut Res → Action Op Event → Prop}
    {permit' : System Shared Op' (Wrapped Op Fut) Res' → Action Op' Event → Prop}
    (permitted : ∀ outer inner action, wrapper.Mirrors component idle outer inner →
      permit' outer action → permit inner (wrapper.lower idle action))
    (mirrors : wrapper.Mirrors component idle outer inner)
    (run : (wrapper.around component).machine.Run permit' outer next) :
    ∃ next', component.machine.Run permit inner next' ∧
      wrapper.Mirrors component idle next next' := by
  refine run.simulate (wrapper.Mirrors component idle) ?_ mirrors
  intro outer inner action next mirrors allowed moved
  obtain ⟨next', rfl | moved', mirrors'⟩ := mirrors.step moved
  · exact ⟨_, .refl _, mirrors'⟩
  · exact ⟨next', .single (permitted _ _ _ mirrors allowed) moved', mirrors'⟩

/-- A call that has entered can be polled whenever the one below it can, as long as it
knows what to make of the result. -/
theorem Mirrors.follow (mirrors : wrapper.Mirrors component idle outer inner) {index : Nat} {op : Op'}
    {called : Op} {future : Fut} (pending : outer.Pending index op (.inside called future))
    {inner' : System Shared Op Fut Res} (moved : component.machine.step inner (.poll index) = some inner')
    (answers : ∀ result, inner'.Returned index called result →
      ∃ reply, wrapper.answer op result = some reply) :
    ∃ next, (wrapper.around component).machine.step outer (.poll index) = some next ∧
      wrapper.Mirrors component idle next inner' ∧ ∃ progress, next.calls[index]? = some ⟨op, progress⟩ ∧
        progress ≠ .running .enter := by
  obtain ⟨below, present, same⟩ := mirrors.calls index _ pending
  obtain ⟨op', future', shared, progress, running, polled, rfl⟩ := Component.step_poll moved
  cases same with
  | inside prepared =>
      cases Option.some.inj (present.symm.trans running)
      have placed : ∀ call, (outer.calls.set index call)[index]? = some call := fun _ =>
        List.getElem?_set_self (List.getElem?_eq_some_iff.mp pending).1
      rw [mirrors.shared] at polled
      have moves : ∀ progress', wrapper.resume op called progress = some progress' →
          (wrapper.around component).machine.step outer (.poll index) =
            some ⟨shared, outer.calls.set index ⟨op, progress'⟩⟩ := by
        intro progress' resumed
        refine Component.step_of_poll pending ?_
        unfold around
        dsimp only
        rw [polled, Option.bind_some, resumed, Option.map_some]
      cases progress with
      | running future =>
          exact ⟨_, moves _ rfl, mirrors.set shared (.inside prepared), _, placed _,
            fun impossible => by cases impossible⟩
      | finished result =>
          have returned : (inner.calls.set index ⟨called, .finished result⟩)[index]? =
              some ⟨called, .finished result⟩ :=
            List.getElem?_set_self (List.getElem?_eq_some_iff.mp present).1
          obtain ⟨reply, answered⟩ := answers result returned
          refine ⟨_, moves (.finished reply) ?_, mirrors.set shared (.answered prepared answered), _,
            placed _, fun impossible => by cases impossible⟩
          unfold resume
          dsimp only
          rw [answered, Option.map_some]

theorem Mirrors.follow_background (mirrors : wrapper.Mirrors component idle outer inner) {event : Event}
    {inner' : System Shared Op Fut Res}
    (moved : component.machine.step inner (.background event) = some inner') :
    (wrapper.around component).machine.step outer (.background event) =
        some { outer with shared := inner'.shared } ∧
      wrapper.Mirrors component idle { outer with shared := inner'.shared } inner' := by
  obtain ⟨shared, ran, rfl⟩ := Component.step_background moved
  rw [mirrors.shared] at ran
  exact ⟨Component.step_of_background ran, rfl, mirrors.length, mirrors.calls⟩

/-- A reply is the one that a call is turned down with, or made of a result from below. -/
theorem Mirrors.returned (mirrors : wrapper.Mirrors component idle outer inner) {index : Nat}
    {op : Op'} {reply : Res'} (returned : outer.Returned index op reply) :
    wrapper.prepare op = .error reply ∨ ∃ called result, wrapper.prepare op = .ok called ∧
      inner.Returned index called result ∧ wrapper.answer op result = some reply := by
  obtain ⟨below, present, same⟩ := mirrors.calls index _ returned
  cases same with
  | answered prepared answers => exact Or.inr ⟨_, _, prepared, present, answers⟩
  | refused prepared => exact Or.inl prepared

/-- A call below is the one that a call above has prepared, or one that nobody polls. -/
theorem Mirrors.called (mirrors : wrapper.Mirrors component idle outer inner) {index : Nat}
    {called : Op} {progress : Progress Fut Res} (found : inner.calls[index]? = some ⟨called, progress⟩)
    (different : ∀ op, called ≠ idle op) :
    ∃ op progress', outer.calls[index]? = some ⟨op, progress'⟩ ∧ wrapper.prepare op = .ok called := by
  obtain ⟨call, held, same⟩ := mirrors.above found
  cases same with
  | entering prepared | inside prepared | answered prepared => exact ⟨_, _, held, prepared⟩
  | refusing | refused => exact absurd rfl (different _)

end Wrapper

end Async
