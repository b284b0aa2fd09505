import Relos.Core
import Relos.Async.Outline

set_option autoImplicit false

/-! The `Loglet` trait: the operations every log segment offers. -/

namespace Relos

open Async

inductive LogletOp where
  | append (entry : Entry)
  | checkTail
  | read (pos : Nat)
  | trim (pos : Nat)
  | seal
deriving DecidableEq

/-- The values of successful calls: `append`, `check_tail` and `seal` return a
position, `read` an optional entry and `trim` nothing. -/
inductive LogletValue where
  | pos (pos : Nat)
  | entry (entry : Option Entry)
  | unit
deriving DecidableEq

abbrev LogletResult := Result LogletValue

instance : DecidableEq LogletResult := inferInstanceAs (DecidableEq (Except RelosError LogletValue))

abbrev LogletComponent (State Fut Event : Type) :=
  Component State LogletOp Fut LogletResult Event

def LogletOp.IsTrim : LogletOp → Prop
  | .trim _ => True
  | _ => False

instance (op : LogletOp) : Decidable op.IsTrim := by
  cases op <;> unfold LogletOp.IsTrim <;> infer_instance

def LogletOp.IsAppend : LogletOp → Prop
  | .append _ => True
  | _ => False

instance (op : LogletOp) : Decidable op.IsAppend :=
  match op with
  | .append _ => isTrue trivial
  | .checkTail | .read _ | .trim _ | .seal => isFalse id

/-- What a log built from loglets needs to know of them: which call an occupied
position belongs to, and the tail that a seal has made final. Only a successful
append leaves a trace of its call. -/
structure LogletOutline {State Fut Event : Type} (component : LogletComponent State Fut Event)
    extends Outline component where
  rely_refl : ∀ index state, Rely index state state
  rely_trans : ∀ {index first middle last}, Rely index first middle → Rely index middle last →
    Rely index first last
  running_fresh : ∀ {state index op future}, ¬ op.IsAppend → Inv state →
    Running state index op future → Fresh state index
  finished_fresh : ∀ {state index op result}, Inv state → Finished state index op result →
    (op.IsAppend → ∃ error, result = .error error) → Fresh state index
  Trims : Prop
  opOk : ∀ {op}, (op.IsTrim → Trims) → OpOk op
  finalTail : State → Option Nat
  finalTail_stable : ∀ {state next index tail}, Inv state → Inv next → Rely index state next →
    finalTail state = some tail → finalTail next = some tail
  finalTail_pos : ∀ {state tail}, Inv state → finalTail state = some tail → logPosBegin ≤ tail
  seal_final : ∀ {state index value}, Inv state → Finished state index .seal (.ok value) →
    ∃ tail, value = .pos tail ∧ finalTail state = some tail
  Placed : State → Nat → Entry → Nat → Prop
  placed_stable : ∀ {state next index owner entry pos}, Inv state → Inv next →
    Rely index state next → Placed state owner entry pos → Placed next owner entry pos
  placed_unique : ∀ {state owner owner' entry entry' pos}, Inv state →
    Placed state owner entry pos → Placed state owner' entry' pos → owner = owner' ∧ entry = entry'
  placed_pos : ∀ {state owner entry pos}, Inv state → Placed state owner entry pos →
    logPosBegin ≤ pos
  placed_below : ∀ {state owner entry pos tail}, Inv state → Placed state owner entry pos →
    finalTail state = some tail → pos < tail
  append_placed : ∀ {state index entry value}, Inv state →
    Finished state index (.append entry) (.ok value) →
    ∃ pos, value = .pos pos ∧ Placed state index entry pos
  read_placed : ∀ {state index pos value}, Inv state →
    Finished state index (.read pos) (.ok value) →
    ∃ found, value = .entry found ∧ ∀ entry, found = some entry →
      ∃ owner, Placed state owner entry pos
  tail_pos : ∀ {state index result}, Inv state → Finished state index .checkTail result →
    ∃ tail, result = .ok (.pos tail) ∧ logPosBegin ≤ tail
  tail_le : ∀ {state index tail final}, Inv state →
    Finished state index .checkTail (.ok (.pos tail)) → finalTail state = some final → tail ≤ final

/-- What an acknowledged append promises to the calls that start afterwards. -/
structure DurableOutline {State Fut Event : Type} (component : LogletComponent State Fut Event)
    extends LogletOutline component where
  durable : Nat → Entry → Nat → Outline.Promise toOutline
  append_durable : ∀ {state index entry pos}, Inv state →
    Finished state index (.append entry) (.ok (.pos pos)) → (durable index entry pos).Fact state
  durable_placed : ∀ {state owner entry pos}, Inv state → (durable owner entry pos).Fact state →
    Placed state owner entry pos
  durable_read : ∀ {owner entry pos result}, (durable owner entry pos).Finished (.read pos) result →
    result = .ok (.entry (some entry))
  durable_tail : ∀ {owner entry pos tail},
    (durable owner entry pos).Finished .checkTail (.ok (.pos tail)) → pos < tail

/-- Loglets in which a call places its entry once, and only where it says so. -/
structure OnceOutline {State Fut Event : Type} (component : LogletComponent State Fut Event)
    extends DurableOutline component where
  fresh_unplaced : ∀ {state index entry pos}, Inv state → Fresh state index →
    ¬ Placed state index entry pos
  running_placed : ∀ {state index op future entry pos}, Inv state → Running state index op future →
    Placed state index entry pos → op = .append entry
  finished_placed : ∀ {state index op result entry pos}, Inv state →
    Finished state index op result → Placed state index entry pos →
    op = .append entry ∧ result = .ok (.pos pos)

end Relos
