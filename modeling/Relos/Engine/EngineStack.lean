import Relos.Engine.ProposeResult

set_option autoImplicit false

/-! Stacks of engines. Engines are wrapped from the first middleware to the last and
applicators from the last to the first, so an entry meets the layers in opposite orders
on its way down and on its way up. -/

namespace Relos

open Async Serial BaseEngine

/-- What an engine above the base engine does to an operation before it passes it down.
`Own` is the memory of the middlewares of a replica. -/
abbrev Engine (Own : Type) := Own → EngineOp → Result EngineOp

/-- A middleware never sees the memory of the applicator that it wraps. -/
structure MiddleEngine (Own Choice : Type) where
  wrapEngine : Engine Own → Engine Own
  wrapApplicator : {App : Type} → Applicator (Own × App) Choice → Applicator (Own × App) Choice

structure EngineStackBuilder (Own Choice : Type) where
  middlewares : List (MiddleEngine Own Choice)

namespace EngineStackBuilder

variable {Own Choice App : Type}

def new (Own Choice : Type) : EngineStackBuilder Own Choice where
  middlewares := []

end EngineStackBuilder

section Layers

variable {Own Choice App : Type}

/-- An applicator that passes the entry up once, changed by `dec`, and does whatever else
it does before and after. -/
def Applicator.around (before : Choice → Own → MemoryWriteTx → Entry → Nat → Own × MemoryWriteTx)
    (dec : Entry → Entry)
    (after : Choice → Own → Entry → Nat → Result (MemoryWriteTx × ReturnValue) →
      Own × Result (MemoryWriteTx × ReturnValue))
    (inner : Applicator (Own × App) Choice) : Applicator (Own × App) Choice where
  apply choice memory txn entry pos :=
    let started := before choice memory.1 txn entry pos
    let applied := inner.apply choice (started.1, memory.2) started.2 (dec entry) pos
    let finished := after choice applied.1.1 entry pos applied.2
    ((finished.1, applied.1.2), finished.2)

/-- The middleware changes a proposed entry on its way down, and back on its way up. -/
structure MiddleEngine.Transforms (middleware : MiddleEngine Own Choice) (enc dec : Entry → Entry) :
    Prop where
  engine : ∀ inner own entry,
    middleware.wrapEngine inner own (.propose entry) = inner own (.propose (enc entry))
  applicator : ∃ before after, ∀ {App : Type} (inner : Applicator (Own × App) Choice),
    middleware.wrapApplicator inner = inner.around before dec after
  cancels : ∀ entry, dec (enc entry) = entry

structure Layer (Own Choice : Type) where
  middleware : MiddleEngine Own Choice
  enc : Entry → Entry
  dec : Entry → Entry
  transforms : middleware.Transforms enc dec

/-- The entry as the log holds it: the first layer is the last to change it. -/
def encoded (layers : List (Layer Own Choice)) (entry : Entry) : Entry :=
  layers.foldr Layer.enc entry

/-- An application with the calls that it has got, which only statements read. -/
def Applicator.recording (application : Applicator (Own × App) Choice) :
    Applicator (Own × App × List (Entry × Nat)) Choice where
  apply choice memory txn entry pos :=
    let applied := application.apply choice (memory.1, memory.2.1) txn entry pos
    ((applied.1.1, applied.1.2, memory.2.2 ++ [(entry, pos)]), applied.2)

variable (layers : List (Layer Own Choice))

end Layers

/-! ### The stack over replicas -/

variable {Node Own Choice App : Type}

def application : Applicator (Unit × Unit) (Option RelosError) where
  apply choice _ txn entry pos :=
    let applied := payloads.apply choice () txn entry pos
    (((), ()), applied.2)

end Relos
