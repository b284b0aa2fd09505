import Relos.Log.NativeDurability
import Relos.Log.NativeProgress

set_option autoImplicit false

/-! Safety of one replicated loglet whose log servers stay alive, without trims:
what successful appends and seals promise in every interleaving. -/

namespace Relos

open Async NativeLoglet

namespace NativeLogs

variable {n : Nat}

/-- Any calls but trims, and no log server stops. -/
def Untrimmed (_ : NativeLogs n) : NativeLogsAction n → Prop
  | .start op => ¬ op.IsTrim
  | .poll _ => True
  | .background (.serve _) => True
  | .background (.stop _) => False

instance (system : NativeLogs n) (action : NativeLogsAction n) :
    Decidable (system.Untrimmed action) :=
  match action with
  | .start op => inferInstanceAs (Decidable (¬ op.IsTrim))
  | .poll _ => isTrue trivial
  | .background (.serve _) => isTrue trivial
  | .background (.stop _) => isFalse id

/-- The log server holds the entry. -/
def Holds (system : NativeLogs n) (server : Fin n) (pos : Nat) (entry : Entry) : Prop :=
  (system.shared.logServers server).entries[pos]? = some entry

abbrev outline (n : Nat) := (nativeDurable n .any).toOutline

theorem Untrimmed.permit {system : NativeLogs n} {action : NativeLogsAction n}
    (allowed : system.Untrimmed action) : (outline n).permit system action := by
  cases action with
  | start op => exact fun trims => allowed trims
  | poll index => exact fun _ future _ => pollOk_any system.shared future
  | background event =>
      cases event with
      | serve task => trivial
      | stop server => exact allowed.elim

theorem Untrimmed.live {system : NativeLogs n} {action : NativeLogsAction n}
    (allowed : system.Untrimmed action) : system.LiveServers action := by
  cases action with
  | start op | poll index => trivial
  | background event =>
      cases event with
      | serve task => trivial
      | stop server => exact allowed.elim

theorem valid_new : (outline n).Valid (new n) :=
  .init ⟨.new False n, .new n⟩ (settled_new .any)

theorem valid_run {earlier later : NativeLogs n} (valid : (outline n).Valid earlier)
    (run : (nativeLogs n).Run Untrimmed earlier later) :
    (nativeLogs n).Run (outline n).permit earlier later ∧ (outline n).Valid later := by
  have permitted := run.mono fun _ _ allowed => Untrimmed.permit allowed
  exact ⟨permitted, valid.run permitted⟩

/-! ### Appends -/

/-- What an append promises, seen from a later state of the same run. -/
structure AppendSafety (earlier later : NativeLogs n) : Prop where
  distinct : ∀ left right entry entry' pos,
    later.Returned left (.append entry) (.ok (.pos pos)) →
    later.Returned right (.append entry') (.ok (.pos pos)) → left = right
  replicated : ∀ index entry pos, later.Returned index (.append entry) (.ok (.pos pos)) →
    ∃ servers : Finset (Fin n), n / 2 + 1 ≤ servers.card ∧
      ∀ server, server ∈ servers → later.Holds server pos entry
  readBack : ∀ index entry pos reader result,
    earlier.Returned index (.append entry) (.ok (.pos pos)) → earlier.calls.length ≤ reader →
    later.Returned reader (.read pos) result → result = .ok (.entry (some entry))
  agree : ∀ left right pos entry entry',
    later.Returned left (.read pos) (.ok (.entry (some entry))) →
    later.Returned right (.read pos) (.ok (.entry (some entry'))) → entry = entry'
  stays : ∀ first pos entry reader result,
    earlier.Returned first (.read pos) (.ok (.entry (some entry))) →
    earlier.calls.length ≤ reader →
    later.Returned reader (.read pos) result → result = .ok (.entry (some entry))
  returns : later.CanReturn

theorem placed_of_append {system : NativeLogs n} (valid : (outline n).Valid system) {index pos : Nat}
    {entry : Entry} (returned : system.Returned index (.append entry) (.ok (.pos pos))) :
    system.shared.Quorum index entry pos := by
  obtain ⟨_, _, same, _, _, quorum⟩ := valid.finished returned
  cases same
  exact quorum

theorem placed_of_read {system : NativeLogs n} (valid : (outline n).Valid system) {index pos : Nat}
    {entry : Entry} (returned : system.Returned index (.read pos) (.ok (.entry (some entry)))) :
    ∃ owner, system.shared.Placed owner entry pos := by
  obtain ⟨_, _, same, placed⟩ := valid.finished returned
  cases same
  exact placed entry rfl

/-- Reads that start once the entry is accepted return it. -/
theorem read_of_placed {earlier later : NativeLogs n} (valid : (outline n).Valid earlier)
    (run : (nativeLogs n).Run (outline n).permit earlier later) {owner pos reader : Nat}
    {entry : Entry} {result : LogletResult} (placed : earlier.shared.Placed owner entry pos)
    (started : earlier.calls.length ≤ reader) (returned : later.Returned reader (.read pos) result) :
    result = .ok (.entry (some entry)) :=
  (((nativeDurable n .any).durable owner entry pos).result valid placed run started returned).1 rfl

theorem canReturn_of_untrimmed {system : NativeLogs n}
    (run : (nativeLogs n).Run Untrimmed (new n) system) : system.CanReturn :=
  canReturn (live_run live_new (run.mono fun _ _ allowed => Untrimmed.live allowed)).2

theorem append_safety {earlier later : NativeLogs n}
    (before : (nativeLogs n).Run Untrimmed (new n) earlier)
    (after : (nativeLogs n).Run Untrimmed earlier later) : AppendSafety earlier later := by
  obtain ⟨_, valid⟩ := valid_run valid_new before
  obtain ⟨run, valid'⟩ := valid_run valid after
  have inv := valid'.inv.1
  have unique : ∀ {owner owner' pos entry entry'}, later.shared.Placed owner entry pos →
      later.shared.Placed owner' entry' pos → owner = owner' ∧ entry = entry' := fun placed placed' =>
    inv.assigned_unique (inv.placed_assigned placed) (inv.placed_assigned placed')
  refine ⟨?_, ?_, ?_, ?_, ?_, canReturn_of_untrimmed (before.trans after)⟩
  · intro left right entry entry' pos returned returned'
    exact (unique (placed_of_append valid' returned).placed
      (placed_of_append valid' returned').placed).1
  · intro index entry pos returned
    obtain ⟨servers, enough, accepted⟩ := placed_of_append valid' returned
    exact ⟨servers, enough, fun server member =>
      (accepted server member).held inv (fun impossible => impossible)⟩
  · intro index entry pos reader result returned started returned'
    exact read_of_placed valid run (placed_of_append valid returned).placed started returned'
  · intro left right pos entry entry' returned returned'
    obtain ⟨owner, placed⟩ := placed_of_read valid' returned
    obtain ⟨owner', placed'⟩ := placed_of_read valid' returned'
    exact (unique placed placed').2
  · intro first pos entry reader result returned started returned'
    obtain ⟨owner, placed⟩ := placed_of_read valid returned
    exact read_of_placed valid run placed started returned'

def polls (index count : Nat) : List (NativeLogsAction n) := List.replicate count (.poll index)

def serveSequencer : List (NativeLogsAction n) := [.background (.serve .sequencer)]

/-- One turn of every log server. -/
def serveAll (n : Nat) : List (NativeLogsAction n) :=
  (List.finRange n).map fun server => .background (.serve (.logServer server))

/-- An append that runs on its own. -/
def appendAlone (n index : Nat) (entry : Entry) : List (NativeLogsAction n) :=
  [.start (.append entry)] ++ polls index 2 ++ serveSequencer ++ polls index (n + 2) ++ serveAll n ++
    polls index (n + 1)

def readAlone (n index pos : Nat) (inside : 0 < n) : List (NativeLogsAction n) :=
  [.start (.read pos), .poll index, .background (.serve (.logServer ⟨0, inside⟩)), .poll index]

set_option maxRecDepth 10000 in
theorem append_safety_three : ∃ earlier later : NativeLogs 3,
    earlier.Returned 0 (.append (.new [1])) (.ok (.pos 1)) ∧
    later.Returned 1 (.read 1) (.ok (.entry (some (.new [1])))) ∧ AppendSafety earlier later := by
  obtain ⟨earlier, later, before, after, seen, seen'⟩ := Machine.exists_runs_of_execute
    (nativeLogs 3) Untrimmed (new 3) (appendAlone 3 0 (.new [1])) (readAlone 3 1 1 (by decide))
    System.calls
    [⟨.append (.new [1]), .finished (.ok (.pos 1))⟩]
    [⟨.append (.new [1]), .finished (.ok (.pos 1))⟩,
      ⟨.read 1, .finished (.ok (.entry (some (.new [1]))))⟩] (by decide)
  exact ⟨earlier, later, congrArg (fun calls => calls[0]?) seen,
    congrArg (fun calls => calls[1]?) seen', append_safety before after⟩

/-! ### Seals -/

/-- What a seal promises, seen from a later state of the same run. -/
structure SealSafety (earlier later : NativeLogs n) : Prop where
  agree : ∀ left right value value', later.Returned left .seal (.ok value) →
    later.Returned right .seal (.ok value') → value = value'
  below : ∀ sealer index entry tail pos, later.Returned sealer .seal (.ok (.pos tail)) →
    later.Returned index (.append entry) (.ok (.pos pos)) → pos < tail
  appends : ∀ sealer index entry tail result, earlier.Returned sealer .seal (.ok (.pos tail)) →
    earlier.calls.length ≤ index → later.Returned index (.append entry) result →
    result = .error (.sealed tail)
  tails : ∀ sealer index tail result, earlier.Returned sealer .seal (.ok (.pos tail)) →
    earlier.calls.length ≤ index → later.Returned index .checkTail result →
    result = .ok (.pos tail)
  reads : ∀ sealer left right pos value result result', earlier.Returned sealer .seal (.ok value) →
    earlier.calls.length ≤ left → earlier.calls.length ≤ right →
    later.Returned left (.read pos) result → later.Returned right (.read pos) result' →
    result = result'
  returns : later.CanReturn

theorem sealed_of_seal {system : NativeLogs n} (valid : (outline n).Valid system) {index : Nat}
    {value : LogletValue} (returned : system.Returned index .seal (.ok value)) :
    ∃ tail, value = .pos tail ∧ system.shared.Tailed tail ∧
      ∀ server, (system.shared.logServers server).sealed = true := by
  obtain ⟨_, tail, same, final, flag, isSealed⟩ := valid.finished returned
  exact ⟨tail, same, ⟨flag, final⟩, isSealed⟩

theorem query_of_tailed {earlier later : NativeLogs n} (valid : (outline n).Valid earlier)
    (run : (nativeLogs n).Run (outline n).permit earlier later) {tail index : Nat} {op : LogletOp}
    {result : LogletResult} (tailed : earlier.shared.Tailed tail)
    (queries : op.IsAppend ∨ op = .checkTail) (started : earlier.calls.length ≤ index)
    (returned : later.Returned index op result) : result = tailResult tail op :=
  (tailPromise (fun _ impossible => impossible) tail).result valid tailed run started returned queries

theorem seal_safety {earlier later : NativeLogs n}
    (before : (nativeLogs n).Run Untrimmed (new n) earlier)
    (after : (nativeLogs n).Run Untrimmed earlier later) : SealSafety earlier later := by
  obtain ⟨_, valid⟩ := valid_run valid_new before
  obtain ⟨run, valid'⟩ := valid_run valid after
  refine ⟨?_, ?_, ?_, ?_, ?_, canReturn_of_untrimmed (before.trans after)⟩
  · intro left right value value' returned returned'
    obtain ⟨tail, rfl, ⟨_, final⟩, _⟩ := sealed_of_seal valid' returned
    obtain ⟨tail', rfl, ⟨_, final'⟩, _⟩ := sealed_of_seal valid' returned'
    cases Option.some.inj (final.symm.trans final')
    rfl
  · intro sealer index entry tail pos returned returned'
    obtain ⟨_, same, ⟨_, final⟩, _⟩ := sealed_of_seal valid' returned
    cases same
    obtain ⟨_, rfl⟩ := finalTail_eq_some.mp final
    exact (placed_of_append valid' returned').placed.lt_nextPos valid'.inv.1
  · intro sealer index entry tail result returned started returned'
    obtain ⟨_, same, tailed, _⟩ := sealed_of_seal valid returned
    cases same
    refine query_of_tailed valid run tailed ?_ started returned'
    exact Or.inl trivial
  · intro sealer index tail result returned started returned'
    obtain ⟨_, same, tailed, _⟩ := sealed_of_seal valid returned
    cases same
    exact query_of_tailed valid run tailed (Or.inr rfl) started returned'
  · intro sealer left right pos value result result' returned started started' reads reads'
    obtain ⟨_, _, _, isSealed⟩ := sealed_of_seal valid returned
    have inv := valid.inv.1
    let frozen := frozenView fun server pos => (earlier.shared.logServers server).entries[pos]?
    have fact : frozen.Fact earlier.shared := fun server =>
      ⟨isSealed server, trimPos_of_untrimmed inv (fun impossible => impossible) server,
        fun _ _ => rfl⟩
    have told := (readPromise (fun _ impossible => impossible) frozen).result valid fact run
      started reads pos rfl
    have told' := (readPromise (fun _ impossible => impossible) frozen).result valid fact run
      started' reads' pos rfl
    exact told.unique (fun server seen seen' held held' =>
      (frozenView_read held).trans (frozenView_read held').symm) told'

def sealAlone (n index : Nat) : List (NativeLogsAction n) :=
  [.start .seal, .poll index] ++ serveSequencer ++ polls index (n + 2) ++ serveAll n ++
    polls index (n + 1)

/-- An append and a tail query that find the loglet sealed. -/
def rejected (n index : Nat) (entry : Entry) : List (NativeLogsAction n) :=
  ([.start (.append entry)] : List (NativeLogsAction n)) ++ polls index 2 ++ serveSequencer ++
    polls index 1 ++ ([.start .checkTail, .poll (index + 1)] : List (NativeLogsAction n)) ++
    serveSequencer ++ polls (index + 1) 1

set_option maxRecDepth 10000 in
theorem seal_safety_three : ∃ earlier later : NativeLogs 3,
    earlier.Returned 1 .seal (.ok (.pos 2)) ∧
    later.Returned 2 (.append (.new [2])) (.error (.sealed 2)) ∧
    later.Returned 3 .checkTail (.ok (.pos 2)) ∧ SealSafety earlier later := by
  obtain ⟨earlier, later, before, after, seen, seen'⟩ := Machine.exists_runs_of_execute
    (nativeLogs 3) Untrimmed (new 3) (appendAlone 3 0 (.new [1]) ++ sealAlone 3 1)
    (rejected 3 2 (.new [2])) System.calls
    [⟨.append (.new [1]), .finished (.ok (.pos 1))⟩, ⟨.seal, .finished (.ok (.pos 2))⟩]
    [⟨.append (.new [1]), .finished (.ok (.pos 1))⟩, ⟨.seal, .finished (.ok (.pos 2))⟩,
      ⟨.append (.new [2]), .finished (.error (.sealed 2))⟩,
      ⟨.checkTail, .finished (.ok (.pos 2))⟩] (by decide)
  exact ⟨earlier, later, congrArg (fun calls => calls[1]?) seen,
    congrArg (fun calls => calls[2]?) seen', congrArg (fun calls => calls[3]?) seen',
    seal_safety before after⟩

end NativeLogs

end Relos
