import Relos.Core
import Relos.Serial.PrefixRange

set_option autoImplicit false

/-! The in-memory store. A transaction works on a copy of the map, and its commit
replaces the whole map. -/

namespace Relos

/-- Keys are in the lexicographic order of their bytes. -/
abbrev StoreData := Std.ExtTreeMap Bytes Bytes

structure MemoryStore where
  data : StoreData
deriving DecidableEq

structure MemoryWriteTx where
  working : StoreData
deriving DecidableEq

def scanPrefix (data : StoreData) (keyPrefix : Bytes) : List (Bytes × Bytes) :=
  (data.toList.dropWhile fun pair => (compare pair.1 keyPrefix).isLT).takeWhile fun pair =>
    keyPrefix.isPrefixOf pair.1

namespace MemoryStore

def new : MemoryStore := { data := ∅ }

def beginWriteTxn (store : MemoryStore) : MemoryWriteTx := { working := store.data }

/-- `get` of a read transaction. -/
def get (store : MemoryStore) (key : Bytes) : Option Bytes := store.data[key]?

/-- `prefix_scan` of a read transaction. -/
def prefixScan (store : MemoryStore) (keyPrefix : Bytes) : List (Bytes × Bytes) :=
  scanPrefix store.data keyPrefix

end MemoryStore

namespace MemoryWriteTx

def get (txn : MemoryWriteTx) (key : Bytes) : Option Bytes := txn.working[key]?

def prefixScan (txn : MemoryWriteTx) (keyPrefix : Bytes) : List (Bytes × Bytes) :=
  scanPrefix txn.working keyPrefix

def put (txn : MemoryWriteTx) (key value : Bytes) : MemoryWriteTx :=
  { working := txn.working.insert key value }

def delete (txn : MemoryWriteTx) (key : Bytes) : MemoryWriteTx :=
  { working := txn.working.erase key }

def commit (txn : MemoryWriteTx) : MemoryStore := { data := txn.working }

end MemoryWriteTx

section Keys

variable {data : StoreData} {key other value : Bytes}

theorem erase_insert_self : (data.insert key value).erase key = data.erase key := by
  refine Std.ExtTreeMap.ext_getElem? fun sought => ?_
  simp only [Std.ExtTreeMap.getElem?_erase, Std.ExtTreeMap.getElem?_insert]
  split <;> rfl

theorem erase_insert_of_ne (different : key ≠ other) :
    (data.insert key value).erase other = (data.erase other).insert key value := by
  refine Std.ExtTreeMap.ext_getElem? fun sought => ?_
  simp only [Std.ExtTreeMap.getElem?_erase, Std.ExtTreeMap.getElem?_insert, Std.compare_eq_iff_eq]
  by_cases first : other = sought
  · rw [if_pos first, if_pos first, if_neg fun same => different (same.trans first.symm)]
  · rw [if_neg first, if_neg first]

theorem getElem?_erase_of_ne (different : other ≠ key) : (data.erase other)[key]? = data[key]? := by
  rw [Std.ExtTreeMap.getElem?_erase, if_neg fun same => different (Std.compare_eq_iff_eq.mp same)]

theorem getElem?_insert_of_ne (different : other ≠ key) :
    (data.insert other value)[key]? = data[key]? := by
  rw [Std.ExtTreeMap.getElem?_insert, if_neg fun same => different (Std.compare_eq_iff_eq.mp same)]

/-- Two stores that agree beside one key and at it are equal. -/
theorem eq_of_erase_eq {data' : StoreData} (rest : data.erase key = data'.erase key)
    (same : data[key]? = data'[key]?) : data = data' := by
  refine Std.ExtTreeMap.ext_getElem? fun sought => ?_
  by_cases here : key = sought
  · rw [← here]
    exact same
  · rw [← getElem?_erase_of_ne here, rest, getElem?_erase_of_ne here]

end Keys

section Scans

variable {data data' : StoreData} {keyPrefix : Bytes}

theorem scanPrefix_eq_filter :
    scanPrefix data keyPrefix = (data.filter fun key _ => keyPrefix.isPrefixOf key).toList := by
  unfold scanPrefix
  rw [Serial.range_eq_filter Std.ExtTreeMap.ordered_keys_toList, Std.ExtTreeMap.toList_filter]

/-- A scan returns exactly the pairs whose key starts with the prefix. -/
theorem mem_scanPrefix {key value : Bytes} :
    (key, value) ∈ scanPrefix data keyPrefix ↔ data[key]? = some value ∧ keyPrefix <+: key := by
  unfold scanPrefix
  rw [Serial.range_eq_filter Std.ExtTreeMap.ordered_keys_toList, List.mem_filter,
    Std.ExtTreeMap.mem_toList_iff_getElem?_eq_some, List.isPrefixOf_iff_prefix]

/-- A scan returns its pairs in the lexicographic order of their keys. -/
theorem rising_scanPrefix :
    (scanPrefix data keyPrefix).Pairwise fun left right => left.1 < right.1 := by
  unfold scanPrefix
  rw [Serial.range_eq_filter Std.ExtTreeMap.ordered_keys_toList]
  have sorted : data.toList.Pairwise fun left right => left.1 < right.1 :=
    Std.ExtTreeMap.ordered_keys_toList.imp Serial.compare_eq_lt_iff.mp
  exact sorted.filter _

theorem nodup_scanPrefix : ((scanPrefix data keyPrefix).map Prod.fst).Nodup := by
  refine List.Pairwise.map Prod.fst (fun left right less same => ?_) rising_scanPrefix
  rw [same] at less
  exact List.lt_irrefl _ less

/-- A scan depends only on what stands under its prefix. -/
theorem scanPrefix_congr (same : ∀ key, keyPrefix <+: key → data[key]? = data'[key]?) :
    scanPrefix data keyPrefix = scanPrefix data' keyPrefix := by
  rw [scanPrefix_eq_filter, scanPrefix_eq_filter]
  refine congrArg Std.ExtTreeMap.toList (Std.ExtTreeMap.ext_getElem? fun key => ?_)
  rw [Std.ExtTreeMap.getElem?_filter', Std.ExtTreeMap.getElem?_filter']
  by_cases starts : keyPrefix <+: key
  · rw [same key starts]
  · have skipped : keyPrefix.isPrefixOf key = false := by
      rw [Bool.eq_false_iff]
      exact fun found => starts (List.isPrefixOf_iff_prefix.mp found)
    rw [skipped]
    simp

/-- The pairs of the map whose key starts with the prefix, once and in lexicographic order. -/
structure ScansExactly (data : StoreData) (keyPrefix : Bytes) (pairs : List (Bytes × Bytes)) :
    Prop where
  found : ∀ key value, (key, value) ∈ pairs ↔ data[key]? = some value ∧ keyPrefix <+: key
  once : (pairs.map Prod.fst).Nodup
  rising : pairs.Pairwise fun left right => left.1 < right.1

theorem scansExactly_iff {pairs : List (Bytes × Bytes)} :
    scanPrefix data keyPrefix = pairs ↔ ScansExactly data keyPrefix pairs := by
  constructor
  · rintro rfl
    exact ⟨fun _ _ => mem_scanPrefix, nodup_scanPrefix, rising_scanPrefix⟩
  · intro scanned
    apply Serial.eq_of_rising rising_scanPrefix scanned.rising
    rintro ⟨key, value⟩
    rw [scanned.found, mem_scanPrefix]

/-- In either kind of transaction a prefix scan returns exactly what it is to return. -/
theorem prefixScan_exact (keyPrefix : Bytes) (pairs : List (Bytes × Bytes)) :
    (∀ store : MemoryStore,
      store.prefixScan keyPrefix = pairs ↔ ScansExactly store.data keyPrefix pairs) ∧
    ∀ txn : MemoryWriteTx,
      txn.prefixScan keyPrefix = pairs ↔ ScansExactly txn.working keyPrefix pairs := by
  constructor
  · intro store
    exact scansExactly_iff
  · intro txn
    exact scansExactly_iff

/-- Keys around a prefix that is a key and ends in the largest byte. -/
example : scanPrefix (Std.ExtTreeMap.ofList ([([255], [1]), ([254], [2]), ([255, 0], [3]),
    ([255, 255], [4]), ([0, 255], [5])] : List (Bytes × Bytes))) [255] =
      [([255], [1]), ([255, 0], [3]), ([255, 255], [4])] := by
  decide +kernel

theorem getElem?_deleteAll (pairs : List (Bytes × Bytes)) (txn : MemoryWriteTx) (key : Bytes) :
    (pairs.foldl (fun txn pair => txn.delete pair.1) txn).working[key]? =
      if key ∈ pairs.map Prod.fst then none else txn.working[key]? := by
  induction pairs generalizing txn with
  | nil => rfl
  | cons pair pairs ih =>
      rw [List.foldl_cons, ih, List.map_cons]
      by_cases later : key ∈ pairs.map Prod.fst
      · rw [if_pos later, if_pos (List.mem_cons_of_mem pair.1 later)]
      · rw [if_neg later]
        unfold MemoryWriteTx.delete
        simp only [Std.ExtTreeMap.getElem?_erase, Std.compare_eq_iff_eq]
        by_cases here : pair.1 = key
        · rw [if_pos here, if_pos (by rw [here]; exact List.mem_cons_self)]
        · rw [if_neg here, if_neg]
          intro member
          rcases List.mem_cons.mp member with same | member
          · exact here same.symm
          · exact later member

end Scans

end Relos
