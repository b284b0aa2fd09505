import Relos.Serial.Separator
import Relos.Table.TableApplicator

set_option autoImplicit false

/-! The key space of the tables: schemas, rows and the cursor of the engine. -/

namespace Relos

namespace TableApplicator

/-- Where `rowKey` puts a row with this encoded primary key. -/
def dataKey (table pkEncoded : String) : Bytes := utf8 ("data/" ++ table ++ "/" ++ pkEncoded)

/-- The name of the inner table starts with that of the outer one and a slash. -/
def Encloses (outer inner : String) : Prop := (outer ++ "/").toList <+: inner.toList

instance (outer inner : String) : Decidable (Encloses outer inner) :=
  inferInstanceAs (Decidable ((outer ++ "/").toList <+: inner.toList))

theorem not_encloses_self (table : String) : ¬ Encloses table table := by
  rintro ⟨rest, whole⟩
  have length := congrArg List.length whole
  have slash : "/".toList.length = 1 := rfl
  rw [String.toList_append, List.length_append, List.length_append, slash] at length
  omega

theorem dataKey_toList (table pkEncoded : String) : ("data/" ++ table ++ "/" ++ pkEncoded).toList =
    "data/".toList ++ (table.toList ++ '/' :: pkEncoded.toList) := by
  rw [String.toList_append, String.toList_append, String.toList_append, List.append_assoc,
    List.append_assoc]
  rfl

theorem dataKey_injective {table table' pkEncoded pkEncoded' : String}
    (free : '/' ∉ pkEncoded.toList) (free' : '/' ∉ pkEncoded'.toList)
    (same : dataKey table pkEncoded = dataKey table' pkEncoded') :
    table = table' ∧ pkEncoded = pkEncoded' := by
  have chars := congrArg String.toList (utf8_injective same)
  rw [dataKey_toList, dataKey_toList] at chars
  obtain ⟨tables, keys⟩ := Serial.split_at_last (List.append_cancel_left chars) free free'
  exact ⟨String.toList_inj.mp tables, String.toList_inj.mp keys⟩

/-- The rows under the prefix of a table are its own and those of the tables that
it encloses. -/
theorem rowPrefix_prefix_dataKey {table table' pkEncoded : String}
    (free : '/' ∉ pkEncoded.toList) :
    rowPrefix table <+: dataKey table' pkEncoded ↔ table = table' ∨ Encloses table table' := by
  have chars : ("data/" ++ table ++ "/").toList = "data/".toList ++ (table.toList ++ ['/']) := by
    rw [String.toList_append, String.toList_append, List.append_assoc]
    rfl
  unfold rowPrefix dataKey
  rw [utf8_startsWith, chars, dataKey_toList, List.prefix_append_right_inj]
  constructor
  · intro starts
    rcases Serial.prefix_at_last starts free with same | encloses
    · exact Or.inl (String.toList_inj.mp same)
    · refine Or.inr ?_
      unfold Encloses
      rw [String.toList_append]
      exact encloses
  · rintro (rfl | encloses)
    · exact ⟨pkEncoded.toList, by rw [List.append_assoc, List.singleton_append]⟩
    · unfold Encloses at encloses
      rw [String.toList_append] at encloses
      exact encloses.trans (List.prefix_append _ _)

theorem schemaKey_injective {table table' : String} (same : schemaKey table = schemaKey table') :
    table = table' := by
  have chars := congrArg String.toList (utf8_injective same)
  rw [String.toList_append, String.toList_append] at chars
  exact String.toList_inj.mp (List.append_cancel_left chars)

theorem rowPrefix_prefix_schemaKey (table table' : String) :
    ¬ rowPrefix table <+: schemaKey table' := by
  unfold rowPrefix schemaKey
  rw [String.append_assoc, utf8_append, utf8_append]
  rintro ⟨rest, whole⟩
  rw [List.append_assoc] at whole
  exact append_ne_of_head (by decide +kernel) (by decide +kernel) (by decide +kernel) _ _ whole

theorem schemaKey_ne_dataKey (table table' pkEncoded : String) :
    schemaKey table ≠ dataKey table' pkEncoded := by
  unfold schemaKey dataKey
  rw [String.append_assoc, String.append_assoc, utf8_append, utf8_append]
  exact append_ne_of_head (by decide +kernel) (by decide +kernel) (by decide +kernel) _ _

theorem cursorKey_ne_schemaKey (table : String) : BaseEngine.cursorKey ≠ schemaKey table := by
  unfold schemaKey
  rw [utf8_append, ← List.append_nil BaseEngine.cursorKey]
  exact append_ne_of_head (by decide +kernel) (by decide +kernel) (by decide +kernel) _ _

theorem cursorKey_ne_dataKey (table pkEncoded : String) :
    BaseEngine.cursorKey ≠ dataKey table pkEncoded := by
  unfold dataKey
  rw [String.append_assoc, String.append_assoc, utf8_append, ← List.append_nil BaseEngine.cursorKey]
  exact append_ne_of_head (by decide +kernel) (by decide +kernel) (by decide +kernel) _ _

theorem rowPrefix_prefix_cursorKey (table : String) :
    ¬ rowPrefix table <+: BaseEngine.cursorKey := by
  unfold rowPrefix
  rw [String.append_assoc, utf8_append, ← List.append_nil BaseEngine.cursorKey]
  rintro ⟨rest, whole⟩
  rw [List.append_assoc] at whole
  exact append_ne_of_head (by decide +kernel) (by decide +kernel) (by decide +kernel) _ _ whole

/-! ### Primary keys -/

variable {codec : TableCodec}

theorem rowKey_eq_dataKey (table : String) (pkValues : List Value) :
    rowKey codec table pkValues = dataKey table (encodePrimaryKey codec pkValues) := rfl

theorem cursorKey_ne_rowKey (codec : TableCodec) (table : String) (pkValues : List Value) :
    BaseEngine.cursorKey ≠ rowKey codec table pkValues :=
  cursorKey_ne_dataKey table _

theorem encodePrimaryKey_toList (values : List Value) :
    (encodePrimaryKey codec values).toList = ['\x00'].intercalate
      ((values.map codec.value).map fun bytes => (codec.hex bytes).toList) := by
  unfold encodePrimaryKey
  rw [String.toList_intercalate, List.map_map, List.map_map]
  rfl

theorem slash_not_mem_encodePrimaryKey (lawful : codec.KeysLawful) (values : List Value) :
    '/' ∉ (encodePrimaryKey codec values).toList := by
  rw [encodePrimaryKey_toList]
  induction values with
  | nil => exact List.not_mem_nil
  | cons value values ih =>
      have digits : '/' ∉ (codec.hex (codec.value value)).toList := fun slash =>
        absurd (lawful.hex_digits _ _ slash) (by decide)
      rw [List.map_cons, List.map_cons]
      cases values with
      | nil =>
          rw [List.map_nil, List.map_nil, List.intercalate_singleton]
          exact digits
      | cons next values =>
          rw [List.map_cons, List.map_cons, List.intercalate_cons_cons, List.append_assoc]
          intro slash
          rcases List.mem_append.mp slash with head | tail
          · exact digits head
          · rcases List.mem_append.mp tail with zero | rest
            · exact absurd zero (by decide)
            · exact ih rest

/-- Encoded keys are equal exactly when the bytes of their values are. -/
theorem encodePrimaryKey_injective (lawful : codec.KeysLawful) {values values' : List Value}
    (same : encodePrimaryKey codec values = encodePrimaryKey codec values') :
    values.map codec.value = values'.map codec.value := by
  have free : ∀ values : List Value, ∀ part ∈ (values.map codec.value).map fun bytes =>
      (codec.hex bytes).toList, '\x00' ∉ part := by
    intro values part member zero
    obtain ⟨bytes, -, rfl⟩ := List.mem_map.mp member
    exact absurd (lawful.hex_digits _ _ zero) (by decide)
  have ne_nil : ∀ values : List Value, ∀ part ∈ (values.map codec.value).map fun bytes =>
      (codec.hex bytes).toList, part ≠ [] := by
    intro values part member empty
    obtain ⟨bytes, encoded, rfl⟩ := List.mem_map.mp member
    obtain ⟨value, -, rfl⟩ := List.mem_map.mp encoded
    have nil : codec.hex (codec.value value) = codec.hex [] := by
      rw [lawful.hex_nil]
      exact String.toList_inj.mp empty
    exact lawful.value_ne_nil value (lawful.hex_injective nil)
  have chars := congrArg String.toList same
  rw [encodePrimaryKey_toList, encodePrimaryKey_toList] at chars
  have parts := Serial.intercalate_injective (free values) (free values') (ne_nil values)
    (ne_nil values') chars
  exact List.map_injective_iff.mpr
    (fun bytes bytes' equal => lawful.hex_injective (String.toList_inj.mp equal)) parts

theorem encodePrimaryKey_congr {values values' : List Value}
    (same : values.map codec.value = values'.map codec.value) :
    encodePrimaryKey codec values = encodePrimaryKey codec values' :=
  String.toList_inj.mp (by rw [encodePrimaryKey_toList, encodePrimaryKey_toList, same])

theorem rowKey_eq_iff (lawful : codec.KeysLawful) {table table' : String} {key key' : List Value} :
    rowKey codec table key = rowKey codec table' key' ↔
      table = table' ∧ key.map codec.value = key'.map codec.value := by
  constructor
  · intro same
    obtain ⟨tables, keys⟩ := dataKey_injective (slash_not_mem_encodePrimaryKey lawful key)
      (slash_not_mem_encodePrimaryKey lawful key') same
    exact ⟨tables, encodePrimaryKey_injective lawful keys⟩
  · rintro ⟨rfl, keys⟩
    rw [rowKey_eq_dataKey, rowKey_eq_dataKey, encodePrimaryKey_congr keys]

end TableApplicator

end Relos
