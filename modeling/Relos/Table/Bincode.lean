import Relos.Serial.Format
import Relos.Table.Schema
import Mathlib.Data.Fintype.Basic

set_option autoImplicit false

/-! The encodings as `bincode` and `hex` have them: little-endian integers of fixed
width, lengths of eight bytes, variants of four, and two lower-case digits a byte. -/

namespace Relos

open Serial

def Bincode.ofFormat {α : Type} (format : Format α) : Bincode α where
  serialize value := .ok (format.encode value)
  deserialize bytes :=
    match format.decode bytes with
    | some (value, _) => .ok value
    | none => .error (.serialization "io error: unexpected end of file")

theorem Bincode.ofFormat_lawful {α : Type} (format : Format α) :
    (Bincode.ofFormat format).Lawful := by
  intro value
  refine ⟨format.encode value, rfl, ?_⟩
  have decoded := format.decode_encode value []
  rw [List.append_nil] at decoded
  unfold Bincode.ofFormat
  dsimp only
  rw [decoded]

namespace Bincode

def byte : Format UInt8 := .fixed 1 UInt8.toNat UInt8.ofNat
  (fun value => Nat.lt_of_lt_of_le value.toNat_lt (by decide)) fun _ => UInt8.ofNat_toNat

def int64 : Format Int64 := .fixed 8 (fun value => value.toUInt64.toNat)
  (fun number => (UInt64.ofNat number).toInt64)
  (fun value => Nat.lt_of_lt_of_le value.toUInt64.toNat_lt (by decide))
  fun value => by rw [UInt64.ofNat_toNat]; exact Int64.toInt64_toUInt64 value

def float64 : Format UInt64 := .fixed 8 UInt64.toNat UInt64.ofNat
  (fun value => Nat.lt_of_lt_of_le value.toNat_lt (by decide)) fun _ => UInt64.ofNat_toNat

/-- Any byte but these two is an error. -/
def bool : Format Bool := byte.map (fun value => if value then 1 else 0)
  (fun number => if number = 0 then some false else if number = 1 then some true else none)
  (by decide)

def string : Format String := (Format.list byte).map utf8
  (fun bytes => String.fromUTF8? ⟨bytes.toArray⟩)
  fun text => by
    unfold utf8 String.fromUTF8?
    rw [Array.toArray_toList]
    exact dif_pos text.isValidUTF8

def columnType : Format ColumnType := .enum
  (fun | .int64 => ⟨0, by decide⟩ | .utf8 => ⟨1, by decide⟩ | .bytes => ⟨2, by decide⟩
       | .bool => ⟨3, by decide⟩ | .float64 => ⟨4, by decide⟩)
  (fun _ => [])
  (fun
    | 0, rest => some (.int64, rest)
    | 1, rest => some (.utf8, rest)
    | 2, rest => some (.bytes, rest)
    | 3, rest => some (.bool, rest)
    | 4, rest => some (.float64, rest)
    | _, _ => none)
  fun value rest => by cases value <;> rfl

def columnDef : Format ColumnDef := (string.pair (columnType.pair bool)).map
  (fun column => (column.name, column.colType, column.nullable))
  (fun held => some ⟨held.1, held.2.1, held.2.2⟩) fun _ => rfl

def schema : Format TableSchema := (string.pair ((Format.list columnDef).pair (Format.list string))).map
  (fun schema => (schema.name, schema.columns, schema.primaryKey))
  (fun held => some ⟨held.1, held.2.1, held.2.2⟩) fun _ => rfl

def valueNumber : Value → { number : Nat // number < 256 ^ 4 }
  | .null => ⟨0, by decide⟩
  | .int64 _ => ⟨1, by decide⟩
  | .utf8 _ => ⟨2, by decide⟩
  | .bytes _ => ⟨3, by decide⟩
  | .bool _ => ⟨4, by decide⟩
  | .float64 _ => ⟨5, by decide⟩

def valuePayload : Value → Bytes
  | .null => []
  | .int64 held => int64.encode held
  | .utf8 text => string.encode text
  | .bytes bytes => (Format.list byte).encode bytes
  | .bool held => bool.encode held
  | .float64 bits => float64.encode bits

def valueVariant : Nat → Bytes → Option (Value × Bytes)
  | 0, rest => some (.null, rest)
  | 1, rest => int64.decodeAs .int64 rest
  | 2, rest => string.decodeAs .utf8 rest
  | 3, rest => (Format.list byte).decodeAs .bytes rest
  | 4, rest => bool.decodeAs .bool rest
  | 5, rest => float64.decodeAs .float64 rest
  | _, _ => none

theorem valueVariant_payload (value : Value) (rest : Bytes) :
    valueVariant (valueNumber value).val (valuePayload value ++ rest) = some (value, rest) := by
  cases value with
  | null => rfl
  | int64 | utf8 | bytes | bool | float64 => exact Format.decodeAs_encode _ _ _ rest

def value : Format Value := .enum valueNumber valuePayload valueVariant valueVariant_payload

def row : Format Row := (Format.list value).map Row.values (fun values => some ⟨values⟩) fun _ => rfl

def command : Format TableCommand := .enum
  (fun | .createTable _ => ⟨0, by decide⟩ | .dropTable _ => ⟨1, by decide⟩
       | .put _ _ => ⟨2, by decide⟩ | .delete _ _ => ⟨3, by decide⟩)
  (fun
    | .createTable held => schema.encode held
    | .dropTable table => string.encode table
    | .put table held => (string.pair row).encode (table, held)
    | .delete table key => (string.pair (Format.list value)).encode (table, key))
  (fun
    | 0, rest => schema.decodeAs .createTable rest
    | 1, rest => string.decodeAs .dropTable rest
    | 2, rest => (string.pair row).decodeAs (fun held => .put held.1 held.2) rest
    | 3, rest => (string.pair (Format.list value)).decodeAs (fun held => .delete held.1 held.2) rest
    | _, _ => none)
  fun command rest => by
    cases command with
    | createTable held => exact schema.decodeAs_encode _ held rest
    | dropTable table => exact string.decodeAs_encode _ table rest
    | put table held => exact (string.pair row).decodeAs_encode _ (table, held) rest
    | delete table key => exact (string.pair (Format.list value)).decodeAs_encode _ (table, key) rest

def response : Format TableResponse := .enum
  (fun | .ok => ⟨0, by decide⟩ | .error _ => ⟨1, by decide⟩)
  (fun | .ok => [] | .error message => string.encode message)
  (fun
    | 0, rest => some (.ok, rest)
    | 1, rest => string.decodeAs .error rest
    | _, _ => none)
  fun response rest => by
    cases response with
    | ok => rfl
    | error message => exact string.decodeAs_encode _ message rest

/-! ### Hexadecimal digits -/

def hexPair (byte : UInt8) : List Char :=
  [hexDigits.getD (byte.toNat / 16) '0', hexDigits.getD (byte.toNat % 16) '0']

def hexEncode (bytes : Bytes) : String := String.ofList (bytes.flatMap hexPair)

def hexDecode : List Char → Bytes
  | high :: low :: rest => UInt8.ofNat (16 * hexDigits.idxOf high + hexDigits.idxOf low) :: hexDecode rest
  | _ => []

theorem hexPair_byte (byte : UInt8) (rest : List Char) :
    hexDecode (hexPair byte ++ rest) = byte :: hexDecode rest := by
  have digits : ∀ number : Fin 256, UInt8.ofNat
      (16 * hexDigits.idxOf (hexDigits.getD (number.val / 16) '0') +
        hexDigits.idxOf (hexDigits.getD (number.val % 16) '0')) = UInt8.ofNat number.val := by
    decide +kernel
  have inverse := digits ⟨byte.toNat, byte.toNat_lt⟩
  rw [UInt8.ofNat_toNat] at inverse
  exact congrArg (· :: hexDecode rest) inverse

theorem hexDecode_flatMap (bytes : Bytes) : hexDecode (bytes.flatMap hexPair) = bytes := by
  induction bytes with
  | nil => rfl
  | cons byte bytes ih => rw [List.flatMap_cons, hexPair_byte, ih]

theorem mem_hexDigits {bytes : Bytes} {digit : Char} (member : digit ∈ (hexEncode bytes).toList) :
    digit ∈ hexDigits := by
  have digits : ∀ number : Fin 16, hexDigits.getD number.val '0' ∈ hexDigits := by decide
  unfold hexEncode at member
  rw [String.toList_ofList] at member
  obtain ⟨byte, -, member⟩ := List.mem_flatMap.mp member
  have bound := byte.toNat_lt
  rcases List.mem_cons.mp member with rfl | member
  · exact digits ⟨byte.toNat / 16, by omega⟩
  · rw [List.mem_singleton.mp member]
    exact digits ⟨byte.toNat % 16, by omega⟩

end Bincode

/-- `hex` and `bincode`. -/
def TableCodec.standard : TableCodec where
  hex := Bincode.hexEncode
  value := Bincode.value.encode
  row := .ofFormat Bincode.row
  schema := .ofFormat Bincode.schema
  command := .ofFormat Bincode.command
  response := .ofFormat Bincode.response

theorem TableCodec.standard_lawful : TableCodec.standard.Lawful where
  hex_injective := by
    intro bytes bytes' same
    have chars := String.ofList_injective same
    have decoded := congrArg Bincode.hexDecode chars
    rwa [Bincode.hexDecode_flatMap, Bincode.hexDecode_flatMap] at decoded
  hex_nil := rfl
  hex_digits := fun _ _ member => Bincode.mem_hexDigits member
  value_ne_nil := fun value => Format.enum_ne_nil _ _ _ Bincode.valueVariant_payload value
  row := Bincode.ofFormat_lawful _
  schema := Bincode.ofFormat_lawful _
  command := Bincode.ofFormat_lawful _
  response := Bincode.ofFormat_lawful _

end Relos
