import Ndnfs.Foundation.MachineInteger
import Ndnfs.Foundation.Percent

namespace Ndnfs
open MachineInteger

/-- This is the message FileInfo of file.proto. -/
structure FileInfo where
  size : Int
  totalseg : Int
  version : Int
  mimetype : Option Bytes
  type : Option Int
  deriving DecidableEq

/-- The setters take int32 values. -/
structure FileInfo.Valid (info : FileInfo) : Prop where
  size : IsInt info.size
  totalseg : IsInt info.totalseg
  version : IsInt info.version
  type : ∀ value ∈ info.type, IsInt value

/-- The generated serializer and parser of FileInfo. -/
structure Protobuf where
  serialize : FileInfo → Bytes
  parse : Bytes → Option FileInfo
  parse_serialize : ∀ info, info.Valid → parse (serialize info) = some info

namespace Protobuf

end Protobuf

namespace Reference

/-- A varint has seven bits in each byte, the low ones first. -/
def varintRounds : Nat → Nat → Bytes
  | 0, _ => []
  | rounds + 1, value =>
      if value < 128 then [UInt8.ofNat value]
      else UInt8.ofNat (value % 128 + 128) :: varintRounds rounds (value / 128)

def varint (value : Nat) : Bytes := varintRounds (value + 1) value

def readVarint : Bytes → Option (Nat × Bytes)
  | [] => none
  | byte :: rest =>
      if byte.toNat < 128 then some (byte.toNat, rest)
      else (readVarint rest).map fun (value, rest) => (byte.toNat - 128 + 128 * value, rest)

theorem readVarint_varintRounds {rounds value : Nat} (enough : value < rounds) (rest : Bytes) :
    readVarint (varintRounds rounds value ++ rest) = some (value, rest) := by
  induction rounds generalizing value with
  | zero => omega
  | succ rounds ih =>
      rw [varintRounds]
      split
      · rename_i small
        have byte : (UInt8.ofNat value).toNat = value := UInt8.toNat_ofNat_of_lt' (by
          have size : UInt8.size = 256 := rfl
          omega)
        simp only [List.cons_append, List.nil_append, readVarint, byte, if_pos small]
      · have byte : (UInt8.ofNat (value % 128 + 128)).toNat = value % 128 + 128 :=
          UInt8.toNat_ofNat_of_lt' (by
            have size : UInt8.size = 256 := rfl
            omega)
        simp only [List.cons_append, readVarint, byte, ih (show value / 128 < rounds by omega)]
        rw [if_neg (by omega), Option.map_some]
        congr 2
        omega

theorem readVarint_varint (value : Nat) (rest : Bytes) :
    readVarint (varint value ++ rest) = some (value, rest) :=
  readVarint_varintRounds (Nat.lt_succ_self value) rest

/-- An int32 is sent as a 64-bit varint. -/
def int32Field (tag : UInt8) (value : Int) : Bytes := tag :: varint (toUInt64 value)

def readInt32Field (tag : UInt8) : Bytes → Option (Int × Bytes)
  | [] => none
  | byte :: rest =>
      if byte = tag then (readVarint rest).map fun (value, rest) => (toInt value, rest) else none

theorem readInt32Field_int32Field (tag : UInt8) {value : Int} (range : IsInt value) (rest : Bytes) :
    readInt32Field tag (int32Field tag value ++ rest) = some (value, rest) := by
  rw [int32Field, List.cons_append, readInt32Field, if_pos rfl, readVarint_varint, Option.map_some]
  simp only [toInt_toUInt64 range]

def bytesField (tag : UInt8) (bytes : Bytes) : Bytes := tag :: (varint bytes.length ++ bytes)

def readBytesField (tag : UInt8) : Bytes → Option (Bytes × Bytes)
  | [] => none
  | byte :: rest =>
      if byte = tag then
        (readVarint rest).map fun (length, rest) => (rest.take length, rest.drop length)
      else none

theorem readBytesField_bytesField (tag : UInt8) (bytes rest : Bytes) :
    readBytesField tag (bytesField tag bytes ++ rest) = some (bytes, rest) := by
  rw [bytesField, List.cons_append, readBytesField, if_pos rfl, List.append_assoc,
    readVarint_varint, Option.map_some]
  simp only [List.take_left, List.drop_left]

/-- The fields stand in the order of their numbers. -/
def serialize (info : FileInfo) : Bytes :=
  int32Field 0x08 info.size ++ (int32Field 0x10 info.totalseg ++ (int32Field 0x18 info.version ++
    ((info.mimetype.elim [] (bytesField 0x22)) ++ info.type.elim [] (int32Field 0x28))))

/-- This parser reads a last optional field. -/
def parseType : Bytes → Option (Option Int)
  | [] => some none
  | bytes => (readInt32Field 0x28 bytes).map fun (type, _) => some type

def parse (bytes : Bytes) : Option FileInfo := do
  let (size, bytes) ← readInt32Field 0x08 bytes
  let (totalseg, bytes) ← readInt32Field 0x10 bytes
  let (version, bytes) ← readInt32Field 0x18 bytes
  match readBytesField 0x22 bytes with
  | some (mimetype, bytes) =>
      let type ← parseType bytes
      return { size, totalseg, version, mimetype := some mimetype, type }
  | none =>
      let type ← parseType bytes
      return { size, totalseg, version, mimetype := none, type }

theorem parseType_type {type : Option Int} (range : ∀ value ∈ type, IsInt value) :
    parseType (type.elim [] (int32Field 0x28)) = some type := by
  cases type with
  | none => rfl
  | some value =>
      have read := readInt32Field_int32Field 0x28 (range value rfl) []
      rw [List.append_nil, int32Field] at read
      rw [Option.elim_some, int32Field, parseType, read]
      · rfl
      · simp

/-- The tag of the type field is not the tag of the MIME type. -/
theorem readBytesField_type (type : Option Int) :
    readBytesField 0x22 (type.elim [] (int32Field 0x28)) = none := by
  cases type with
  | none => rfl
  | some value => rfl

theorem parse_serialize (info : FileInfo) (valid : info.Valid) :
    parse (serialize info) = some info := by
  obtain ⟨size, totalseg, version, mimetype, type⟩ := info
  have last := parseType_type valid.type
  rw [parse, serialize, readInt32Field_int32Field _ valid.size, Option.bind_eq_bind,
    Option.bind_some]
  simp only [readInt32Field_int32Field _ valid.totalseg, readInt32Field_int32Field _ valid.version,
    Option.bind_eq_bind, Option.bind_some]
  cases mimetype with
  | none =>
      simp only [Option.elim_none, List.nil_append, readBytesField_type, last, Option.bind_some]
      rfl
  | some mimetype =>
      simp only [Option.elim_some, readBytesField_bytesField, last, Option.bind_some]
      rfl

def protobuf : Protobuf := ⟨serialize, parse, parse_serialize⟩

end Reference

end Ndnfs
