import MessageBus.ByteCodec

/-!
# Messages of numbered fields

A message is written field by field: a tag with the number of the field and the
kind of its value, then the value.  Integers are written in base 128, lowest
digit first, with the top bit set on every byte but the last.  A reader takes
fields in any order and skips those it does not know; a message parses when
all the fields it requires are there.  Groups are not read.
-/

namespace MessageBus.ProtoWire

open ByteCodec

/-! ## Base 128 -/

def varintFrom : ℕ → ℕ → List UInt8
  | 0, _ => []
  | fuel + 1, value =>
      if value < 2 ^ 7 then [UInt8.ofNat value]
      else
        UInt8.ofNat (value % 2 ^ 7 + 2 ^ 7) :: varintFrom fuel (value / 2 ^ 7)

def varint (value : UInt64) : List UInt8 :=
  varintFrom 10 value.toNat

/-- The number at the front and the bytes behind it, for at most `fuel`
bytes. -/
def readVarintFrom : ℕ → List UInt8 → Option (ℕ × List UInt8)
  | 0, _ => none
  | _ + 1, [] => none
  | fuel + 1, byte :: bytes =>
      if byte.toNat < 2 ^ 7 then some (byte.toNat, bytes)
      else do
        let (high, rest) ← readVarintFrom fuel bytes
        some (byte.toNat - 2 ^ 7 + 2 ^ 7 * high, rest)

/-- What does not fit into 64 bits is dropped. -/
def readVarint (bytes : List UInt8) : Option (UInt64 × List UInt8) := do
  let (value, rest) ← readVarintFrom 10 bytes
  some (UInt64.ofNat value, rest)

theorem readVarintFrom_varintFrom {fuel value : ℕ}
    (hvalue : value < 2 ^ (7 * fuel)) (hfuel : 0 < fuel)
    (rest : List UInt8) :
    readVarintFrom fuel (varintFrom fuel value ++ rest) =
      some (value, rest) := by
  induction fuel generalizing value with
  | zero => omega
  | succ fuel ih =>
      rw [varintFrom]
      split_ifs with hsmall
      · have hbyte : (UInt8.ofNat value).toNat = value := by
          rw [UInt8.toNat_ofNat']
          omega
        rw [List.singleton_append, readVarintFrom, hbyte, if_pos hsmall]
      · have hhigh : value / 2 ^ 7 < 2 ^ (7 * fuel) := by
          rw [Nat.div_lt_iff_lt_mul (by decide), ← pow_add]
          exact hvalue
        have hpos : 0 < fuel := by
          by_contra hzero
          obtain rfl : fuel = 0 := by omega
          omega
        have hbyte : (UInt8.ofNat (value % 2 ^ 7 + 2 ^ 7)).toNat =
            value % 2 ^ 7 + 2 ^ 7 := by
          rw [UInt8.toNat_ofNat']
          omega
        rw [List.cons_append, readVarintFrom, hbyte, if_neg (by omega),
          ih hhigh hpos]
        simp only [Option.bind_eq_bind, Option.bind_some, Option.some.injEq,
          Prod.mk.injEq, and_true]
        omega

@[simp] theorem readVarint_varint (value : UInt64) (rest : List UInt8) :
    readVarint (varint value ++ rest) = some (value, rest) := by
  have hvalue := value.toNat_lt
  have hread := readVarintFrom_varintFrom
    (show value.toNat < 2 ^ (7 * 10) by omega) (by decide) rest
  rw [readVarint, varint, hread]
  simp only [Option.bind_eq_bind, Option.bind_some, UInt64.ofNat_toNat]

theorem varintFrom_length_le {fuel value digits : ℕ}
    (hvalue : value < 2 ^ (7 * digits)) (hdigits : 0 < digits) :
    (varintFrom fuel value).length ≤ digits := by
  induction digits generalizing fuel value with
  | zero => omega
  | succ digits ih =>
      cases fuel with
      | zero => exact Nat.zero_le _
      | succ fuel =>
          rw [varintFrom]
          split_ifs with hsmall
          · rw [List.length_singleton]
            omega
          · have hhigh : value / 2 ^ 7 < 2 ^ (7 * digits) := by
              rw [Nat.div_lt_iff_lt_mul (by decide), ← pow_add]
              exact hvalue
            have hpos : 0 < digits := by
              by_contra hzero
              obtain rfl : digits = 0 := by omega
              omega
            rw [List.length_cons]
            exact Nat.succ_le_succ (ih hhigh hpos)

theorem varint_length_le (value : UInt64) : (varint value).length ≤ 10 := by
  have hvalue := value.toNat_lt
  exact varintFrom_length_le (by omega) (by decide)

theorem varint_length_pos (value : UInt64) : 0 < (varint value).length := by
  rw [varint, varintFrom]
  split_ifs <;> simp

/-! ## Fields -/

inductive WireType where
  | varint
  | fixed64
  | bytes
  | fixed32
deriving DecidableEq

inductive Value where
  | varint (value : UInt64)
  | fixed64 (value : UInt64)
  | bytes (value : List UInt8)
  | fixed32 (value : UInt32)
deriving DecidableEq

/-- A number of type `int32`, with its sign extended to 64 bits. -/
def Value.int32 (value : Int32) : Value :=
  .varint value.toInt64.toUInt64

def Value.uint32 (value : UInt32) : Value :=
  .varint value.toUInt64

def Value.wireType : Value → WireType
  | .varint _ => .varint
  | .fixed64 _ => .fixed64
  | .bytes _ => .bytes
  | .fixed32 _ => .fixed32

def WireType.code : WireType → ℕ
  | .varint => 0
  | .fixed64 => 1
  | .bytes => 2
  | .fixed32 => 5

structure Field where
  number : ℕ
  value : Value
deriving DecidableEq

def Value.encode : Value → List UInt8
  | .varint value => ProtoWire.varint value
  | .fixed64 value => leBytes 8 value.toNat
  | .bytes value => ProtoWire.varint (UInt64.ofNat value.length) ++ value
  | .fixed32 value => leBytes 4 value.toNat

def tag (number : ℕ) (wireType : WireType) : UInt64 :=
  UInt64.ofNat (8 * number + wireType.code)

def Field.encode (field : Field) : List UInt8 :=
  varint (tag field.number field.value.wireType) ++ field.value.encode

def encode (fields : List Field) : List UInt8 :=
  fields.flatMap Field.encode

def readValue (code : ℕ) (bytes : List UInt8) :
    Option (Value × List UInt8) :=
  match code with
  | 0 => do
      let (value, rest) ← readVarint bytes
      some (.varint value, rest)
  | 1 =>
      if bytes.length < 8 then none
      else
        some (.fixed64 (UInt64.ofNat (leValue (bytes.take 8))), bytes.drop 8)
  | 2 => do
      let (length, rest) ← readVarint bytes
      if rest.length < length.toNat then none
      else some (.bytes (rest.take length.toNat), rest.drop length.toNat)
  | 5 =>
      if bytes.length < 4 then none
      else
        some (.fixed32 (UInt32.ofNat (leValue (bytes.take 4))), bytes.drop 4)
  | _ => none

def readField (bytes : List UInt8) : Option (Field × List UInt8) := do
  let (tag, rest) ← readVarint bytes
  let number := tag.toNat / 8
  if number = 0 ∨ 2 ^ 29 ≤ number then none
  else
    let (value, rest) ← readValue (tag.toNat % 8) rest
    some (⟨number, value⟩, rest)

def readFieldsFrom : ℕ → List UInt8 → Option (List Field)
  | _, [] => some []
  | 0, _ :: _ => none
  | fuel + 1, byte :: bytes => do
      let (field, rest) ← readField (byte :: bytes)
      let fields ← readFieldsFrom fuel rest
      some (field :: fields)

/-- Every field takes a byte or more. -/
def readFields (bytes : List UInt8) : Option (List Field) :=
  readFieldsFrom bytes.length bytes

/-! ## Round trip -/

/-- A field that can be written. -/
structure Field.Valid (field : Field) : Prop where
  number_pos : 0 < field.number
  number_lt : field.number < 2 ^ 29
  length_lt : ∀ bytes, field.value = .bytes bytes → bytes.length < 2 ^ 31

theorem encode_cons (field : Field) (fields : List Field) :
    encode (field :: fields) = field.encode ++ encode fields :=
  List.flatMap_cons

theorem WireType.code_lt (wireType : WireType) : wireType.code < 8 := by
  cases wireType <;> decide

theorem read_leBytes {width value : ℕ} (hvalue : value < 2 ^ (8 * width))
    (rest : List UInt8) :
    ¬ (leBytes width value ++ rest).length < width ∧
      leValue ((leBytes width value ++ rest).take width) = value ∧
      (leBytes width value ++ rest).drop width = rest := by
  have hwidth := leBytes_length width value
  refine ⟨?_, ?_, List.drop_left' hwidth⟩
  · rw [List.length_append, hwidth]
    omega
  · rw [List.take_left' hwidth, leValue_leBytes hvalue]

theorem readValue_encode {value : Value}
    (hlength : ∀ bytes, value = .bytes bytes → bytes.length < 2 ^ 31)
    (rest : List UInt8) :
    readValue value.wireType.code (value.encode ++ rest) =
      some (value, rest) := by
  cases value with
  | varint value =>
      simp only [Value.wireType, WireType.code, readValue, Value.encode,
        readVarint_varint, Option.bind_eq_bind, Option.bind_some]
  | fixed64 value =>
      have hlt : value.toNat < 2 ^ (8 * 8) := value.toNat_lt
      obtain ⟨hlong, hvalue, hrest⟩ := read_leBytes hlt rest
      rw [Value.encode, Value.wireType, WireType.code, readValue,
        if_neg hlong, hvalue, hrest, UInt64.ofNat_toNat]
  | bytes value =>
      have hsize : (UInt64.ofNat value.length).toNat = value.length := by
        have hlt := hlength value rfl
        rw [UInt64.toNat_ofNat']
        omega
      simp only [Value.wireType, WireType.code, readValue, Value.encode,
        List.append_assoc, readVarint_varint, Option.bind_eq_bind,
        Option.bind_some, hsize]
      rw [if_neg (by simp), List.take_left, List.drop_left]
  | fixed32 value =>
      have hlt : value.toNat < 2 ^ (8 * 4) := value.toNat_lt
      obtain ⟨hlong, hvalue, hrest⟩ := read_leBytes hlt rest
      rw [Value.encode, Value.wireType, WireType.code, readValue,
        if_neg hlong, hvalue, hrest, UInt32.ofNat_toNat]

theorem readField_encode {field : Field} (hvalid : field.Valid)
    (rest : List UInt8) :
    readField (field.encode ++ rest) = some (field, rest) := by
  have hcode := field.value.wireType.code_lt
  have hpos := hvalid.number_pos
  have hlt := hvalid.number_lt
  have htag : (tag field.number field.value.wireType).toNat =
      8 * field.number + field.value.wireType.code := by
    rw [tag, UInt64.toNat_ofNat']
    omega
  have hnumber : (8 * field.number + field.value.wireType.code) / 8 =
      field.number := by
    omega
  have hwire : (8 * field.number + field.value.wireType.code) % 8 =
      field.value.wireType.code := by
    omega
  rw [readField, Field.encode, List.append_assoc, readVarint_varint]
  simp only [Option.bind_eq_bind, Option.bind_some, htag, hnumber, hwire]
  rw [if_neg (by omega), readValue_encode hvalid.length_lt]
  rfl

theorem Field.encode_length_pos (field : Field) :
    0 < field.encode.length := by
  have hpos := varint_length_pos (tag field.number field.value.wireType)
  rw [Field.encode, List.length_append]
  omega

theorem length_le_encode (fields : List Field) :
    fields.length ≤ (encode fields).length := by
  induction fields with
  | nil => exact Nat.zero_le _
  | cons field fields ih =>
      have hpos := field.encode_length_pos
      rw [encode_cons, List.length_append, List.length_cons]
      omega

theorem readFieldsFrom_encode {fields : List Field} {fuel : ℕ}
    (hvalid : ∀ field ∈ fields, field.Valid) (hfuel : fields.length ≤ fuel) :
    readFieldsFrom fuel (encode fields) = some fields := by
  induction fields generalizing fuel with
  | nil => cases fuel <;> rfl
  | cons field fields ih =>
      obtain ⟨hfield, hfields⟩ := List.forall_mem_cons.mp hvalid
      rw [List.length_cons] at hfuel
      obtain ⟨fuel, rfl⟩ :=
        Nat.exists_eq_succ_of_ne_zero (show fuel ≠ 0 by omega)
      have hread := readField_encode hfield (encode fields)
      have hrest := ih hfields (Nat.succ_le_succ_iff.mp hfuel)
      rw [← encode_cons] at hread
      cases hbytes : encode (field :: fields) with
      | nil =>
          have hpos := length_le_encode (field :: fields)
          rw [hbytes] at hpos
          simp at hpos
      | cons byte bytes =>
          rw [hbytes] at hread
          rw [readFieldsFrom, hread]
          simp only [Option.bind_eq_bind, Option.bind_some, hrest]

/-- What is written is read again. -/
theorem readFields_encode {fields : List Field}
    (hvalid : ∀ field ∈ fields, field.Valid) :
    readFields (encode fields) = some fields :=
  readFieldsFrom_encode hvalid (length_le_encode fields)

/-! ## Required fields -/

/-- The required fields of a message: their numbers and the kinds of their
values. -/
abbrev Descriptor := List (ℕ × WireType)

def Field.Is (field : Field) (required : ℕ × WireType) : Prop :=
  field.number = required.1 ∧ field.value.wireType = required.2

instance (field : Field) (required : ℕ × WireType) :
    Decidable (field.Is required) :=
  inferInstanceAs (Decidable (_ ∧ _))

/-- A parser goes by the required fields: a message that has been written
parses if and only if they are all there. -/
def RequiredFieldsRule (Parses : Descriptor → List UInt8 → Prop) : Prop :=
  ∀ descriptor fields, (∀ field ∈ fields, field.Valid) →
    (encode fields).length < 2 ^ 26 →
    (Parses descriptor (encode fields) ↔
      ∀ required ∈ descriptor, ∃ field ∈ fields, field.Is required)

def Parses (descriptor : Descriptor) (bytes : List UInt8) : Prop :=
  ∃ fields ∈ readFields bytes,
    ∀ required ∈ descriptor, ∃ field ∈ fields, field.Is required

theorem requiredFieldsRule_parses : RequiredFieldsRule Parses := by
  intro descriptor fields hvalid _
  rw [Parses, readFields_encode hvalid]
  simp

/-! ## Lengths -/

theorem tag_length {number : ℕ} (hnumber : number < 16)
    (wireType : WireType) : (varint (tag number wireType)).length ≤ 1 := by
  have hcode := wireType.code_lt
  apply varintFrom_length_le _ (by decide)
  rw [tag, UInt64.toNat_ofNat']
  omega

theorem Field.encode_length_le {field : Field} (hnumber : field.number < 16) :
    field.encode.length ≤ 1 + field.value.encode.length := by
  have htag := tag_length hnumber field.value.wireType
  rw [Field.encode, List.length_append]
  omega

/-- A field with a small number that holds an integer. -/
structure Field.IsInteger (field : Field) : Prop where
  number_pos : 0 < field.number
  number_lt : field.number < 16
  varint : field.value.wireType = .varint

theorem Field.isInteger {number : ℕ} (hpos : 0 < number)
    (hlt : number < 16) (value : UInt64) :
    (Field.mk number (.varint value)).IsInteger :=
  ⟨hpos, hlt, rfl⟩

theorem Field.IsInteger.valid {field : Field} (hinteger : field.IsInteger) :
    field.Valid where
  number_pos := hinteger.number_pos
  number_lt := hinteger.number_lt.trans (by decide)
  length_lt := by
    intro bytes hbytes
    have hvarint := hinteger.varint
    rw [hbytes] at hvarint
    cases hvarint

theorem Field.IsInteger.encode_length_le {field : Field}
    (hinteger : field.IsInteger) : field.encode.length ≤ 11 := by
  have hencode := Field.encode_length_le hinteger.number_lt
  obtain ⟨number, value⟩ := field
  cases value with
  | varint value =>
      have hvalue := varint_length_le value
      simp only [Value.encode] at hencode
      omega
  | fixed64 value => cases hinteger.varint
  | bytes value => cases hinteger.varint
  | fixed32 value => cases hinteger.varint

theorem encode_length_le {fields : List Field} {size : ℕ}
    (hsize : ∀ field ∈ fields, field.encode.length ≤ size) :
    (encode fields).length ≤ fields.length * size := by
  induction fields with
  | nil => exact Nat.zero_le _
  | cons field fields ih =>
      obtain ⟨hfield, hfields⟩ := List.forall_mem_cons.mp hsize
      have hrest := ih hfields
      rw [encode_cons, List.length_append, List.length_cons, Nat.succ_mul]
      omega

end MessageBus.ProtoWire
