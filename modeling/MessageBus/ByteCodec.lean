import Mathlib.Tactic

/-!
# Codecs of a fixed number of bytes

Little-endian numerals of a given width, and codecs that carry their width and
both of their round trips.  Codecs are put one behind the other by `seq` and
carried over to a record by `iso`; the laws come along.
-/

namespace MessageBus.ByteCodec

/-! ## Little-endian numerals -/

/-- The lowest `width` bytes of a number, least significant first. -/
def leBytes : ℕ → ℕ → List UInt8
  | 0, _ => []
  | width + 1, value => UInt8.ofNat value :: leBytes width (value / 2 ^ 8)

def leValue : List UInt8 → ℕ
  | [] => 0
  | byte :: bytes => byte.toNat + 2 ^ 8 * leValue bytes

@[simp] theorem leBytes_length (width value : ℕ) :
    (leBytes width value).length = width := by
  induction width generalizing value with
  | zero => rfl
  | succ width ih => rw [leBytes, List.length_cons, ih]

theorem leValue_leBytes {width value : ℕ} (hvalue : value < 2 ^ (8 * width)) :
    leValue (leBytes width value) = value := by
  induction width generalizing value with
  | zero =>
      rw [leBytes, leValue]
      omega
  | succ width ih =>
      have hhigh : value / 2 ^ 8 < 2 ^ (8 * width) := by
        rw [Nat.div_lt_iff_lt_mul (by decide), ← pow_add]
        exact hvalue
      rw [leBytes, leValue, ih hhigh, UInt8.toNat_ofNat']
      exact Nat.mod_add_div value (2 ^ 8)

theorem leValue_lt (bytes : List UInt8) :
    leValue bytes < 2 ^ (8 * bytes.length) := by
  induction bytes with
  | nil => decide
  | cons byte bytes ih =>
      have hbyte := byte.toNat_lt
      rw [leValue, List.length_cons, Nat.mul_succ, pow_add]
      omega

theorem leBytes_leValue (bytes : List UInt8) :
    leBytes bytes.length (leValue bytes) = bytes := by
  induction bytes with
  | nil => rfl
  | cons byte bytes ih =>
      have hbyte := byte.toNat_lt
      have hlow : UInt8.ofNat (byte.toNat + 2 ^ 8 * leValue bytes) = byte := by
        apply UInt8.toNat_inj.mp
        rw [UInt8.toNat_ofNat']
        omega
      have hhigh :
          (byte.toNat + 2 ^ 8 * leValue bytes) / 2 ^ 8 = leValue bytes := by
        omega
      rw [List.length_cons, leBytes, leValue, hlow, hhigh, ih]

/-! ## Codecs -/

/-- Values of a type in a fixed number of bytes. -/
structure Codec (α : Type) where
  width : ℕ
  encode : α → List UInt8
  decode : List UInt8 → α
  encode_length : ∀ value, (encode value).length = width
  decode_encode : ∀ value, decode (encode value) = value
  encode_decode : ∀ bytes, bytes.length = width → encode (decode bytes) = bytes

attribute [simp] Codec.encode_length Codec.decode_encode

namespace Codec

variable {α β : Type}

/-- One codec behind the other. -/
def seq (first : Codec α) (second : Codec β) : Codec (α × β) where
  width := first.width + second.width
  encode value := first.encode value.1 ++ second.encode value.2
  decode bytes :=
    (first.decode (bytes.take first.width),
      second.decode (bytes.drop first.width))
  encode_length := by simp
  decode_encode value := by
    have htake : (first.encode value.1 ++ second.encode value.2).take
        first.width = first.encode value.1 :=
      List.take_left' (first.encode_length value.1)
    have hdrop : (first.encode value.1 ++ second.encode value.2).drop
        first.width = second.encode value.2 :=
      List.drop_left' (first.encode_length value.1)
    rw [htake, hdrop, first.decode_encode, second.decode_encode]
  encode_decode bytes hlength := by
    have htake : (bytes.take first.width).length = first.width := by
      rw [List.length_take]
      omega
    have hdrop : (bytes.drop first.width).length = second.width := by
      rw [List.length_drop]
      omega
    rw [first.encode_decode _ htake, second.encode_decode _ hdrop,
      List.take_append_drop]

/-- The same bytes for another type of values. -/
def iso (codec : Codec α) (equiv : α ≃ β) : Codec β where
  width := codec.width
  encode value := codec.encode (equiv.symm value)
  decode bytes := equiv (codec.decode bytes)
  encode_length value := codec.encode_length _
  decode_encode value := by
    rw [codec.decode_encode, Equiv.apply_symm_apply]
  encode_decode bytes hlength := by
    rw [Equiv.symm_apply_apply, codec.encode_decode bytes hlength]

/-- The bytes in the other order. -/
def reversed (codec : Codec α) : Codec α where
  width := codec.width
  encode value := (codec.encode value).reverse
  decode bytes := codec.decode bytes.reverse
  encode_length := by simp
  decode_encode := by simp
  encode_decode bytes hlength := by
    rw [codec.encode_decode _ (by rw [List.length_reverse, hlength]),
      List.reverse_reverse]

/-- A value whose bytes are those of another one in the other order. -/
theorem encode_swap (codec : Codec α) (value : α) :
    codec.encode (codec.decode (codec.encode value).reverse) =
      (codec.encode value).reverse :=
  codec.encode_decode _ (by simp)

theorem decode_swap (codec : Codec α) {bytes : List UInt8}
    (hlength : bytes.length = codec.width) :
    codec.decode (codec.encode (codec.decode bytes)).reverse =
      codec.decode bytes.reverse := by
  rw [codec.encode_decode bytes hlength]

/-- A type of numbers below a power of `2 ^ 8`, least significant byte
first. -/
def little (width : ℕ) (toNat : α → ℕ) (ofNat : ℕ → α)
    (toNat_lt : ∀ value, toNat value < 2 ^ (8 * width))
    (ofNat_toNat : ∀ value, ofNat (toNat value) = value)
    (toNat_ofNat : ∀ value, value < 2 ^ (8 * width) →
      toNat (ofNat value) = value) : Codec α where
  width := width
  encode value := leBytes width (toNat value)
  decode bytes := ofNat (leValue bytes)
  encode_length := by simp
  decode_encode value := by
    rw [leValue_leBytes (toNat_lt value), ofNat_toNat]
  encode_decode bytes hlength := by
    have hlt := leValue_lt bytes
    rw [hlength] at hlt
    rw [toNat_ofNat _ hlt, ← hlength, leBytes_leValue]

end Codec

end MessageBus.ByteCodec
