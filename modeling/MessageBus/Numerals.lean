import Mathlib.Data.Nat.Digits.Lemmas
import Mathlib.Tactic

/-!
# Positional numerals

Numerals in a base, as lists of digits with the most significant one in front.
`numeral` is the one without leading zeros; it is the only shortest numeral of
its number.  The second half is about decimal text in ASCII, with a minus sign
for negative numbers.
-/

namespace MessageBus.Numerals

/-- A written numeral: at least one digit, and each below the base. -/
structure IsNumeral (base : ℕ) (digits : List ℕ) : Prop where
  ne_nil : digits ≠ []
  lt_base : ∀ digit ∈ digits, digit < base

instance (base : ℕ) (digits : List ℕ) : Decidable (IsNumeral base digits) :=
  decidable_of_iff (digits ≠ [] ∧ ∀ digit ∈ digits, digit < base)
    ⟨fun h => ⟨h.1, h.2⟩, fun h => ⟨h.ne_nil, h.lt_base⟩⟩

/-- The number that a numeral stands for. -/
def value (base : ℕ) (digits : List ℕ) : ℕ :=
  Nat.ofDigits base digits.reverse

/-- The numeral of a number without leading zeros. -/
def numeral (base number : ℕ) : List ℕ :=
  if number = 0 then [0] else (base.digits number).reverse

variable {base number : ℕ} {digits : List ℕ}

/-- The last digit comes off the end. -/
theorem numeral_eq (hbase : 1 < base) (number : ℕ) :
    numeral base number =
      (if number < base then [] else numeral base (number / base)) ++
        [number % base] := by
  by_cases hzero : number = 0
  · simp [numeral, hzero, show 0 < base by omega]
  · have hdigits : base.digits number =
        number % base :: base.digits (number / base) :=
      Nat.digits_def' hbase (by omega)
    by_cases hlt : number < base
    · simp [numeral, hzero, hlt, Nat.mod_eq_of_lt hlt]
    · have hdiv : number / base ≠ 0 := by
        have := Nat.div_pos (by omega : base ≤ number) (by omega)
        omega
      simp [numeral, hzero, hlt, hdigits, hdiv]

theorem isNumeral_numeral (hbase : 1 < base) (number : ℕ) :
    IsNumeral base (numeral base number) := by
  unfold numeral
  split_ifs with hzero
  · exact ⟨by simp, by simp; omega⟩
  · refine ⟨by simpa [Nat.digits_eq_nil_iff_eq_zero] using hzero,
      fun digit hdigit => ?_⟩
    exact Nat.digits_lt_base hbase (List.mem_reverse.mp hdigit)

@[simp] theorem value_numeral (base number : ℕ) :
    value base (numeral base number) = number := by
  unfold value numeral
  split_ifs with hzero
  · simp [hzero]
  · rw [List.reverse_reverse, Nat.ofDigits_digits]

theorem value_lt (hbase : 1 < base) (hnumeral : IsNumeral base digits) :
    value base digits < base ^ digits.length := by
  have := Nat.ofDigits_lt_base_pow_length (l := digits.reverse) hbase
    fun digit hdigit => hnumeral.lt_base digit (List.mem_reverse.mp hdigit)
  simpa [value] using this

/-- A number below a power of the base needs no more digits. -/
theorem length_numeral_le (hbase : 1 < base) {length : ℕ}
    (hlength : 0 < length) (hlt : number < base ^ length) :
    (numeral base number).length ≤ length := by
  unfold numeral
  split_ifs with hzero
  · exact hlength
  · rw [List.length_reverse]
    exact (Nat.digits_length_le_iff hbase number).mpr hlt

theorem length_numeral_pos (hbase : 1 < base) (number : ℕ) :
    0 < (numeral base number).length :=
  List.length_pos_of_ne_nil (isNumeral_numeral hbase number).ne_nil

theorem value_injOn_length (hbase : 1 < base) {others : List ℕ}
    (hdigits : IsNumeral base digits) (hothers : IsNumeral base others)
    (hlength : digits.length = others.length)
    (hvalue : value base digits = value base others) : digits = others := by
  have hreverse : digits.reverse = others.reverse := by
    refine Nat.ofDigits_inj_of_len_eq hbase (by simpa using hlength) ?_ ?_ hvalue
    · intro digit hdigit
      exact hdigits.lt_base digit (List.mem_reverse.mp hdigit)
    · intro digit hdigit
      exact hothers.lt_base digit (List.mem_reverse.mp hdigit)
  exact List.reverse_inj.mp hreverse

/-- Any other numeral of a number is longer. -/
theorem eq_numeral_or_longer (hbase : 1 < base)
    (hnumeral : IsNumeral base digits) :
    digits = numeral base (value base digits) ∨
      (numeral base (value base digits)).length < digits.length := by
  have hle : (numeral base (value base digits)).length ≤ digits.length :=
    length_numeral_le hbase (List.length_pos_of_ne_nil hnumeral.ne_nil)
      (value_lt hbase hnumeral)
  rcases hle.lt_or_eq with hlt | heq
  · exact Or.inr hlt
  · refine Or.inl (value_injOn_length hbase hnumeral
      (isNumeral_numeral hbase _) heq.symm ?_)
    rw [value_numeral]

/-! ## Decimal text -/

abbrev Text := List UInt8

def zeroByte : UInt8 := 48

def minusByte : UInt8 := 45

def byteOfDigit (digit : ℕ) : UInt8 := zeroByte + UInt8.ofNat digit

/-- Below 10 for the bytes of digits only. -/
def digitOfByte (byte : UInt8) : ℕ := (byte - zeroByte).toNat

/-- The number that a text of digits stands for. -/
def natOfText (text : Text) : Option ℕ :=
  if IsNumeral 10 (text.map digitOfByte) then
    some (value 10 (text.map digitOfByte))
  else none

/-- The number that a text of digits stands for, if it is one; a minus sign in
front makes it negative. -/
def intOfText : Text → Option ℤ
  | [] => none
  | byte :: text =>
      if byte = minusByte then
        (natOfText text).map fun number : ℕ => -(number : ℤ)
      else (natOfText (byte :: text)).map fun number : ℕ => (number : ℤ)

def natText (number : ℕ) : Text := (numeral 10 number).map byteOfDigit

def intText (number : ℤ) : Text :=
  if number < 0 then minusByte :: natText number.natAbs
  else natText number.natAbs

variable {text : Text}

theorem digitOfByte_byteOfDigit {digit : ℕ} (hdigit : digit < 10) :
    digitOfByte (byteOfDigit digit) = digit := by
  have hsub : zeroByte + UInt8.ofNat digit - zeroByte = UInt8.ofNat digit := by
    rw [UInt8.add_comm, UInt8.add_sub_cancel]
  rw [digitOfByte, byteOfDigit, hsub, UInt8.toNat_ofNat']
  omega

theorem byteOfDigit_digitOfByte (byte : UInt8) :
    byteOfDigit (digitOfByte byte) = byte := by
  rw [digitOfByte, byteOfDigit, UInt8.ofNat_toNat, UInt8.add_comm,
    UInt8.sub_add_cancel]

theorem byteOfDigit_ne {digit : ℕ} (hdigit : digit < 10) {byte : UInt8}
    (hbyte : 10 ≤ digitOfByte byte) : byteOfDigit digit ≠ byte := by
  rintro rfl
  rw [digitOfByte_byteOfDigit hdigit] at hbyte
  omega

/-- The last digit comes off the end. -/
theorem natText_eq (number : ℕ) :
    natText number =
      (if number < 10 then [] else natText (number / 10)) ++
        [byteOfDigit (number % 10)] := by
  unfold natText
  rw [numeral_eq (by norm_num) number]
  split_ifs <;> simp

theorem map_digitOfByte_natText (number : ℕ) :
    (natText number).map digitOfByte = numeral 10 number := by
  have hnumeral : IsNumeral 10 (numeral 10 number) :=
    isNumeral_numeral (by norm_num) number
  rw [natText, List.map_map]
  conv_rhs => rw [← List.map_id (numeral 10 number)]
  refine List.map_congr_left fun digit hdigit => ?_
  exact digitOfByte_byteOfDigit (hnumeral.lt_base digit hdigit)

theorem natOfText_natText (number : ℕ) :
    natOfText (natText number) = some number := by
  rw [natOfText, map_digitOfByte_natText,
    if_pos (isNumeral_numeral (by norm_num) number), value_numeral]

theorem length_natText_le {number length : ℕ} (hlength : 0 < length)
    (hlt : number < 10 ^ length) : (natText number).length ≤ length := by
  simpa [natText] using length_numeral_le (by norm_num) hlength hlt

theorem length_natText_pos (number : ℕ) : 0 < (natText number).length := by
  have : 0 < (numeral 10 number).length :=
    length_numeral_pos (by norm_num) number
  simpa [natText] using this

theorem not_mem_natText (number : ℕ) {byte : UInt8}
    (hbyte : 10 ≤ digitOfByte byte) : byte ∉ natText number := by
  intro hmem
  obtain ⟨digit, hdigit, rfl⟩ := List.mem_map.mp hmem
  exact byteOfDigit_ne ((isNumeral_numeral (by norm_num) _).lt_base _ hdigit)
    hbyte rfl

theorem eq_natText_or_longer {number : ℕ}
    (hread : natOfText text = some number) :
    text = natText number ∨ (natText number).length < text.length := by
  unfold natOfText at hread
  split_ifs at hread with hnumeral
  obtain rfl := Option.some.inj hread
  rcases eq_numeral_or_longer (by norm_num) hnumeral with heq | hlt
  · left
    rw [natText, ← heq, List.map_map]
    conv_lhs => rw [← List.map_id text]
    exact List.map_congr_left fun byte _ => (byteOfDigit_digitOfByte byte).symm
  · right
    simpa [natText] using hlt

/-! ## Signed decimal text -/

theorem natText_ne_minus_cons (number : ℕ) (text : Text) :
    natText number ≠ minusByte :: text := by
  intro heq
  have hmem : minusByte ∈ natText number := by simp [heq]
  exact not_mem_natText number (by decide) hmem

theorem head?_natText_ne_minus (number : ℕ) :
    (natText number).head? ≠ some minusByte := by
  intro hhead
  obtain ⟨rest, heq⟩ := List.head?_eq_some_iff.mp hhead
  exact natText_ne_minus_cons number rest heq

theorem intText_natCast (number : ℕ) :
    intText (number : ℤ) = natText number := by
  rw [intText, if_neg (by omega), Int.natAbs_natCast]

theorem intText_neg_natCast {number : ℕ} (hpos : 0 < number) :
    intText (-(number : ℤ)) = minusByte :: natText number := by
  rw [intText, if_pos (by omega), Int.natAbs_neg, Int.natAbs_natCast]

theorem head?_intText (number : ℤ) :
    (intText number).head? = some minusByte ↔ number < 0 := by
  unfold intText
  split_ifs with hneg
  · simp [hneg]
  · simp [hneg, head?_natText_ne_minus]

theorem intOfText_minus_cons (text : Text) :
    intOfText (minusByte :: text) =
      (natOfText text).map fun number : ℕ => -(number : ℤ) := by
  rw [intOfText, if_pos rfl]

theorem intOfText_of_head?_ne (htext : text.head? ≠ some minusByte) :
    intOfText text = (natOfText text).map fun number : ℕ => (number : ℤ) := by
  cases text with
  | nil => rfl
  | cons byte text =>
      have hbyte : byte ≠ minusByte := by simpa using htext
      rw [intOfText, if_neg hbyte]

theorem intOfText_intText (number : ℤ) :
    intOfText (intText number) = some number := by
  unfold intText
  split_ifs with hneg
  · rw [intOfText_minus_cons, natOfText_natText, Option.map_some,
      Int.ofNat_natAbs_of_nonpos hneg.le, neg_neg]
  · rw [intOfText_of_head?_ne (head?_natText_ne_minus _), natOfText_natText,
      Option.map_some, Int.natAbs_of_nonneg (not_lt.mp hneg)]

theorem eq_intText_or_longer {number : ℤ}
    (hread : intOfText text = some number) :
    text = intText number ∨ (intText number).length < text.length := by
  by_cases hminus : text.head? = some minusByte
  · obtain ⟨digits, rfl⟩ := List.head?_eq_some_iff.mp hminus
    rw [intOfText_minus_cons] at hread
    obtain ⟨size, hsize, rfl⟩ := Option.map_eq_some_iff.mp hread
    have hdigits := eq_natText_or_longer hsize
    rcases Nat.eq_zero_or_pos size with rfl | hpos
    · -- a zero with a sign is longer than the zero without
      right
      have hle : (natText 0).length ≤ digits.length := by
        rcases hdigits with rfl | hlonger
        · exact le_rfl
        · exact hlonger.le
      rw [Nat.cast_zero, neg_zero, ← Nat.cast_zero, intText_natCast,
        List.length_cons]
      omega
    · rw [intText_neg_natCast hpos]
      simpa using hdigits
  · rw [intOfText_of_head?_ne hminus] at hread
    obtain ⟨size, hsize, rfl⟩ := Option.map_eq_some_iff.mp hread
    rw [intText_natCast]
    exact eq_natText_or_longer hsize

end MessageBus.Numerals
