import MessageBus.Numerals
import Mathlib.Data.Vector.Basic

/-!
# Decimal text of an `int`

`CStrTool::SimpleItoa` of `mmlib/util/util.cpp`.  The digits are written from
the last one backwards, in front of a NUL.  The result of every operation on
`int` is checked, and so is every place that is written: the model has no value
where the C++ has no meaning.
-/

namespace MessageBus.SimpleItoa

open Numerals

/-- An `int`. -/
structure CInt where
  val : ℤ
  min_le : -2 ^ 31 ≤ val
  lt_max : val < 2 ^ 31
deriving DecidableEq

/-- The result of an operation on `int`, unless it overflows. -/
def checked (value : ℤ) : Option CInt :=
  if h : -2 ^ 31 ≤ value ∧ value < 2 ^ 31 then some ⟨value, h.1, h.2⟩
  else none

def itoaBufferLen : ℕ := 32

def itoaBufferOffset : ℕ := 11

abbrev Buffer := Vector UInt8 itoaBufferLen

/-- `*p = c`, where a pointer is its distance from `szBuf`. -/
def store (szBuf : Buffer) (p : ℕ) (c : UInt8) : Option Buffer :=
  if h : p < itoaBufferLen then some (szBuf.set p c h) else none

/-- `'0' + i % 10` as a `char`. -/
def lastDigit (i : CInt) : Option UInt8 := do
  let digit ← checked (i.val.tmod 10)
  let c ← checked (48 + digit.val)
  some (UInt8.ofInt c.val)

/-- `*p-- = c`; the pointer does not leave the buffer. -/
def push (szBuf : Buffer) (c : UInt8) : ℕ → Option (Buffer × ℕ)
  | 0 => none
  | p + 1 => (store szBuf (p + 1) c).map fun szBuf => (szBuf, p)

/-- `do { *p-- = '0' + i % 10; i /= 10; } while (i > 0);` -/
def digitLoop (szBuf : Buffer) : ℕ → CInt → Option (Buffer × ℕ)
  | 0, _ => none
  | p + 1, i => do
      let c ← lastDigit i
      let szBuf ← store szBuf (p + 1) c
      let i ← checked (i.val.tdiv 10)
      if 0 < i.val then digitLoop szBuf p i else some (szBuf, p)

/-- The bytes from `p` to the NUL, which make the returned string. -/
def cString (szBuf : Buffer) (p : ℕ) : Option Text :=
  if 0 ∈ szBuf.toList.drop p then
    some ((szBuf.toList.drop p).takeWhile (· ≠ 0))
  else none

/-- `SimpleItoa`, with what is in the buffer before. -/
def simpleItoa (szBuf : Buffer) (i : CInt) : Option Text := do
  let (szBuf, p) ← push szBuf 0 itoaBufferOffset
  if 0 ≤ i.val then
    let (szBuf, p) ← digitLoop szBuf p i
    cString szBuf (p + 1)
  else if -10 < i.val then
    let i ← checked (-i.val)
    let c ← checked (48 + i.val)
    let (szBuf, p) ← push szBuf (UInt8.ofInt c.val) p
    let szBuf ← store szBuf p minusByte
    cString szBuf p
  else
    let i ← checked (i.val + 10)
    let i ← checked (-i.val)
    let c ← lastDigit i
    let (szBuf, p) ← push szBuf c p
    let i ← checked (i.val.tdiv 10)
    let i ← checked (i.val + 1)
    let (szBuf, p) ← digitLoop szBuf p i
    let szBuf ← store szBuf p minusByte
    cString szBuf p

/-! ## One operation -/

theorem checked_val {value : ℤ} (hmin : -2 ^ 31 ≤ value)
    (hmax : value < 2 ^ 31) :
    ∃ i, checked value = some i ∧ i.val = value :=
  ⟨⟨value, hmin, hmax⟩, dif_pos ⟨hmin, hmax⟩, rfl⟩

theorem byteOfDigit_eq {digit : ℤ} (hnonneg : 0 ≤ digit)
    (hlt : digit < 10) :
    UInt8.ofInt (48 + digit) = byteOfDigit digit.toNat := by
  interval_cases digit <;> rfl

theorem lastDigit_eq {i : CInt} (hi : 0 ≤ i.val) :
    lastDigit i = some (byteOfDigit (i.val.toNat % 10)) := by
  have hmod : i.val.tmod 10 = i.val % 10 := Int.tmod_eq_emod_of_nonneg hi
  obtain ⟨digit, hdigit, hdigitVal⟩ :
      ∃ digit, checked (i.val.tmod 10) = some digit ∧
        digit.val = i.val.tmod 10 := checked_val (by omega) (by omega)
  obtain ⟨c, hc, hcVal⟩ :
      ∃ c, checked (48 + digit.val) = some c ∧ c.val = 48 + digit.val :=
    checked_val (by omega) (by omega)
  have hnat : digit.val.toNat = i.val.toNat % 10 := by omega
  simp only [lastDigit, hdigit, hc, Option.bind_eq_bind, Option.bind_some]
  rw [hcVal, byteOfDigit_eq (by omega) (by omega), hnat]

/-! ## The text at the end of the buffer -/

/-- From `p` on stand a text and its NUL. -/
def TextAt (szBuf : Buffer) (p : ℕ) (text : Text) : Prop :=
  ∃ rest, szBuf.toList.drop p = text ++ 0 :: rest

variable {szBuf : Buffer} {p : ℕ} {c : UInt8} {i : CInt} {text : Text}

theorem store_eq (hp : p < itoaBufferLen) :
    ∃ next, store szBuf p c = some next ∧
      next.toList.drop p = c :: szBuf.toList.drop (p + 1) := by
  refine ⟨szBuf.set p c hp, dif_pos hp, ?_⟩
  have hlength : p < (szBuf.set p c hp).toList.length := by simpa using hp
  rw [List.drop_eq_getElem_cons hlength]
  have hhead : (szBuf.set p c hp).toList[p] = c := by simp
  have htail : (szBuf.set p c hp).toList.drop (p + 1) =
      szBuf.toList.drop (p + 1) := by
    rw [Vector.toList_set, List.drop_set_of_lt (Nat.lt_succ_self p)]
  rw [hhead, htail]

theorem TextAt.store (htext : TextAt szBuf (p + 1) text)
    (hp : p < itoaBufferLen) :
    ∃ next, store szBuf p c = some next ∧ TextAt next p (c :: text) := by
  obtain ⟨rest, hrest⟩ := htext
  obtain ⟨next, hnext, hdrop⟩ := store_eq hp
  exact ⟨next, hnext, rest, by rw [hdrop, hrest, List.cons_append]⟩

theorem TextAt.push (htext : TextAt szBuf (p + 2) text)
    (hp : p + 1 < itoaBufferLen) :
    ∃ next, push szBuf c (p + 1) = some (next, p) ∧
      TextAt next (p + 1) (c :: text) := by
  obtain ⟨next, hnext, hnextText⟩ := htext.store hp
  exact ⟨next, by simp [SimpleItoa.push, hnext], hnextText⟩

theorem TextAt.cString (htext : TextAt szBuf p text) (hnul : 0 ∉ text) :
    cString szBuf p = some text := by
  obtain ⟨rest, hrest⟩ := htext
  have hall : ∀ byte ∈ text, (decide (byte ≠ 0)) = true := by
    intro byte hbyte
    simpa using ne_of_mem_of_not_mem hbyte hnul
  rw [SimpleItoa.cString, hrest, if_pos (by simp),
    List.takeWhile_append_of_pos hall]
  simp

/-- The NUL that `SimpleItoa` writes first. -/
theorem push_nul (szBuf : Buffer) :
    ∃ next, push szBuf 0 itoaBufferOffset = some (next, 10) ∧
      TextAt next 11 [] := by
  obtain ⟨next, hnext, hdrop⟩ : ∃ next, store szBuf 11 0 = some next ∧
      next.toList.drop 11 = 0 :: szBuf.toList.drop 12 :=
    store_eq (by decide)
  exact ⟨next, by simp [push, itoaBufferOffset, hnext], _, hdrop⟩

/-! ## The digits -/

theorem length_natText_step {number : ℕ} (hnumber : 10 ≤ number) :
    (natText number).length = (natText (number / 10)).length + 1 := by
  rw [natText_eq number, if_neg (by omega), List.length_append,
    List.length_singleton]

/-- The loop writes all digits of a number in front of what it finds, where
there is room for them, and ends right in front of the first one. -/
theorem digitLoop_spec (hi : 0 ≤ i.val)
    (hroom : (natText i.val.toNat).length ≤ p) (hp : p < itoaBufferLen)
    (htext : TextAt szBuf (p + 1) text) :
    ∃ next start, digitLoop szBuf p i = some (next, start) ∧
      start + (natText i.val.toNat).length = p ∧
      TextAt next (start + 1) (natText i.val.toNat ++ text) := by
  induction p generalizing szBuf i text with
  | zero =>
      have := length_natText_pos i.val.toNat
      omega
  | succ p ih =>
      obtain ⟨written, hwritten, hwrittenText⟩ : ∃ written,
          store szBuf (p + 1) (byteOfDigit (i.val.toNat % 10)) = some written ∧
            TextAt written (p + 1) (byteOfDigit (i.val.toNat % 10) :: text) :=
        htext.store hp
      have hdiv : i.val.tdiv 10 = i.val / 10 :=
        Int.tdiv_eq_ediv_of_nonneg hi
      obtain ⟨later, hlater, hlaterVal⟩ : ∃ later,
          checked (i.val.tdiv 10) = some later ∧
            later.val = i.val.tdiv 10 := by
        have := i.lt_max
        exact checked_val (by omega) (by omega)
      have hlaterNat : later.val.toNat = i.val.toNat / 10 := by omega
      simp only [digitLoop, lastDigit_eq hi, hwritten, hlater,
        Option.bind_eq_bind, Option.bind_some]
      by_cases hmore : 0 < later.val
      · have hten : 10 ≤ i.val.toNat := by omega
        have hlength := length_natText_step hten
        rw [if_pos hmore]
        obtain ⟨next, start, hloop, hstart, hnext⟩ :=
          ih hmore.le (by rw [hlaterNat]; omega) (by omega) hwrittenText
        refine ⟨next, start, hloop, by rw [hlaterNat] at hstart; omega, ?_⟩
        rw [natText_eq, if_neg (by omega), ← hlaterNat]
        simpa using hnext
      · have hdigit : natText i.val.toNat =
            [byteOfDigit (i.val.toNat % 10)] := by
          rw [natText_eq, if_pos (by omega), List.nil_append]
        rw [if_neg hmore]
        exact ⟨written, p, rfl, by simp [hdigit], by simpa [hdigit]⟩

/-! ## The result -/

theorem not_mem_nul (number : ℕ) : (0 : UInt8) ∉ natText number :=
  not_mem_natText number (by decide)

theorem not_mem_nul_minus (number : ℕ) :
    (0 : UInt8) ∉ minusByte :: natText number :=
  List.not_mem_cons_of_ne_of_not_mem (by decide) (not_mem_nul number)

theorem simpleItoa_nonneg (szBuf : Buffer) (hi : 0 ≤ i.val) :
    simpleItoa szBuf i = some (natText i.val.toNat) := by
  obtain ⟨first, hfirst, hfirstText⟩ := push_nul szBuf
  have hlength : (natText i.val.toNat).length ≤ 10 := by
    have := i.lt_max
    exact length_natText_le (by norm_num) (by omega)
  obtain ⟨next, start, hloop, _, hnext⟩ :=
    digitLoop_spec hi hlength (by decide) hfirstText
  rw [List.append_nil] at hnext
  simp only [simpleItoa, hfirst, if_pos hi, hloop, Option.bind_eq_bind,
    Option.bind_some]
  exact hnext.cString (not_mem_nul _)

theorem simpleItoa_digit (szBuf : Buffer) (hi : i.val < 0)
    (hdigit : -10 < i.val) :
    simpleItoa szBuf i = some (minusByte :: natText (-i.val).toNat) := by
  obtain ⟨first, hfirst, hfirstText⟩ := push_nul szBuf
  obtain ⟨size, hsize, hsizeVal⟩ :
      ∃ size, checked (-i.val) = some size ∧ size.val = -i.val :=
    checked_val (by omega) (by omega)
  obtain ⟨c, hc, hcVal⟩ :
      ∃ c, checked (48 + size.val) = some c ∧ c.val = 48 + size.val :=
    checked_val (by omega) (by omega)
  have hbyte : UInt8.ofInt c.val = byteOfDigit (-i.val).toNat := by
    rw [hcVal, byteOfDigit_eq (by omega) (by omega), hsizeVal]
  have htext : natText (-i.val).toNat = [byteOfDigit (-i.val).toNat] := by
    rw [natText_eq, if_pos (by omega), List.nil_append,
      Nat.mod_eq_of_lt (by omega)]
  obtain ⟨written, hwritten, hwrittenText⟩ : ∃ written,
      push first (byteOfDigit (-i.val).toNat) 10 = some (written, 9) ∧
        TextAt written 10 [byteOfDigit (-i.val).toNat] :=
    hfirstText.push (by decide)
  obtain ⟨next, hnext, hnextText⟩ : ∃ next,
      store written 9 minusByte = some next ∧
        TextAt next 9 (minusByte :: [byteOfDigit (-i.val).toNat]) :=
    hwrittenText.store (by decide)
  simp only [simpleItoa, hfirst, if_neg (not_le.mpr hi), if_pos hdigit, hsize,
    hc, hbyte, hwritten, hnext, Option.bind_eq_bind, Option.bind_some]
  rw [htext]
  exact hnextText.cString (htext ▸ not_mem_nul_minus _)

/-- Without `-i` for the lowest `i`: the last digit is that of `-(i + 10)`, and
the digits in front of it are those of one more than its quotient. -/
theorem simpleItoa_digits (szBuf : Buffer) (hdigits : i.val ≤ -10) :
    simpleItoa szBuf i = some (minusByte :: natText (-i.val).toNat) := by
  obtain ⟨first, hfirst, hfirstText⟩ := push_nul szBuf
  have hmin := i.min_le
  obtain ⟨raised, hraised, hraisedVal⟩ :
      ∃ raised, checked (i.val + 10) = some raised ∧
        raised.val = i.val + 10 := checked_val (by omega) (by omega)
  obtain ⟨size, hsize, hsizeVal⟩ :
      ∃ size, checked (-raised.val) = some size ∧
        size.val = -raised.val := checked_val (by omega) (by omega)
  have hsizeNonneg : 0 ≤ size.val := by omega
  have hdiv : size.val.tdiv 10 = size.val / 10 :=
    Int.tdiv_eq_ediv_of_nonneg hsizeNonneg
  obtain ⟨quotient, hquotient, hquotientVal⟩ :
      ∃ quotient, checked (size.val.tdiv 10) = some quotient ∧
        quotient.val = size.val.tdiv 10 := checked_val (by omega) (by omega)
  obtain ⟨later, hlater, hlaterVal⟩ :
      ∃ later, checked (quotient.val + 1) = some later ∧
        later.val = quotient.val + 1 := checked_val (by omega) (by omega)
  have hlast : size.val.toNat % 10 = (-i.val).toNat % 10 := by omega
  have hlaterNat : later.val.toNat = (-i.val).toNat / 10 := by omega
  have hsplit : natText (-i.val).toNat =
      natText later.val.toNat ++ [byteOfDigit (size.val.toNat % 10)] := by
    rw [natText_eq, if_neg (by omega), hlaterNat, hlast]
  have hlength : (natText later.val.toNat).length ≤ 9 :=
    length_natText_le (by norm_num) (by omega)
  obtain ⟨written, hwritten, hwrittenText⟩ : ∃ written,
      push first (byteOfDigit (size.val.toNat % 10)) 10 = some (written, 9) ∧
        TextAt written 10 [byteOfDigit (size.val.toNat % 10)] :=
    hfirstText.push (by decide)
  obtain ⟨looped, start, hloop, hstart, hloopText⟩ :=
    digitLoop_spec (by omega) hlength (by decide) hwrittenText
  rw [← hsplit] at hloopText
  obtain ⟨next, hnext, hnextText⟩ : ∃ next,
      store looped start minusByte = some next ∧
        TextAt next start (minusByte :: natText (-i.val).toNat) :=
    hloopText.store (by rw [itoaBufferLen]; omega)
  simp only [simpleItoa, hfirst, if_neg (show ¬ 0 ≤ i.val by omega),
    if_neg (show ¬ -10 < i.val by omega), hraised, hsize,
    lastDigit_eq hsizeNonneg, hwritten, hquotient, hlater, hloop, hnext,
    Option.bind_eq_bind, Option.bind_some]
  exact hnextText.cString (not_mem_nul_minus _)

theorem simpleItoa_eq (szBuf : Buffer) (i : CInt) :
    simpleItoa szBuf i = some (intText i.val) := by
  by_cases hi : 0 ≤ i.val
  · have hsize : i.val.natAbs = i.val.toNat := by omega
    rw [intText, if_neg (not_lt.mpr hi), hsize]
    exact simpleItoa_nonneg szBuf hi
  · have hsize : i.val.natAbs = (-i.val).toNat := by omega
    rw [intText, if_pos (not_le.mp hi), hsize]
    by_cases hdigit : -10 < i.val
    · exact simpleItoa_digit szBuf (not_le.mp hi) hdigit
    · exact simpleItoa_digits szBuf (not_lt.mp hdigit)

/-- For every `int`, and whatever is in the buffer before, no operation
overflows and no byte is written outside the buffer; the string returned is the
one shortest decimal text of the number, and begins with a minus sign for
negative numbers only. -/
theorem simpleItoa_shortest_decimal (szBuf : Buffer) (i : CInt) :
    ∃ text, simpleItoa szBuf i = some text ∧
      intOfText text = some i.val ∧
      (∀ other, intOfText other = some i.val →
        other = text ∨ text.length < other.length) ∧
      (text.head? = some minusByte ↔ i.val < 0) :=
  ⟨intText i.val, simpleItoa_eq szBuf i, intOfText_intText i.val,
    fun _ hother => eq_intText_or_longer hother, head?_intText i.val⟩

end MessageBus.SimpleItoa
