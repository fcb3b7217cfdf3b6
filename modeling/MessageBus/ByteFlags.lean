import Mathlib

/-!
# Flags kept as the bits of bytes

Flag `index` is bit `index % 8` of byte `index / 8`.  Raising or lowering a flag
changes that flag and no other, also of the flags of the same byte.
-/

namespace MessageBus.ByteFlags

def mask (index : ℕ) : UInt8 := 1 <<< UInt8.ofNat (index % 8)

def test (bytes : ℕ → UInt8) (index : ℕ) : Bool :=
  bytes (index / 8) &&& mask index != 0

def raise (bytes : ℕ → UInt8) (index : ℕ) : ℕ → UInt8 :=
  Function.update bytes (index / 8) (bytes (index / 8) ||| mask index)

def lower (bytes : ℕ → UInt8) (index : ℕ) : ℕ → UInt8 :=
  Function.update bytes (index / 8) (bytes (index / 8) &&& ~~~ mask index)

theorem mask_toBitVec (index : ℕ) :
    (mask index).toBitVec = BitVec.twoPow 8 (index % 8) := by
  have hlt : index % 8 < 8 := Nat.mod_lt _ (by decide)
  unfold mask
  generalize index % 8 = bit at hlt
  interval_cases bit <;> rfl

theorem test_eq_getLsbD (bytes : ℕ → UInt8) (index : ℕ) :
    test bytes index = (bytes (index / 8)).toBitVec.getLsbD (index % 8) := by
  have hlt : index % 8 < 8 := Nat.mod_lt _ (by decide)
  have hzero : (bytes (index / 8) &&& mask index = 0) ↔
      (bytes (index / 8)).toBitVec &&& BitVec.twoPow 8 (index % 8) = 0 := by
    rw [← UInt8.toBitVec_inj, UInt8.toBitVec_and, mask_toBitVec]
    rfl
  have htwoPow : BitVec.twoPow 8 (index % 8) ≠ 0#8 := by
    intro heq
    have hbit := congrArg (fun bits => bits.getLsbD (index % 8)) heq
    simp [hlt] at hbit
  unfold test
  rw [Bool.eq_iff_iff, bne_iff_ne, ne_eq, hzero, BitVec.and_twoPow]
  cases (bytes (index / 8)).toBitVec.getLsbD (index % 8) with
  | false => simp
  | true => simp [htwoPow]

/-- Two flags of one byte are the same flag if they are the same bit. -/
theorem eq_iff_of_div_eq {first second : ℕ} (hbyte : first / 8 = second / 8) :
    first = second ↔ first % 8 = second % 8 := by
  omega

theorem test_raise (bytes : ℕ → UInt8) (raised index : ℕ) :
    test (raise bytes raised) index =
      (decide (index = raised) || test bytes index) := by
  have hlt : index % 8 < 8 := Nat.mod_lt _ (by decide)
  rw [test_eq_getLsbD, test_eq_getLsbD, raise]
  by_cases hbyte : index / 8 = raised / 8
  · simp only [hbyte, Function.update_self, UInt8.toBitVec_or, mask_toBitVec,
      BitVec.getLsbD_or, BitVec.getLsbD_twoPow, eq_iff_of_div_eq hbyte]
    by_cases hbit : index % 8 = raised % 8
    · simp [hbit, Nat.mod_lt]
    · simp [hbit, Ne.symm hbit]
  · have hne : index ≠ raised := fun heq => hbyte (heq ▸ rfl)
    simp [Function.update_of_ne hbyte, hne]

theorem test_lower (bytes : ℕ → UInt8) (lowered index : ℕ) :
    test (lower bytes lowered) index =
      (!decide (index = lowered) && test bytes index) := by
  have hlt : index % 8 < 8 := Nat.mod_lt _ (by decide)
  rw [test_eq_getLsbD, test_eq_getLsbD, lower]
  by_cases hbyte : index / 8 = lowered / 8
  · simp only [hbyte, Function.update_self, UInt8.toBitVec_and,
      UInt8.toBitVec_not, mask_toBitVec, BitVec.getLsbD_and,
      BitVec.getLsbD_not, BitVec.getLsbD_twoPow, eq_iff_of_div_eq hbyte]
    by_cases hbit : index % 8 = lowered % 8
    · simp [hbit, Nat.mod_lt]
    · simp [hbit, Ne.symm hbit, hlt]
  · have hne : index ≠ lowered := fun heq => hbyte (heq ▸ rfl)
    simp [Function.update_of_ne hbyte, hne]

/-- The number of flags raised among the first `count`. -/
def raisedCount (bytes : ℕ → UInt8) (count : ℕ) : ℕ :=
  (List.range count).countP (test bytes)

theorem raisedCount_eq_card
    {bytes : ℕ → UInt8} {count : ℕ} {raised : Finset ℕ}
    (hsubset : ∀ index ∈ raised, index < count)
    (htest : ∀ index < count, test bytes index = true ↔ index ∈ raised) :
    raisedCount bytes count = raised.card := by
  have hfilter : ((List.range count).filter (test bytes)).toFinset =
      raised := by
    ext index
    rw [List.mem_toFinset, List.mem_filter, List.mem_range]
    constructor
    · rintro ⟨hlt, hraised⟩
      exact (htest index hlt).mp hraised
    · intro hmem
      have hlt := hsubset index hmem
      exact ⟨hlt, (htest index hlt).mpr hmem⟩
  rw [← hfilter, raisedCount, List.countP_eq_length_filter,
    List.toFinset_card_of_nodup (List.nodup_range.filter _)]

end MessageBus.ByteFlags
