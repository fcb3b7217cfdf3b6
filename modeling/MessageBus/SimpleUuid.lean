import Mathlib.Data.List.Count
import Mathlib.Data.List.Nodup
import Mathlib.Tactic

/-!
# Ids from a clock, a worker and a counter

`SimpleUUID64::Generate` of `mmlib/simple_uuid64/simple_uuid64.cpp`.  The
counter belongs to the class, so that all objects of a process share it: calls
in one millisecond get consecutive numbers, whichever object makes them.
-/

namespace MessageBus.SimpleUUID64

/-- `struct timeval`, as `gettimeofday` fills it. -/
structure Timeval where
  tv_sec : ℕ
  tv_usec : ℕ

/-- Milliseconds of a clock reading. -/
def Timeval.ms (now : Timeval) : ℕ := now.tv_sec * 1000 + now.tv_usec / 1000

/-- Microseconds of a clock reading. -/
def Timeval.us (now : Timeval) : ℕ := now.tv_sec * 1000000 + now.tv_usec

/-- `Generate`, with the counter after it. -/
def generate (UUID_EPOCH_MS : UInt64) (m_worker_num : Int32) (now : Timeval)
    (m_seq_number : Int32) : UInt64 × Int32 :=
  let now_uuid_epoch_ms := UInt64.ofNat now.ms - UUID_EPOCH_MS
  let result := now_uuid_epoch_ms <<< 22
  let result := result + ((m_worker_num &&& 0x3FF) <<< 12).toInt64.toUInt64
  let result := result + (m_seq_number &&& 0xFFF).toInt64.toUInt64
  let m_seq_number := m_seq_number + 1
  (result, if m_seq_number ≥ 0x1000 then 0 else m_seq_number)

/-- A call of one of the objects of a process. -/
structure GenerateCall where
  m_worker_num : Int32
  now : Timeval

def run (UUID_EPOCH_MS : UInt64) : Int32 → List GenerateCall → List UInt64
  | _, [] => []
  | m_seq_number, call :: calls =>
      let answer := generate UUID_EPOCH_MS call.m_worker_num call.now m_seq_number
      answer.1 :: run UUID_EPOCH_MS answer.2 calls

/-- Time, worker and sequence number, read from an id. -/
def fields (id : UInt64) : ℕ × ℕ × ℕ :=
  ((id >>> 22).toNat, ((id >>> 12) &&& 0x3FF).toNat, (id &&& 0xFFF).toNat)

/-! ## One id -/

theorem toNat_toUInt64 {number : Int32}
    (hpos : number.toBitVec.toNat < 2 ^ 31) :
    number.toInt64.toUInt64.toNat = number.toBitVec.toNat := by
  have hmsb : number.toBitVec.msb = false := by
    rw [BitVec.msb_eq_false_iff_two_mul_lt]
    omega
  rw [← UInt64.toNat_toBitVec]
  change (number.toBitVec.signExtend 64).toNat = _
  rw [BitVec.signExtend_eq_setWidth_of_msb_false hmsb, BitVec.toNat_setWidth]
  omega

theorem toNat_mask (number : Int32) {width : ℕ} (hwidth : width < 32) :
    (number &&& Int32.ofNat (2 ^ width - 1)).toBitVec.toNat =
      number.toBitVec.toNat % 2 ^ width := by
  have hmask : (Int32.ofNat (2 ^ width - 1)).toBitVec.toNat =
      2 ^ width - 1 := by
    have hle : 2 ^ width ≤ 2 ^ 31 :=
      Nat.pow_le_pow_right (by norm_num) (by omega)
    change (BitVec.ofNat 32 (2 ^ width - 1)).toNat = _
    rw [BitVec.toNat_ofNat, Nat.mod_eq_of_lt (by omega)]
  rw [Int32.toBitVec_and, BitVec.toNat_and, hmask,
    Nat.and_two_pow_sub_one_eq_mod]

theorem toInt_emod (number : Int32) {width : ℕ} (hwidth : width ≤ 32) :
    number.toInt % (2 ^ width : ℕ) =
      (number.toBitVec.toNat % 2 ^ width : ℕ) := by
  have hdvd : ((2 ^ width : ℕ) : ℤ) ∣ (2 ^ 32 : ℕ) := by
    exact_mod_cast Nat.pow_dvd_pow 2 hwidth
  change number.toBitVec.toInt % _ = _
  rw [BitVec.toInt_eq_toNat_bmod, ← Int.emod_emod_of_dvd _ hdvd, Int.bmod_emod,
    Int.emod_emod_of_dvd _ hdvd, Int.natCast_mod]

/-- The worker number as it stands in an id. -/
theorem worker_field (m_worker_num : Int32) :
    ((m_worker_num &&& 0x3FF) <<< 12).toInt64.toUInt64.toNat =
      (m_worker_num.toInt % 1024).toNat * 2 ^ 12 := by
  have hmask := @toNat_mask m_worker_num 10 (by norm_num)
  have hworker := @toInt_emod m_worker_num 10 (by norm_num)
  have hshift : ((m_worker_num &&& 0x3FF) <<< 12).toBitVec.toNat =
      m_worker_num.toBitVec.toNat % 2 ^ 10 * 2 ^ 12 := by
    change ((m_worker_num &&& 0x3FF).toBitVec <<< 12).toNat = _
    rw [BitVec.toNat_shiftLeft]
    change (m_worker_num &&& Int32.ofNat (2 ^ 10 - 1)).toBitVec.toNat <<< 12 % _
      = _
    rw [hmask, Nat.shiftLeft_eq]
    omega
  rw [toNat_toUInt64 (by omega), hshift]
  change m_worker_num.toInt % 1024 = _ at hworker
  rw [hworker, Int.toNat_natCast]

theorem seq_field (count : ℕ) :
    (Int32.ofNat (count % 4096) &&& 0xFFF).toInt64.toUInt64.toNat =
      count % 4096 := by
  have hlow : (0xFFF : Int32) = Int32.ofNat (2 ^ 12 - 1) := by decide
  have hcount : (Int32.ofNat (count % 4096)).toBitVec.toNat = count % 4096 := by
    rw [Int32.toBitVec_ofNat', BitVec.toNat_ofNat]
    omega
  have hmask : (Int32.ofNat (count % 4096) &&& 0xFFF).toBitVec.toNat =
      count % 4096 := by
    rw [hlow, toNat_mask _ (by norm_num), hcount]
    omega
  rw [toNat_toUInt64 (by omega), hmask]

section OneId

variable (UUID_EPOCH_MS : UInt64) (m_worker_num : Int32) (now : Timeval)
  (count : ℕ)

/-- The three fields of an id do not overlap. -/
theorem generate_toNat :
    (generate UUID_EPOCH_MS m_worker_num now
        (Int32.ofNat (count % 4096))).1.toNat =
      (UInt64.ofNat now.ms - UUID_EPOCH_MS).toNat % 2 ^ 42 * 2 ^ 22 +
        (m_worker_num.toInt % 1024).toNat * 2 ^ 12 + count % 4096 := by
  have hworker := worker_field m_worker_num
  have hseq := seq_field count
  have hbound : (m_worker_num.toInt % 1024).toNat < 1024 := by omega
  have htime : ((UInt64.ofNat now.ms - UUID_EPOCH_MS) <<< 22).toNat =
      (UInt64.ofNat now.ms - UUID_EPOCH_MS).toNat % 2 ^ 42 * 2 ^ 22 := by
    rw [UInt64.toNat_shiftLeft]
    change _ <<< 22 % 2 ^ 64 = _
    rw [Nat.shiftLeft_eq, show (2 : ℕ) ^ 64 = 2 ^ 42 * 2 ^ 22 by norm_num,
      Nat.mul_mod_mul_right]
  simp only [generate]
  rw [UInt64.toNat_add, UInt64.toNat_add, htime, hworker, hseq]
  omega

theorem generate_counter :
    (generate UUID_EPOCH_MS m_worker_num now
        (Int32.ofNat (count % 4096))).2 = Int32.ofNat ((count + 1) % 4096) := by
  have hsucc : Int32.ofNat (count % 4096) + 1 =
      Int32.ofNat (count % 4096 + 1) := by
    rw [Int32.ofNat_add]
    rfl
  have hval : (Int32.ofNat (count % 4096 + 1)).toInt = count % 4096 + 1 := by
    rw [Int32.toInt_ofNat_of_lt (by omega)]
    push_cast
    rfl
  simp only [generate, hsucc, ge_iff_le, Int32.le_iff_toInt_le, hval]
  change (if (4096 : ℤ) ≤ _ then _ else _) = _
  split_ifs with hround
  · rw [show (count + 1) % 4096 = 0 by omega]
    rfl
  · rw [show (count + 1) % 4096 = count % 4096 + 1 by omega]

theorem fields_generate :
    fields (generate UUID_EPOCH_MS m_worker_num now
        (Int32.ofNat (count % 4096))).1 =
      ((UInt64.ofNat now.ms - UUID_EPOCH_MS).toNat % 2 ^ 42,
        (m_worker_num.toInt % 1024).toNat, count % 4096) := by
  have hid := generate_toNat UUID_EPOCH_MS m_worker_num now count
  have hbound : (m_worker_num.toInt % 1024).toNat < 1024 := by omega
  unfold fields
  rw [UInt64.toNat_shiftRight, UInt64.toNat_and, UInt64.toNat_shiftRight,
    UInt64.toNat_and, hid]
  change (_ >>> 22, _ >>> 12 &&& (2 ^ 10 - 1), _ &&& (2 ^ 12 - 1)) = _
  rw [Nat.and_two_pow_sub_one_eq_mod, Nat.and_two_pow_sub_one_eq_mod,
    Nat.shiftRight_eq_div_pow, Nat.shiftRight_eq_div_pow]
  refine Prod.ext ?_ (Prod.ext ?_ ?_) <;> dsimp only <;> omega

end OneId

/-! ## Runs -/

theorem run_getElem?
    (UUID_EPOCH_MS : UInt64) (count : ℕ) (calls : List GenerateCall) (i : ℕ) :
    (run UUID_EPOCH_MS (Int32.ofNat (count % 4096)) calls)[i]? =
      calls[i]?.map fun call =>
        (generate UUID_EPOCH_MS call.m_worker_num call.now
          (Int32.ofNat ((count + i) % 4096))).1 := by
  induction calls generalizing count i with
  | nil => rfl
  | cons call calls ih =>
      cases i with
      | zero => rfl
      | succ i =>
          simp only [run, List.getElem?_cons_succ, generate_counter]
          rw [ih, Nat.add_right_comm, Nat.add_assoc]

theorem Timeval.ms_eq (now : Timeval) : now.ms = now.us / 1000 := by
  unfold Timeval.ms Timeval.us
  omega

theorem Timeval.ms_le {first second : Timeval} (hle : first.us ≤ second.us) :
    first.ms ≤ second.ms := by
  rw [Timeval.ms_eq, Timeval.ms_eq]
  exact Nat.div_le_div_right hle

/-- The readings of the clock do not go back, they lie in the 2^42 milliseconds
from the epoch on, and no millisecond has more calls than the counter has
numbers. -/
structure ClockFits (UUID_EPOCH_MS : UInt64) (calls : List GenerateCall) :
    Prop where
  sorted : calls.Pairwise fun first second => first.now.us ≤ second.now.us
  fits : ∀ call ∈ calls, UUID_EPOCH_MS.toNat ≤ call.now.ms ∧
    call.now.ms - UUID_EPOCH_MS.toNat < 2 ^ 42
  calls_le : ∀ ms, calls.countP (fun call => call.now.ms = ms) ≤ 4096

variable {UUID_EPOCH_MS : UInt64} {calls : List GenerateCall}
  {call first second : GenerateCall} {i j : ℕ}

theorem ClockFits.time (hfits : ClockFits UUID_EPOCH_MS calls)
    (hcall : call ∈ calls) :
    (UInt64.ofNat call.now.ms - UUID_EPOCH_MS).toNat % 2 ^ 42 =
      call.now.ms - UUID_EPOCH_MS.toNat := by
  obtain ⟨hle, hlt⟩ := hfits.fits call hcall
  have hepoch := UUID_EPOCH_MS.toNat_lt
  rw [UInt64.toNat_sub, UInt64.toNat_ofNat']
  omega

/-- Calls with the same milliseconds stand together. -/
theorem ClockFits.window (hfits : ClockFits UUID_EPOCH_MS calls) (hlt : i < j)
    (hi : calls[i]? = some first) (hj : calls[j]? = some second)
    (hms : first.now.ms = second.now.ms) : j < i + 4096 := by
  obtain ⟨hjlen, hjget⟩ := List.getElem?_eq_some_iff.mp hj
  obtain ⟨hilen, higet⟩ := List.getElem?_eq_some_iff.mp hi
  have hsorted := List.pairwise_iff_getElem.mp hfits.sorted
  have hbetween : ∀ call ∈ (calls.drop i).take (j - i + 1),
      call.now.ms = first.now.ms := by
    intro call hmem
    obtain ⟨k, hk, rfl⟩ := List.getElem_of_mem hmem
    rw [List.length_take, List.length_drop] at hk
    rw [List.getElem_take, List.getElem_drop]
    have hlow : first.now.ms ≤ (calls[i + k]).now.ms := by
      rcases Nat.eq_zero_or_pos k with rfl | hpos
      · simp [higet]
      · rw [← higet]
        exact Timeval.ms_le (hsorted i (i + k) hilen (by omega) (by omega))
    have hhigh : (calls[i + k]).now.ms ≤ second.now.ms := by
      rcases Nat.lt_or_ge (i + k) j with hkj | hkj
      · rw [← hjget]
        exact Timeval.ms_le (hsorted (i + k) j (by omega) hjlen hkj)
      · have hlast : i + k = j := by omega
        simp only [hlast, hjget, le_refl]
    omega
  have hcount : ((calls.drop i).take (j - i + 1)).countP
      (fun call => call.now.ms = first.now.ms) = j - i + 1 := by
    rw [List.countP_eq_length.mpr (by simpa using hbetween),
      List.length_take, List.length_drop]
    omega
  have hsub : ((calls.drop i).take (j - i + 1)).Sublist calls :=
    (List.take_sublist _ _).trans (List.drop_sublist _ _)
  have hle := hsub.countP_le (p := fun call => call.now.ms = first.now.ms)
  have hmost := hfits.calls_le first.now.ms
  omega

theorem run_zero_getElem? (hcall : calls[i]? = some call) :
    (run UUID_EPOCH_MS 0 calls)[i]? =
      some (generate UUID_EPOCH_MS call.m_worker_num call.now
        (Int32.ofNat (i % 4096))).1 := by
  have hrun := run_getElem? UUID_EPOCH_MS 0 calls i
  rw [hcall, Nat.zero_add] at hrun
  exact hrun

/-- A field of an id tells its call. -/
theorem fields_run {id : UInt64} (hcall : calls[i]? = some call)
    (hid : (run UUID_EPOCH_MS 0 calls)[i]? = some id) :
    fields id =
      ((UInt64.ofNat call.now.ms - UUID_EPOCH_MS).toNat % 2 ^ 42,
        (call.m_worker_num.toInt % 1024).toNat, i % 4096) := by
  rw [run_zero_getElem? hcall] at hid
  rw [← Option.some.inj hid, fields_generate]

theorem run_nodup (hfits : ClockFits UUID_EPOCH_MS calls) :
    (run UUID_EPOCH_MS 0 calls).Nodup := by
  rw [List.nodup_iff_getElem?_ne_getElem?]
  intro i j hlt hj heq
  obtain ⟨id, hid⟩ : ∃ id, (run UUID_EPOCH_MS 0 calls)[j]? = some id :=
    ⟨_, List.getElem?_eq_getElem hj⟩
  have hget : ∀ k : ℕ, (run UUID_EPOCH_MS 0 calls)[k]? = some id →
      ∃ call, calls[k]? = some call := by
    intro k hk
    have hrun := run_getElem? UUID_EPOCH_MS 0 calls k
    change (run UUID_EPOCH_MS 0 calls)[k]? = _ at hrun
    rw [hk] at hrun
    obtain ⟨call, hcall, -⟩ := Option.map_eq_some_iff.mp hrun.symm
    exact ⟨call, hcall⟩
  obtain ⟨first, hfirst⟩ := hget i (heq.trans hid)
  obtain ⟨second, hsecond⟩ := hget j hid
  have hfields := (fields_run hfirst (heq.trans hid)).symm.trans
    (fields_run hsecond hid)
  rw [hfits.time (List.mem_of_getElem? hfirst),
    hfits.time (List.mem_of_getElem? hsecond)] at hfields
  simp only [Prod.mk.injEq] at hfields
  have hms : first.now.ms = second.now.ms := by
    have hle := (hfits.fits first (List.mem_of_getElem? hfirst)).1
    have hle' := (hfits.fits second (List.mem_of_getElem? hsecond)).1
    omega
  have hwindow := hfits.window hlt hfirst hsecond hms
  omega

/-- The ids of a process differ, each tells the time, the worker and the number
of its call, and no other process with another worker number gets them. -/
theorem ids_distinct
    (UUID_EPOCH_MS : UInt64) (calls : List GenerateCall)
    (hfits : ClockFits UUID_EPOCH_MS calls) :
    (run UUID_EPOCH_MS 0 calls).Nodup ∧
    (∀ i call, calls[i]? = some call →
      ∃ id, (run UUID_EPOCH_MS 0 calls)[i]? = some id ∧
        fields id = (call.now.ms - UUID_EPOCH_MS.toNat,
          (call.m_worker_num.toInt % 1024).toNat, i % 4096)) ∧
    (∀ (epoch : UInt64) (others : List GenerateCall) (i j : ℕ)
        (call other : GenerateCall) (id otherId : UInt64),
      calls[i]? = some call → (run UUID_EPOCH_MS 0 calls)[i]? = some id →
      others[j]? = some other → (run epoch 0 others)[j]? = some otherId →
      call.m_worker_num.toInt % 1024 ≠ other.m_worker_num.toInt % 1024 →
      id ≠ otherId) := by
  refine ⟨run_nodup hfits, ?_, ?_⟩
  · intro i call hcall
    have hid := @run_zero_getElem? UUID_EPOCH_MS calls call i hcall
    refine ⟨_, hid, ?_⟩
    rw [fields_run hcall hid, hfits.time (List.mem_of_getElem? hcall)]
  · intro epoch others i j call other id otherId hcall hid hother hotherId hne
    rintro rfl
    have hfields := (fields_run hcall hid).symm.trans
      (fields_run hother hotherId)
    simp only [Prod.mk.injEq] at hfields
    omega

/-- Two objects in one millisecond, and a third call in the next. -/
theorem ids_distinct_three :
    (run 0 0 [⟨1, ⟨0, 5000⟩⟩, ⟨1025, ⟨0, 5999⟩⟩, ⟨1, ⟨0, 6000⟩⟩]).Nodup :=
  (ids_distinct 0 [⟨1, ⟨0, 5000⟩⟩, ⟨1025, ⟨0, 5999⟩⟩, ⟨1, ⟨0, 6000⟩⟩]
    { sorted := by
        simp [Timeval.us]
      fits := by
        simp [Timeval.ms]
      calls_le := fun _ => List.countP_le_length.trans (by simp) }).1

end MessageBus.SimpleUUID64
