import Mathlib.Tactic

/-!
# Counters with a radix of their own in each place

A counter in which a digit goes on when all the digits before it go round.  `due`
is the number of steps until a place, having come to a digit, goes on from it.
-/

namespace MessageBus.DigitCounter

/-- The steps between two steps of a place. -/
def weight (radix : ℕ → ℕ) (n : ℕ) : ℕ := ∏ v ∈ Finset.range n, radix v

/-- The steps since the places before `n` were all 0. -/
def value (radix digit : ℕ → ℕ) (n : ℕ) : ℕ :=
  ∑ v ∈ Finset.range n, digit v * weight radix v

/-- The places before `n` go round with the next step. -/
def Full (radix digit : ℕ → ℕ) (n : ℕ) : Prop := ∀ v < n, digit v + 1 = radix v

/-- One step of the places before `n`. -/
structure Counted (radix digit digit' : ℕ → ℕ) (n : ℕ) : Prop where
  step : ∀ v < n, Full radix digit v → digit' v = (digit v + 1) % radix v
  rest : ∀ v < n, ¬ Full radix digit v → digit' v = digit v

/-- The steps of one place from its digit to `slot`. -/
def distance (radix digit slot : ℕ) : ℕ := (slot + radix - digit) % radix

def due (radix digit : ℕ → ℕ) (n slot : ℕ) : ℕ :=
  weight radix n - value radix digit n +
    distance (radix n) (digit n) slot * weight radix n

variable {radix digit digit' : ℕ → ℕ} {n slot : ℕ}

theorem weight_succ (n : ℕ) : weight radix (n + 1) = weight radix n * radix n :=
  Finset.prod_range_succ ..

theorem value_succ (n : ℕ) :
    value radix digit (n + 1) = value radix digit n + digit n * weight radix n :=
  Finset.sum_range_succ ..

theorem full_succ : Full radix digit (n + 1) ↔
    Full radix digit n ∧ digit n + 1 = radix n := by
  constructor
  · exact fun hfull => ⟨fun v hv => hfull v (hv.trans (Nat.lt_succ_self n)),
      hfull n (Nat.lt_succ_self n)⟩
  · rintro ⟨hfull, hlast⟩ v hv
    rcases Nat.lt_succ_iff_lt_or_eq.mp hv with hv | rfl
    · exact hfull v hv
    · exact hlast

theorem Counted.mono {m : ℕ} (hcounted : Counted radix digit digit' m) (hle : n ≤ m) :
    Counted radix digit digit' n :=
  ⟨fun v hv => hcounted.step v (hv.trans_le hle),
    fun v hv => hcounted.rest v (hv.trans_le hle)⟩

theorem distance_of_lt {radix digit : ℕ} (hdigit : digit < radix) (hslot : slot < radix) :
    distance radix digit slot =
      if digit ≤ slot then slot - digit else slot + radix - digit := by
  unfold distance
  split_ifs with hle
  · rw [show slot + radix - digit = slot - digit + radix by omega, Nat.add_mod_right,
      Nat.mod_eq_of_lt (by omega)]
  · exact Nat.mod_eq_of_lt (by omega)

@[simp] theorem distance_self {radix digit : ℕ} (hdigit : digit < radix) :
    distance radix digit digit = 0 := by
  rw [distance_of_lt hdigit hdigit, if_pos le_rfl, Nat.sub_self]

theorem distance_add {radix digit steps : ℕ} (hdigit : digit < radix)
    (hsteps : steps < radix) :
    distance radix digit ((digit + steps) % radix) = steps := by
  rw [distance_of_lt hdigit (Nat.mod_lt _ (Nat.zero_lt_of_lt hdigit))]
  rcases Nat.lt_or_ge (digit + steps) radix with hlt | hge
  · rw [Nat.mod_eq_of_lt hlt, if_pos (Nat.le_add_right ..), Nat.add_sub_cancel_left]
  · rw [Nat.mod_eq_sub_mod hge, Nat.mod_eq_of_lt (by omega)]
    split_ifs <;> omega

/-- A step of a place brings it nearer to every other digit. -/
theorem distance_step {radix digit : ℕ} (hdigit : digit < radix) (hslot : slot < radix)
    (hne : slot ≠ digit) :
    distance radix digit slot = distance radix ((digit + 1) % radix) slot + 1 := by
  have hpos : 0 < radix := Nat.zero_lt_of_lt hslot
  rw [distance_of_lt hdigit hslot, distance_of_lt (Nat.mod_lt _ hpos) hslot]
  rcases Nat.lt_or_ge (digit + 1) radix with hlt | hge
  · rw [Nat.mod_eq_of_lt hlt]
    split_ifs <;> omega
  · rw [show digit + 1 = radix by omega, Nat.mod_self]
    split_ifs <;> omega

section Bounded

variable (hdigit : ∀ v < n, digit v < radix v)

include hdigit

theorem value_lt : value radix digit n < weight radix n := by
  induction n with
  | zero => exact Nat.one_pos
  | succ n ih =>
      have hvalue := ih fun v hv => hdigit v (hv.trans (Nat.lt_succ_self n))
      rw [value_succ, weight_succ]
      calc value radix digit n + digit n * weight radix n
          < weight radix n + digit n * weight radix n := by omega
        _ = weight radix n * (digit n + 1) := by ring
        _ ≤ weight radix n * radix n :=
            Nat.mul_le_mul_left _ (hdigit n (Nat.lt_succ_self n))

theorem due_pos (slot : ℕ) : 0 < due radix digit n slot := by
  have hvalue := value_lt hdigit
  unfold due
  omega

theorem full_iff : Full radix digit n ↔ value radix digit n + 1 = weight radix n := by
  induction n with
  | zero => exact iff_of_true nofun rfl
  | succ n ih =>
      have hbefore : ∀ v < n, digit v < radix v := fun v hv =>
        hdigit v (hv.trans (Nat.lt_succ_self n))
      have hlt := value_lt hbefore
      have hlast := hdigit n (Nat.lt_succ_self n)
      rw [full_succ, ih hbefore, value_succ, weight_succ]
      constructor
      · rintro ⟨hfull, hround⟩
        rw [← hround, Nat.mul_add, Nat.mul_one, Nat.mul_comm]
        omega
      · intro hsum
        have hround : digit n + 1 = radix n := by
          by_contra hne
          have hle : weight radix n * (digit n + 2) ≤ weight radix n * radix n :=
            Nat.mul_le_mul_left _ (by omega)
          rw [Nat.mul_add, Nat.mul_comm _ (digit n)] at hle
          omega
        refine ⟨?_, hround⟩
        rw [← hround, Nat.mul_add, Nat.mul_one, Nat.mul_comm _ (digit n)] at hsum
        omega

open Classical in
theorem Counted.value_eq (hcounted : Counted radix digit digit' n) :
    value radix digit' n =
      if Full radix digit n then 0 else value radix digit n + 1 := by
  induction n with
  | zero => exact (if_pos nofun).symm
  | succ n ih =>
      have hbefore : ∀ v < n, digit v < radix v := fun v hv =>
        hdigit v (hv.trans (Nat.lt_succ_self n))
      rw [value_succ, ih hbefore (hcounted.mono (Nat.le_succ n))]
      by_cases hfull : Full radix digit n
      · rw [if_pos hfull, hcounted.step n (Nat.lt_succ_self n) hfull]
        by_cases hlast : digit n + 1 = radix n
        · rw [if_pos (full_succ.mpr ⟨hfull, hlast⟩), hlast, Nat.mod_self, Nat.zero_mul]
        · have hlt := hdigit n (Nat.lt_succ_self n)
          rw [if_neg fun h => hlast (full_succ.mp h).2, Nat.mod_eq_of_lt (by omega),
            value_succ, ← (full_iff hbefore).mp hfull]
          ring
      · rw [if_neg hfull, if_neg fun h => hfull (full_succ.mp h).1,
          hcounted.rest n (Nat.lt_succ_self n) hfull, value_succ]
        ring

end Bounded

section Due

variable (hdigit : ∀ v < n + 1, digit v < radix v)

include hdigit

/-- A place that goes on now is due in one step. -/
theorem due_eq_one (hfull : Full radix digit n) : due radix digit n (digit n) = 1 := by
  have hbefore : ∀ v < n, digit v < radix v := fun v hv =>
    hdigit v (hv.trans (Nat.lt_succ_self n))
  have hvalue := (full_iff hbefore).mp hfull
  rw [due, distance_self (hdigit n (Nat.lt_succ_self n)), Nat.zero_mul]
  omega

/-- Every step brings each digit nearer that is not due. -/
theorem Counted.due_eq (hcounted : Counted radix digit digit' (n + 1))
    (hslot : slot < radix n) (hnot : Full radix digit n → slot ≠ digit n) :
    due radix digit n slot = due radix digit' n slot + 1 := by
  have hbefore : ∀ v < n, digit v < radix v := fun v hv =>
    hdigit v (hv.trans (Nat.lt_succ_self n))
  have hlt := value_lt hbefore
  have hvalue := (hcounted.mono (Nat.le_succ n)).value_eq hbefore
  unfold due
  by_cases hfull : Full radix digit n
  · have hweight := (full_iff hbefore).mp hfull
    rw [if_pos hfull] at hvalue
    rw [hcounted.step n (Nat.lt_succ_self n) hfull, hvalue,
      distance_step (hdigit n (Nat.lt_succ_self n)) hslot (hnot hfull), Nat.add_mul,
      Nat.one_mul]
    omega
  · have hweight := mt (full_iff hbefore).mpr hfull
    rw [if_neg hfull] at hvalue
    rw [hcounted.rest n (Nat.lt_succ_self n) hfull, hvalue]
    omega

end Due

/-- A counter that has gone round is at the start of every place. -/
theorem Counted.digit_eq_zero (hcounted : Counted radix digit digit' n)
    (hfull : Full radix digit n) {v : ℕ} (hv : v < n) : digit' v = 0 := by
  rw [hcounted.step v hv fun u hu => hfull u (hu.trans hv), hfull v hv, Nat.mod_self]

theorem due_of_zero (hzero : ∀ v < n + 1, digit v = 0) (hslot : slot < radix n) :
    due radix digit n slot = (slot + 1) * weight radix n := by
  have hvalue : value radix digit n = 0 := by
    refine Finset.sum_eq_zero fun v hv => ?_
    rw [hzero v ((Finset.mem_range.mp hv).trans (Nat.lt_succ_self n)), Nat.zero_mul]
  rw [due, hvalue, hzero n (Nat.lt_succ_self n), distance, Nat.sub_zero, Nat.sub_zero,
    Nat.add_mod_right, Nat.mod_eq_of_lt hslot, Nat.add_mul, Nat.one_mul, Nat.add_comm]

end MessageBus.DigitCounter
