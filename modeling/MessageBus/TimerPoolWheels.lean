import MessageBus.DigitCounter
import MessageBus.TimerPoolCalls

/-!
# The wheels as a counter

The pointers of the five wheels are the digits of a counter of the steps of the
clock.  The place `n` is the wheel `n + 1`.
-/

namespace MessageBus.TimerPool

open DigitCounter

/-- The sizes of the wheels. -/
def wheelSize (n : ℕ) : ℕ := tbNum (n + 1)

def pointers (uiCurPt : ℕ → ℕ) (n : ℕ) : ℕ := uiCurPt (n + 1)

/-- The steps until a bucket is fired or emptied. -/
def stepsTo (uiCurPt : ℕ → ℕ) (n slot : ℕ) : ℕ :=
  due wheelSize (pointers uiCurPt) n slot

/-- The widths of the buckets of the wheels in front of the place `n`. -/
def slack (n : ℕ) : ℕ := ∑ v ∈ Finset.range n, weight wheelSize v

variable {uiCurPt : ℕ → ℕ} {n : ℕ}

theorem maskBits_succ (n : ℕ) : maskBits (n + 2) = maskBits (n + 1) + tbBit (n + 1) := by
  unfold maskBits tbBit
  split_ifs <;> omega

theorem wheelSize_eq (n : ℕ) : wheelSize n = 2 ^ tbBit (n + 1) := tbNum_eq (n + 1)

/-- A bucket is as wide as the wheels in front of it go round. -/
theorem weight_eq (n : ℕ) : weight wheelSize n = 2 ^ maskBits (n + 1) := by
  induction n with
  | zero => rfl
  | succ n ih => rw [weight_succ, ih, wheelSize_eq, maskBits_succ, Nat.pow_add]

theorem slack_succ (n : ℕ) : slack (n + 1) = slack n + weight wheelSize n :=
  Finset.sum_range_succ ..

theorem weight_pos (n : ℕ) : 0 < weight wheelSize n := by
  rw [weight_eq]
  exact Nat.two_pow_pos _

theorem pointers_lt (hpointers : PointersOk uiCurPt) (hn : n ≤ 5) :
    ∀ v < n, pointers uiCurPt v < wheelSize v :=
  fun v hv => hpointers (v + 1) (Nat.le_add_left 1 v) (by omega)

theorem goRound_iff : GoRound uiCurPt 1 (n + 1) ↔ Full wheelSize (pointers uiCurPt) n := by
  constructor
  · exact fun hround v hv => hround (v + 1) (Nat.le_add_left 1 v) (Nat.succ_lt_succ hv)
  · intro hfull u hu hlt
    obtain ⟨v, rfl⟩ : ∃ v, u = v + 1 := ⟨u - 1, by omega⟩
    exact hfull v (Nat.lt_of_succ_lt_succ hlt)

theorem Turned.counted {Data : Type} {clock : ℕ → Timeval}
    {before after : CTimerPool Data} {lists lists' : ℕ → List Cell}
    (hturned : Turned clock 1 before after lists lists') :
    Counted wheelSize (pointers before.uiCurPt) (pointers after.uiCurPt) 5 := by
  refine ⟨fun v hv hfull => ?_, fun v hv hfull => ?_⟩
  · exact hturned.step (v + 1) (Nat.le_add_left 1 v) hv (goRound_iff.mpr hfull)
  · exact hturned.rest (v + 1) (Nat.le_add_left 1 v) hv (mt goRound_iff.mp hfull)

/-- The steps that are left for a wheel when those in front of it have gone round. -/
def LeftFor (uiCurPt : ℕ → ℕ) (uiInterval n left : ℕ) : Prop :=
  left + slack n + (weight wheelSize n - value wheelSize (pointers uiCurPt) n) =
    uiInterval + 1

/-- A bucket comes up when the interval is over, or before by less than the widths of
the buckets up to its own. -/
def ComesUp (uiCurPt : ℕ → ℕ) (uiInterval bucket : ℕ) : Prop :=
  ∃ n < 5, ∃ slot < wheelSize n, bucket = firstTB (n + 1) + slot ∧
    stepsTo uiCurPt n slot + slack n ≤ uiInterval + 1 ∧
    uiInterval + 1 < stepsTo uiCurPt n slot + slack (n + 1)

section ChooseBucket

variable {uiInterval left : ℕ} (hpointers : PointersOk uiCurPt) (hn : n < 5)
  (hleft : LeftFor uiCurPt uiInterval n left)

include hpointers hn hleft

/-- The bucket that the pointer of a wheel reaches in time. -/
theorem comesUp_of_lt (hsteps : left / weight wheelSize n < wheelSize n) :
    ComesUp uiCurPt uiInterval (firstTB (n + 1) +
      (uiCurPt (n + 1) + left >>> maskBits (n + 1)) % tbNum (n + 1)) := by
  have hdigit : pointers uiCurPt n < wheelSize n :=
    pointers_lt hpointers hn n (Nat.lt_succ_self n)
  refine ⟨n, hn, _, Nat.mod_lt _ (tbNum_pos (n + 1)), rfl, ?_⟩
  have hdistance := distance_add hdigit hsteps
  have hsplit := Nat.div_add_mod' left (weight wheelSize n)
  have hmod := Nat.mod_lt left (weight_pos n)
  have hvalue := value_lt (pointers_lt hpointers hn.le)
  have hdue : stepsTo uiCurPt n
      ((uiCurPt (n + 1) + left >>> maskBits (n + 1)) % wheelSize n) =
        weight wheelSize n - value wheelSize (pointers uiCurPt) n +
          left / weight wheelSize n * weight wheelSize n := by
    rw [Nat.shiftRight_eq_div_pow, ← weight_eq, stepsTo, due]
    exact congrArg _ (congrArg (· * weight wheelSize n) hdistance)
  unfold LeftFor at hleft
  rw [hdue, slack_succ]
  omega

/-- The next wheel, when the bucket of this one would not be reached in time. -/
theorem leftFor_succ (hsteps : ¬ left / weight wheelSize n < wheelSize n) :
    LeftFor uiCurPt uiInterval (n + 1)
      (left - (tbNum (n + 1) - uiCurPt (n + 1)) <<< maskBits (n + 1)) := by
  have hdigit : uiCurPt (n + 1) < wheelSize n :=
    pointers_lt hpointers hn n (Nat.lt_succ_self n)
  have hlarge : wheelSize n * weight wheelSize n ≤ left :=
    (Nat.le_div_iff_mul_le (weight_pos n)).mp (not_lt.mp hsteps)
  have hvalue := value_lt (pointers_lt hpointers hn.le)
  have hdiff : (wheelSize n - uiCurPt (n + 1)) * weight wheelSize n +
      uiCurPt (n + 1) * weight wheelSize n = wheelSize n * weight wheelSize n := by
    rw [← Nat.add_mul, Nat.sub_add_cancel hdigit.le]
  unfold LeftFor at hleft ⊢
  rw [Nat.shiftLeft_eq, ← weight_eq, slack_succ, weight_succ, value_succ]
  change left - (wheelSize n - uiCurPt (n + 1)) * weight wheelSize n + _ +
    (_ - (_ + uiCurPt (n + 1) * _)) = _
  rw [Nat.mul_comm (weight wheelSize n) (wheelSize n)]
  have hcur : uiCurPt (n + 1) * weight wheelSize n + weight wheelSize n ≤
      wheelSize n * weight wheelSize n := by
    rw [← Nat.succ_mul]
    exact Nat.mul_le_mul_right _ hdigit
  omega

end ChooseBucket

theorem chooseBucket_comesUp (hpointers : PointersOk uiCurPt) {uiInterval left : ℕ}
    (hlt : uiInterval + 1 < 2 ^ 32) (rest : ℕ) (hrest : n + rest = 4)
    (hleft : LeftFor uiCurPt uiInterval n left) :
    ComesUp uiCurPt uiInterval (chooseBucket uiCurPt rest (n + 1) left) := by
  induction rest generalizing n left with
  | zero =>
      obtain rfl : n = 4 := hrest
      refine comesUp_of_lt hpointers (by decide) hleft ?_
      unfold LeftFor at hleft
      rw [weight_eq, wheelSize_eq]
      exact Nat.div_lt_of_lt_mul (by change left < 2 ^ 32; omega)
  | succ rest ih =>
      have hshift : left >>> (maskBits (n + 1) + tbBit (n + 1)) = 0 ↔
          left / weight wheelSize n < wheelSize n := by
        rw [Nat.shiftRight_eq_div_pow, Nat.div_eq_zero_iff_lt (Nat.two_pow_pos _),
          Nat.pow_add, ← weight_eq, ← wheelSize_eq, Nat.div_lt_iff_lt_mul (weight_pos n),
          Nat.mul_comm]
      rw [chooseBucket]
      by_cases hsteps : left / weight wheelSize n < wheelSize n
      · rw [if_pos (hshift.mpr hsteps)]
        exact comesUp_of_lt hpointers (by omega) hleft hsteps
      · rw [if_neg (mt hshift.mp hsteps)]
        exact ih (by omega) (leftFor_succ hpointers (by omega) hleft hsteps)

/-- `AddTimer` chooses a bucket that comes up in time. -/
theorem chooseBucket_spec (hpointers : PointersOk uiCurPt) {uiInterval : ℕ}
    (hlt : uiInterval + 1 < 2 ^ 32) :
    ComesUp uiCurPt uiInterval (chooseBucket uiCurPt 4 1 uiInterval) :=
  chooseBucket_comesUp hpointers hlt 4 rfl rfl

end MessageBus.TimerPool
