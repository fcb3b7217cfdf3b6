import MessageBus.TimerPoolRuns
import MessageBus.TimerPoolWheels

/-!
# When the timers are returned

With `GetTimer` called in every step of the clock, a timer is returned within two
steps of its `tExpire`, unless `AddTimer` gets `tExpire` wrong or `Migrate` moves
the timer to a bucket that is emptied too late.

Times are counted in microseconds.
-/

namespace MessageBus.TimerPool

open DoubleLinks DigitCounter

variable {Data : Type} {clock : ℕ → Timeval} {pool : CTimerPool Data}
  {lists : ℕ → List Cell} {used : Finset ℕ}

/-! ## Buckets -/

/-- The nodes from a cell on. -/
def walk (links : Links Cell) : ℕ → Cell → List ℕ
  | fuel + 1, .node i => i :: walk links fuel (links.next (.node i))
  | _, _ => []

/-- The nodes behind a bucket. -/
def CTimerPool.bucketNodes (pool : CTimerPool Data) (b : ℕ) : List ℕ :=
  walk pool.links pool.m_objTimerNodePool.iNodeNum (pool.links.next (.bucket b))

theorem walk_eq {links : Links Cell} {last : Cell} {cells : List Cell}
    (hchain : Chain links .null last cells) (hcells : ∀ cell ∈ cells, ∃ i, cell = .node i)
    {fuel : ℕ} (hfuel : cells.length ≤ fuel) :
    walk links fuel (links.next last) = cells.map Cell.number := by
  induction cells generalizing last fuel with
  | nil =>
      rw [show links.next last = .null from hchain]
      cases fuel <;> rfl
  | cons cell cells ih =>
      obtain ⟨i, rfl⟩ := hcells cell List.mem_cons_self
      rw [List.length_cons] at hfuel
      obtain ⟨rounds, rfl⟩ : ∃ rounds, fuel = rounds + 1 := ⟨fuel - 1, by omega⟩
      rw [hchain.1, walk, ih hchain.2.2.2
        (fun cell hcell => hcells cell (List.mem_cons_of_mem _ hcell))
        (Nat.le_of_succ_le_succ hfuel)]
      rfl

theorem Consistent.bucketNodes_eq (hok : Consistent pool lists used) (b : ℕ) :
    pool.bucketNodes b = (lists b).map Cell.number := by
  refine walk_eq (hok.threads.chain b) (fun cell hcell => ?_) (hok.length_le b)
  obtain ⟨i, -, rfl⟩ := hok.exists_node hcell
  exact ⟨i, rfl⟩

theorem Consistent.mem_bucketNodes (hok : Consistent pool lists used) {b i : ℕ} :
    i ∈ pool.bucketNodes b ↔ .node i ∈ lists b := by
  rw [hok.bucketNodes_eq, hok.mem_map_number]

theorem exists_bucket {b : ℕ} (hlt : b < tballNum) :
    ∃ n < 5, ∃ slot < wheelSize n, b = firstTB (n + 1) + slot := by
  unfold tballNum at hlt
  rcases Nat.lt_or_ge b 256 with hfirst | hge
  · exact ⟨0, by decide, b, hfirst, (Nat.zero_add b).symm⟩
  · refine ⟨(b - 256) / 64 + 1, by omega, (b - 256) % 64, ?_, ?_⟩
    · rw [wheelSize_eq, tbBit, if_neg (by omega)]
      exact Nat.mod_lt _ (by decide)
    · rw [firstTB, if_neg (by omega)]
      omega

theorem bucket_inj {n slot m s : ℕ} (hslot : slot < wheelSize n) (hs : s < wheelSize m)
    (heq : firstTB (n + 1) + slot = firstTB (m + 1) + s) : n = m ∧ slot = s := by
  rcases lt_trichotomy n m with hlt | rfl | hlt
  · exact absurd heq (bucket_ne (Nat.le_add_left 1 n) (Nat.succ_lt_succ hlt) hslot)
  · exact ⟨rfl, Nat.add_left_cancel heq⟩
  · exact absurd heq.symm (bucket_ne (Nat.le_add_left 1 m) (Nat.succ_lt_succ hlt) hs)

/-! ## Timers on their way -/

/-- A bucket comes up in time for a timer: one of the first wheel is fired, one of
another wheel leaves time for the wheels in front of it. -/
def OnTrack (scan : ℤ) (uiCurPt : ℕ → ℕ) (n slot : ℕ) (expire : ℤ) : Prop :=
  scan + 10000 * (stepsTo uiCurPt n slot - if n = 0 then 1 else 0) ≤ expire ∧
    expire < scan + 10000 * (stepsTo uiCurPt n slot + slack (n + 1) + 1)

/-- Every timer is on track, and the last scan was at the start of a step of the
clock. -/
structure Timely (clock : ℕ → Timeval) (pool : CTimerPool Data) : Prop where
  scan_nonneg : 0 ≤ pool.tLastScanTime.tv_usec
  scan_lt : pool.tLastScanTime.tv_usec < 1000000
  scan_mod : pool.tLastScanTime.tv_usec % 10000 = 0
  scan_le : ∀ reading, pool.readings ≤ reading →
    pool.tLastScanTime.total ≤ (clock reading).total
  usec_lt : ∀ b, ∀ i ∈ pool.bucketNodes b, (pool.node i).tExpire.tv_usec < 1000000
  on_track : ∀ n < 5, ∀ slot < wheelSize n,
    ∀ i ∈ pool.bucketNodes (firstTB (n + 1) + slot),
      OnTrack pool.tLastScanTime.total pool.uiCurPt n slot (pool.node i).tExpire.total

/-! ## The conditions -/

/-- The clock has not come further than the step after the last scan. -/
def InNextStep (clock : ℕ → Timeval) (pool : CTimerPool Data) : Prop :=
  (clock pool.readings).total < pool.tLastScanTime.total + 20000

/-- A timer that goes to the first wheel goes there in the step `now`.  One that goes
to another wheel goes there before the step after next, and its `tExpire` is not
before the end of the whole buckets that `Migrate` counts, of one at least. -/
def MovesInTime (now : ℤ) (wheel : ℕ) (stTimeNow tExpire : Timeval) : Prop :=
  if wheel = 1 then stTimeNow.total < now + 10000
  else
    stTimeNow.total < now + 20000 ∧
      now + 10000 * (max 1 (wholeSteps stTimeNow tExpire / 2 ^ maskBits wheel) *
        2 ^ maskBits wheel : ℕ) ≤ tExpire.total

/-- The reading of the clock with which `GetTimer` moves a node to a wheel. -/
def CTimerPool.movingAt (pool : CTimerPool Data) (wheel place : ℕ) : ℕ :=
  pool.readings + 1 +
    ∑ u ∈ Finset.Ico 1 wheel, (pool.bucketNodes (dueTB pool.uiCurPt u)).length + place

/-- `GetTimer` moves the timers of the buckets that are due in time. -/
def MigratesInTime (clock : ℕ → Timeval) (pool : CTimerPool Data) : Prop :=
  ∀ wheel, 1 ≤ wheel → wheel < 5 → GoRound pool.uiCurPt 1 (wheel + 1) →
    ∀ place i, (pool.bucketNodes (dueTB pool.uiCurPt wheel))[place]? = some i →
      MovesInTime (clock pool.readings).cut.total wheel
        (clock (pool.movingAt wheel place)) (pool.node i).tExpire

instance (now : ℤ) (wheel : ℕ) (stTimeNow tExpire : Timeval) :
    Decidable (MovesInTime now wheel stTimeNow tExpire) := by
  unfold MovesInTime
  infer_instance

/-- `MigratesInTime` looks at the nodes of four buckets at most. -/
theorem migratesInTime_iff : MigratesInTime clock pool ↔
    ∀ wheel < 5, 1 ≤ wheel →
      (∀ u < wheel + 1, 1 ≤ u → pool.uiCurPt u + 1 = tbNum u) →
      ∀ place < (pool.bucketNodes (dueTB pool.uiCurPt wheel)).length,
        ∀ i ∈ (pool.bucketNodes (dueTB pool.uiCurPt wheel))[place]?,
          MovesInTime (clock pool.readings).cut.total wheel
            (clock (pool.movingAt wheel place)) (pool.node i).tExpire := by
  constructor
  · exact fun h wheel hle hwheel hround place _ i hi =>
      h wheel hwheel hle (fun u hu hlt => hround u hlt hu) place i hi
  · intro h wheel hwheel hle hround place i hi
    obtain ⟨hlt, -⟩ := List.getElem?_eq_some_iff.mp hi
    exact h wheel hle hwheel (fun u hlt hu => hround u hu hlt) place hlt i hi

instance (pool : CTimerPool Data) : Decidable (MigratesInTime clock pool) :=
  decidable_of_iff _ migratesInTime_iff.symm

/-! ## `AddTimer` and `DelTimer` -/

section AddTimer

variable {uiInterval : UInt32} {uiRandom : UInt32} {TimerParam : Data} {i : ℕ}

/-- A new timer is on track if its microseconds do not go over a second. -/
theorem Timely.addTimer (htimely : Timely clock pool)
    (hpointers : PointersOk pool.uiCurPt) (hok : Consistent pool lists used)
    (hfresh : i ∉ used)
    (hadded : Consistent (pool.withTimer clock uiInterval TimerParam uiRandom i)
      (Function.update lists (chooseBucket pool.uiCurPt 4 1 (uiInterval / 10).toNat)
        (.node i :: lists (chooseBucket pool.uiCurPt 4 1 (uiInterval / 10).toNat)))
      (insert i used))
    (hnext : InNextStep clock pool)
    (hcarry : (clock pool.readings).tv_usec + 1000 * (uiInterval.toNat % 1000 : ℕ) <
      1000000) :
    Timely clock (pool.withTimer clock uiInterval TimerParam uiRandom i) := by
  have hscan := htimely.scan_le pool.readings le_rfl
  have htotal := (clock pool.readings).total_after uiInterval
  rw [if_pos hcarry, add_zero] at htotal
  have hinterval : (uiInterval / 10).toNat = uiInterval.toNat / 10 := by simp
  have hlt := uiInterval.toNat_lt
  unfold InNextStep at hnext
  have hself : (pool.withTimer clock uiInterval TimerParam uiRandom i).node i =
      ⟨(clock pool.readings).after uiInterval, uiRandom, TimerParam⟩ :=
    Function.update_self ..
  have hother : ∀ j, j ≠ i →
      (pool.withTimer clock uiInterval TimerParam uiRandom i).node j = pool.node j :=
    fun j hne => Function.update_of_ne hne ..
  -- a node of the new lists is the new one, or was there before
  have hcases : ∀ b, ∀ j ∈
      (pool.withTimer clock uiInterval TimerParam uiRandom i).bucketNodes b,
      j = i ∧ b = chooseBucket pool.uiCurPt 4 1 (uiInterval / 10).toNat ∨
        j ≠ i ∧ j ∈ pool.bucketNodes b := by
    intro b j hj
    rw [hadded.mem_bucketNodes] at hj
    by_cases hb : b = chooseBucket pool.uiCurPt 4 1 (uiInterval / 10).toNat
    · rw [hb, Function.update_self] at hj
      rcases List.mem_cons.mp hj with heq | hold
      · exact .inl ⟨Cell.node.inj heq, hb⟩
      · refine .inr ⟨?_, hok.mem_bucketNodes.mpr (hb ▸ hold)⟩
        rintro rfl
        exact hfresh (hok.used_of_mem hold)
    · rw [Function.update_of_ne hb] at hj
      refine .inr ⟨?_, hok.mem_bucketNodes.mpr hj⟩
      rintro rfl
      exact hfresh (hok.used_of_mem hj)
  refine ⟨htimely.scan_nonneg, htimely.scan_lt, htimely.scan_mod,
    fun reading hreading => htimely.scan_le reading (Nat.le_of_succ_le hreading),
    fun b j hj => ?_, fun n hn slot hslot j hj => ?_⟩
  · rcases hcases b j hj with ⟨rfl, -⟩ | ⟨hne, hj⟩
    · rw [hself]
      exact Timeval.after_usec_lt hcarry
    · rw [hother j hne]
      exact htimely.usec_lt b j hj
  · rcases hcases _ j hj with ⟨rfl, hb⟩ | ⟨hne, hj⟩
    · rw [hself]
      obtain ⟨m, hm, s, hs, hbucket, hlow, hhigh⟩ := chooseBucket_spec hpointers
        (show (uiInterval / 10).toNat + 1 < 2 ^ 32 by omega)
      obtain ⟨rfl, rfl⟩ := bucket_inj hslot hs (hb.trans hbucket)
      have hslack : n = 0 ∨ 1 ≤ slack n := by
        cases n with
        | zero => exact .inl rfl
        | succ n =>
            refine .inr ?_
            have hpos := weight_pos n
            rw [slack_succ]
            omega
      unfold OnTrack
      change pool.tLastScanTime.total + 10000 * (stepsTo pool.uiCurPt n slot - _) ≤ _ ∧
        _ < pool.tLastScanTime.total + 10000 * (stepsTo pool.uiCurPt n slot + _ + 1)
      dsimp only
      rw [htotal]
      split_ifs <;> omega
    · rw [hother j hne]
      exact htimely.on_track n hn slot hslot j hj

end AddTimer

theorem Timely.delTimer (htimely : Timely clock pool) (hok : Consistent pool lists used)
    {i : ℕ} (hi : i ∈ used) : Timely clock (pool.without i) := by
  obtain ⟨b, hb⟩ := (hok.mem_iff (.node i)).mpr ⟨i, hi, rfl⟩
  have hkeep : ∀ c, ∀ j ∈ (pool.without i).bucketNodes c, j ∈ pool.bucketNodes c := by
    intro c j hj
    rw [(hok.dropNode hb).2.mem_bucketNodes] at hj
    rw [hok.mem_bucketNodes]
    by_cases hc : c = b
    · subst hc
      rw [Function.update_self] at hj
      exact List.mem_of_mem_erase hj
    · rwa [Function.update_of_ne hc] at hj
  exact ⟨htimely.scan_nonneg, htimely.scan_lt, htimely.scan_mod, htimely.scan_le,
    fun c j hj => htimely.usec_lt c j (hkeep c j hj),
    fun n hn slot hslot j hj => htimely.on_track n hn slot hslot j (hkeep _ j hj)⟩

/-! ## `Migrate` -/

section Migrate

variable {now : ℤ} {n : ℕ} {stTimeNow tExpire : Timeval}

theorem wholeSteps_bounds (hnonneg : 0 ≤ stTimeNow.tv_usec)
    (hlt : stTimeNow.tv_usec < 1000000) (hexpire : 0 ≤ tExpire.tv_usec)
    (hexpireLt : tExpire.tv_usec < 1000000) :
    tExpire.total < stTimeNow.total + 10000 * (wholeSteps stTimeNow tExpire + 1 : ℕ) ∧
      (0 < wholeSteps stTimeNow tExpire →
        stTimeNow.total + 10000 * (wholeSteps stTimeNow tExpire : ℤ) <
          tExpire.total + 10000) := by
  unfold wholeSteps
  split_ifs with hbefore
  · obtain ⟨hsteps, hlow, hhigh⟩ := stepsLeft_bounds hnonneg hlt hexpire hbefore
    omega
  · unfold Timeval.Before at hbefore
    unfold Timeval.total
    omega

/-- The steps to the bucket that `Migrate` chooses, for the steps that it counts. -/
theorem chosen_bounds {steps width size : ℕ} (hwidth : 0 < width) (hsize : 0 < size) :
    (min (steps / width - 1) (size - 1) + 1) * width ≤ max 1 (steps / width) * width ∧
      width ≤ (min (steps / width - 1) (size - 1) + 1) * width ∧
      ((min (steps / width - 1) (size - 1) + 1) * width = width * size ∨
        steps + 1 ≤ (min (steps / width - 1) (size - 1) + 1) * width + width) := by
  refine ⟨Nat.mul_le_mul_right _ (by omega), Nat.le_mul_of_pos_left _ (Nat.succ_pos _), ?_⟩
  have hsplit := @Nat.lt_div_mul_add steps width hwidth
  rcases Nat.lt_or_ge (steps / width) size with hlt | hge
  · right
    have hmin : steps / width ≤ min (steps / width - 1) (size - 1) + 1 := by omega
    have hmul := Nat.mul_le_mul_right width hmin
    omega
  · left
    rw [show min (steps / width - 1) (size - 1) + 1 = size by omega, Nat.mul_comm]

/-- A node that is moved in time is on track in its new bucket. -/
theorem onTrack_of_moves (hnonneg : 0 ≤ stTimeNow.tv_usec)
    (hlt : stTimeNow.tv_usec < 1000000) (hexpire : 0 ≤ tExpire.tv_usec)
    (hexpireLt : tExpire.tv_usec < 1000000)
    (hnear : tExpire.total ≤ stTimeNow.total + farthest)
    (hnow : now ≤ stTimeNow.total) (hleft : now ≤ tExpire.total)
    (hright : tExpire.total < now + 10000 * (slack (n + 2) + 1))
    (hmoves : MovesInTime now (n + 1) stTimeNow tExpire) {uiCurPt : ℕ → ℕ}
    (hzero : ∀ v < n + 1, pointers uiCurPt v = 0) :
    OnTrack now uiCurPt n (migrateSlot (n + 1) stTimeNow tExpire) tExpire.total := by
  obtain ⟨hhigh, hlow⟩ := wholeSteps_bounds hnonneg hlt hexpire hexpireLt
  have hslotLt := migrateSlot_lt hnonneg hlt hexpire hnear (n + 1)
  have hslot := migrateSlot_eq hnonneg hlt hexpire hnear (n + 1)
  have hsteps : stepsTo uiCurPt n (migrateSlot (n + 1) stTimeNow tExpire) =
      (migrateSlot (n + 1) stTimeNow tExpire + 1) * weight wheelSize n :=
    due_of_zero hzero hslotLt
  have hchosen := @chosen_bounds (wholeSteps stTimeNow tExpire) _ _ (weight_pos n)
    (tbNum_pos (n + 1))
  unfold MovesInTime at hmoves
  rw [OnTrack, hsteps, hslot, slack_succ]
  rw [slack_succ, slack_succ, weight_succ] at hright
  rw [← weight_eq] at hmoves ⊢
  change _ ∧ _ ∧ (_ = _ * wheelSize n ∨ _) at hchosen
  generalize (min (wholeSteps stTimeNow tExpire / weight wheelSize n - 1)
    (tbNum (n + 1) - 1) + 1) * weight wheelSize n = chosen at *
  generalize weight wheelSize n * wheelSize n = round at *
  obtain ⟨hle, hge, hround⟩ := hchosen
  cases n with
  | zero =>
      have hwidth : weight wheelSize 0 = 1 := rfl
      rw [hwidth, Nat.div_one, Nat.mul_one] at hle
      rw [if_pos rfl] at hmoves ⊢
      omega
  | succ n =>
      have hslack : 0 < slack (n + 1) := by
        have hpos := weight_pos n
        rw [slack_succ]
        omega
      rw [if_neg (by omega)] at hmoves ⊢
      omega

end Migrate

/-! ## `GetTimer` -/

theorem Timeval.cut_spec {time : Timeval} (hnonneg : 0 ≤ time.tv_usec)
    (hlt : time.tv_usec < 1000000) :
    time.cut.tv_sec = time.tv_sec ∧ 0 ≤ time.cut.tv_usec ∧ time.cut.tv_usec < 1000000 ∧
      time.cut.tv_usec % 10000 = 0 ∧ time.cut.total ≤ time.total ∧
      time.total < time.cut.total + 10000 := by
  have hdiv : time.tv_usec.tdiv 10000 = time.tv_usec / 10000 :=
    Int.tdiv_eq_ediv_of_nonneg hnonneg
  simp only [cut, total, timerElement, hdiv, true_and]
  omega

/-- `GetTimer` finds the clock in the step of the last scan, or in the next one. -/
theorem Timely.step_cases (hclock : Monotone clock) (htimely : Timely clock pool)
    (hnext : InNextStep clock pool) :
    ¬ Stalled clock pool ∧
      (¬ Behind clock pool ∧
          (clock pool.readings).total < pool.tLastScanTime.total + 10000 ∨
        Behind clock pool ∧ pool.loopTimes clock = 1 ∧
          (clock pool.readings).cut.total = pool.tLastScanTime.total + 10000) := by
  obtain ⟨hsec, hnonneg, hlt, hmod, hle, hhigh⟩ :=
    Timeval.cut_spec (hclock.usec_nonneg pool.readings) (hclock.usec_lt pool.readings)
  have hscan := htimely.scan_le pool.readings le_rfl
  obtain ⟨hscanNonneg, hscanLt, hscanMod, -, -, -⟩ := htimely
  unfold InNextStep at hnext
  unfold Stalled
  have hdiff : pool.timeDiff clock = ⟨0, 0⟩ ∧
        (clock pool.readings).total < pool.tLastScanTime.total + 10000 ∨
      pool.timeDiff clock = ⟨0, 10000⟩ ∧
        (clock pool.readings).cut.total = pool.tLastScanTime.total + 10000 := by
    unfold CTimerPool.timeDiff Timeval.sub
    unfold Timeval.total at *
    split_ifs <;> simp only [Timeval.mk.injEq] <;> omega
  rcases hdiff with ⟨hdiff, htotal⟩ | ⟨hdiff, htotal⟩
  · refine ⟨by rw [hdiff]; decide, .inl ⟨?_, htotal⟩⟩
    rw [Behind, hdiff]
    decide
  · have hbehind : Behind clock pool := by
      rw [Behind, hdiff]
      decide
    refine ⟨by rw [hdiff]; decide, .inr ⟨hbehind, ?_, htotal⟩⟩
    rw [CTimerPool.loopTimes, if_pos hbehind, hdiff]
    decide

/-- When the wheels turn, every timer that has not been fired stays on track. -/
theorem Timely.turned {after : CTimerPool Data} {lists' : ℕ → List Cell}
    {used' : Finset ℕ} {fired : List (TimerID × Data)} (hclock : Monotone clock)
    (htimely : Timely clock pool) (hok : PoolOk clock pool lists used)
    (hmigrates : MigratesInTime clock pool)
    (hnow : (clock pool.readings).cut.total = pool.tLastScanTime.total + 10000)
    (hok' : Consistent after lists' used')
    (hwent : Went clock (pool.scanned clock) after lists lists' used used' fired)
    {n slot i : ℕ} (hn : n < 5) (hslot : slot < wheelSize n)
    (hi : i ∈ after.bucketNodes (firstTB (n + 1) + slot)) :
    OnTrack (pool.tLastScanTime.total + 10000) after.uiCurPt n slot
      (pool.node i).tExpire.total := by
  rw [hok'.mem_bucketNodes] at hi
  have hused' := hok'.used_of_mem hi
  have hturned := hwent.turned ⟨i, hused'⟩
  have hcounted := hturned.counted
  obtain ⟨hused, hout⟩ := (hwent.taken.used_iff i).mp hused'
  rw [hok.consistent.mem_map_number] at hout
  obtain ⟨b, hb⟩ := (hok.consistent.mem_iff (.node i)).mpr ⟨i, hused, rfl⟩
  obtain ⟨m, hm, s, hs, rfl⟩ := exists_bucket (hok.consistent.lt_tballNum hb)
  have hnode := hok.consistent.mem_bucketNodes.mpr hb
  obtain ⟨hlow, hhigh⟩ := htimely.on_track m hm s hs i hnode
  have hfired : firstTB (m + 1) + s ≠ firstTB 1 + pool.uiCurPt 1 := by
    intro heq
    rw [heq] at hb
    exact hout hb
  have hfired' : firstTB (m + 1) + s ≠ firstTB 1 + (pool.scanned clock).uiCurPt 1 := hfired
  have hother : ∀ u, 1 ≤ u → Function.update lists (firstTB 1 + pool.uiCurPt 1) []
      (dueTB pool.uiCurPt u) = lists (dueTB pool.uiCurPt u) := by
    intro u hu
    refine Function.update_of_ne (Ne.symm ?_) ..
    exact bucket_ne le_rfl (Nat.lt_succ_of_le hu) (hok.pointers 1 le_rfl (by decide))
  have hlt := pointers_lt hok.pointers (show m + 1 ≤ 5 from hm)
  by_cases hdue : Full wheelSize (pointers pool.uiCurPt) m ∧ s = pointers pool.uiCurPt m
  · -- the bucket is emptied into the wheel in front
    obtain ⟨hfull, rfl⟩ := hdue
    obtain ⟨p, rfl⟩ : ∃ p, m = p + 1 := by
      refine Nat.exists_eq_succ_of_ne_zero ?_
      rintro rfl
      exact hfired rfl
    obtain ⟨place, hplace⟩ := List.mem_iff_getElem?.mp hb
    have hround : GoRound pool.uiCurPt 1 (p + 1 + 1) := goRound_iff.mpr hfull
    have hreading : pool.readings + 1 + ∑ u ∈ Finset.Ico 1 (p + 1),
        (Function.update lists (firstTB 1 + pool.uiCurPt 1) []
          (dueTB pool.uiCurPt u)).length + place = pool.movingAt (p + 1) place := by
      refine congrArg (pool.readings + 1 + · + place) (Finset.sum_congr rfl fun u hu => ?_)
      rw [hother u (Finset.mem_Ico.mp hu).1, hok.consistent.bucketNodes_eq, List.length_map]
    have hplaced : PlacedAt clock (p + 1) pool.node lists' i
        (pool.readings + 1 + ∑ u ∈ Finset.Ico 1 (p + 1),
          (Function.update lists (firstTB 1 + pool.uiCurPt 1) []
            (dueTB pool.uiCurPt u)).length + place) :=
      hturned.placed (p + 1) (Nat.le_add_left 1 p) hm hround place i
        ((congrArg (·[place]?) (hother (p + 1) (Nat.le_add_left 1 p))).trans hplace)
    have hmoves := hmigrates (p + 1) (Nat.le_add_left 1 p) hm hround place i (by
      rw [hok.consistent.bucketNodes_eq, List.getElem?_map]
      exact congrArg (Option.map Cell.number) hplace)
    rw [hreading] at hplaced
    have hplacedLt : migrateSlot (p + 1) (clock (pool.movingAt (p + 1) place))
        (pool.node i).tExpire < wheelSize p := hplaced.slot_lt
    obtain ⟨rfl, hchosen⟩ := bucket_inj hslot hplacedLt
      (hok'.threads.apart _ _ _ hi hplaced.mem)
    rw [hchosen]
    have hsteps : stepsTo pool.uiCurPt (n + 1) (pointers pool.uiCurPt (n + 1)) = 1 :=
      due_eq_one hlt hfull
    have hlater : pool.readings ≤ pool.movingAt (n + 1) place := by
      unfold CTimerPool.movingAt
      omega
    have hcut := Timeval.cut_spec (hclock.usec_nonneg pool.readings)
      (hclock.usec_lt pool.readings)
    have hmono := hclock.le _ _ hlater
    obtain ⟨hexpire, hfar⟩ := hok.near i hused
    rw [hsteps, if_neg (by omega)] at hlow
    rw [hsteps] at hhigh
    refine onTrack_of_moves (hclock.usec_nonneg _) (hclock.usec_lt _) hexpire
      (htimely.usec_lt _ i hnode) (hfar _ hlater) ?_ ?_ ?_ (hnow ▸ hmoves) fun v hv => ?_
    · omega
    · omega
    · change _ < _ + 10000 * ((slack (n + 1 + 1) : ℤ) + 1)
      omega
    · have hle := Nat.le_of_lt_succ (Nat.lt_succ_of_lt hm)
      exact (hcounted.mono hle).digit_eq_zero hfull hv
  · -- the bucket stays and comes nearer
    have hstays := hturned.stays (firstTB (m + 1) + s) (.node i) (by
      rw [Function.update_of_ne hfired']
      exact hb) fun v hv hle hround heq => hdue (by
        obtain ⟨u, rfl⟩ : ∃ u, v = u + 1 := ⟨v - 1, by omega⟩
        have hpointer : pool.uiCurPt (u + 1) < wheelSize u :=
          hok.pointers (u + 1) (Nat.le_add_left 1 u) hle
        obtain ⟨rfl, rfl⟩ := bucket_inj hs hpointer heq
        exact ⟨goRound_iff.mp hround, rfl⟩)
    obtain ⟨rfl, rfl⟩ := bucket_inj hslot hs (hok'.threads.apart _ _ _ hi hstays)
    have hnearer : stepsTo pool.uiCurPt n slot = stepsTo after.uiCurPt n slot + 1 :=
      (hcounted.mono hm).due_eq hlt hslot fun hfull heq => hdue ⟨hfull, heq⟩
    unfold OnTrack
    omega

/-- A timer is fired within two steps of its `tExpire`, and one that stays is not
overdue by more. -/
theorem Timely.fired (htimely : Timely clock pool) (hok : PoolOk clock pool lists used)
    {i : ℕ} (hi : i ∈ used) :
    (i ∈ pool.bucketNodes (firstTB 1 + pool.uiCurPt 1) →
      pool.tLastScanTime.total ≤ (pool.node i).tExpire.total ∧
        (pool.node i).tExpire.total < pool.tLastScanTime.total + 30000) ∧
      (i ∉ pool.bucketNodes (firstTB 1 + pool.uiCurPt 1) →
        pool.tLastScanTime.total + 10000 ≤ (pool.node i).tExpire.total) := by
  have hfirst : pointers pool.uiCurPt 0 < wheelSize 0 :=
    hok.pointers 1 le_rfl (by decide)
  have hpointers := pointers_lt hok.pointers (show 0 + 1 ≤ 5 by decide)
  constructor
  · intro hmem
    obtain ⟨hlow, hhigh⟩ := htimely.on_track 0 (by decide) _ hfirst i hmem
    have hsteps : stepsTo pool.uiCurPt 0 (pointers pool.uiCurPt 0) = 1 :=
      due_eq_one hpointers nofun
    have hslack : slack (0 + 1) = 1 := rfl
    rw [hsteps, if_pos rfl] at hlow
    rw [hsteps, hslack] at hhigh
    omega
  · intro hout
    obtain ⟨b, hb⟩ := (hok.consistent.mem_iff (.node i)).mpr ⟨i, hi, rfl⟩
    obtain ⟨n, hn, slot, hslot, rfl⟩ := exists_bucket (hok.consistent.lt_tballNum hb)
    have hmem := hok.consistent.mem_bucketNodes.mpr hb
    obtain ⟨hlow, -⟩ := htimely.on_track n hn slot hslot i hmem
    have hpos : 0 < stepsTo pool.uiCurPt n slot :=
      due_pos (pointers_lt hok.pointers hn.le) slot
    cases n with
    | zero =>
        have hne : slot ≠ pointers pool.uiCurPt 0 := by
          rintro rfl
          exact hout hmem
        have hdistance := distance_step hfirst hslot hne
        have hsteps : stepsTo pool.uiCurPt 0 slot =
            1 + distance (wheelSize 0) (pointers pool.uiCurPt 0) slot * 1 := rfl
        rw [if_pos rfl] at hlow
        omega
    | succ n =>
        rw [if_neg (Nat.succ_ne_zero n)] at hlow
        omega

/-- `GetTimer` returns timers within two steps of their `tExpire`, and leaves none
that is overdue by more. -/
theorem Timely.getTimer [Inhabited Data] (hclock : Monotone clock)
    (htimely : Timely clock pool) (hok : PoolOk clock pool lists used)
    (hnext : InNextStep clock pool)
    (hmigrates : Behind clock pool → MigratesInTime clock pool) :
    ∃ nodes after, pool.getTimer clock = some (success, pool.entries nodes, after) ∧
      Timely clock after ∧
      (∀ i ∈ nodes, i ∈ used ∧
        |(clock pool.readings).total - (pool.node i).tExpire.total| ≤ 20000) ∧
      ∀ i ∈ used, i ∉ nodes →
        (clock pool.readings).total ≤ (pool.node i).tExpire.total + 20000 := by
  have hcut := Timeval.cut_spec (hclock.usec_nonneg pool.readings)
    (hclock.usec_lt pool.readings)
  have hlater : ∀ reading, pool.readings + 1 ≤ reading →
      (clock pool.readings).total ≤ (clock reading).total := fun reading hreading =>
    hclock.le _ _ (Nat.le_of_succ_le hreading)
  have hscan := htimely.scan_le pool.readings le_rfl
  obtain ⟨hstalled, ⟨hbehind, htotal⟩ | ⟨hbehind, hloops, htotal⟩⟩ :=
    htimely.step_cases hclock hnext
  · -- the step of the last scan
    refine ⟨[], pool.scanned clock, ?_, ?_, nofun, fun i hi _ => ?_⟩
    · rw [getTimer_of_not_stalled hstalled, CTimerPool.loopTimes, if_neg hbehind]
      rfl
    · have hsame : (pool.scanned clock).tLastScanTime = pool.tLastScanTime :=
        if_neg hbehind
      refine ⟨?_, ?_, ?_, fun reading hreading => ?_, htimely.usec_lt, ?_⟩ <;> rw [hsame]
      · exact htimely.scan_nonneg
      · exact htimely.scan_lt
      · exact htimely.scan_mod
      · exact hscan.trans (hlater reading hreading)
      · exact htimely.on_track
    · have hfired := htimely.fired hok hi
      by_cases hmem : i ∈ pool.bucketNodes (firstTB 1 + pool.uiCurPt 1)
      · have hlow := (hfired.1 hmem).1
        omega
      · have hlow := hfired.2 hmem
        omega
  · -- the next step
    have hpointers₀ : PointersOk (pool.scanned clock).uiCurPt := hok.pointers
    have hnear₀ : Near clock (pool.scanned clock) used := fun i hi =>
      ⟨(hok.near i hi).1, fun reading hreading =>
        (hok.near i hi).2 reading (Nat.le_of_succ_le hreading)⟩
    obtain ⟨fired, after, lists', used', hinternal, hkept, -, hok', hwent⟩ :=
      getTimerInternal_spec hclock hpointers₀ (hok.consistent.congr rfl rfl rfl rfl) hnear₀
    have hscanned : after.tLastScanTime = (clock pool.readings).cut :=
      hkept.scan_eq.trans (if_pos hbehind)
    have hnodes : (lists (firstTB 1 + (pool.scanned clock).uiCurPt 1)).map Cell.number =
        pool.bucketNodes (firstTB 1 + pool.uiCurPt 1) :=
      (hok.consistent.bucketNodes_eq _).symm
    have htaken := hwent.taken
    rw [hnodes] at htaken
    refine ⟨pool.bucketNodes (firstTB 1 + pool.uiCurPt 1), after, ?_, ?_, fun i hi => ?_,
      fun i hi hout => ?_⟩
    · rw [getTimer_of_not_stalled hstalled, hloops]
      change (CTimerPool.getTimerLoop clock 1 (pool.scanned clock)).map _ = _
      rw [CTimerPool.getTimerLoop, hinternal, htaken.fired_eq,
        (scanned_alike pool).entries_eq]
      change some (success, _ ++ [], after) = _
      rw [List.append_nil]
    · have hused : ∀ b, ∀ i ∈ after.bucketNodes b, i ∈ used := fun b i hi =>
        ((htaken.used_iff i).mp (hok'.used_of_mem (hok'.mem_bucketNodes.mp hi))).1
      have hnode : after.node = pool.node := hkept.node_eq
      refine ⟨?_, ?_, ?_, fun reading hreading => ?_, fun b i hi => ?_,
        fun n hn slot hslot i hi => ?_⟩
      · rw [hscanned]
        exact hcut.2.1
      · rw [hscanned]
        exact hcut.2.2.1
      · rw [hscanned]
        exact hcut.2.2.2.1
      · rw [hscanned]
        exact hcut.2.2.2.2.1.trans (hlater reading (hkept.readings_le.trans hreading))
      · obtain ⟨c, hc⟩ := (hok.consistent.mem_iff (.node i)).mpr ⟨i, hused b i hi, rfl⟩
        rw [hnode]
        exact htimely.usec_lt c i (hok.consistent.mem_bucketNodes.mpr hc)
      · rw [hscanned, hnode, htotal]
        exact htimely.turned hclock hok (hmigrates hbehind) htotal hok' hwent hn hslot hi
    · have hmem := htaken.mem_used i hi
      obtain ⟨hlow, hhigh⟩ := (htimely.fired hok hmem).1 hi
      refine ⟨hmem, ?_⟩
      rw [abs_le]
      omega
    · have hlow := (htimely.fired hok hi).2 hout
      omega

/-! ## Runs -/

namespace Timers

section Step

variable {timers timers' : Timers Data}

/-- The calls of an owner that calls `GetTimer` in every step of the clock. -/
def Punctual (clock : ℕ → Timeval) (timers : Timers Data) : Call Data → Prop
  | .delTimer timer => timers.Live timer
  | _ => InNextStep clock timers.pool

/-- `AddTimer` gets `tExpire` right, and `GetTimer` migrates in time. -/
def OnTime (clock : ℕ → Timeval) (timers : Timers Data) (call : Call Data) : Prop :=
  timers.Punctual clock call ∧
    match call with
    | .addTimer uiInterval _ _ =>
        (clock timers.pool.readings).tv_usec + 1000 * (uiInterval.toNat % 1000 : ℕ) <
          1000000
    | .delTimer _ => True
    | .getTimer => Behind clock timers.pool → MigratesInTime clock timers.pool

instance : (call : Call Data) → Decidable (timers.Punctual clock call)
  | .delTimer timer => inferInstanceAs (Decidable (timers.Live timer))
  | .addTimer _ _ _ | .getTimer => inferInstanceAs (Decidable (_ < _))

instance : (call : Call Data) → Decidable (timers.OnTime clock call)
  | .addTimer _ _ _ => inferInstanceAs (Decidable (_ ∧ _ < _))
  | .delTimer _ => inferInstanceAs (Decidable (_ ∧ True))
  | .getTimer =>
      inferInstanceAs
        (Decidable (_ ∧ (Behind clock timers.pool → MigratesInTime clock timers.pool)))

theorem OnTime.allowed {call : Call Data} (hcall : timers.OnTime clock call) :
    timers.Allowed call := by
  cases call with
  | delTimer timer => exact hcall.1
  | _ => trivial

theorem timely_step [Inhabited Data] (hclock : Monotone clock)
    (hsound : timers.Sound clock lists used) (htimely : Timely clock timers.pool)
    {call : Call Data} (hcall : timers.OnTime clock call)
    (hstep : timers.step clock call = some timers') : Timely clock timers'.pool := by
  obtain ⟨hpool, hledger⟩ := hsound
  obtain ⟨hpunctual, hcond⟩ := hcall
  cases call with
  | addTimer uiInterval TimerParam uiRandom =>
      rcases step_addTimer_cases hpool.consistent hstep with rfl | ⟨i, hfresh, rfl, hok⟩
      · exact htimely
      · exact htimely.addTimer hpool.pointers hpool.consistent hfresh hok hpunctual hcond
  | delTimer timer =>
      obtain ⟨i, hi, rfl⟩ := (hledger.live_iff timer).mp hpunctual
      rw [step, hledger.id_eq i hi, delTimer_of_mem hpool.ready hpool.consistent hi] at hstep
      obtain rfl := Option.some.inj hstep
      exact htimely.delTimer hpool.consistent hi
  | getTimer =>
      obtain ⟨nodes, after, hget, hafter, -⟩ :=
        htimely.getTimer hclock hpool hpunctual hcond
      rw [step, hget] at hstep
      obtain rfl := Option.some.inj hstep
      exact hafter

end Step

/-- An empty pool is on time. -/
theorem timely_of_empty (hclock : Monotone clock) (hok : Consistent pool lists ∅)
    {reading : ℕ} (hscan : pool.tLastScanTime = (clock reading).cut)
    (hreading : reading ≤ pool.readings) : Timely clock pool := by
  obtain ⟨-, hnonneg, hlt, hmod, hle, -⟩ :=
    Timeval.cut_spec (hclock.usec_nonneg reading) (hclock.usec_lt reading)
  have hempty : ∀ b, pool.bucketNodes b = [] := fun b => by
    rw [hok.bucketNodes_eq, hok.eq_nil]
    rfl
  refine ⟨?_, ?_, ?_, fun later hlater => ?_, fun b i hi => ?_,
    fun n hn slot hslot i hi => ?_⟩
  · rw [hscan]
    exact hnonneg
  · rw [hscan]
    exact hlt
  · rw [hscan]
    exact hmod
  · rw [hscan]
    exact hle.trans (hclock.le _ _ (hreading.trans hlater))
  · rw [hempty] at hi
    cases hi
  · rw [hempty] at hi
    cases hi

theorem reaches_timely [Inhabited Data] (hclock : Monotone clock)
    {start timers : Timers Data}
    (hstart : start.Sound clock lists used) (htimely : Timely clock start.pool)
    (hreach : Transition.Reaches (step clock) (OnTime clock) start timers) :
    ∃ lists used, timers.Sound clock lists used ∧ Timely clock timers.pool := by
  refine hreach.invariant
    (fun timers => ∃ lists used, timers.Sound clock lists used ∧ Timely clock timers.pool)
    ⟨lists, used, hstart, htimely⟩ ?_
  rintro before after call ⟨lists, used, hsound, htimely⟩ hcall hstep
  obtain ⟨lists', used', hpool, hchange⟩ := step_spec hclock hsound hcall.allowed hstep
  exact ⟨lists', used', ⟨hpool, hsound.ledger.change hchange⟩,
    timely_step hclock hsound htimely hcall hstep⟩

end Timers

/-- With a clock that does not go back, from any position of the pointers, and in
every run whose `AddTimer` calls do not carry microseconds into a second, whose
`GetTimer` calls come in every step of the clock and migrate in time: `GetTimer`
returns timers within two steps of their `tExpire`, and every other live timer is not
overdue by more. -/
theorem timers_returned_on_time [Inhabited Data]
    (clock : ℕ → Timeval) (hclock : Monotone clock)
    (memory pool : CTimerPool (ℕ × Data)) (iMemSize : ℤ) (hmax : iMemSize ≤ intMax)
    (hsizeof : 0 < memory.sizeofNode)
    (hinit : memory.init clock iMemSize = some (success, pool))
    (uiCurPt : ℕ → ℕ) (hpointers : PointersOk uiCurPt) (timers : Timers Data)
    (hreach : Transition.Reaches (Timers.step clock) (Timers.OnTime clock)
      (Timers.start { pool with uiCurPt := uiCurPt }) timers)
    (hcall : timers.OnTime clock .getTimer) :
    ∃ nodes after,
      timers.pool.getTimer clock = some (success, timers.pool.entries nodes, after) ∧
      (∀ i ∈ nodes, timers.Live (timers.number i) ∧
        |(clock timers.pool.readings).total - (timers.pool.node i).tExpire.total| ≤
          20000) ∧
      ∀ timer, timers.Live timer → ∃ i, timers.id timer = timers.pool.timerID i ∧
        timers.number i = timer ∧
        (i ∈ nodes ∨ (clock timers.pool.readings).total ≤
          (timers.pool.node i).tExpire.total + 20000) := by
  obtain ⟨⟨nodePool, hclear⟩, hready, -, hempty⟩ := init_spec hmax hsizeof hinit
  have hready' : Ready { pool with uiCurPt := uiCurPt } := hready.congr rfl rfl rfl
  have hempty' : Consistent { pool with uiCurPt := uiCurPt } (fun _ => []) ∅ :=
    hempty.congr rfl rfl rfl rfl
  have hscan : pool.tLastScanTime = (clock memory.readings).cut := by
    rw [hclear]
    rfl
  have hreading : memory.readings ≤ pool.readings := by
    rw [hclear]
    exact Nat.le_succ _
  obtain ⟨lists, used, ⟨hpool, hledger⟩, htimely⟩ := Timers.reaches_timely hclock
    (Timers.start_sound hready' hpointers hempty')
    (Timers.timely_of_empty hclock hempty' hscan hreading) hreach
  obtain ⟨nodes, after, hget, -, hreturned, hothers⟩ :=
    htimely.getTimer hclock hpool hcall.1 hcall.2
  refine ⟨nodes, after, hget, fun i hi => ?_, fun timer hlive => ?_⟩
  · obtain ⟨hused, hnear⟩ := hreturned i hi
    exact ⟨(hledger.live_iff _).mpr ⟨i, hused, rfl⟩, hnear⟩
  · obtain ⟨i, hi, rfl⟩ := (hledger.live_iff timer).mp hlive
    refine ⟨i, hledger.id_eq i hi, rfl, ?_⟩
    by_cases hmem : i ∈ nodes
    · exact .inl hmem
    · exact .inr (hothers i hi hmem)

/-- A clock that goes on by 10 ms with every fourth reading. -/
def slowClock (reading : ℕ) : Timeval := steadyClock (reading / 4)

theorem slowClock_monotone : Monotone slowClock :=
  ⟨fun reading => steadyClock_monotone.usec_nonneg (reading / 4),
    fun reading => steadyClock_monotone.usec_lt (reading / 4),
    fun _ _ hle => steadyClock_monotone.le _ _ (Nat.div_le_div_right hle)⟩

/-- The first wheel goes round and takes over a long timer; then a short one is
returned. -/
theorem timers_returned_on_time_two :
    ∃ (pool : CTimerPool (ℕ × ℕ)) (timers : Timers ℕ) (nodes : List ℕ)
      (after : CTimerPool (ℕ × ℕ)),
      blankPool.init slowClock 5000 = some (success, pool) ∧
      timers.Live 0 ∧ timers.Live 1 ∧
      timers.pool.getTimer slowClock =
        some (success, timers.pool.entries nodes, after) ∧
      nodes.length = 1 ∧
      ∀ i ∈ nodes, |(slowClock timers.pool.readings).total -
        (timers.pool.node i).tExpire.total| ≤ 20000 := by
  obtain ⟨pool, timers, hinit, hreach, hvalues⟩ :=
    Timers.exists_run (Timers.OnTime slowClock)
      (fun pool => { pool with uiCurPt := Function.update (fun _ => 0) 1 255 })
      [.addTimer 10 7 70, .addTimer 2560 8 80, .getTimer, .getTimer, .getTimer, .getTimer]
      (fun timers => (decide (timers.Live 0), decide (timers.Live 1),
        decide (timers.OnTime slowClock .getTimer),
        (timers.pool.getTimer slowClock).map fun result => result.2.1.length))
      (true, true, true, some 1) (show (blankPool.init slowClock 5000).map _ = _ by decide)
      (by decide +kernel)
  simp only [Prod.mk.injEq, decide_eq_true_eq] at hvalues
  obtain ⟨hlive, hlive', hcall, hlength⟩ := hvalues
  obtain ⟨nodes, after, hget, hreturned, -⟩ :=
    timers_returned_on_time slowClock slowClock_monotone blankPool pool 5000 (by decide)
      (by decide) hinit (Function.update (fun _ => 0) 1 255)
      (fun wheel hwheel hle => by interval_cases wheel <;> decide) timers
      hreach hcall
  refine ⟨pool, timers, nodes, after, hinit, hlive, hlive', hget, ?_,
    fun i hi => (hreturned i hi).2⟩
  rw [hget] at hlength
  exact (List.length_map _).symm.trans (Option.some.inj hlength)

/-- Memory that is used 20 ms before a full second. -/
def latePool : CTimerPool (ℕ × ℕ) := { blankPool with readings := 395 }

/-- A timer of 10 ms that is added 10 ms before a full second is returned in time by
the interval, and 4295 seconds before its `tExpire`. -/
theorem timer_returned_too_early :
    ∃ (pool : CTimerPool (ℕ × ℕ)) (timers : Timers ℕ) (after : CTimerPool (ℕ × ℕ)),
      latePool.init slowClock 5000 = some (success, pool) ∧
      Transition.Reaches (Timers.step slowClock) (Timers.Punctual slowClock)
        (Timers.start pool) timers ∧
      timers.Punctual slowClock .getTimer ∧ timers.Live 0 ∧ timers.number 0 = 0 ∧
      timers.pool.getTimer slowClock =
        some (success, timers.pool.entries [0], after) ∧
      slowClock timers.pool.readings = ⟨1, 0⟩ ∧
      (timers.pool.node 0).tExpire = ⟨1, 4294967296⟩ ∧
      ¬ |(slowClock timers.pool.readings).total - (timers.pool.node 0).tExpire.total| ≤
        20000 := by
  obtain ⟨pool, timers, hinit, hreach, hvalues⟩ :=
    Timers.exists_run (Timers.Punctual slowClock) id
      [.addTimer 10 7 70, .getTimer, .getTimer, .getTimer]
      (fun timers => (decide (timers.Live 0 ∧ timers.number 0 = 0 ∧
          timers.Punctual slowClock .getTimer ∧
          slowClock timers.pool.readings = ⟨1, 0⟩ ∧
          (timers.pool.node 0).tExpire = ⟨1, 4294967296⟩),
        (timers.pool.getTimer slowClock).map fun (iRetVal, fired, _) =>
          (iRetVal, decide (fired = timers.pool.entries [0]))))
      (true, some (success, true)) (show (latePool.init slowClock 5000).map _ = _ by decide)
      (by decide +kernel)
  simp only [Prod.mk.injEq, decide_eq_true_eq] at hvalues
  obtain ⟨⟨hlive, hnumber, hcall, hnow, hexpire⟩, hget⟩ := hvalues
  obtain ⟨⟨ret, fired, after⟩, hget, hresult⟩ := Option.map_eq_some_iff.mp hget
  simp only [Prod.mk.injEq, decide_eq_true_eq] at hresult
  obtain ⟨rfl, rfl⟩ := hresult
  refine ⟨pool, timers, after, hinit, hreach, hcall, hlive,
    hnumber, hget, hnow, hexpire, ?_⟩
  rw [hnow, hexpire]
  decide

end MessageBus.TimerPool
