import MessageBus.TimerPoolRuns

/-!
# The ids of timers that are gone

A node that goes back to the pool of nodes keeps its random number and its link
back.  So `DelTimer` still takes the id of its last timer for that of a live one,
unless the pool has no timers or has been cleared.
-/

namespace MessageBus.TimerPool

open DoubleLinks MemPool

variable {Data : Type} {clock : ℕ → Timeval}

namespace Timers

variable (timers : Timers Data)

/-- No timer has come into the node of this one since. -/
def Last (timer : ℕ) : Prop :=
  timer < timers.added ∧ ∀ later, timer < later → later < timers.added →
    (timers.id later).offset ≠ (timers.id timer).offset

/-- A timer that is gone, and whose node last got another random number if it was
handed out again. -/
structure Stale (timer : ℕ) : Prop where
  added : timer < timers.added
  gone : ¬ timers.Live timer
  other : ∀ last, timer < last → timers.Last last →
    (timers.id last).offset = (timers.id timer).offset →
    (timers.id last).random ≠ (timers.id timer).random

/-- A node that was handed out since the pool was cleared has a link back and the
random number of its last timer; the others have no link back. -/
structure Recorded : Prop where
  exists_node : ∀ timer < timers.added,
    ∃ i < timers.pool.m_objTimerNodePool.iNodeNum,
      (timers.id timer).offset = (timers.pool.nodeOffset i).toUInt32
  blank : ∀ i < timers.pool.m_objTimerNodePool.iNodeNum,
    (∀ timer, timers.clearedAt ≤ timer → timer < timers.added →
      (timers.id timer).offset ≠ (timers.pool.nodeOffset i).toUInt32) →
    timers.pool.links.prev (.node i) = .null
  last : ∀ i < timers.pool.m_objTimerNodePool.iNodeNum, ∀ timer,
    timers.clearedAt ≤ timer → timers.Last timer →
    (timers.id timer).offset = (timers.pool.nodeOffset i).toUInt32 →
    timers.pool.links.prev (.node i) ≠ .null ∧
      (timers.pool.node i).uiRandom = (timers.id timer).random

/-- `DelTimer` refuses the id of a timer and leaves the lists, their number and the
pool of nodes as they are. -/
def Refused (timer : ℕ) : Prop :=
  ∃ iRetVal pool, timers.pool.delTimer (timers.id timer) = some (iRetVal, pool) ∧
    (iRetVal = timerNotExist ∨ iRetVal = error) ∧
    pool.links = timers.pool.links ∧
    pool.iTimerNodeNum = timers.pool.iTimerNodeNum ∧
    pool.m_objTimerNodePool = timers.pool.m_objTimerNodePool

variable {timers} {timers' : Timers Data} {lists lists' : ℕ → List Cell}
  {used used' : Finset ℕ}

theorem Recorded.take {nodes : List ℕ} (hrecorded : timers.Recorded)
    (htaken : TakenFrom timers timers' used used' nodes) : timers'.Recorded := by
  have hlast : ∀ timer, timers'.Last timer ↔ timers.Last timer := by
    intro timer
    rw [Last, Last, htaken.id_eq, htaken.added_eq]
  have halike := htaken.alike
  refine ⟨?_, ?_, ?_⟩
  · rw [htaken.added_eq, htaken.id_eq, halike.nodeNum_eq]
    simpa only [halike.nodeOffset_eq] using hrecorded.exists_node
  · rw [htaken.added_eq, htaken.clearedAt_eq, htaken.id_eq, halike.nodeNum_eq]
    simpa only [halike.nodeOffset_eq, halike.prev_iff] using hrecorded.blank
  · rw [htaken.clearedAt_eq, htaken.id_eq, halike.nodeNum_eq, halike.node_eq]
    simpa only [halike.nodeOffset_eq, ne_eq, halike.prev_iff, hlast] using hrecorded.last

theorem Recorded.clear [Inhabited Data] (hrecorded : timers.Recorded) :
    { timers with
      pool := { timers.pool with readings := timers.pool.readings + 1 }.cleared clock
      clearedAt := timers.added }.Recorded :=
  ⟨hrecorded.exists_node, fun _ _ _ => rfl,
    fun _ _ _ hle hlast => absurd hlast.1 (not_lt.mpr hle)⟩

section Add

variable {uiInterval : UInt32} {TimerParam : Data} {uiRandom : UInt32} {i : ℕ}

theorem withTimer_id_self :
    (timers.withTimer clock uiInterval TimerParam uiRandom i).id timers.added =
      ⟨(timers.pool.nodeOffset i).toUInt32, uiRandom⟩ := by
  refine (Function.update_self ..).trans ?_
  change TimerID.mk _ ((timers.withTimer clock uiInterval TimerParam uiRandom i).pool.node
    i).uiRandom = _
  rw [withTimer_node_self]
  rfl

theorem withTimer_id {timer : ℕ} (hlt : timer < timers.added) :
    (timers.withTimer clock uiInterval TimerParam uiRandom i).id timer =
      timers.id timer :=
  Function.update_of_ne hlt.ne ..

theorem Recorded.add (hrecorded : timers.Recorded) (hready : Ready timers.pool)
    (hok : Consistent timers.pool lists used)
    (hok' : Consistent
      (timers.withTimer clock uiInterval TimerParam uiRandom i).pool lists'
      (insert i used)) (hcleared : timers.clearedAt ≤ timers.added) :
    (timers.withTimer clock uiInterval TimerParam uiRandom i).Recorded := by
  have hmem := Finset.mem_insert_self i used
  have hi : i < timers.pool.m_objTimerNodePool.iNodeNum := by
    have hlt : i < timers.pool.m_objTimerNodePool.iNodeNum - 1 :=
      (hok'.nodes.of_mem hmem).used_lt hmem
    omega
  have hprev : ∀ j, j ≠ i →
      ((timers.withTimer clock uiInterval TimerParam uiRandom i).pool.links.prev
        (.node j) = .null ↔ timers.pool.links.prev (.node j) = .null) := by
    intro j hne
    have hnull : Cell.node i ≠ .null := nofun
    exact hok.threads.push_prev_eq_null_iff hnull
      (fun heq => hne (Cell.node.inj heq)) nofun
  have hself : (timers.withTimer clock uiInterval TimerParam uiRandom i).id timers.added =
      ⟨(timers.pool.nodeOffset i).toUInt32, uiRandom⟩ := withTimer_id_self
  refine ⟨fun timer ht => ?_, fun j hj hnone => ?_, fun j hj timer hle hlast heq => ?_⟩
  · rcases Nat.lt_succ_iff_lt_or_eq.mp ht with hlt | rfl
    · rw [withTimer_id hlt]
      exact hrecorded.exists_node timer hlt
    · rw [hself]
      exact ⟨i, hi, rfl⟩
  · have hne : j ≠ i := by
      rintro rfl
      refine hnone timers.added hcleared (Nat.lt_succ_self _) ?_
      rw [hself]
      rfl
    rw [hprev j hne]
    refine hrecorded.blank j hj fun timer hle hlt => ?_
    rw [← withTimer_id hlt]
    exact hnone timer hle (hlt.trans (Nat.lt_succ_self _))
  · rcases Nat.lt_succ_iff_lt_or_eq.mp hlast.1 with hlt | rfl
    · have hne : j ≠ i := by
        rintro rfl
        refine hlast.2 timers.added hlt (Nat.lt_succ_self _) ?_
        rw [hself, heq]
        rfl
      rw [withTimer_id hlt] at heq ⊢
      rw [ne_eq, hprev j hne, withTimer_node hne]
      refine hrecorded.last j hj timer hle ⟨hlt, fun later hlater hadded => ?_⟩ heq
      rw [← withTimer_id hadded, ← withTimer_id hlt]
      exact hlast.2 later hlater (hadded.trans (Nat.lt_succ_self _))
    · have hsame : j = i := by
        refine hready.offset_inj hj hi ?_
        rw [hself] at heq
        exact heq.symm
      subst hsame
      obtain ⟨b, hb⟩ := (hok'.mem_iff (.node j)).mpr ⟨j, hmem, rfl⟩
      refine ⟨hok'.threads.prev_ne_null hb, ?_⟩
      rw [hself, withTimer_node_self]

end Add

theorem Recorded.change [Inhabited Data] (hrecorded : timers.Recorded)
    (hsound : timers.Sound clock lists used)
    (hpool : PoolOk clock timers'.pool lists' used')
    (hchange : Change clock timers used timers' used') : timers'.Recorded := by
  cases hchange with
  | refused => exact hrecorded
  | added uiInterval TimerParam uiRandom i hfresh =>
      exact hrecorded.add hsound.pool.ready hsound.pool.consistent hpool.consistent
        hsound.ledger.cleared_le
  | taken _ _ nodes htaken => exact hrecorded.take htaken
  | cleared => exact hrecorded.clear

theorem start_recorded {pool : CTimerPool (ℕ × Data)}
    (hblank : ∀ i, pool.links.prev (.node i) = .null) : (start pool).Recorded :=
  ⟨nofun, fun i _ _ => hblank i, fun _ _ _ _ hlast => absurd hlast.1 (Nat.not_lt_zero _)⟩

theorem reaches_recorded [Inhabited Data] (hclock : Monotone clock) {start : Timers Data}
    (hstart : start.Sound clock lists used) (hrecorded : start.Recorded)
    (hreach : Transition.Reaches (step clock) Allowed start timers) :
    ∃ lists used, timers.Sound clock lists used ∧ timers.Recorded := by
  refine hreach.invariant
    (fun timers => ∃ lists used, timers.Sound clock lists used ∧ timers.Recorded)
    ⟨lists, used, hstart, hrecorded⟩ ?_
  rintro before after call ⟨lists, used, hsound, hrecorded⟩ hallowed hstep
  obtain ⟨lists', used', hpool, hchange⟩ := step_spec hclock hsound hallowed hstep
  exact ⟨lists', used', ⟨hpool, hsound.ledger.change hchange⟩,
    hrecorded.change hsound hpool hchange⟩

theorem exists_last {timer : ℕ} (hlt : timer < timers.added) :
    ∃ last, timer ≤ last ∧ timers.Last last ∧
      (timers.id last).offset = (timers.id timer).offset := by
  obtain ⟨last, hmem, hmax⟩ := Finset.exists_max_image
    ((Finset.range timers.added).filter fun other =>
      (timers.id other).offset = (timers.id timer).offset) (fun other => other)
    ⟨timer, Finset.mem_filter.mpr ⟨Finset.mem_range.mpr hlt, rfl⟩⟩
  obtain ⟨hadded, hsame⟩ := Finset.mem_filter.mp hmem
  refine ⟨last, ?_, ⟨Finset.mem_range.mp hadded, fun later hlater hadded heq => ?_⟩, hsame⟩
  · exact hmax timer (Finset.mem_filter.mpr ⟨Finset.mem_range.mpr hlt, rfl⟩)
  · have hle := hmax later (Finset.mem_filter.mpr
      ⟨Finset.mem_range.mpr hadded, heq.trans hsame⟩)
    exact absurd hlater (not_lt.mpr hle)

/-- What `DelTimer` does with a stale id. -/
theorem Recorded.refused_iff (hrecorded : timers.Recorded)
    (hsound : timers.Sound clock lists used) {timer : ℕ} (hstale : timers.Stale timer) :
    timers.Refused timer ↔ timers.pool.iTimerNodeNum = 0 ∨ ¬ timers.Last timer ∨
      timer < timers.clearedAt := by
  obtain ⟨i, hi, hoffset⟩ := hrecorded.exists_node timer hstale.added
  have hdel := delTimer_eq hsound.pool.ready hi (timers.id timer).random
  rw [← hoffset] at hdel
  constructor
  · -- the node still looks like that of a live timer
    rintro ⟨iRetVal, pool, heq, hret, -, -, -⟩
    by_contra hnot
    simp only [not_or, not_not, not_lt] at hnot
    obtain ⟨hnum, hlast, hcleared⟩ := hnot
    obtain ⟨hprev, hrandom⟩ := hrecorded.last i hi timer hcleared hlast hoffset
    have hvalid := hsound.pool.consistent.nodes.valid (Nat.zero_lt_of_lt hi)
    have hrelease := hvalid.releaseNode_eq hsound.pool.ready.sizeof_pos hi
    have hsuccess : ∃ after, timers.pool.delTimer (timers.id timer) =
        some (success, after) := by
      refine Exists.imp (fun after hafter => hdel.trans hafter) ?_
      rw [if_neg hnum, if_neg hprev, if_neg (not_not.mpr hrandom), CTimerPool.dropNode,
        hrelease]
      split_ifs <;> exact ⟨_, rfl⟩
    obtain ⟨after, hafter⟩ := hsuccess
    rw [hafter] at heq
    obtain ⟨rfl, -⟩ := Prod.mk.inj (Option.some.inj heq)
    rcases hret with hret | hret <;> exact absurd hret (by decide)
  · intro hcond
    by_cases hnum : timers.pool.iTimerNodeNum = 0
    · rw [if_pos hnum] at hdel
      exact ⟨_, _, hdel, .inl rfl, rfl, rfl, rfl⟩
    rw [if_neg hnum] at hdel
    by_cases hprev : timers.pool.links.prev (.node i) = .null
    · rw [if_pos hprev] at hdel
      exact ⟨_, _, hdel, .inr rfl, rfl, rfl, rfl⟩
    rw [if_neg hprev] at hdel
    -- the node was handed out since the pool was cleared, and to another timer
    obtain ⟨last, hle, hlast, hsame⟩ := exists_last hstale.added
    have hcleared : timers.clearedAt ≤ last := by
      by_contra hlt
      refine hprev (hrecorded.blank i hi fun later hlater hadded heq => ?_)
      exact hlast.2 later (by omega) hadded (heq.trans (hsame.trans hoffset).symm)
    have hne : timer ≠ last := by
      rintro rfl
      rcases hcond with hcond | hcond | hcond
      · exact hnum hcond
      · exact hcond hlast
      · exact absurd hcleared (not_le.mpr hcond)
    obtain ⟨-, hrandom⟩ := hrecorded.last i hi last hcleared hlast (hsame.trans hoffset)
    have hother := hstale.other last (lt_of_le_of_ne hle hne) hlast hsame
    rw [if_pos (hrandom ▸ hother)] at hdel
    exact ⟨_, _, hdel, .inl rfl, rfl, rfl, rfl⟩

end Timers

/-- In every run of a cleared pool whose `DelTimer` calls are for live timers, with
any clock that does not go back, `DelTimer` refuses the id of a timer that is gone
exactly if the pool has no timers, the node of that timer was handed out again, or
the pool has been cleared since. -/
theorem stale_timer_refused_iff [Inhabited Data]
    (clock : ℕ → Timeval) (hclock : Monotone clock)
    (memory pool : CTimerPool (ℕ × Data)) (iMemSize : ℤ) (hmax : iMemSize ≤ intMax)
    (hsizeof : 0 < memory.sizeofNode)
    (hinit : memory.init clock iMemSize = some (success, pool))
    (timers : Timers Data)
    (hreach : Transition.Reaches (Timers.step clock) Timers.Allowed (Timers.start pool)
      timers)
    (timer : ℕ) (hstale : timers.Stale timer) :
    timers.Refused timer ↔ timers.pool.iTimerNodeNum = 0 ∨ ¬ timers.Last timer ∨
      timer < timers.clearedAt := by
  obtain ⟨⟨nodePool, hclear⟩, hready, hpointers, hempty⟩ := init_spec hmax hsizeof hinit
  have hblank : ∀ i, pool.links.prev (.node i) = .null := by
    rw [hclear]
    exact fun _ => rfl
  obtain ⟨lists, used, hsound, hrecorded⟩ := Timers.reaches_recorded hclock
    (Timers.start_sound hready hpointers hempty) (Timers.start_recorded hblank) hreach
  exact hrecorded.refused_iff hsound hstale

/-- The only timer is deleted, and then once more. -/
theorem stale_timer_refused_iff_empty :
    ∃ (pool : CTimerPool (ℕ × ℕ)) (timers : Timers ℕ),
      blankPool.init steadyClock 5000 = some (success, pool) ∧
      timers.deleted = [0] ∧ timers.Stale 0 ∧ timers.Refused 0 := by
  obtain ⟨pool, timers, hinit, hreach, hvalues⟩ :=
    Timers.exists_run Timers.Allowed id [.addTimer 10 7 70, .delTimer 0]
      (fun timers => (timers.added, timers.deleted, timers.pool.iTimerNodeNum))
      (1, [0], 0) (show (blankPool.init steadyClock 5000).map _ = _ by decide)
      (by decide +kernel)
  simp only [Prod.mk.injEq] at hvalues
  obtain ⟨hadded, hdeleted, hnum⟩ := hvalues
  have hstale : timers.Stale 0 := by
    refine ⟨by omega, fun hlive => hlive.2.2.2 ?_, fun last hlt hlast => ?_⟩
    · rw [hdeleted]
      exact List.mem_singleton_self 0
    · have hlast := hlast.1
      omega
  exact ⟨pool, timers, hinit, hdeleted, hstale,
    (stale_timer_refused_iff steadyClock steadyClock_monotone blankPool pool 5000
      (by decide) (by decide) hinit timers hreach 0
      hstale).mpr (.inl hnum)⟩

/-- A timer that was deleted is deleted once more while another one is live: it
succeeds, and counts off the live one. -/
theorem stale_timer_deleted :
    ∃ (pool : CTimerPool (ℕ × ℕ)) (timers : Timers ℕ),
      blankPool.init steadyClock 5000 = some (success, pool) ∧
      Transition.Reaches (Timers.step steadyClock) Timers.Allowed (Timers.start pool)
        timers ∧
      timers.deleted = [0] ∧ timers.Stale 0 ∧ timers.Last 0 ∧ timers.Live 1 ∧
      timers.pool.iTimerNodeNum = 1 ∧ ¬ timers.Refused 0 ∧
      ∃ after, timers.pool.delTimer (timers.id 0) = some (success, after) ∧
        after.iTimerNodeNum = 0 := by
  obtain ⟨pool, timers, hinit, hreach, hvalues⟩ :=
    Timers.exists_run Timers.Allowed id
      [.addTimer 10 7 70, .addTimer 5000 8 80, .delTimer 0]
      (fun timers => ((timers.added, timers.deleted, timers.pool.iTimerNodeNum),
        (timers.id 0, timers.id 1), decide (timers.Live 1),
        (timers.pool.delTimer (timers.id 0)).map fun result =>
          (result.1, result.2.iTimerNodeNum)))
      ((2, [0], 1), (⟨4314, 70⟩, ⟨4362, 80⟩), true, some (success, 0))
      (show (blankPool.init steadyClock 5000).map _ = _ by decide) (by decide +kernel)
  simp only [Prod.mk.injEq, decide_eq_true_eq] at hvalues
  obtain ⟨⟨hadded, hdeleted, hnum⟩, ⟨hid, hid'⟩, hlive, hdel⟩ := hvalues
  obtain ⟨⟨ret, after⟩, hdel, hresult⟩ := Option.map_eq_some_iff.mp hdel
  obtain ⟨rfl, hafter⟩ := Prod.mk.inj hresult
  have hother : ∀ later, 0 < later → later < timers.added →
      (timers.id later).offset ≠ (timers.id 0).offset := by
    intro later hlater hlt
    obtain rfl : later = 1 := by omega
    rw [hid, hid']
    decide
  refine ⟨pool, timers, hinit, hreach, hdeleted,
    ⟨by omega, fun hgone => hgone.2.2.2 ?_, fun last hlt hlast heq => ?_⟩,
    ⟨by omega, hother⟩, hlive, hnum, ?_, after, hdel, hafter⟩
  · rw [hdeleted]
    exact List.mem_singleton_self 0
  · exact absurd heq (hother last hlt hlast.1)
  · rintro ⟨iRetVal, other, heq, hret, -⟩
    rw [hdel] at heq
    obtain ⟨rfl, -⟩ := Prod.mk.inj (Option.some.inj heq)
    rcases hret with hret | hret <;> exact absurd hret (by decide)

end MessageBus.TimerPool
