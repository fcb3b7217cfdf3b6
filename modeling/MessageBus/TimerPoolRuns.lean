import MessageBus.TimerPoolCalls
import MessageBus.Transition

/-!
# Runs of a pool of timers

The timers are numbered as they are added, and each carries its number in its
parameter.  The lists of the pool hold the live timers, in every state of every
run.
-/

namespace MessageBus.TimerPool

open DoubleLinks MemPool

variable {Data : Type} {clock : ℕ → Timeval}

/-- A pool with its past: the number of the timers that were added, their ids, the
timers that were returned and deleted, and how many had been added when the pool
was last cleared. -/
structure Timers (Data : Type) where
  pool : CTimerPool (ℕ × Data)
  added : ℕ
  id : ℕ → TimerID
  returned : List ℕ
  deleted : List ℕ
  clearedAt : ℕ

/-- A call of the owner of the pool; a timer is named by its number. -/
inductive Call (Data : Type) where
  | addTimer (uiInterval : UInt32) (TimerParam : Data) (uiRandom : UInt32)
  | delTimer (timer : ℕ)
  | getTimer

namespace Timers

def start (pool : CTimerPool (ℕ × Data)) : Timers Data where
  pool := pool
  added := 0
  id := fun _ => ⟨0, 0⟩
  returned := []
  deleted := []
  clearedAt := 0

variable (timers : Timers Data)

/-- The timer was added since the pool was cleared, and neither returned nor
deleted. -/
def Live (timer : ℕ) : Prop :=
  timers.clearedAt ≤ timer ∧ timer < timers.added ∧
    timer ∉ timers.returned ∧ timer ∉ timers.deleted

instance (timer : ℕ) : Decidable (timers.Live timer) :=
  inferInstanceAs (Decidable (_ ∧ _))

/-- Only live timers are deleted. -/
def Allowed : Call Data → Prop
  | .delTimer timer => timers.Live timer
  | _ => True

instance (call : Call Data) : Decidable (timers.Allowed call) := by
  cases call <;> unfold Allowed <;> infer_instance

def step [Inhabited Data] (clock : ℕ → Timeval) (timers : Timers Data) :
    Call Data → Option (Timers Data)
  | .addTimer uiInterval TimerParam uiRandom =>
      (timers.pool.addTimer clock uiInterval (timers.added, TimerParam) uiRandom).map
        fun (_, ullTimerID, pool) =>
          match ullTimerID with
          | none => { timers with pool := pool }
          | some ullTimerID =>
              { timers with
                pool := pool
                added := timers.added + 1
                id := Function.update timers.id timers.added ullTimerID }
  | .delTimer timer =>
      (timers.pool.delTimer (timers.id timer)).map fun (iRetVal, pool) =>
        if iRetVal = success then
          { timers with pool := pool, deleted := timers.deleted ++ [timer] }
        else { timers with pool := pool }
  | .getTimer =>
      (timers.pool.getTimer clock).map fun (_, fired, pool) =>
        { timers with
          pool := pool
          returned := timers.returned ++ fired.map fun (_, TimerParam) => TimerParam.1
          clearedAt :=
            if Stalled clock timers.pool then timers.added else timers.clearedAt }

/-- The number of the timer in a node. -/
def number (i : ℕ) : ℕ := (timers.pool.node i).TimerParam.1

/-- The nodes in use hold the live timers. -/
structure Ledger (used : Finset ℕ) : Prop where
  live_iff : ∀ timer, timers.Live timer ↔ ∃ i ∈ used, timers.number i = timer
  number_inj : ∀ i ∈ used, ∀ j ∈ used, timers.number i = timers.number j → i = j
  id_eq : ∀ i ∈ used, timers.id (timers.number i) = timers.pool.timerID i
  done_nodup : (timers.returned ++ timers.deleted).Nodup
  done_lt : ∀ timer ∈ timers.returned ++ timers.deleted, timer < timers.added
  cleared_le : timers.clearedAt ≤ timers.added

/-- The pool is in order and holds the live timers. -/
structure Sound (clock : ℕ → Timeval) (lists : ℕ → List Cell) (used : Finset ℕ) :
    Prop where
  pool : PoolOk clock timers.pool lists used
  ledger : timers.Ledger used

/-- A timer more, in the node `i`. -/
def withTimer (clock : ℕ → Timeval) (uiInterval : UInt32) (TimerParam : Data)
    (uiRandom : UInt32) (i : ℕ) : Timers Data :=
  let pool := timers.pool.withTimer clock uiInterval (timers.added, TimerParam) uiRandom i
  { timers with
    pool := pool
    added := timers.added + 1
    id := Function.update timers.id timers.added (pool.timerID i) }

/-- The timers in `nodes` have been returned or deleted. -/
structure TakenFrom (timers timers' : Timers Data) (used used' : Finset ℕ)
    (nodes : List ℕ) : Prop where
  alike : Alike timers.pool timers'.pool
  id_eq : timers'.id = timers.id
  added_eq : timers'.added = timers.added
  clearedAt_eq : timers'.clearedAt = timers.clearedAt
  done_perm : (timers'.returned ++ timers'.deleted).Perm
    (timers.returned ++ timers.deleted ++ nodes.map timers.number)
  nodup : nodes.Nodup
  mem_used : ∀ i ∈ nodes, i ∈ used
  used_iff : ∀ i, i ∈ used' ↔ i ∈ used ∧ i ∉ nodes

/-- What a call does. -/
inductive Change (clock : ℕ → Timeval) (timers : Timers Data) (used : Finset ℕ) :
    Timers Data → Finset ℕ → Prop where
  | refused : Change clock timers used timers used
  | added (uiInterval : UInt32) (TimerParam : Data) (uiRandom : UInt32) (i : ℕ)
      (hfresh : i ∉ used) :
      Change clock timers used
        (timers.withTimer clock uiInterval TimerParam uiRandom i) (insert i used)
  | taken (timers' : Timers Data) (used' : Finset ℕ) (nodes : List ℕ)
      (htaken : TakenFrom timers timers' used used' nodes) :
      Change clock timers used timers' used'
  | cleared [Inhabited Data] :
      Change clock timers used { timers with
        pool := { timers.pool with readings := timers.pool.readings + 1 }.cleared clock
        clearedAt := timers.added } ∅

variable {timers} {timers' : Timers Data} {lists : ℕ → List Cell} {used : Finset ℕ}

/-- Timers are taken out, and returned or deleted. -/
theorem Ledger.take {used' : Finset ℕ} {nodes : List ℕ} (hledger : timers.Ledger used)
    (htaken : TakenFrom timers timers' used used' nodes) : timers'.Ledger used' := by
  have hadded := htaken.added_eq
  have hdone := htaken.done_perm
  have hused := htaken.used_iff
  have hmem := htaken.mem_used
  have hnumber : timers'.number = timers.number := by
    funext i
    rw [number, number, htaken.alike.node_eq]
  have hlive : ∀ timer, timers'.Live timer ↔
      timers.Live timer ∧ timer ∉ nodes.map timers.number := by
    intro timer
    have hiff := hdone.mem_iff (a := timer)
    rw [List.mem_append, List.mem_append, List.mem_append] at hiff
    unfold Live
    rw [hadded, htaken.clearedAt_eq]
    tauto
  have hnodes : ∀ i ∈ used, timers.number i ∈ nodes.map timers.number → i ∈ nodes := by
    intro i hi hin
    obtain ⟨j, hj, heq⟩ := List.mem_map.mp hin
    rwa [← hledger.number_inj j (hmem j hj) i hi heq]
  refine ⟨fun timer => ?_, fun i hi j hj => ?_, fun i hi => ?_, ?_, fun timer ht => ?_,
    ?_⟩
  · rw [hlive, hledger.live_iff, hnumber]
    constructor
    · rintro ⟨⟨i, hi, rfl⟩, hout⟩
      exact ⟨i, (hused i).mpr ⟨hi, fun hin => hout (List.mem_map_of_mem hin)⟩, rfl⟩
    · rintro ⟨i, hi, rfl⟩
      obtain ⟨hi, hout⟩ := (hused i).mp hi
      exact ⟨⟨i, hi, rfl⟩, fun hin => hout (hnodes i hi hin)⟩
  · rw [hnumber]
    exact hledger.number_inj i ((hused i).mp hi).1 j ((hused j).mp hj).1
  · rw [htaken.id_eq, hnumber, htaken.alike.timerID_eq]
    exact hledger.id_eq i ((hused i).mp hi).1
  · refine hdone.nodup_iff.mpr (List.nodup_append.mpr ⟨hledger.done_nodup, ?_, ?_⟩)
    · exact htaken.nodup.map_on fun i hi j hj =>
        hledger.number_inj i (hmem i hi) j (hmem j hj)
    · rintro timer ht other ho rfl
      obtain ⟨i, hi, rfl⟩ := List.mem_map.mp ho
      obtain ⟨-, -, hout, hout'⟩ := (hledger.live_iff _).mpr ⟨i, hmem i hi, rfl⟩
      rcases List.mem_append.mp ht with ht | ht
      · exact hout ht
      · exact hout' ht
  · rw [hadded]
    rcases List.mem_append.mp (hdone.mem_iff.mp ht) with ht | ht
    · exact hledger.done_lt timer ht
    · obtain ⟨i, hi, rfl⟩ := List.mem_map.mp ht
      exact ((hledger.live_iff _).mpr ⟨i, hmem i hi, rfl⟩).2.1
  · rw [htaken.clearedAt_eq, hadded]
    exact hledger.cleared_le

section WithTimer

variable {uiInterval : UInt32} {TimerParam : Data} {uiRandom : UInt32} {i j : ℕ}

theorem withTimer_node_self :
    (timers.withTimer clock uiInterval TimerParam uiRandom i).pool.node i =
      ⟨(clock timers.pool.readings).after uiInterval, uiRandom,
        (timers.added, TimerParam)⟩ :=
  Function.update_self ..

theorem withTimer_node (hne : j ≠ i) :
    (timers.withTimer clock uiInterval TimerParam uiRandom i).pool.node j =
      timers.pool.node j :=
  Function.update_of_ne hne ..

theorem withTimer_timerID (hne : j ≠ i) :
    (timers.withTimer clock uiInterval TimerParam uiRandom i).pool.timerID j =
      timers.pool.timerID j := by
  rw [CTimerPool.timerID, withTimer_node hne]
  rfl

theorem Ledger.add (hledger : timers.Ledger used) (hfresh : i ∉ used) :
    (timers.withTimer clock uiInterval TimerParam uiRandom i).Ledger (insert i used) := by
  have hlt : ∀ j ∈ used, timers.number j < timers.added := fun j hj =>
    ((hledger.live_iff _).mpr ⟨j, hj, rfl⟩).2.1
  have hne : ∀ j ∈ used, j ≠ i := by
    rintro j hj rfl
    exact hfresh hj
  have hold : ∀ j ∈ used,
      (timers.withTimer clock uiInterval TimerParam uiRandom i).number j =
        timers.number j := fun j hj => by
    rw [number, withTimer_node (hne j hj), number]
  have hnumber : (timers.withTimer clock uiInterval TimerParam uiRandom i).number i =
      timers.added := by
    rw [number, withTimer_node_self]
  refine ⟨fun timer => ?_, fun j hj k hk => ?_, fun j hj => ?_, hledger.done_nodup,
    fun timer ht => (hledger.done_lt timer ht).trans (Nat.lt_succ_self _),
    Nat.le_succ_of_le hledger.cleared_le⟩
  · by_cases hnew : timer = timers.added
    · refine iff_of_true ?_ ⟨i, Finset.mem_insert_self i used, hnew ▸ hnumber⟩
      refine ⟨hnew ▸ hledger.cleared_le, hnew ▸ Nat.lt_succ_self _, fun ht => ?_,
        fun ht => ?_⟩
      · exact (hledger.done_lt timer (List.mem_append_left _ ht)).ne hnew
      · exact (hledger.done_lt timer (List.mem_append_right _ ht)).ne hnew
    · have hadded : timer < timers.added + 1 ↔ timer < timers.added := by omega
      refine Iff.trans (and_congr Iff.rfl (and_congr hadded Iff.rfl))
        ((hledger.live_iff timer).trans ?_)
      constructor
      · rintro ⟨j, hj, rfl⟩
        exact ⟨j, Finset.mem_insert_of_mem hj, hold j hj⟩
      · rintro ⟨j, hj, rfl⟩
        rcases Finset.mem_insert.mp hj with rfl | hj
        · exact absurd hnumber hnew
        · exact ⟨j, hj, (hold j hj).symm⟩
  · rcases Finset.mem_insert.mp hj with rfl | hj' <;>
      rcases Finset.mem_insert.mp hk with rfl | hk'
    · exact fun _ => rfl
    · rw [hnumber, hold k hk']
      exact fun heq => absurd heq (hlt k hk').ne'
    · rw [hnumber, hold j hj']
      exact fun heq => absurd heq (hlt j hj').ne
    · rw [hold j hj', hold k hk']
      exact hledger.number_inj j hj' k hk'
  · rcases Finset.mem_insert.mp hj with rfl | hj
    · rw [hnumber]
      exact Function.update_self ..
    · rw [hold j hj, withTimer_timerID (hne j hj)]
      exact (Function.update_of_ne (hlt j hj).ne ..).trans (hledger.id_eq j hj)

end WithTimer

theorem Ledger.clear (hledger : timers.Ledger used) {pool : CTimerPool (ℕ × Data)} :
    { timers with pool := pool, clearedAt := timers.added }.Ledger ∅ := by
  refine ⟨fun timer => ?_, nofun, nofun, hledger.done_nodup, hledger.done_lt, le_rfl⟩
  refine iff_of_false (fun hlive => absurd hlive.2.1 (not_lt.mpr hlive.1)) ?_
  rintro ⟨i, hi, -⟩
  exact absurd hi (Finset.notMem_empty i)

theorem Ledger.change {used' : Finset ℕ} (hledger : timers.Ledger used)
    (hchange : Change clock timers used timers' used') : timers'.Ledger used' := by
  cases hchange with
  | refused => exact hledger
  | added uiInterval TimerParam uiRandom i hfresh => exact hledger.add hfresh
  | taken _ _ nodes htaken => exact hledger.take htaken
  | cleared => exact hledger.clear

section Step

variable [Inhabited Data]

theorem step_addTimer (hclock : Monotone clock) (hsound : timers.Sound clock lists used)
    (hpos : 0 < timers.pool.m_objTimerNodePool.iNodeNum) (uiInterval : UInt32)
    (TimerParam : Data) (uiRandom : UInt32) :
    ∃ timers' lists' used',
      timers.step clock (.addTimer uiInterval TimerParam uiRandom) = some timers' ∧
      PoolOk clock timers'.pool lists' used' ∧
      Change clock timers used timers' used' := by
  rcases addTimer_spec hsound.pool.consistent hpos uiInterval (timers.added, TimerParam)
    uiRandom with ⟨iRetVal, hadd⟩ | ⟨i, hfresh, hadd, hok⟩
  · refine ⟨timers, lists, used, ?_, hsound.pool, .refused⟩
    rw [step, hadd]
    rfl
  · refine ⟨timers.withTimer clock uiInterval TimerParam uiRandom i, _, insert i used, ?_,
      hsound.pool.addTimer hclock hfresh hok, .added _ _ _ i hfresh⟩
    rw [step, hadd]
    rfl

/-- `AddTimer` refuses or takes a node that is not in use, also in a pool
without nodes. -/
theorem step_addTimer_cases (hok : Consistent timers.pool lists used)
    {uiInterval : UInt32} {TimerParam : Data} {uiRandom : UInt32}
    (hstep : timers.step clock (.addTimer uiInterval TimerParam uiRandom) = some timers') :
    timers' = timers ∨ ∃ i, i ∉ used ∧
      timers' = timers.withTimer clock uiInterval TimerParam uiRandom i ∧
      Consistent (timers.withTimer clock uiInterval TimerParam uiRandom i).pool
        (Function.update lists (chooseBucket timers.pool.uiCurPt 4 1 (uiInterval / 10).toNat)
          (.node i ::
            lists (chooseBucket timers.pool.uiCurPt 4 1 (uiInterval / 10).toNat)))
        (insert i used) := by
  rcases Nat.eq_zero_or_pos timers.pool.m_objTimerNodePool.iNodeNum with hzero | hpos
  · left
    by_cases hinterval : uiInterval = 0
    · rw [step, CTimerPool.addTimer, if_pos hinterval] at hstep
      exact (Option.some.inj hstep).symm
    · rw [step, CTimerPool.addTimer, if_neg hinterval,
        CFixedsizeMemPool.allocateNode, if_pos hzero] at hstep
      cases hstep
  · rcases addTimer_spec hok hpos uiInterval (timers.added, TimerParam) uiRandom with
      ⟨iRetVal, hadd⟩ | ⟨i, hfresh, hadd, hadded⟩
    · rw [step, hadd] at hstep
      exact Or.inl (Option.some.inj hstep).symm
    · rw [step, hadd] at hstep
      exact Or.inr ⟨i, hfresh, (Option.some.inj hstep).symm, hadded⟩

theorem step_delTimer (hsound : timers.Sound clock lists used) {timer : ℕ}
    (hlive : timers.Live timer) :
    ∃ timers' lists' used', timers.step clock (.delTimer timer) = some timers' ∧
      PoolOk clock timers'.pool lists' used' ∧
      Change clock timers used timers' used' := by
  obtain ⟨i, hi, rfl⟩ := (hsound.ledger.live_iff timer).mp hlive
  obtain ⟨hkept, lists', hok⟩ := hsound.pool.delTimer hi
  refine ⟨{ timers with
    pool := timers.pool.without i
    deleted := timers.deleted ++ [timers.number i] }, lists', used.erase i, ?_, hok,
    .taken _ _ [i] ⟨hkept.toAlike, rfl, rfl, rfl, ?_, List.nodup_singleton i,
      fun j hj => ?_, fun j => ?_⟩⟩
  · rw [step, hsound.ledger.id_eq i hi,
      delTimer_of_mem hsound.pool.ready hsound.pool.consistent hi]
    rfl
  · rw [List.map_singleton, List.append_assoc]
  · rwa [List.mem_singleton.mp hj]
  · rw [Finset.mem_erase, List.mem_singleton, and_comm]

theorem step_getTimer (hclock : Monotone clock) (hsound : timers.Sound clock lists used) :
    ∃ timers' lists' used', timers.step clock .getTimer = some timers' ∧
      PoolOk clock timers'.pool lists' used' ∧
      Change clock timers used timers' used' := by
  by_cases hstalled : Stalled clock timers.pool
  · refine ⟨_, _, _, ?_, hsound.pool.cleared, .cleared⟩
    rw [step, getTimer_of_stalled hsound.pool.ready hstalled, if_pos hstalled]
    simp
  · obtain ⟨fired, after, lists', used', nodes, hget, hkept, hok, htaken⟩ :=
      hsound.pool.getTimer hclock hstalled
    refine ⟨{ timers with
      pool := after
      returned := timers.returned ++ fired.map fun (_, TimerParam) => TimerParam.1 },
      lists', used', ?_, hok, .taken _ _ nodes
        ⟨(scanned_alike timers.pool).trans hkept.toAlike, rfl, rfl, rfl, ?_, htaken.nodup,
          htaken.mem_used, htaken.used_iff⟩⟩
    · rw [step, hget, if_neg hstalled]
      rfl
    · have hnumbers : (fired.map fun (_, TimerParam) => TimerParam.1) =
          nodes.map timers.number := by
        rw [htaken.fired_eq, CTimerPool.entries, List.map_map]
        rfl
      rw [hnumbers, List.append_assoc, List.append_assoc]
      exact (List.perm_append_comm).append_left _

/-- What a call does that is allowed and has a result. -/
theorem step_spec (hclock : Monotone clock) (hsound : timers.Sound clock lists used)
    {call : Call Data} (hallowed : timers.Allowed call)
    (hstep : timers.step clock call = some timers') :
    ∃ lists' used', PoolOk clock timers'.pool lists' used' ∧
      Change clock timers used timers' used' := by
  cases call with
  | addTimer uiInterval TimerParam uiRandom =>
      rcases step_addTimer_cases hsound.pool.consistent hstep with
        rfl | ⟨i, hfresh, rfl, hok⟩
      · exact ⟨lists, used, hsound.pool, .refused⟩
      · exact ⟨_, insert i used, hsound.pool.addTimer hclock hfresh hok,
          .added _ _ _ i hfresh⟩
  | delTimer timer =>
      obtain ⟨next, lists', used', heq, hspec⟩ := step_delTimer hsound hallowed
      obtain rfl := Option.some.inj (heq.symm.trans hstep)
      exact ⟨lists', used', hspec⟩
  | getTimer =>
      obtain ⟨next, lists', used', heq, hspec⟩ := step_getTimer hclock hsound
      obtain rfl := Option.some.inj (heq.symm.trans hstep)
      exact ⟨lists', used', hspec⟩

theorem step_defined (hclock : Monotone clock) (hsound : timers.Sound clock lists used)
    (hpos : 0 < timers.pool.m_objTimerNodePool.iNodeNum) {call : Call Data}
    (hallowed : timers.Allowed call) :
    ∃ timers', timers.step clock call = some timers' := by
  cases call with
  | addTimer uiInterval TimerParam uiRandom =>
      obtain ⟨timers', _, _, hstep, -⟩ :=
        step_addTimer hclock hsound hpos uiInterval TimerParam uiRandom
      exact ⟨timers', hstep⟩
  | delTimer timer =>
      obtain ⟨timers', _, _, hstep, -⟩ := step_delTimer hsound hallowed
      exact ⟨timers', hstep⟩
  | getTimer =>
      obtain ⟨timers', _, _, hstep, -⟩ := step_getTimer hclock hsound
      exact ⟨timers', hstep⟩

end Step

theorem Change.nodeNum_eq {used' : Finset ℕ}
    (hchange : Change clock timers used timers' used') :
    timers'.pool.m_objTimerNodePool.iNodeNum =
      timers.pool.m_objTimerNodePool.iNodeNum := by
  cases hchange with
  | taken _ _ _ htaken => exact htaken.alike.nodeNum_eq
  | _ => rfl

theorem start_sound {pool : CTimerPool (ℕ × Data)} (hready : Ready pool)
    (hpointers : PointersOk pool.uiCurPt)
    (hok : Consistent pool lists ∅) : (start pool).Sound clock lists ∅ := by
  refine ⟨.of_empty hready hok hpointers,
    ⟨fun timer => ?_, nofun, nofun, List.nodup_nil, nofun, le_rfl⟩⟩
  refine iff_of_false (fun hlive => absurd hlive.2.1 (Nat.not_lt_zero timer)) ?_
  rintro ⟨i, hi, -⟩
  exact absurd hi (Finset.notMem_empty i)

theorem reaches_sound [Inhabited Data] (hclock : Monotone clock) {start : Timers Data}
    (hstart : start.Sound clock lists used)
    (hreach : Transition.Reaches (step clock) Allowed start timers) :
    (∃ lists used, timers.Sound clock lists used) ∧
      timers.pool.m_objTimerNodePool.iNodeNum =
        start.pool.m_objTimerNodePool.iNodeNum := by
  refine hreach.invariant (fun timers => (∃ lists used, timers.Sound clock lists used) ∧
    timers.pool.m_objTimerNodePool.iNodeNum = start.pool.m_objTimerNodePool.iNodeNum)
    ⟨⟨lists, used, hstart⟩, rfl⟩ ?_
  rintro before after call ⟨⟨lists, used, hsound⟩, hnum⟩ hallowed hstep
  obtain ⟨lists', used', hpool, hchange⟩ := step_spec hclock hsound hallowed hstep
  exact ⟨⟨lists', used', hpool, hsound.ledger.change hchange⟩,
    hchange.nodeNum_eq.trans hnum⟩

end Timers

theorem Consistent.sum_length {pool : CTimerPool Data} {lists : ℕ → List Cell}
    {used : Finset ℕ} (hok : Consistent pool lists used) :
    ∑ b ∈ Finset.range tballNum, (lists b).length = used.card := by
  have hcells : (Finset.range tballNum).biUnion (fun b => (lists b).toFinset) =
      used.image .node := by
    ext cell
    rw [Finset.mem_biUnion, Finset.mem_image]
    constructor
    · rintro ⟨b, -, hcell⟩
      obtain ⟨i, hi, rfl⟩ := hok.exists_node (List.mem_toFinset.mp hcell)
      exact ⟨i, hi, rfl⟩
    · rintro ⟨i, hi, rfl⟩
      obtain ⟨b, hb⟩ := (hok.mem_iff (.node i)).mpr ⟨i, hi, rfl⟩
      exact ⟨b, Finset.mem_range.mpr (hok.lt_tballNum hb), List.mem_toFinset.mpr hb⟩
  have hcard := Finset.card_image_of_injective used fun _ _ => Cell.node.inj
  rw [← hcells, Finset.card_biUnion] at hcard
  · rw [← hcard]
    exact Finset.sum_congr rfl fun b _ =>
      (List.toFinset_card_of_nodup (hok.threads.nodup b)).symm
  · intro b _ c _ hne
    refine Finset.disjoint_left.mpr fun cell hb hc => hne ?_
    exact hok.threads.apart b c cell (List.mem_toFinset.mp hb) (List.mem_toFinset.mp hc)

/-- In every run of a cleared pool whose `DelTimer` calls are for live timers, with
any clock that does not go back, the lists behind the buckets are linked forth and
back and end; each live timer stands in exactly one of them and nothing else does;
`iTimerNodeNum` and the used nodes of the pool of nodes are as many as the nodes in
the lists; no timer is returned or deleted twice, or both, and none that is live has
been.  With at least one node every further call has a result. -/
theorem timer_lists_consistent [Inhabited Data]
    (clock : ℕ → Timeval) (hclock : Monotone clock)
    (memory pool : CTimerPool (ℕ × Data)) (iMemSize : ℤ) (hmax : iMemSize ≤ intMax)
    (hsizeof : 0 < memory.sizeofNode)
    (hinit : memory.init clock iMemSize = some (success, pool))
    (timers : Timers Data)
    (hreach : Transition.Reaches (Timers.step clock) Timers.Allowed (Timers.start pool)
      timers) :
    (∃ lists : ℕ → List Cell,
      Threads timers.pool.links .null .bucket lists ∧
      (∀ b, tballNum ≤ b → lists b = []) ∧
      (∀ timer, timers.Live timer → ∃ i,
        timers.id timer = timers.pool.timerID i ∧
        (timers.pool.node i).TimerParam.1 = timer ∧ ∃! b, .node i ∈ lists b) ∧
      (∀ b, ∀ cell ∈ lists b, ∃ i, cell = .node i ∧
        timers.Live (timers.pool.node i).TimerParam.1) ∧
      timers.pool.iTimerNodeNum =
        (∑ b ∈ Finset.range tballNum, (lists b).length : ℕ) ∧
      timers.pool.m_objTimerNodePool.iUsedNodeNum =
        (∑ b ∈ Finset.range tballNum, (lists b).length : ℕ)) ∧
    (timers.returned ++ timers.deleted).Nodup ∧
    (∀ timer ∈ timers.returned ++ timers.deleted, ¬ timers.Live timer) ∧
    (0 < pool.m_objTimerNodePool.iNodeNum → ∀ call, timers.Allowed call →
      ∃ next, timers.step clock call = some next) := by
  obtain ⟨-, hready, hpointers, hempty⟩ := init_spec hmax hsizeof hinit
  obtain ⟨⟨lists, used, hsound⟩, hnum⟩ :=
    Timers.reaches_sound hclock (Timers.start_sound hready hpointers hempty) hreach
  obtain ⟨hpool, hledger⟩ := hsound
  have hok := hpool.consistent
  refine ⟨⟨lists, hok.threads, hok.outside, fun timer hlive => ?_, fun b cell hcell => ?_,
    ?_, ?_⟩, hledger.done_nodup, fun timer hdone hlive => ?_, fun hpos call hallowed => ?_⟩
  · obtain ⟨i, hi, rfl⟩ := (hledger.live_iff timer).mp hlive
    obtain ⟨b, hb⟩ := (hok.mem_iff (.node i)).mpr ⟨i, hi, rfl⟩
    exact ⟨i, hledger.id_eq i hi, rfl, b, hb, fun c hc => hok.threads.apart c b _ hc hb⟩
  · obtain ⟨i, hi, rfl⟩ := hok.exists_node hcell
    exact ⟨i, rfl, (hledger.live_iff _).mpr ⟨i, hi, rfl⟩⟩
  · rw [hok.sum_length, hok.num]
  · rw [hok.sum_length, hok.nodes.used_eq]
  · rcases List.mem_append.mp hdone with hdone | hdone
    · exact hlive.2.2.1 hdone
    · exact hlive.2.2.2 hdone
  · exact Timers.step_defined hclock ⟨hpool, hledger⟩ (hnum ▸ hpos) hallowed

/-- A run from given calls, with what is seen of the last state. -/
theorem Timers.exists_run [Inhabited Data] {memory : CTimerPool (ℕ × Data)}
    {iMemSize : ℤ} (allowed : Timers Data → Call Data → Prop)
    [∀ timers call, Decidable (allowed timers call)]
    (prepare : CTimerPool (ℕ × Data) → CTimerPool (ℕ × Data))
    (calls : List (Call Data)) {Seen : Type} (seen : Timers Data → Seen) (value : Seen)
    (hinit : (memory.init clock iMemSize).map (fun result => result.1) = some success)
    (hrun : (((memory.init clock iMemSize).bind fun result =>
      Transition.replay (Timers.step clock) allowed (Timers.start (prepare result.2))
        calls).map seen) = some value) :
    ∃ pool timers, memory.init clock iMemSize = some (success, pool) ∧
      Transition.Reaches (Timers.step clock) allowed (Timers.start (prepare pool))
        timers ∧ seen timers = value := by
  obtain ⟨⟨iRetVal, pool⟩, hinit, rfl⟩ := Option.map_eq_some_iff.mp hinit
  obtain ⟨timers, hreplay, hseen⟩ := Option.map_eq_some_iff.mp hrun
  rw [hinit, Option.bind_some] at hreplay
  exact ⟨pool, timers, hinit, Transition.reaches_of_replay hreplay, hseen⟩

/-- A clock that goes on by 10 ms with every reading. -/
def steadyClock (reading : ℕ) : Timeval := ⟨reading / 100, reading % 100 * 10000⟩

theorem steadyClock_monotone : Monotone steadyClock := by
  refine ⟨fun reading => ?_, fun reading => ?_, fun left right hle => ?_⟩ <;>
    simp only [steadyClock, Timeval.total] <;> omega

/-- Memory with nothing in it yet. -/
def blankPool : CTimerPool (ℕ × ℕ) where
  sizeofNode := 48
  m_iMemSize := 0
  tLastScanTime := ⟨0, 0⟩
  uiCurPt := fun _ => 0
  iTimerNodeNum := 0
  links := ⟨fun _ => .null, fun _ => .null⟩
  node := fun _ => ⟨⟨0, 0⟩, 0, (0, 0)⟩
  m_objTimerNodePool := blankMemory
  readings := 0

/-- One of two timers is deleted, and the other is returned. -/
theorem timer_lists_consistent_two :
    ∃ (pool : CTimerPool (ℕ × ℕ)) (timers : Timers ℕ),
      blankPool.init steadyClock 5000 = some (success, pool) ∧
      timers.returned = [0] ∧ timers.deleted = [1] ∧ ¬ timers.Live 0 ∧
      timers.pool.iTimerNodeNum = 0 ∧
      (∀ call, timers.Allowed call → ∃ next, timers.step steadyClock call = some next) ∧
      (timers.returned ++ timers.deleted).Nodup := by
  obtain ⟨pool, timers, hinit, hreach, hvalues⟩ :=
    Timers.exists_run Timers.Allowed id
      [.addTimer 10 7 70, .addTimer 5000 8 80, .delTimer 1, .getTimer]
      (fun timers => (timers.returned, timers.deleted, timers.pool.iTimerNodeNum))
      ([0], [1], 0) (show (blankPool.init steadyClock 5000).map _ = _ by decide)
      (by decide +kernel)
  have hpool : pool.m_objTimerNodePool.iNodeNum = 13 := by
    have hnum : (blankPool.init steadyClock 5000).map
        (fun result => result.2.m_objTimerNodePool.iNodeNum) = some 13 := by decide
    rw [hinit] at hnum
    exact Option.some.inj hnum
  simp only [Prod.mk.injEq] at hvalues
  obtain ⟨hreturned, hdeleted, hnum⟩ := hvalues
  obtain ⟨-, hnodup, hdone, hdefined⟩ :=
    timer_lists_consistent steadyClock steadyClock_monotone blankPool pool 5000 (by decide)
      (by decide) hinit timers hreach
  refine ⟨pool, timers, hinit, hreturned, hdeleted, hdone 0 ?_, hnum,
    hdefined (by omega), hnodup⟩
  rw [hreturned]
  exact List.mem_append_left _ (List.mem_singleton_self 0)

end MessageBus.TimerPool
