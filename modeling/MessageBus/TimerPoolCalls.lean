import MessageBus.TimerPoolLists

/-!
# The calls of the users of `CTimerPool`

What `AddTimer`, `DelTimer` and `GetTimer` give and do on a pool with consistent
lists.
-/

namespace MessageBus.TimerPool

open DoubleLinks MemPool

variable {Data : Type} {clock : ℕ → Timeval} {pool : CTimerPool Data}
  {lists : ℕ → List Cell} {used : Finset ℕ}

/-! ## `Init` -/

/-- The pool has its place in the memory, and `Init` finds the same place again. -/
structure Ready (pool : CTimerPool Data) : Prop where
  head_lt : CTimerPool.headSize < pool.m_iMemSize
  le_max : pool.m_iMemSize ≤ intMax
  sizeof_pos : 0 < pool.sizeofNode
  again : ∀ nodePool : CFixedsizeMemPool,
    nodePool.init pool.sizeofNode true (pool.m_iMemSize - CTimerPool.headSize) 0 1 =
      some (success, nodePool.clear pool.sizeofNode
        (pool.m_iMemSize - CTimerPool.headSize) pool.m_objTimerNodePool.iNodeNum)
  fits : pool.nodeOffset pool.m_objTimerNodePool.iNodeNum ≤ pool.m_iMemSize

theorem Ready.congr (hready : Ready pool) {other : CTimerPool Data}
    (hsizeof : other.sizeofNode = pool.sizeofNode)
    (hmem : other.m_iMemSize = pool.m_iMemSize)
    (hnum : other.m_objTimerNodePool.iNodeNum = pool.m_objTimerNodePool.iNodeNum) :
    Ready other := by
  obtain ⟨hhead, hmax, hpos, hagain, hfits⟩ := hready
  refine ⟨hmem ▸ hhead, hmem ▸ hmax, hsizeof ▸ hpos, ?_, ?_⟩
  · rwa [hsizeof, hmem, hnum]
  · rw [CTimerPool.nodeOffset, CTimerPool.dataOffset] at hfits ⊢
    rwa [hsizeof, hmem, hnum]

theorem Alike.ready {before after : CTimerPool Data} (halike : Alike before after)
    (hready : Ready before) : Ready after :=
  hready.congr halike.sizeofNode_eq halike.memSize_eq halike.nodeNum_eq

/-- A pool of nodes that is initialised anew. -/
theorem clear_of_init {nodePool nodePool' : CFixedsizeMemPool} {sizeofData : ℕ}
    {iMemSize : ℤ}
    (hinit : nodePool.init sizeofData true iMemSize 0 1 = some (success, nodePool')) :
    nodePool' = nodePool.clear sizeofData iMemSize
        (initNodeNum sizeofData iMemSize 0).toNat ∧
      ∀ other : CFixedsizeMemPool, other.init sizeofData true iMemSize 0 1 =
        some (success, other.clear sizeofData iMemSize
          (initNodeNum sizeofData iMemSize 0).toNat) := by
  simp only [CFixedsizeMemPool.init, lt_self_iff_false, if_false, if_true,
    Bool.true_eq_false] at hinit ⊢
  split_ifs at hinit with hsize hneg
  · have herror : eMemSize = success := congrArg Prod.fst (Option.some.inj hinit)
    exact absurd herror (by decide)
  · refine ⟨(congrArg Prod.snd (Option.some.inj hinit)).symm, fun other => ?_⟩
    rw [if_neg hsize, if_neg hneg]
    rfl

theorem clear_consistent [Inhabited Data] {nodePool : CFixedsizeMemPool}
    {iMemSize iNodeMemSize : ℤ} {iNodeNum : ℕ} (hsizeof : 0 < pool.sizeofNode) :
    Consistent (pool.clear clock
      (nodePool.clear pool.sizeofNode iNodeMemSize iNodeNum) iMemSize)
        (fun _ => []) ∅ := by
  refine ⟨⟨fun _ => rfl, fun _ => List.nodup_nil, fun _ _ _ => nofun,
    fun _ _ => Cell.bucket.inj, fun _ _ => nofun, fun _ => nofun⟩, fun cell => ?_,
    fun _ _ => rfl, ⟨fun hpos => ?_, fun _ => ⟨rfl, rfl⟩⟩, rfl, hsizeof⟩
  · exact ⟨nofun, nofun⟩
  · exact CFixedsizeMemPool.clear_valid _ _ _ hpos

section Init

variable [Inhabited Data]

/-- The pool after `Init` in the place that it has. -/
def CTimerPool.cleared (clock : ℕ → Timeval) (pool : CTimerPool Data) :
    CTimerPool Data :=
  pool.clear clock (pool.m_objTimerNodePool.clear pool.sizeofNode
    (pool.m_iMemSize - CTimerPool.headSize) pool.m_objTimerNodePool.iNodeNum)
      pool.m_iMemSize

theorem Ready.init_eq (hready : Ready pool) :
    pool.init clock pool.m_iMemSize = some (success, pool.cleared clock) := by
  have hfits : ¬ pool.m_iMemSize < (pool.cleared clock).nodeOffset
      (pool.cleared clock).m_objTimerNodePool.iNodeNum :=
    not_lt.mpr hready.fits
  rw [CTimerPool.init, if_neg (not_le.mpr hready.head_lt), hready.again,
    Option.bind_some]
  exact if_neg hfits

/-- What a successful `Init` leaves. -/
theorem init_spec {after : CTimerPool Data} {iMemSize : ℤ} (hmax : iMemSize ≤ intMax)
    (hsizeof : 0 < pool.sizeofNode)
    (hinit : pool.init clock iMemSize = some (success, after)) :
    (∃ nodePool, after = pool.clear clock nodePool iMemSize) ∧
      Ready after ∧ PointersOk after.uiCurPt ∧ Consistent after (fun _ => []) ∅ := by
  rw [CTimerPool.init] at hinit
  split_ifs at hinit with hhead
  · have herror : error = success := congrArg Prod.fst (Option.some.inj hinit)
    exact absurd herror (by decide)
  obtain ⟨⟨iRetVal, nodePool⟩, hnodes, hrest⟩ := Option.bind_eq_some_iff.mp hinit
  dsimp only at hrest
  split_ifs at hrest with hret hfits
  · have herror : error = success := congrArg Prod.fst (Option.some.inj hrest)
    exact absurd herror (by decide)
  obtain rfl := not_not.mp hret
  obtain ⟨rfl, hagain⟩ := clear_of_init hnodes
  obtain rfl := congrArg Prod.snd (Option.some.inj hrest)
  exact ⟨⟨_, rfl⟩, ⟨not_le.mp hhead, hmax, hsizeof, hagain, not_lt.mp hfits⟩,
    fun wheel _ _ => tbNum_pos wheel, clear_consistent hsizeof⟩

end Init

/-! ## `AddTimer` -/

theorem chooseBucket_lt (uiCurPt : ℕ → ℕ) (rest wheel uiIntervalForTB : ℕ)
    (hwheel : 1 ≤ wheel) (hrest : wheel + rest ≤ 5) :
    chooseBucket uiCurPt rest wheel uiIntervalForTB < tballNum := by
  induction rest generalizing wheel uiIntervalForTB with
  | zero =>
      exact wheel_lt hwheel hrest (Nat.mod_lt _ (tbNum_pos wheel))
  | succ rest ih =>
      rw [chooseBucket]
      split_ifs
      · exact wheel_lt hwheel (by omega) (Nat.mod_lt _ (tbNum_pos wheel))
      · exact ih (wheel + 1) _ (by omega) (by omega)

/-- The pool with a new timer in the node `i`. -/
def CTimerPool.withTimer (clock : ℕ → Timeval) (pool : CTimerPool Data)
    (uiInterval : UInt32) (TimerParam : Data) (uiRandom : UInt32) (i : ℕ) :
    CTimerPool Data :=
  { pool with
    iTimerNodeNum := pool.iTimerNodeNum + 1
    links := pool.links.push .null
      (.bucket (chooseBucket pool.uiCurPt 4 1 (uiInterval / 10).toNat)) (.node i)
    node := Function.update pool.node i
      ⟨(clock pool.readings).after uiInterval, uiRandom, TimerParam⟩
    m_objTimerNodePool := pool.m_objTimerNodePool.takeHead
    readings := pool.readings + 1 }

/-- A new timer comes into a free node, unless the interval is 0 or no node is
free. -/
theorem addTimer_spec (hok : Consistent pool lists used)
    (hpos : 0 < pool.m_objTimerNodePool.iNodeNum) (uiInterval : UInt32)
    (TimerParam : Data) (uiRandom : UInt32) :
    (∃ iRetVal, pool.addTimer clock uiInterval TimerParam uiRandom =
      some (iRetVal, none, pool)) ∨
    ∃ i, i ∉ used ∧
      pool.addTimer clock uiInterval TimerParam uiRandom =
        some (success,
          some ((pool.withTimer clock uiInterval TimerParam uiRandom i).timerID i),
          pool.withTimer clock uiInterval TimerParam uiRandom i) ∧
      Consistent (pool.withTimer clock uiInterval TimerParam uiRandom i)
        (Function.update lists
          (chooseBucket pool.uiCurPt 4 1 (uiInterval / 10).toNat)
          (.node i :: lists (chooseBucket pool.uiCurPt 4 1 (uiInterval / 10).toNat)))
        (insert i used) := by
  by_cases hinterval : uiInterval = 0
  · exact .inl ⟨error, if_pos hinterval⟩
  · have hallocate := (hok.nodes.valid hpos).allocateNode_eq
    by_cases hfull : (pool.m_objTimerNodePool.iFreeHead + 1) %
        pool.m_objTimerNodePool.iNodeNum = pool.m_objTimerNodePool.iFreeTail
    · rw [if_pos hfull] at hallocate
      refine .inl ⟨poolFull, ?_⟩
      rw [CTimerPool.addTimer, if_neg hinterval, hallocate]
      rfl
    · rw [if_neg hfull] at hallocate
      have hlinks : (pool.withTimer clock uiInterval TimerParam uiRandom
          (pool.m_objTimerNodePool.freeList
            pool.m_objTimerNodePool.iFreeHead)).links = _ := rfl
      obtain ⟨hfresh, hadded⟩ := hok.add
        (chooseBucket_lt pool.uiCurPt 4 1 (uiInterval / 10).toNat le_rfl le_rfl) hpos
        hfull rfl hlinks rfl rfl rfl
      refine .inr ⟨_, hfresh, ?_, hadded⟩
      rw [CTimerPool.addTimer, if_neg hinterval, hallocate]
      rfl

/-! ## `DelTimer` -/

theorem Ready.nodeOffset_lt (hready : Ready pool) {i : ℕ}
    (hi : i < pool.m_objTimerNodePool.iNodeNum) :
    (pool.nodeOffset i : ℤ) < pool.m_iMemSize := by
  have hfits := hready.fits
  have hlt := Nat.mul_lt_mul_of_pos_left hi hready.sizeof_pos
  unfold CTimerPool.nodeOffset at hfits ⊢
  omega

theorem Ready.toNat_nodeOffset (hready : Ready pool) {i : ℕ}
    (hi : i < pool.m_objTimerNodePool.iNodeNum) :
    (pool.nodeOffset i).toUInt32.toNat = pool.nodeOffset i := by
  have hlt := hready.nodeOffset_lt hi
  have hmax := hready.le_max
  unfold intMax at hmax
  exact Nat.mod_eq_of_lt (by omega)

/-- Nodes begin at different offsets. -/
theorem Ready.offset_inj (hready : Ready pool) {i j : ℕ}
    (hi : i < pool.m_objTimerNodePool.iNodeNum)
    (hj : j < pool.m_objTimerNodePool.iNodeNum)
    (heq : (pool.nodeOffset i).toUInt32 = (pool.nodeOffset j).toUInt32) : i = j := by
  have hoffset := congrArg UInt32.toNat heq
  rw [hready.toNat_nodeOffset hi, hready.toNat_nodeOffset hj] at hoffset
  exact Nat.eq_of_mul_eq_mul_left hready.sizeof_pos (Nat.add_left_cancel hoffset)

theorem Ready.nodeAt_nodeOffset (hready : Ready pool) {i : ℕ}
    (hi : i < pool.m_objTimerNodePool.iNodeNum) :
    pool.nodeAt (pool.nodeOffset i) = some i := by
  have hinside : pool.nodeOffset i - pool.dataOffset = pool.sizeofNode * i :=
    Nat.add_sub_cancel_left ..
  have hnumber : pool.sizeofNode * i / pool.sizeofNode = i :=
    Nat.mul_div_cancel_left i hready.sizeof_pos
  rw [CTimerPool.nodeAt, hinside, hnumber, if_pos]
  exact ⟨Nat.le_add_right .., Nat.mul_mod_right .., hi⟩

theorem delTimer_eq (hready : Ready pool) {i : ℕ}
    (hi : i < pool.m_objTimerNodePool.iNodeNum) (random : UInt32) :
    pool.delTimer ⟨(pool.nodeOffset i).toUInt32, random⟩ =
      if pool.iTimerNodeNum = 0 then some (timerNotExist, pool)
      else if pool.links.prev (.node i) = .null then some (error, pool)
      else if (pool.node i).uiRandom ≠ random then some (timerNotExist, pool)
      else (pool.dropNode (pool.links.prev (.node i)) i).map fun (iRetVal, pool) =>
        (if iRetVal ≠ 0 then error else success, pool) := by
  have hlt := hready.nodeOffset_lt hi
  have hmax := hready.le_max
  have hpos : 0 < pool.nodeOffset i := by
    unfold CTimerPool.nodeOffset CTimerPool.dataOffset CTimerPool.headSize
    omega
  have hoffset : toInt32 (pool.nodeOffset i).toUInt32.toNat = pool.nodeOffset i := by
    rw [hready.toNat_nodeOffset hi]
    unfold intMax at hmax
    exact toInt32_of_lt (by omega)
  rw [CTimerPool.delTimer]
  dsimp only
  rw [hoffset, Int.toNat_natCast, hready.nodeAt_nodeOffset hi, Option.bind_some,
    if_neg (c := (pool.nodeOffset i : ℤ) ≤ 0 ∨ _) (by omega)]

theorem delTimer_of_mem (hready : Ready pool) (hok : Consistent pool lists used) {i : ℕ}
    (hi : i ∈ used) : pool.delTimer (pool.timerID i) = some (success, pool.without i) := by
  obtain ⟨b, hb⟩ := (hok.mem_iff (.node i)).mpr ⟨i, hi, rfl⟩
  have hnum : ¬ pool.iTimerNodeNum = 0 := by
    rw [hok.num_eq_zero_iff]
    rintro rfl
    exact absurd hi (Finset.notMem_empty i)
  have hlt := (hok.nodes.of_mem hi).used_lt hi
  rw [CTimerPool.timerID, delTimer_eq hready (by omega), if_neg hnum,
    if_neg (hok.threads.prev_ne_null hb), if_neg (not_not.mpr rfl),
    (hok.dropNode hb).1]
  rfl

/-! ## `GetTimerInternal` -/

/-- The timers `nodes` have been taken out. -/
structure Taken (pool : CTimerPool Data) (used used' : Finset ℕ) (nodes : List ℕ)
    (fired : List (TimerID × Data)) : Prop where
  nodup : nodes.Nodup
  mem_used : ∀ i ∈ nodes, i ∈ used
  used_iff : ∀ i, i ∈ used' ↔ i ∈ used ∧ i ∉ nodes
  fired_eq : fired = pool.entries nodes

theorem Taken.refl (pool : CTimerPool Data) (used : Finset ℕ) :
    Taken pool used used [] [] :=
  ⟨List.nodup_nil, nofun, fun _ => ⟨fun hi => ⟨hi, nofun⟩, And.left⟩, rfl⟩

theorem Taken.append {after : CTimerPool Data} {used₁ used₂ : Finset ℕ}
    {nodes later : List ℕ} {fired fired' : List (TimerID × Data)}
    (hleft : Taken pool used used₁ nodes fired) (hkept : Kept pool after)
    (hright : Taken after used₁ used₂ later fired') :
    Taken pool used used₂ (nodes ++ later) (fired ++ fired') := by
  refine ⟨List.nodup_append.mpr ⟨hleft.nodup, hright.nodup, ?_⟩, fun i hi => ?_,
    fun i => ?_, ?_⟩
  · rintro i hi j hj rfl
    exact ((hleft.used_iff i).mp (hright.mem_used i hj)).2 hi
  · rcases List.mem_append.mp hi with hi | hi
    · exact hleft.mem_used i hi
    · exact ((hleft.used_iff i).mp (hright.mem_used i hi)).1
  · rw [hright.used_iff, hleft.used_iff, List.mem_append, not_or, and_assoc]
  · rw [hleft.fired_eq, hright.fired_eq, hkept.entries_eq, CTimerPool.entries,
      CTimerPool.entries, CTimerPool.entries, List.map_append]

/-- The wheels have gone on by one step. -/
structure Went (clock : ℕ → Timeval) (before after : CTimerPool Data)
    (lists lists' : ℕ → List Cell) (used used' : Finset ℕ)
    (fired : List (TimerID × Data)) : Prop where
  taken : Taken before used used'
    ((lists (firstTB 1 + before.uiCurPt 1)).map Cell.number) fired
  turned : used'.Nonempty → Turned clock 1 before after
    (Function.update lists (firstTB 1 + before.uiCurPt 1) []) lists'

theorem Turned.of_fired {middle after : CTimerPool Data} {lists' : ℕ → List Cell}
    {wheel : ℕ} (hfired : Fired pool middle)
    (hturned : Turned clock wheel middle after lists lists') :
    Turned clock wheel pool after lists lists' := by
  obtain ⟨hother, hstep, hrest, hstays, hplaced⟩ := hturned
  rw [hfired.uiCurPt_eq] at hother hstep hrest hstays hplaced
  rw [hfired.node_eq, hfired.readings_eq] at hplaced
  exact ⟨hother, hstep, hrest, hstays, hplaced⟩

theorem Consistent.mem_map_number (hok : Consistent pool lists used) {b i : ℕ} :
    i ∈ (lists b).map Cell.number ↔ .node i ∈ lists b := by
  rw [List.mem_map]
  constructor
  · rintro ⟨cell, hcell, rfl⟩
    obtain ⟨i, -, rfl⟩ := hok.exists_node hcell
    exact hcell
  · exact fun hi => ⟨_, hi, rfl⟩

theorem Consistent.nodup_map_number (hok : Consistent pool lists used) (b : ℕ) :
    ((lists b).map Cell.number).Nodup := by
  refine (hok.threads.nodup b).map_on fun left hleft right hright heq => ?_
  obtain ⟨i, -, rfl⟩ := hok.exists_node hleft
  obtain ⟨j, -, rfl⟩ := hok.exists_node hright
  exact congrArg Cell.node heq

theorem getTimerInternal_spec (hclock : Monotone clock)
    (hpointers : PointersOk pool.uiCurPt) (hok : Consistent pool lists used)
    (hnear : Near clock pool used) :
    ∃ fired after lists' used',
      pool.getTimerInternal clock = some (fired, after) ∧
      Kept pool after ∧ PointersOk after.uiCurPt ∧
      Consistent after lists' used' ∧
      Went clock pool after lists lists' used used' fired := by
  by_cases hempty : used = ∅
  · subst hempty
    refine ⟨[], pool, lists, ∅, if_pos (hok.num_eq_zero_iff.mpr rfl), Kept.refl pool,
      hpointers, hok, ?_, fun hne => absurd hne Finset.not_nonempty_empty⟩
    rw [hok.eq_nil]
    exact Taken.refl pool ∅
  · obtain ⟨middle, used₁, hfire, hfired, hok₁, hused₁⟩ := fire_spec hok
    have hfix : pool.fixCurPt 1 = pool :=
      if_neg (not_le.mpr (hpointers 1 le_rfl (by decide)))
    have htaken : Taken pool used used₁
        ((lists (firstTB 1 + pool.uiCurPt 1)).map Cell.number)
        (pool.entries ((lists (firstTB 1 + pool.uiCurPt 1)).map Cell.number)) := by
      refine ⟨hok.nodup_map_number _, fun i hi => ?_, fun i => ?_, rfl⟩
      · exact hok.used_of_mem (hok.mem_map_number.mp hi)
      · rw [hused₁, hok.mem_map_number]
    rw [CTimerPool.getTimerInternal, if_neg (mt hok.num_eq_zero_iff.mp hempty), hfix,
      hfire, Option.bind_some]
    dsimp only
    by_cases hlast : used₁ = ∅
    · rw [if_pos (hok₁.num_eq_zero_iff.mpr hlast)]
      refine ⟨_, middle, _, used₁, rfl, hfired.toKept, ?_, hok₁, htaken, fun hne => ?_⟩
      · rw [hfired.uiCurPt_eq]
        exact hpointers
      · exact absurd (hlast ▸ hne) Finset.not_nonempty_empty
    · rw [if_neg (mt hok₁.num_eq_zero_iff.mp hlast)]
      have hpointers₁ : PointersOk middle.uiCurPt := by
        rwa [hfired.uiCurPt_eq]
      have hnear₁ : Near clock middle used₁ := fun i hi =>
        hfired.toKept.near hnear i ((hused₁ i).mp hi).1
      obtain ⟨after, lists', hturn, hkept, hok', hturned⟩ :=
        turn_spec hclock le_rfl (show 1 + 4 = 5 from rfl) hpointers₁ hok₁ hnear₁
      rw [hturn]
      exact ⟨_, after, lists', used₁, rfl, hfired.toKept.trans hkept,
        hturned.pointersOk hpointers₁, hok', htaken, fun _ => hturned.of_fired hfired⟩

theorem getTimerLoop_spec (hclock : Monotone clock)
    (hpointers : PointersOk pool.uiCurPt) (hok : Consistent pool lists used)
    (hnear : Near clock pool used) (iLoopTimes : ℕ) :
    ∃ fired after lists' used' nodes,
      CTimerPool.getTimerLoop clock iLoopTimes pool = some (fired, after) ∧
      Kept pool after ∧ PointersOk after.uiCurPt ∧
      Consistent after lists' used' ∧ Taken pool used used' nodes fired := by
  induction iLoopTimes generalizing pool lists used with
  | zero =>
      exact ⟨[], pool, lists, used, [], rfl, Kept.refl pool, hpointers, hok,
        Taken.refl pool used⟩
  | succ iLoopTimes ih =>
      obtain ⟨fired, middle, lists₁, used₁, hinternal, hkept, hpointers₁, hok₁, hwent⟩ :=
        getTimerInternal_spec hclock hpointers hok hnear
      have hnear₁ : Near clock middle used₁ := fun i hi =>
        hkept.near hnear i ((hwent.taken.used_iff i).mp hi).1
      obtain ⟨later, after, lists', used', nodes, hloop, hkept', hpointers', hok',
        htaken⟩ := ih hpointers₁ hok₁ hnear₁
      refine ⟨fired ++ later, after, lists', used', _, ?_, hkept.trans hkept',
        hpointers', hok', hwent.taken.append hkept htaken⟩
      rw [CTimerPool.getTimerLoop, hinternal, Option.bind_some]
      dsimp only
      rw [hloop]
      rfl

/-! ## `GetTimer` -/

/-- The time since the last scan, as `GetTimer` takes it. -/
def CTimerPool.timeDiff (clock : ℕ → Timeval) (pool : CTimerPool Data) : Timeval :=
  (clock pool.readings).cut.sub pool.tLastScanTime

/-- The last scan is so long ago that `GetTimer` clears the pool. -/
def Stalled (clock : ℕ → Timeval) (pool : CTimerPool Data) : Prop :=
  intMax.tdiv 100 < (pool.timeDiff clock).tv_sec

instance (pool : CTimerPool Data) : Decidable (Stalled clock pool) :=
  inferInstanceAs (Decidable (_ < _))

/-- There is a step of the clock to catch up with. -/
def Behind (clock : ℕ → Timeval) (pool : CTimerPool Data) : Prop :=
  0 < (pool.timeDiff clock).tv_sec ∨ timerElement ≤ (pool.timeDiff clock).tv_usec

instance (pool : CTimerPool Data) : Decidable (Behind clock pool) :=
  inferInstanceAs (Decidable (_ ∨ _))

/-- The rounds that `GetTimer` makes. -/
def CTimerPool.loopTimes (clock : ℕ → Timeval) (pool : CTimerPool Data) : ℤ :=
  if Behind clock pool then
    toInt32 ((pool.timeDiff clock).tv_sec * 100 +
      (pool.timeDiff clock).tv_usec.tdiv timerElement)
  else 0

/-- The pool in front of the rounds. -/
def CTimerPool.scanned (clock : ℕ → Timeval) (pool : CTimerPool Data) :
    CTimerPool Data :=
  { pool with
    tLastScanTime :=
      if Behind clock pool then (clock pool.readings).cut else pool.tLastScanTime
    readings := pool.readings + 1 }

theorem scanned_alike (pool : CTimerPool Data) : Alike pool (pool.scanned clock) :=
  ⟨rfl, rfl, rfl, rfl, fun _ => Iff.rfl⟩

section GetTimer

variable [Inhabited Data]

theorem getTimer_of_stalled (hready : Ready pool) (hstalled : Stalled clock pool) :
    pool.getTimer clock = some (success, [],
      { pool with readings := pool.readings + 1 }.cleared clock) := by
  have hready' : Ready { pool with readings := pool.readings + 1 } :=
    hready.congr rfl rfl rfl
  have hinit := @Ready.init_eq Data clock _ _ hready'
  rw [CTimerPool.getTimer]
  refine (if_pos hstalled).trans ?_
  dsimp only at hinit ⊢
  rw [hinit]
  rfl

theorem getTimer_of_not_stalled (hstalled : ¬ Stalled clock pool) :
    pool.getTimer clock =
      (CTimerPool.getTimerLoop clock (pool.loopTimes clock).toNat
        (pool.scanned clock)).map fun (fired, pool) => (success, fired, pool) := by
  rw [CTimerPool.getTimer]
  refine (if_neg hstalled).trans ?_
  rw [CTimerPool.loopTimes, CTimerPool.scanned]
  by_cases hbehind : Behind clock pool
  · rw [if_pos hbehind, if_pos hbehind]
    unfold Behind CTimerPool.timeDiff at hbehind
    simp only [if_pos hbehind]
    rfl
  · rw [if_neg hbehind, if_neg hbehind]
    unfold Behind CTimerPool.timeDiff at hbehind
    simp only [if_neg hbehind]

theorem getTimer_spec (hclock : Monotone clock)
    (hpointers : PointersOk pool.uiCurPt) (hok : Consistent pool lists used)
    (hnear : Near clock pool used) (hstalled : ¬ Stalled clock pool) :
    ∃ fired after lists' used' nodes,
      pool.getTimer clock = some (success, fired, after) ∧
      Kept (pool.scanned clock) after ∧
      PointersOk after.uiCurPt ∧ Consistent after lists' used' ∧
      Taken pool used used' nodes fired := by
  have hpointers₀ : PointersOk (pool.scanned clock).uiCurPt := hpointers
  have hnear' : Near clock (pool.scanned clock) used := fun i hi =>
    ⟨(hnear i hi).1, fun reading hreading =>
      (hnear i hi).2 reading ((Nat.le_succ _).trans hreading)⟩
  obtain ⟨fired, after, lists', used', nodes, hloop, hkept, hpointers', hok', htaken⟩ :=
    getTimerLoop_spec hclock hpointers₀ (hok.congr rfl rfl rfl rfl) hnear'
      (pool.loopTimes clock).toNat
  refine ⟨fired, after, lists', used', nodes, ?_, hkept, hpointers', hok',
    ⟨htaken.nodup, htaken.mem_used, htaken.used_iff, htaken.fired_eq⟩⟩
  rw [getTimer_of_not_stalled hstalled, hloop]
  rfl

end GetTimer

/-! ## The pool between two calls -/

/-- A pool between two calls. -/
structure PoolOk (clock : ℕ → Timeval) (pool : CTimerPool Data)
    (lists : ℕ → List Cell) (used : Finset ℕ) : Prop where
  ready : Ready pool
  pointers : PointersOk pool.uiCurPt
  consistent : Consistent pool lists used
  near : Near clock pool used

namespace PoolOk

theorem of_empty (hready : Ready pool) (hok : Consistent pool lists ∅)
    (hpointers : PointersOk pool.uiCurPt) : PoolOk clock pool lists ∅ :=
  ⟨hready, hpointers, hok, nofun⟩

theorem addTimer (hclock : Monotone clock) (hok : PoolOk clock pool lists used)
    {uiInterval : UInt32} {TimerParam : Data} {uiRandom : UInt32} {i : ℕ}
    {lists' : ℕ → List Cell} (hfresh : i ∉ used)
    (hadded : Consistent (pool.withTimer clock uiInterval TimerParam uiRandom i) lists'
      (insert i used)) :
    PoolOk clock (pool.withTimer clock uiInterval TimerParam uiRandom i) lists'
      (insert i used) := by
  refine ⟨hok.ready.congr rfl rfl rfl, hok.pointers, hadded, fun j hj => ?_⟩
  by_cases hnew : j = i
  · subst hnew
    have hnode : (pool.withTimer clock uiInterval TimerParam uiRandom j).node j =
        ⟨(clock pool.readings).after uiInterval, uiRandom, TimerParam⟩ :=
      Function.update_self ..
    rw [hnode]
    refine ⟨Timeval.after_usec_nonneg (hclock.usec_nonneg _) uiInterval,
      fun reading hreading => ?_⟩
    have hle := hclock.le pool.readings reading (Nat.le_of_succ_le hreading)
    have hafter := (clock pool.readings).after_le uiInterval
    dsimp only
    omega
  · have hnode : (pool.withTimer clock uiInterval TimerParam uiRandom i).node j =
        pool.node j := Function.update_of_ne hnew ..
    rw [hnode]
    obtain ⟨hnonneg, hfar⟩ := hok.near j (Finset.mem_of_mem_insert_of_ne hj hnew)
    exact ⟨hnonneg, fun reading hreading => hfar reading (Nat.le_of_succ_le hreading)⟩

theorem delTimer (hok : PoolOk clock pool lists used) {i : ℕ} (hi : i ∈ used) :
    Kept pool (pool.without i) ∧
      ∃ lists', PoolOk clock (pool.without i) lists' (used.erase i) := by
  obtain ⟨b, hb⟩ := (hok.consistent.mem_iff (.node i)).mpr ⟨i, hi, rfl⟩
  have hkept := hok.consistent.without_kept hb
  refine ⟨hkept, _, hkept.ready hok.ready, hok.pointers, (hok.consistent.dropNode hb).2,
    fun j hj => hkept.near hok.near j (Finset.mem_of_mem_erase hj)⟩

theorem getTimer [Inhabited Data] (hclock : Monotone clock)
    (hok : PoolOk clock pool lists used) (hstalled : ¬ Stalled clock pool) :
    ∃ fired after lists' used' nodes,
      pool.getTimer clock = some (success, fired, after) ∧
      Kept (pool.scanned clock) after ∧ PoolOk clock after lists' used' ∧
      Taken pool used used' nodes fired := by
  obtain ⟨fired, after, lists', used', nodes, hget, hkept, hpointers, hconsistent,
    htaken⟩ := getTimer_spec hclock hok.pointers hok.consistent hok.near hstalled
  refine ⟨fired, after, lists', used', nodes, hget, hkept,
    ⟨hkept.ready ((scanned_alike pool).ready hok.ready), hpointers, hconsistent,
      fun i hi => ?_⟩, htaken⟩
  refine hkept.near (fun j hj => ?_) i ((htaken.used_iff i).mp hi).1
  obtain ⟨hnonneg, hfar⟩ := hok.near j hj
  exact ⟨hnonneg, fun reading hreading => hfar reading (Nat.le_of_succ_le hreading)⟩

theorem cleared [Inhabited Data] (hok : PoolOk clock pool lists used) :
    PoolOk clock ({ pool with readings := pool.readings + 1 }.cleared clock)
      (fun _ => []) ∅ :=
  of_empty (hok.ready.congr rfl rfl rfl) (clear_consistent hok.ready.sizeof_pos)
    fun wheel _ _ => tbNum_pos wheel

end PoolOk

end MessageBus.TimerPool
