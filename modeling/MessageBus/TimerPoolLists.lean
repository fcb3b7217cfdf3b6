import MessageBus.MemPoolNodes
import MessageBus.TimerPoolModel

/-!
# The lists of the timers

What each operation of `CTimerPool` does with the lists behind the buckets.  The
nodes in the lists are those that the pool of nodes has handed out, each in one
list, and their number is `iTimerNodeNum`.
-/

namespace MessageBus.TimerPool

open DoubleLinks MemPool

variable {Data : Type}

/-! ## Times -/

namespace Timeval

/-- The microseconds of a time. -/
def total (time : Timeval) : ℤ := time.tv_sec * 1000000 + time.tv_usec

end Timeval

/-- A clock that does not go back. -/
structure Monotone (clock : ℕ → Timeval) : Prop where
  usec_nonneg : ∀ reading, 0 ≤ (clock reading).tv_usec
  usec_lt : ∀ reading, (clock reading).tv_usec < 1000000
  le : ∀ left right, left ≤ right → (clock left).total ≤ (clock right).total

/-- The largest distance of a timer: the interval, and the carry that `tExpire`
gets wrong. -/
def farthest : ℤ := 4294967295 * 1000 + 4294967296

theorem toNat_usec (uiInterval : UInt32) :
    ((uiInterval % 1000) * 1000).toNat = 1000 * (uiInterval.toNat % 1000) := by
  rw [UInt32.toNat_mul, UInt32.toNat_mod]
  simp only [UInt32.reduceToNat]
  omega

/-- `tExpire` is the interval later, unless the microseconds go over a second;
then it is 2^32 microseconds too late. -/
theorem Timeval.total_after (time : Timeval) (uiInterval : UInt32) :
    (time.after uiInterval).total = time.total + 1000 * uiInterval.toNat +
      if time.tv_usec + 1000 * (uiInterval.toNat % 1000 : ℕ) < 1000000 then 0
      else 2 ^ 32 := by
  have husec := toNat_usec uiInterval
  have hcarry : ((uiInterval % 1000) * 1000 - 1000000).toNat =
      2 ^ 32 - 1000000 + 1000 * (uiInterval.toNat % 1000) := by
    rw [UInt32.toNat_sub, husec]
    simp only [UInt32.reduceToNat]
    omega
  have hsec : (uiInterval / 1000).toNat = uiInterval.toNat / 1000 := by simp
  simp only [after, total, husec, hcarry, hsec]
  split_ifs <;> simp only <;> omega

theorem Timeval.after_usec_nonneg {time : Timeval} (hnonneg : 0 ≤ time.tv_usec)
    (uiInterval : UInt32) : 0 ≤ (time.after uiInterval).tv_usec := by
  dsimp only [after]
  split_ifs <;> dsimp only <;> omega

theorem Timeval.after_usec_lt {time : Timeval} {uiInterval : UInt32}
    (hcarry : time.tv_usec + 1000 * (uiInterval.toNat % 1000 : ℕ) < 1000000) :
    (time.after uiInterval).tv_usec < 1000000 := by
  have husec := toNat_usec uiInterval
  have hcarry' : time.tv_usec + ((uiInterval % 1000) * 1000).toNat < 1000000 := by omega
  rw [after, if_pos hcarry']
  exact hcarry'

theorem Timeval.after_le (time : Timeval) (uiInterval : UInt32) :
    (time.after uiInterval).total ≤ time.total + farthest := by
  have hlt := uiInterval.toNat_lt
  rw [total_after, farthest]
  split_ifs <;> omega

theorem stepsLeft_bounds {stTimeNow tExpire : Timeval}
    (hnonneg : 0 ≤ stTimeNow.tv_usec) (hlt : stTimeNow.tv_usec < 1000000)
    (hexpire : 0 ≤ tExpire.tv_usec) (hbefore : stTimeNow.Before tExpire) :
    0 ≤ stepsLeft stTimeNow tExpire ∧
      stepsLeft stTimeNow tExpire * 10000 <
        tExpire.total - stTimeNow.total + 10000 ∧
      tExpire.total - stTimeNow.total - 10000 <
        stepsLeft stTimeNow tExpire * 10000 := by
  have hsplit := Int.mul_tdiv_add_tmod (tExpire.tv_usec - stTimeNow.tv_usec) 10000
  have hlow := Int.lt_tmod_of_pos (tExpire.tv_usec - stTimeNow.tv_usec)
    (show (0 : ℤ) < 10000 by decide)
  have hhigh := Int.tmod_lt_of_pos (tExpire.tv_usec - stTimeNow.tv_usec)
    (show (0 : ℤ) < 10000 by decide)
  rcases hbefore with hsec | ⟨hsec, husec⟩ <;>
    simp only [stepsLeft, timerElement, Timeval.total] <;>
    omega

theorem toInt32_of_lt {number : ℕ} (hlt : number < 2 ^ 31) :
    toInt32 number = number := by
  change Int.bmod number 4294967296 = number
  rw [Int.bmod_def]
  split_ifs <;> omega

/-- The whole steps of the clock that are left. -/
def wholeSteps (stTimeNow tExpire : Timeval) : ℕ :=
  if stTimeNow.Before tExpire then (stepsLeft stTimeNow tExpire).toNat else 0

@[simp] theorem tbNum_eq (wheel : ℕ) : tbNum wheel = 2 ^ tbBit wheel := by
  rw [tbNum, Nat.shiftLeft_eq, Nat.one_mul]

theorem tbNum_pos (wheel : ℕ) : 0 < tbNum wheel := by
  rw [tbNum_eq]
  exact Nat.two_pow_pos _

section Slots

variable {stTimeNow tExpire : Timeval} (hnonneg : 0 ≤ stTimeNow.tv_usec)
  (hlt : stTimeNow.tv_usec < 1000000) (hexpire : 0 ≤ tExpire.tv_usec)
  (hnear : tExpire.total ≤ stTimeNow.total + farthest)

include hnonneg hlt hexpire hnear

/-- The place for a node is one before the one for its steps, if there is one, and
inside the wheel. -/
theorem migrateSlot_eq (wheel : ℕ) :
    migrateSlot wheel stTimeNow tExpire =
      min (wholeSteps stTimeNow tExpire / 2 ^ maskBits wheel - 1)
        (tbNum wheel - 1) := by
  have hsteps : (if stTimeNow.Before tExpire then
      (stepsLeft stTimeNow tExpire % 2 ^ 32).toNat else 0) =
        wholeSteps stTimeNow tExpire ∧
      wholeSteps stTimeNow tExpire < 2 ^ 31 := by
    unfold wholeSteps
    split_ifs with hbefore
    · obtain ⟨hlow, hhigh, -⟩ := stepsLeft_bounds hnonneg hlt hexpire hbefore
      rw [farthest] at hnear
      omega
    · exact ⟨rfl, by decide⟩
  have hpos := tbNum_pos wheel
  simp only [migrateSlot, hsteps.1, Nat.shiftRight_eq_div_pow]
  generalize hplace : wholeSteps stTimeNow tExpire / 2 ^ maskBits wheel = place
  have hplaceLt : place < 2 ^ 31 := by
    rw [← hplace]
    exact (Nat.div_le_self _ _).trans_lt hsteps.2
  rw [toInt32_of_lt (by split_ifs <;> omega)]
  split_ifs <;> omega

theorem migrateSlot_lt (wheel : ℕ) :
    migrateSlot wheel stTimeNow tExpire < tbNum wheel := by
  have hpos := tbNum_pos wheel
  rw [migrateSlot_eq hnonneg hlt hexpire hnear]
  omega

end Slots

/-! ## Lists -/

/-- The pool of nodes has handed out the nodes `used`; without nodes it has none
to give. -/
structure NodesOk (nodePool : CFixedsizeMemPool) (used : Finset ℕ) : Prop where
  valid : 0 < nodePool.iNodeNum → nodePool.Valid used
  empty : nodePool.iNodeNum = 0 → used = ∅ ∧ nodePool.iUsedNodeNum = 0

/-- Behind the buckets stand the nodes that are in use, each once. -/
structure Consistent (pool : CTimerPool Data) (lists : ℕ → List Cell)
    (used : Finset ℕ) : Prop where
  threads : Threads pool.links .null .bucket lists
  mem_iff : ∀ cell, (∃ b, cell ∈ lists b) ↔ ∃ i ∈ used, cell = .node i
  outside : ∀ b, tballNum ≤ b → lists b = []
  nodes : NodesOk pool.m_objTimerNodePool used
  num : pool.iTimerNodeNum = used.card
  sizeof_pos : 0 < pool.sizeofNode

/-- The pointers are inside their wheels. -/
def PointersOk (uiCurPt : ℕ → ℕ) : Prop :=
  ∀ wheel, 1 ≤ wheel → wheel ≤ 5 → uiCurPt wheel < tbNum wheel

/-- The timers are not further off than an interval from any time to come. -/
def Near (clock : ℕ → Timeval) (pool : CTimerPool Data) (used : Finset ℕ) : Prop :=
  ∀ i ∈ used, 0 ≤ (pool.node i).tExpire.tv_usec ∧
    ∀ reading, pool.readings ≤ reading →
      (pool.node i).tExpire.total ≤ (clock reading).total + farthest

namespace NodesOk

variable {nodePool : CFixedsizeMemPool} {used : Finset ℕ} {i : ℕ}

theorem of_mem (hok : NodesOk nodePool used) (hi : i ∈ used) :
    nodePool.Valid used := by
  refine hok.valid (Nat.pos_of_ne_zero fun hzero => ?_)
  rw [(hok.empty hzero).1] at hi
  exact absurd hi (Finset.notMem_empty i)

theorem used_eq (hok : NodesOk nodePool used) :
    nodePool.iUsedNodeNum = used.card := by
  rcases Nat.eq_zero_or_pos nodePool.iNodeNum with hzero | hpos
  · obtain ⟨rfl, hused⟩ := hok.empty hzero
    rw [hused, Finset.card_empty]
    rfl
  · exact (hok.valid hpos).used_eq

theorem card_le (hok : NodesOk nodePool used) : used.card ≤ nodePool.iNodeNum := by
  rcases Nat.eq_zero_or_pos nodePool.iNodeNum with hzero | hpos
  · rw [(hok.empty hzero).1, Finset.card_empty]
    exact Nat.zero_le _
  · have hcard := (hok.valid hpos).freeNum_add_card
    omega

end NodesOk

/-- The pool without a node. -/
def CTimerPool.without (pool : CTimerPool Data) (i : ℕ) : CTimerPool Data :=
  { pool with
    iTimerNodeNum := pool.iTimerNodeNum - 1
    links := pool.links.unlink .null (pool.links.prev (.node i)) (.node i)
    m_objTimerNodePool := pool.m_objTimerNodePool.giveTail i }

/-- The pool with a node in another bucket. -/
def CTimerPool.moved (pool : CTimerPool Data) (i b : ℕ) : CTimerPool Data :=
  { pool with
    links := (pool.links.unlink .null (pool.links.prev (.node i))
      (.node i)).push .null (.bucket b) (.node i)
    readings := pool.readings + 1 }

/-- The sizes and the contents of the nodes are the same, and the same nodes have
no link back. -/
structure Alike (before after : CTimerPool Data) : Prop where
  node_eq : after.node = before.node
  sizeofNode_eq : after.sizeofNode = before.sizeofNode
  memSize_eq : after.m_iMemSize = before.m_iMemSize
  nodeNum_eq :
    after.m_objTimerNodePool.iNodeNum = before.m_objTimerNodePool.iNodeNum
  prev_iff : ∀ i, after.links.prev (.node i) = .null ↔
    before.links.prev (.node i) = .null

/-- What stays as it is during a call that adds no timer. -/
structure Kept (before after : CTimerPool Data) : Prop extends Alike before after where
  scan_eq : after.tLastScanTime = before.tLastScanTime
  readings_le : before.readings ≤ after.readings

namespace Alike

variable {first second third : CTimerPool Data}

theorem refl (pool : CTimerPool Data) : Alike pool pool :=
  ⟨rfl, rfl, rfl, rfl, fun _ => Iff.rfl⟩

theorem trans (hleft : Alike first second) (hright : Alike second third) :
    Alike first third :=
  ⟨hright.node_eq.trans hleft.node_eq,
    hright.sizeofNode_eq.trans hleft.sizeofNode_eq,
    hright.memSize_eq.trans hleft.memSize_eq,
    hright.nodeNum_eq.trans hleft.nodeNum_eq,
    fun i => (hright.prev_iff i).trans (hleft.prev_iff i)⟩

theorem nodeOffset_eq (halike : Alike first second) (i : ℕ) :
    second.nodeOffset i = first.nodeOffset i := by
  rw [CTimerPool.nodeOffset, CTimerPool.nodeOffset, CTimerPool.dataOffset,
    CTimerPool.dataOffset, halike.nodeNum_eq, halike.sizeofNode_eq]

theorem timerID_eq (halike : Alike first second) (i : ℕ) :
    second.timerID i = first.timerID i := by
  rw [CTimerPool.timerID, CTimerPool.timerID, halike.nodeOffset_eq, halike.node_eq]

end Alike

namespace Kept

variable {clock : ℕ → Timeval} {first second third : CTimerPool Data}
  {used : Finset ℕ}

theorem refl (pool : CTimerPool Data) : Kept pool pool :=
  ⟨Alike.refl pool, rfl, le_rfl⟩

theorem trans (hleft : Kept first second) (hright : Kept second third) :
    Kept first third :=
  ⟨hleft.toAlike.trans hright.toAlike, hright.scan_eq.trans hleft.scan_eq,
    hleft.readings_le.trans hright.readings_le⟩

theorem near (hkept : Kept first second) (hnear : Near clock first used) :
    Near clock second used := by
  intro i hi
  rw [hkept.node_eq]
  exact ⟨(hnear i hi).1, fun reading hreading =>
    (hnear i hi).2 reading (hkept.readings_le.trans hreading)⟩

end Kept

namespace Consistent

variable {pool : CTimerPool Data} {lists : ℕ → List Cell} {used : Finset ℕ}
  {b source i : ℕ}

theorem used_of_mem (hok : Consistent pool lists used) (hi : .node i ∈ lists b) :
    i ∈ used := by
  obtain ⟨j, hj, heq⟩ := (hok.mem_iff _).mp ⟨b, hi⟩
  obtain rfl := Cell.node.inj heq
  exact hj

theorem exists_node (hok : Consistent pool lists used) {cell : Cell}
    (hcell : cell ∈ lists b) : ∃ i ∈ used, cell = .node i :=
  (hok.mem_iff cell).mp ⟨b, hcell⟩

theorem lt_tballNum (hok : Consistent pool lists used) {cell : Cell}
    (hcell : cell ∈ lists b) : b < tballNum := by
  by_contra hle
  rw [hok.outside b (not_lt.mp hle)] at hcell
  cases hcell

/-- Without timers every list is empty. -/
theorem eq_nil (hok : Consistent pool lists ∅) (b : ℕ) : lists b = [] := by
  refine List.eq_nil_iff_forall_not_mem.mpr fun cell hcell => ?_
  obtain ⟨i, hi, -⟩ := hok.exists_node hcell
  exact absurd hi (Finset.notMem_empty i)

theorem num_eq_zero_iff (hok : Consistent pool lists used) :
    pool.iTimerNodeNum = 0 ↔ used = ∅ := by
  rw [hok.num, Nat.cast_eq_zero, Finset.card_eq_zero]

theorem length_le (hok : Consistent pool lists used) (b : ℕ) :
    (lists b).length ≤ pool.m_objTimerNodePool.iNodeNum := by
  have hsub : (lists b).toFinset ⊆ used.image .node := by
    intro cell hcell
    obtain ⟨i, hi, rfl⟩ := hok.exists_node (List.mem_toFinset.mp hcell)
    exact Finset.mem_image_of_mem _ hi
  rw [← List.toFinset_card_of_nodup (hok.threads.nodup b)]
  exact (Finset.card_le_card hsub).trans (Finset.card_image_le.trans hok.nodes.card_le)

/-- What does not change the lists, the nodes that are in use or their number. -/
theorem congr (hok : Consistent pool lists used) {other : CTimerPool Data}
    (hlinks : other.links = pool.links)
    (hnodes : other.m_objTimerNodePool = pool.m_objTimerNodePool)
    (hnum : other.iTimerNodeNum = pool.iTimerNodeNum)
    (hsizeof : other.sizeofNode = pool.sizeofNode) : Consistent other lists used :=
  ⟨hlinks ▸ hok.threads, hok.mem_iff, hok.outside, hnodes ▸ hok.nodes,
    hnum ▸ hok.num, hsizeof ▸ hok.sizeof_pos⟩

theorem dropNode (hok : Consistent pool lists used) (hi : .node i ∈ lists b) :
    pool.dropNode (pool.links.prev (.node i)) i = some (0, pool.without i) ∧
      Consistent (pool.without i)
        (Function.update lists b ((lists b).erase (.node i))) (used.erase i) := by
  have hused := hok.used_of_mem hi
  have hvalid := hok.nodes.of_mem hused
  have hcard : 0 < used.card := Finset.card_pos.mpr ⟨i, hused⟩
  have hnum : ¬ pool.iTimerNodeNum - 1 < 0 := by
    rw [hok.num]
    omega
  have hlt := hvalid.used_lt hused
  refine ⟨?_, ?_⟩
  · rw [CTimerPool.dropNode, hvalid.releaseNode_eq hok.sizeof_pos (by omega),
      if_pos hused, if_neg hnum]
    rfl
  · refine ⟨hok.threads.unlink hi, fun cell => ?_, fun c hc => ?_,
      ⟨fun _ => hvalid.giveTail hused, fun hzero => ?_⟩, ?_, hok.sizeof_pos⟩
    · rw [hok.threads.exists_mem_unlink hi, hok.mem_iff]
      constructor
      · rintro ⟨hne, j, hj, rfl⟩
        exact ⟨j, Finset.mem_erase.mpr ⟨fun heq => hne (heq ▸ rfl), hj⟩, rfl⟩
      · rintro ⟨j, hj, rfl⟩
        obtain ⟨hne, hj⟩ := Finset.mem_erase.mp hj
        exact ⟨fun heq => hne (Cell.node.inj heq), j, hj, rfl⟩
    · have hne : c ≠ b := by
        rintro rfl
        have hlt := hok.lt_tballNum hi
        omega
      rw [Function.update_of_ne hne]
      exact hok.outside c hc
    · exact absurd hzero hvalid.nodes_pos.ne'
    · change pool.iTimerNodeNum - 1 = _
      rw [hok.num, Finset.card_erase_of_mem hused]
      omega

theorem add (hok : Consistent pool lists used) (hb : b < tballNum)
    (hpos : 0 < pool.m_objTimerNodePool.iNodeNum)
    (hroom : (pool.m_objTimerNodePool.iFreeHead + 1) %
      pool.m_objTimerNodePool.iNodeNum ≠ pool.m_objTimerNodePool.iFreeTail)
    {other : CTimerPool Data}
    (hi : i = pool.m_objTimerNodePool.freeList pool.m_objTimerNodePool.iFreeHead)
    (hlinks : other.links = pool.links.push .null (.bucket b) (.node i))
    (hnodes : other.m_objTimerNodePool = pool.m_objTimerNodePool.takeHead)
    (hnum : other.iTimerNodeNum = pool.iTimerNodeNum + 1)
    (hsizeof : other.sizeofNode = pool.sizeofNode) :
    i ∉ used ∧
      Consistent other (Function.update lists b (.node i :: lists b))
        (insert i used) := by
  obtain ⟨hfresh, hvalid⟩ := (hok.nodes.valid hpos).takeHead hroom
  rw [← hi] at hfresh hvalid
  have hlists : ∀ j, .node i ∉ lists j := fun j hmem => hfresh (hok.used_of_mem hmem)
  refine ⟨hfresh, ?_, fun cell => ?_, fun c hc => ?_,
    ⟨fun _ => ?_, fun hzero => ?_⟩, ?_, hsizeof ▸ hok.sizeof_pos⟩
  · have hnull : Cell.node i ≠ .null := nofun
    rw [hlinks]
    exact hok.threads.push hnull (fun _ => nofun) hlists b
  · rw [Threads.exists_mem_push, hok.mem_iff]
    constructor
    · rintro (rfl | ⟨j, hj, rfl⟩)
      · exact ⟨i, Finset.mem_insert_self i used, rfl⟩
      · exact ⟨j, Finset.mem_insert_of_mem hj, rfl⟩
    · rintro ⟨j, hj, rfl⟩
      rcases Finset.mem_insert.mp hj with rfl | hj
      · exact .inl rfl
      · exact .inr ⟨j, hj, rfl⟩
  · rw [Function.update_of_ne (by omega)]
    exact hok.outside c hc
  · rw [hnodes]
    exact hvalid
  · rw [hnodes] at hzero
    exact absurd hzero hpos.ne'
  · rw [hnum, hok.num, Finset.card_insert_of_notMem hfresh]
    rfl

theorem move (hok : Consistent pool lists used) (hi : .node i ∈ lists source)
    (hb : b < tballNum) :
    Consistent (pool.moved i b)
      (Function.update
        (Function.update lists source ((lists source).erase (.node i))) b
        (.node i ::
          Function.update lists source ((lists source).erase (.node i)) b))
      used := by
  have hout := hok.threads.unlink hi
  have hgone : ∀ c, .node i ∉
      Function.update lists source ((lists source).erase (.node i)) c :=
    fun c hmem => ((hok.threads.exists_mem_unlink hi).mp ⟨c, hmem⟩).1 rfl
  have hnull : Cell.node i ≠ .null := nofun
  refine ⟨hout.push hnull (fun _ => nofun) hgone b, fun cell => ?_, fun c hc => ?_,
    hok.nodes, hok.num, hok.sizeof_pos⟩
  · rw [Threads.exists_mem_push, hok.threads.exists_mem_unlink hi, ← hok.mem_iff]
    constructor
    · rintro (rfl | ⟨-, hmem⟩)
      · exact ⟨source, hi⟩
      · exact hmem
    · intro hmem
      by_cases hcell : cell = .node i
      · exact .inl hcell
      · exact .inr ⟨hcell, hmem⟩
  · have hsource := hok.lt_tballNum hi
    rw [Function.update_of_ne (by omega), Function.update_of_ne (by omega)]
    exact hok.outside c hc

theorem without_kept (hok : Consistent pool lists used) (hi : .node i ∈ lists b) :
    Kept pool (pool.without i) :=
  ⟨⟨rfl, rfl, rfl, rfl, fun _ => hok.threads.unlink_prev_eq_null_iff hi⟩, rfl,
    le_rfl⟩

theorem moved_kept (hok : Consistent pool lists used) (hi : .node i ∈ lists source)
    (hb : b < tballNum) : Kept pool (pool.moved i b) := by
  refine ⟨⟨rfl, rfl, rfl, rfl, fun j => ?_⟩, rfl, Nat.le_succ _⟩
  by_cases hj : j = i
  · subst hj
    have hmoved : Cell.node j ∈ Function.update
        (Function.update lists source ((lists source).erase (.node j))) b
        (.node j ::
          Function.update lists source ((lists source).erase (.node j)) b) b := by
      rw [Function.update_self]
      exact List.mem_cons_self
    exact iff_of_false ((hok.move hi hb).threads.prev_ne_null hmoved)
      (hok.threads.prev_ne_null hi)
  · have hnull : Cell.node i ≠ .null := nofun
    refine ((hok.threads.unlink hi).push_prev_eq_null_iff hnull
      (fun heq => hj (Cell.node.inj heq)) nofun).trans ?_
    exact hok.threads.unlink_prev_eq_null_iff hi

end Consistent

/-! ## Firing -/

section Fire

variable {pool : CTimerPool Data} {lists : ℕ → List Cell} {used : Finset ℕ} {b : ℕ}

/-- The node that a cell is. -/
def Cell.number : Cell → ℕ
  | .node i => i
  | _ => 0

/-- The ids and the parameters of nodes. -/
def CTimerPool.entries (pool : CTimerPool Data) (nodes : List ℕ) :
    List (TimerID × Data) :=
  nodes.map fun i => (pool.timerID i, (pool.node i).TimerParam)

theorem Alike.entries_eq {before after : CTimerPool Data} (halike : Alike before after)
    (nodes : List ℕ) : after.entries nodes = before.entries nodes := by
  simp only [CTimerPool.entries, halike.timerID_eq, halike.node_eq]

/-- Timers have been taken out; the wheels stand still. -/
structure Fired (before after : CTimerPool Data) : Prop extends Kept before after where
  uiCurPt_eq : after.uiCurPt = before.uiCurPt
  readings_eq : after.readings = before.readings

theorem Fired.refl (pool : CTimerPool Data) : Fired pool pool :=
  ⟨Kept.refl pool, rfl, rfl⟩

theorem Fired.trans {first second third : CTimerPool Data}
    (hleft : Fired first second) (hright : Fired second third) : Fired first third :=
  ⟨hleft.toKept.trans hright.toKept, hright.uiCurPt_eq.trans hleft.uiCurPt_eq,
    hright.readings_eq.trans hleft.readings_eq⟩

/-- The loop takes every node out of the list and gives its id and parameter. -/
theorem fireLoop_spec {cells : List Cell} (hok : Consistent pool lists used)
    (hlist : lists b = cells) {fuel : ℕ} (hfuel : cells.length ≤ fuel) :
    ∃ after used',
      CTimerPool.fireLoop (.bucket b) fuel (pool.links.next (.bucket b)) pool =
        some (pool.entries (cells.map Cell.number), after) ∧
      Fired pool after ∧
      Consistent after (Function.update lists b []) used' ∧
      ∀ i, i ∈ used' ↔ i ∈ used ∧ .node i ∉ cells := by
  induction cells generalizing pool lists used fuel with
  | nil =>
      refine ⟨pool, used, ?_, Fired.refl pool, ?_, by simp⟩
      · rw [hok.threads.next_eq_null_iff.mpr hlist]
        cases fuel <;> rfl
      · rwa [← hlist, Function.update_eq_self]
  | cons cell cells ih =>
      obtain ⟨i, hi, rfl⟩ := hok.exists_node (hlist ▸ List.mem_cons_self)
      obtain ⟨hfirst, hback⟩ := hok.threads.first hlist
      obtain ⟨hdrop, hdropped⟩ := hok.dropNode (hlist ▸ List.mem_cons_self)
      have hnodup := hok.threads.nodup b
      rw [hlist] at hnodup hdropped
      rw [List.erase_cons_head] at hdropped
      rw [List.length_cons] at hfuel
      obtain ⟨rounds, rfl⟩ : ∃ rounds, fuel = rounds + 1 := ⟨fuel - 1, by omega⟩
      have hnext : pool.links.next (.node i) =
          (pool.without i).links.next (.bucket b) := by
        rw [CTimerPool.without, hback]
        exact Links.unlink_next_before.symm
      obtain ⟨after, used', hloop, hfired, hafter, hused⟩ :=
        ih hdropped (Function.update_self ..) (Nat.le_of_succ_le_succ hfuel)
      have hwithout : Fired pool (pool.without i) :=
        ⟨hok.without_kept (hlist ▸ List.mem_cons_self), rfl, rfl⟩
      refine ⟨after, used', ?_, hwithout.trans hfired, ?_, fun j => ?_⟩
      · rw [hback] at hdrop
        rw [hfirst, CTimerPool.fireLoop, hdrop, Option.bind_some, hnext]
        dsimp only
        rw [hloop, hwithout.entries_eq]
        rfl
      · rwa [Function.update_idem] at hafter
      · rw [hused, Finset.mem_erase, List.mem_cons, not_or]
        constructor
        · rintro ⟨⟨hne, hj⟩, hnot⟩
          exact ⟨hj, fun heq => hne (Cell.node.inj heq), hnot⟩
        · rintro ⟨hj, hne, hnot⟩
          exact ⟨⟨fun heq => hne (heq ▸ rfl), hj⟩, hnot⟩

/-- The bucket that the first pointer shows is emptied. -/
theorem fire_spec (hok : Consistent pool lists used) :
    ∃ after used',
      pool.fire =
        some (pool.entries
          ((lists (firstTB 1 + pool.uiCurPt 1)).map Cell.number), after) ∧
      Fired pool after ∧
      Consistent after
        (Function.update lists (firstTB 1 + pool.uiCurPt 1) []) used' ∧
      ∀ i, i ∈ used' ↔
        i ∈ used ∧ .node i ∉ lists (firstTB 1 + pool.uiCurPt 1) := by
  obtain ⟨after, used', hloop, hfired, hafter, hused⟩ :=
    fireLoop_spec hok rfl (hok.length_le (firstTB 1 + pool.uiCurPt 1))
  refine ⟨after, used', ?_, hfired, hafter, hused⟩
  dsimp only [CTimerPool.fire]
  cases hlist : lists (firstTB 1 + pool.uiCurPt 1) with
  | nil =>
      have hnext := hok.threads.next_eq_null_iff.mpr hlist
      rw [hlist, hnext] at hloop
      rw [if_pos hnext, ← hloop]
      cases pool.m_objTimerNodePool.iNodeNum <;> rfl
  | cons cell cells =>
      obtain ⟨hfirst, hback⟩ := hok.threads.first hlist
      obtain ⟨i, -, rfl⟩ := hok.exists_node (hlist ▸ List.mem_cons_self)
      rw [hlist, hfirst] at hloop
      rw [hfirst, if_neg nofun, hback, hloop]

end Fire

/-! ## Migration -/

section Migrate

variable {clock : ℕ → Timeval} {pool : CTimerPool Data} {lists : ℕ → List Cell}
  {used : Finset ℕ} {wheel source : ℕ}

/-- A node stands where a reading of the clock says. -/
structure PlacedAt (clock : ℕ → Timeval) (wheel : ℕ) (node : ℕ → TimerNode Data)
    (lists : ℕ → List Cell) (i reading : ℕ) : Prop where
  slot_lt : migrateSlot wheel (clock reading) (node i).tExpire < tbNum wheel
  mem : .node i ∈ lists (firstTB wheel +
    migrateSlot wheel (clock reading) (node i).tExpire)

/-- The lists when those of the bucket `source` have gone to a wheel, with a reading
of the clock for each node. -/
structure Emptied (clock : ℕ → Timeval) (wheel source : ℕ)
    (before after : CTimerPool Data) (lists lists' : ℕ → List Cell) : Prop where
  empty : lists' source = []
  other : ∀ b, b ≠ source → (∀ slot < tbNum wheel, b ≠ firstTB wheel + slot) →
    lists' b = lists b
  stays : ∀ b, b ≠ source → ∀ cell ∈ lists b, cell ∈ lists' b
  placed : ∀ j i, (lists source)[j]? = some (.node i) →
    PlacedAt clock wheel before.node lists' i (before.readings + j)
  readings_eq : after.readings = before.readings + (lists source).length

theorem wheel_lt {slot : ℕ} (hwheel : 1 ≤ wheel) (hle : wheel ≤ 5)
    (hslot : slot < tbNum wheel) : firstTB wheel + slot < tballNum := by
  rw [tbNum_eq] at hslot
  unfold firstTB tballNum
  unfold tbBit at hslot
  interval_cases wheel <;> simp at hslot ⊢ <;> omega

/-- The buckets of different wheels are different. -/
theorem bucket_ne {wheel' slot slot' : ℕ} (hwheel : 1 ≤ wheel)
    (hlt : wheel < wheel') (hslot : slot < tbNum wheel) :
    firstTB wheel + slot ≠ firstTB wheel' + slot' := by
  rw [tbNum_eq] at hslot
  unfold tbBit at hslot
  unfold firstTB
  split_ifs at hslot ⊢ <;> simp at hslot <;> omega

theorem migrateNode_eq {i : ℕ}
    (hslot : migrateSlot wheel (clock pool.readings) (pool.node i).tExpire <
      tbNum wheel) :
    pool.migrateNode clock wheel (pool.links.prev (.node i)) i =
      some (pool.moved i (firstTB wheel +
        migrateSlot wheel (clock pool.readings) (pool.node i).tExpire)) := by
  rw [CTimerPool.migrateNode, if_pos hslot]
  rfl

theorem migrateLoop_spec (hclock : Monotone clock) (hwheel : 1 ≤ wheel)
    (hle : wheel ≤ 5)
    (hsource : ∀ slot < tbNum wheel, firstTB wheel + slot ≠ source)
    {cells : List Cell} (hok : Consistent pool lists used)
    (hnear : Near clock pool used) (hlist : lists source = cells) {fuel : ℕ}
    (hfuel : cells.length ≤ fuel) :
    ∃ after lists',
      CTimerPool.migrateLoop clock wheel (.bucket source) fuel
        (pool.links.next (.bucket source)) pool = some after ∧
      Kept pool after ∧ after.uiCurPt = pool.uiCurPt ∧
      Consistent after lists' used ∧
      Emptied clock wheel source pool after lists lists' := by
  induction cells generalizing pool lists fuel with
  | nil =>
      refine ⟨pool, lists, ?_, Kept.refl pool, rfl, hok, hlist, fun _ _ _ => rfl,
        fun _ _ _ => id, fun j i hj => ?_, ?_⟩
      · rw [hok.threads.next_eq_null_iff.mpr hlist]
        cases fuel <;> rfl
      · rw [hlist] at hj
        cases hj
      · rw [hlist]
        rfl
  | cons cell cells ih =>
      have hmem : cell ∈ lists source := hlist ▸ List.mem_cons_self
      obtain ⟨i, hi, rfl⟩ := hok.exists_node hmem
      obtain ⟨hfirst, hback⟩ := hok.threads.first hlist
      rw [List.length_cons] at hfuel
      obtain ⟨rounds, rfl⟩ : ∃ rounds, fuel = rounds + 1 := ⟨fuel - 1, by omega⟩
      obtain ⟨hexpire, hfar⟩ := hnear i hi
      have hslot := migrateSlot_lt (hclock.usec_nonneg pool.readings)
        (hclock.usec_lt pool.readings) hexpire (hfar _ le_rfl) wheel
      have hstep := migrateNode_eq hslot
      set slot := migrateSlot wheel (clock pool.readings) (pool.node i).tExpire
      have hne := hsource slot hslot
      have hmove := hok.move hmem (wheel_lt hwheel hle hslot)
      rw [hlist, List.erase_cons_head, Function.update_of_ne hne] at hmove
      have hmoved := hok.moved_kept hmem (wheel_lt hwheel hle hslot)
      have hnext : pool.links.next (.node i) =
          (pool.moved i (firstTB wheel + slot)).links.next (.bucket source) := by
        have hcell : Cell.bucket source ≠ .node i := nofun
        rw [CTimerPool.moved, hback, Links.push_next hcell
          fun heq => hne (Cell.bucket.inj heq).symm]
        exact Links.unlink_next_before.symm
      obtain ⟨after, lists', hloop, hlater, hcur, hafter, hemptied⟩ :=
        ih hmove (hmoved.near hnear)
          (by rw [Function.update_of_ne hne.symm, Function.update_self])
          (Nat.le_of_succ_le_succ hfuel)
      have hsame : Function.update (Function.update lists source cells)
          (firstTB wheel + slot) (.node i :: lists (firstTB wheel + slot)) source =
            cells := by
        rw [Function.update_of_ne hne.symm, Function.update_self]
      refine ⟨after, lists', ?_, hmoved.trans hlater, hcur, hafter, hemptied.empty,
        fun b hb hout => ?_, fun b hb cell hcell => hemptied.stays b hb cell ?_,
        fun j k hj => ?_, ?_⟩
      · rw [hback] at hstep
        rw [hfirst, CTimerPool.migrateLoop, hstep, Option.bind_some, hnext]
        exact hloop
      · rw [hemptied.other b hb hout, Function.update_of_ne (hout slot hslot),
          Function.update_of_ne hb]
      · by_cases hdst : b = firstTB wheel + slot
        · rw [hdst, Function.update_self, ← hdst]
          exact List.mem_cons_of_mem _ hcell
        · rwa [Function.update_of_ne hdst, Function.update_of_ne hb]
      · rw [hlist] at hj
        cases j with
        | zero =>
            obtain rfl := Cell.node.inj (Option.some.inj hj)
            refine ⟨hslot, hemptied.stays _ hne _ ?_⟩
            rw [Function.update_self]
            exact List.mem_cons_self
        | succ j =>
            obtain ⟨hslot, hmem⟩ := hemptied.placed j k (by rw [hsame]; exact hj)
            have hread : pool.readings + (j + 1) = pool.readings + 1 + j := by omega
            rw [hread]
            exact ⟨hslot, hmem⟩
      · rw [hemptied.readings_eq, hsame, hlist, List.length_cons]
        exact Nat.succ_add_eq_add_succ _ _

theorem migrate_spec (hclock : Monotone clock) (hwheel : 1 ≤ wheel)
    (hle : wheel ≤ 5)
    (hsource : ∀ slot < tbNum wheel, firstTB wheel + slot ≠ source)
    (hok : Consistent pool lists used) (hnear : Near clock pool used) :
    ∃ after lists',
      pool.migrate clock wheel source = some after ∧
      Kept pool after ∧ after.uiCurPt = pool.uiCurPt ∧
      Consistent after lists' used ∧
      Emptied clock wheel source pool after lists lists' := by
  obtain ⟨after, lists', hloop, hmoved, hcur, hafter, hemptied⟩ :=
    migrateLoop_spec hclock hwheel hle hsource hok hnear rfl (hok.length_le source)
  refine ⟨after, lists', ?_, hmoved, hcur, hafter, hemptied⟩
  dsimp only [CTimerPool.migrate]
  cases hlist : lists source with
  | nil =>
      have hnext := hok.threads.next_eq_null_iff.mpr hlist
      rw [hnext] at hloop
      rw [if_pos hnext, ← hloop]
      cases pool.m_objTimerNodePool.iNodeNum <;> rfl
  | cons cell cells =>
      obtain ⟨hfirst, hback⟩ := hok.threads.first hlist
      obtain ⟨i, -, rfl⟩ := hok.exists_node (hlist ▸ List.mem_cons_self)
      rw [hfirst] at hloop
      rw [hfirst, if_neg nofun, hback, hloop]

end Migrate

/-! ## Turning -/

section Turn

variable {clock : ℕ → Timeval} {pool : CTimerPool Data} {lists : ℕ → List Cell}
  {used : Finset ℕ} {wheel rest : ℕ}

/-- The pointers from one wheel up to another are about to go round. -/
def GoRound (uiCurPt : ℕ → ℕ) (wheel upTo : ℕ) : Prop :=
  ∀ u, wheel ≤ u → u < upTo → uiCurPt u + 1 = tbNum u

/-- The bucket that is emptied into a wheel when that goes round. -/
def dueTB (uiCurPt : ℕ → ℕ) (wheel : ℕ) : ℕ :=
  firstTB (wheel + 1) + uiCurPt (wheel + 1)

/-- The wheels have turned from one on: the pointers have moved, and the buckets
that were due have been emptied into the wheels before them. -/
structure Turned (clock : ℕ → Timeval) (wheel : ℕ) (before after : CTimerPool Data)
    (lists lists' : ℕ → List Cell) : Prop where
  other : ∀ v < wheel, after.uiCurPt v = before.uiCurPt v
  step : ∀ v, wheel ≤ v → v ≤ 5 → GoRound before.uiCurPt wheel v →
    after.uiCurPt v = (before.uiCurPt v + 1) % tbNum v
  rest : ∀ v, wheel ≤ v → v ≤ 5 → ¬ GoRound before.uiCurPt wheel v →
    after.uiCurPt v = before.uiCurPt v
  stays : ∀ b cell, cell ∈ lists b →
    (∀ v, wheel < v → v ≤ 5 → GoRound before.uiCurPt wheel v →
      b ≠ firstTB v + before.uiCurPt v) →
    cell ∈ lists' b
  placed : ∀ v, wheel ≤ v → v < 5 → GoRound before.uiCurPt wheel (v + 1) →
    ∀ j i, (lists (dueTB before.uiCurPt v))[j]? = some (.node i) →
      PlacedAt clock v before.node lists' i
        (before.readings +
          ∑ u ∈ Finset.Ico wheel v, (lists (dueTB before.uiCurPt u)).length + j)

theorem Turned.pointersOk {before after : CTimerPool Data}
    {lists' : ℕ → List Cell} (hturned : Turned clock wheel before after lists lists')
    (hpointers : PointersOk before.uiCurPt) : PointersOk after.uiCurPt := by
  intro v hv hle
  by_cases hwheel : wheel ≤ v
  · by_cases hround : GoRound before.uiCurPt wheel v
    · rw [hturned.step v hwheel hle hround]
      exact Nat.mod_lt _ (tbNum_pos v)
    · rw [hturned.rest v hwheel hle hround]
      exact hpointers v hv hle
  · rw [hturned.other v (not_le.mp hwheel)]
    exact hpointers v hv hle

theorem goRound_succ {uiCurPt : ℕ → ℕ} {v : ℕ}
    (hhere : uiCurPt wheel + 1 = tbNum wheel) :
    GoRound uiCurPt wheel v ↔ GoRound uiCurPt (wheel + 1) v := by
  constructor
  · exact fun hround u hu => hround u (Nat.le_of_succ_le hu)
  · intro hround u hu hlt
    rcases hu.eq_or_lt with rfl | hu
    · exact hhere
    · exact hround u hu hlt

@[simp] theorem setCurPt_self (value : ℕ) :
    (pool.setCurPt wheel value).uiCurPt wheel = value :=
  Function.update_self ..

theorem setCurPt_of_ne {v : ℕ} (hne : v ≠ wheel) (value : ℕ) :
    (pool.setCurPt wheel value).uiCurPt v = pool.uiCurPt v :=
  Function.update_of_ne hne ..

theorem setCurPt_kept (value : ℕ) : Kept pool (pool.setCurPt wheel value) :=
  ⟨⟨rfl, rfl, rfl, rfl, fun _ => Iff.rfl⟩, rfl, le_rfl⟩

theorem Consistent.setCurPt (hok : Consistent pool lists used) (value : ℕ) :
    Consistent (pool.setCurPt wheel value) lists used :=
  hok.congr rfl rfl rfl rfl

theorem turn_of_ne (hhere : pool.uiCurPt wheel + 1 ≠ tbNum wheel) :
    CTimerPool.turn clock (rest + 1) wheel pool =
      some (pool.setCurPt wheel (pool.uiCurPt wheel + 1)) := by
  dsimp only [CTimerPool.turn]
  rw [setCurPt_self, if_neg hhere]

theorem turn_of_eq (hhere : pool.uiCurPt wheel + 1 = tbNum wheel)
    (hnext : pool.uiCurPt (wheel + 1) < tbNum (wheel + 1)) :
    CTimerPool.turn clock (rest + 1) wheel pool =
      ((pool.setCurPt wheel (pool.uiCurPt wheel + 1)).migrate clock wheel
        (firstTB (wheel + 1) + pool.uiCurPt (wheel + 1))).bind fun pool =>
          CTimerPool.turn clock rest (wheel + 1) (pool.setCurPt wheel 0) := by
  have hother : (pool.setCurPt wheel (pool.uiCurPt wheel + 1)).uiCurPt (wheel + 1) =
      pool.uiCurPt (wheel + 1) :=
    setCurPt_of_ne (Nat.succ_ne_self wheel) _
  dsimp only [CTimerPool.turn]
  rw [setCurPt_self, if_pos hhere, CTimerPool.fixCurPt, hother,
    if_neg (not_le.mpr hnext), hother]

theorem PlacedAt.mono {node : ℕ → TimerNode Data} {lists' : ℕ → List Cell}
    {i reading : ℕ} (hplaced : PlacedAt clock wheel node lists i reading)
    (hstays : ∀ slot < tbNum wheel, .node i ∈ lists (firstTB wheel + slot) →
      .node i ∈ lists' (firstTB wheel + slot)) :
    PlacedAt clock wheel node lists' i reading :=
  ⟨hplaced.slot_lt, hstays _ hplaced.slot_lt hplaced.mem⟩

section Round

variable {emptied : CTimerPool Data}

/-- The pointers of the other wheels after a wheel has gone round. -/
theorem rounded_of_ne {v : ℕ} (hne : v ≠ wheel)
    (hsame : emptied.uiCurPt =
      (pool.setCurPt wheel (pool.uiCurPt wheel + 1)).uiCurPt) :
    (emptied.setCurPt wheel 0).uiCurPt v = pool.uiCurPt v := by
  rw [setCurPt_of_ne hne, hsame, setCurPt_of_ne hne]

theorem PointersOk.rounded (hpointers : PointersOk pool.uiCurPt)
    (hsame : emptied.uiCurPt =
      (pool.setCurPt wheel (pool.uiCurPt wheel + 1)).uiCurPt) :
    PointersOk (emptied.setCurPt wheel 0).uiCurPt := by
  intro v hv hle
  rcases eq_or_ne v wheel with rfl | hne
  · rw [setCurPt_self]
    exact tbNum_pos v
  · rw [rounded_of_ne hne hsame]
    exact hpointers v hv hle

theorem goRound_rounded {v : ℕ} (hhere : pool.uiCurPt wheel + 1 = tbNum wheel)
    (hsame : emptied.uiCurPt =
      (pool.setCurPt wheel (pool.uiCurPt wheel + 1)).uiCurPt) :
    GoRound pool.uiCurPt wheel v ↔
      GoRound (emptied.setCurPt wheel 0).uiCurPt (wheel + 1) v := by
  rw [goRound_succ hhere]
  refine forall₂_congr fun u hu => ?_
  rw [rounded_of_ne (Nat.ne_of_gt hu) hsame]

/-- A wheel goes round, and its due bucket is emptied into it, before the wheels
behind it turn. -/
theorem Turned.round {after : CTimerPool Data} {lists₁ lists' : ℕ → List Cell}
    (hwheel : 1 ≤ wheel) (hlt : wheel < 5)
    (hhere : pool.uiCurPt wheel + 1 = tbNum wheel)
    (hnextCur : pool.uiCurPt (wheel + 1) < tbNum (wheel + 1))
    (hsame : emptied.uiCurPt =
      (pool.setCurPt wheel (pool.uiCurPt wheel + 1)).uiCurPt)
    (hnode : (emptied.setCurPt wheel 0).node = pool.node)
    (hemptied : Emptied clock wheel (firstTB (wheel + 1) + pool.uiCurPt (wheel + 1))
      (pool.setCurPt wheel (pool.uiCurPt wheel + 1)) emptied lists lists₁)
    (hturned : Turned clock (wheel + 1) (emptied.setCurPt wheel 0) after lists₁ lists') :
    Turned clock wheel pool after lists lists' := by
  have habove : ∀ v, wheel < v →
      (emptied.setCurPt wheel 0).uiCurPt v = pool.uiCurPt v :=
    fun v hv => rounded_of_ne hv.ne' hsame
  have hround : ∀ v, GoRound pool.uiCurPt wheel v ↔
      GoRound (emptied.setCurPt wheel 0).uiCurPt (wheel + 1) v :=
    fun v => goRound_rounded hhere hsame
  refine ⟨fun v hv => ?_, fun v hv hle hgo => ?_, fun v hv hle hgo => ?_,
    fun b cell hcell hnot => ?_, fun v hv hle hgo j i hj => ?_⟩
  · rw [hturned.other v (hv.trans (Nat.lt_succ_self wheel)), rounded_of_ne hv.ne hsame]
  · rcases hv.eq_or_lt with rfl | hv
    · rw [hturned.other wheel (Nat.lt_succ_self wheel), setCurPt_self, hhere,
        Nat.mod_self]
    · rw [hturned.step v hv hle ((hround v).mp hgo), habove v hv]
  · rcases hv.eq_or_lt with rfl | hv
    · exact absurd (fun u hu hlt => absurd hu (not_le.mpr hlt)) hgo
    · rw [hturned.rest v hv hle (mt (hround v).mpr hgo), habove v hv]
  · refine hturned.stays b cell (hemptied.stays b ?_ cell hcell)
      fun v hv hle hgo => ?_
    · exact hnot (wheel + 1) (Nat.lt_succ_self wheel) hlt
        fun u hu hu' => by rwa [show u = wheel by omega]
    · rw [habove v (by omega)]
      exact hnot v (by omega) hle ((hround v).mpr hgo)
  · rcases hv.eq_or_lt with rfl | hv
    · -- placed before the other wheels turned
      rw [Finset.Ico_self, Finset.sum_empty, Nat.add_zero]
      refine (hemptied.placed j i hj).mono fun slot hslot hmem => ?_
      refine hturned.stays _ _ hmem fun v hv hle hgo => ?_
      exact bucket_ne hwheel (by omega) hslot
    · have hdue : ∀ u, wheel + 1 ≤ u →
          lists₁ (dueTB (emptied.setCurPt wheel 0).uiCurPt u) =
            lists (dueTB pool.uiCurPt u) := by
        intro u hu
        rw [dueTB, dueTB, habove (u + 1) (by omega)]
        exact hemptied.other _
          (bucket_ne (Nat.le_succ_of_le hwheel) (by omega) hnextCur).symm
          fun slot hslot => (bucket_ne hwheel (by omega) hslot).symm
      have hplaced := hturned.placed v hv hle ((hround (v + 1)).mp hgo) j i
        (by rw [hdue v hv]; exact hj)
      have hsum : ∑ u ∈ Finset.Ico (wheel + 1) v,
          (lists₁ (dueTB (emptied.setCurPt wheel 0).uiCurPt u)).length =
            ∑ u ∈ Finset.Ico (wheel + 1) v, (lists (dueTB pool.uiCurPt u)).length :=
        Finset.sum_congr rfl fun u hu => by rw [hdue u (Finset.mem_Ico.mp hu).1]
      have hread : (emptied.setCurPt wheel 0).readings = pool.readings +
          (lists (dueTB pool.uiCurPt wheel)).length := hemptied.readings_eq
      rw [hnode, hsum, hread, Nat.add_assoc pool.readings] at hplaced
      rw [Finset.sum_eq_sum_Ico_succ_bot hv]
      exact hplaced

end Round

theorem turn_spec (hclock : Monotone clock) (hwheel : 1 ≤ wheel)
    (hrest : wheel + rest = 5) (hpointers : PointersOk pool.uiCurPt)
    (hok : Consistent pool lists used) (hnear : Near clock pool used) :
    ∃ after lists',
      CTimerPool.turn clock rest wheel pool = some after ∧
      Kept pool after ∧ Consistent after lists' used ∧
      Turned clock wheel pool after lists lists' := by
  induction rest generalizing pool lists wheel with
  | zero =>
      obtain rfl : wheel = 5 := hrest
      refine ⟨_, lists, rfl, setCurPt_kept _, hok.setCurPt _,
        ⟨fun v hv => setCurPt_of_ne hv.ne _, fun v hv hle _ => ?_,
          fun v hv hle hround => ?_, fun b cell hcell _ => hcell,
          fun v hv hlt => absurd hv (not_le.mpr hlt)⟩⟩
      · obtain rfl : v = 5 := le_antisymm hle hv
        exact setCurPt_self _
      · exact absurd (fun u hu hlt => absurd (hu.trans_lt hlt) (not_lt.mpr hle)) hround
  | succ rest ih =>
      have hlt : wheel < 5 := by omega
      have hcur := hpointers wheel hwheel hlt.le
      have hnextCur := hpointers (wheel + 1) (by omega) hlt
      by_cases hhere : pool.uiCurPt wheel + 1 = tbNum wheel
      · -- the bucket that is due goes to this wheel, and the next wheel turns
        have hsource : ∀ slot < tbNum wheel, firstTB wheel + slot ≠
            firstTB (wheel + 1) + pool.uiCurPt (wheel + 1) :=
          fun slot hslot => bucket_ne hwheel (Nat.lt_succ_self wheel) hslot
        obtain ⟨emptied, lists₁, hmigrate, hmoved, hsame, hok₁, hemptied⟩ :=
          migrate_spec hclock hwheel hlt.le hsource
            (hok.setCurPt (pool.uiCurPt wheel + 1))
            ((setCurPt_kept (pool.uiCurPt wheel + 1)).near hnear)
        have hturning : Kept pool (emptied.setCurPt wheel 0) :=
          ((setCurPt_kept (pool.uiCurPt wheel + 1)).trans hmoved).trans
            (setCurPt_kept 0)
        obtain ⟨after, lists', hturn, hmoved', hok', hturned⟩ :=
          ih (Nat.le_succ_of_le hwheel) (by omega) (hpointers.rounded hsame)
            (hok₁.setCurPt 0) (hturning.near hnear)
        refine ⟨after, lists', ?_, hturning.trans hmoved', hok',
          hturned.round hwheel hlt hhere hnextCur hsame hturning.node_eq hemptied⟩
        rw [turn_of_eq hhere hnextCur, hmigrate]
        exact hturn
      · refine ⟨_, lists, turn_of_ne hhere, setCurPt_kept _, hok.setCurPt _,
          ⟨fun v hv => setCurPt_of_ne hv.ne _, fun v hv hle hround => ?_,
            fun v hv hle hround => ?_, fun b cell hcell _ => hcell,
            fun v hv hlt' hround => absurd (hround wheel le_rfl (by omega)) hhere⟩⟩
        · rcases hv.eq_or_lt with rfl | hv
          · rw [setCurPt_self, Nat.mod_eq_of_lt (by omega)]
          · exact absurd (hround wheel le_rfl hv) hhere
        · refine setCurPt_of_ne ?_ _
          rintro rfl
          exact hround fun u hu hlt' => absurd hu (not_le.mpr hlt')

end Turn

end MessageBus.TimerPool
