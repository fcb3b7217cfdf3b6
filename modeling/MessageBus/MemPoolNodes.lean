import MessageBus.ByteRing
import MessageBus.MemPoolModel

/-!
# The nodes of a pool are free or in use

The free nodes are the entries of the ring from `iFreeHead` to `iFreeTail`; the
other entries of the ring hold old numbers.  One node, the last, is never handed
out.
-/

namespace MessageBus.MemPool

open ByteFlags
open ByteRing

namespace CFixedsizeMemPool

/-- The length of the free ring. -/
def freeNum (pool : CFixedsizeMemPool) : ℕ :=
  (pool.iFreeTail + pool.iNodeNum - pool.iFreeHead) % pool.iNodeNum

/-- The nodes in the free ring, the next to be handed out first. -/
def freeNodes (pool : CFixedsizeMemPool) : List ℕ :=
  ringRead pool.iNodeNum pool.freeList pool.iFreeHead pool.freeNum

/-- A pool of which the nodes `used` are in use. -/
structure Valid (pool : CFixedsizeMemPool) (used : Finset ℕ) : Prop where
  nodes_pos : 0 < pool.iNodeNum
  head_lt : pool.iFreeHead < pool.iNodeNum
  tail_lt : pool.iFreeTail < pool.iNodeNum
  apart : pool.iNodeNum = 1 ∨ pool.iFreeHead ≠ pool.iFreeTail
  entries_lt : ∀ index < pool.iNodeNum, pool.freeList index < pool.iNodeNum
  free_nodup : pool.freeNodes.Nodup
  free_notMem : ∀ node ∈ pool.freeNodes, node ∉ used
  union : ∀ node,
    node ∈ pool.freeNodes ∨ node ∈ used ↔ node < pool.iNodeNum - 1
  test_iff : ∀ node < pool.iNodeNum,
    test pool.usedBit node = true ↔ node ∈ used
  used_eq : pool.iUsedNodeNum = used.card

variable {pool : CFixedsizeMemPool} {used : Finset ℕ}

theorem freeNum_eq
    (hhead : pool.iFreeHead < pool.iNodeNum)
    (htail : pool.iFreeTail < pool.iNodeNum) :
    pool.freeNum =
      if pool.iFreeHead ≤ pool.iFreeTail then pool.iFreeTail - pool.iFreeHead
      else pool.iFreeTail + pool.iNodeNum - pool.iFreeHead := by
  unfold freeNum
  split_ifs with hle
  · rw [Nat.add_comm, Nat.add_sub_assoc hle, Nat.add_mod_left,
      Nat.mod_eq_of_lt (by omega)]
  · exact Nat.mod_eq_of_lt (by omega)

theorem freeNum_lt (hhead : pool.iFreeHead < pool.iNodeNum) :
    pool.freeNum < pool.iNodeNum :=
  Nat.mod_lt _ (by omega)

/-- The free ring ends at the tail. -/
theorem head_add_freeNum
    (hhead : pool.iFreeHead < pool.iNodeNum)
    (htail : pool.iFreeTail < pool.iNodeNum) :
    (pool.iFreeHead + pool.freeNum) % pool.iNodeNum = pool.iFreeTail := by
  rw [freeNum_eq hhead htail]
  split_ifs with hle
  · rw [Nat.add_sub_cancel' hle, Nat.mod_eq_of_lt htail]
  · rw [Nat.add_sub_cancel' (by omega), Nat.add_mod_right,
      Nat.mod_eq_of_lt htail]

namespace Valid

theorem disjoint (hvalid : pool.Valid used) :
    Disjoint pool.freeNodes.toFinset used := by
  rw [Finset.disjoint_left]
  intro node hmem
  exact hvalid.free_notMem node (List.mem_toFinset.mp hmem)

theorem union_eq (hvalid : pool.Valid used) :
    pool.freeNodes.toFinset ∪ used = Finset.range (pool.iNodeNum - 1) := by
  ext node
  rw [Finset.mem_union, List.mem_toFinset, Finset.mem_range]
  exact hvalid.union node

theorem freeNum_add_card (hvalid : pool.Valid used) :
    pool.freeNum + used.card = pool.iNodeNum - 1 := by
  have hcard := Finset.card_union_of_disjoint hvalid.disjoint
  rw [hvalid.union_eq, Finset.card_range,
    List.toFinset_card_of_nodup hvalid.free_nodup, freeNodes,
    ringRead_length] at hcard
  exact hcard.symm

theorem used_lt (hvalid : pool.Valid used) {node : ℕ} (hmem : node ∈ used) :
    node < pool.iNodeNum - 1 :=
  (hvalid.union node).mp (Or.inr hmem)

theorem raisedCount_eq (hvalid : pool.Valid used) :
    raisedCount pool.usedBit pool.iNodeNum = used.card := by
  apply raisedCount_eq_card _ hvalid.test_iff
  intro node hmem
  have hlt := hvalid.used_lt hmem
  omega

theorem verify_eq (hvalid : pool.Valid used) : pool.verify = some success := by
  have hpos := hvalid.nodes_pos
  have hhead := hvalid.head_lt
  have hlt := freeNum_lt hhead
  have hcard := hvalid.freeNum_add_card
  have hmod : ((pool.iFreeTail : ℤ) + pool.iNodeNum - pool.iFreeHead).tmod
      pool.iNodeNum = pool.freeNum := by
    rw [freeNum, Int.natCast_mod, Nat.cast_sub (by omega), Nat.cast_add,
      Int.tmod_eq_emod_of_nonneg (by omega)]
  unfold verify
  rw [if_neg, if_neg (by omega), hmod, hvalid.used_eq, if_neg (by omega),
    hvalid.raisedCount_eq, if_neg (by simp)]
  rintro ⟨index, hindex, hentry⟩
  have := hvalid.entries_lt index hindex
  omega

end Valid

/-! ## The two ends of the free ring -/

/-- The pool when its first free node is handed out. -/
def takeHead (pool : CFixedsizeMemPool) : CFixedsizeMemPool :=
  { pool with
    usedBit := raise pool.usedBit (pool.freeList pool.iFreeHead)
    iFreeHead := (pool.iFreeHead + 1) % pool.iNodeNum
    iUsedNodeNum := pool.iUsedNodeNum + 1 }

/-- The pool when a node comes back. -/
def giveTail (pool : CFixedsizeMemPool) (node : ℕ) : CFixedsizeMemPool :=
  { pool with
    freeList := Function.update pool.freeList pool.iFreeTail node
    usedBit := lower pool.usedBit node
    iFreeTail := (pool.iFreeTail + 1) % pool.iNodeNum
    iUsedNodeNum := pool.iUsedNodeNum - 1 }

theorem succ_mod_eq {index size : ℕ} (hindex : index < size) :
    (index + 1) % size = if index + 1 = size then 0 else index + 1 := by
  split_ifs with hend
  · rw [hend, Nat.mod_self]
  · exact Nat.mod_eq_of_lt (by omega)

section Ends

variable (hhead : pool.iFreeHead < pool.iNodeNum)
  (htail : pool.iFreeTail < pool.iNodeNum)

include hhead htail

theorem freeNum_takeHead (hapart : pool.iFreeHead ≠ pool.iFreeTail) :
    pool.freeNum = 1 + pool.takeHead.freeNum := by
  have hnext := freeNum_eq (show pool.takeHead.iFreeHead < _ from
    Nat.mod_lt _ (by omega)) htail
  rw [freeNum_eq hhead htail, hnext]
  simp only [takeHead, succ_mod_eq hhead]
  split_ifs <;> omega

theorem freeNodes_takeHead (hapart : pool.iFreeHead ≠ pool.iFreeTail) :
    pool.freeNodes =
      pool.freeList pool.iFreeHead :: pool.takeHead.freeNodes := by
  have hfirst : ringRead pool.iNodeNum pool.freeList pool.iFreeHead 1 =
      [pool.freeList pool.iFreeHead] := by
    simp [ringRead, ringCells, Nat.mod_eq_of_lt hhead]
  have hrest : pool.takeHead.freeNodes = ringRead pool.iNodeNum pool.freeList
      (pool.iFreeHead + 1) pool.takeHead.freeNum :=
    ringRead_mod _ _ _ _
  rw [freeNodes, freeNum_takeHead hhead htail hapart, ringRead_add, hfirst,
    hrest, List.singleton_append]

theorem freeNum_giveTail {node : ℕ} (hroom : pool.freeNum + 1 < pool.iNodeNum) :
    (pool.giveTail node).freeNum = pool.freeNum + 1 := by
  have hnextTail : (pool.giveTail node).iFreeTail <
      (pool.giveTail node).iNodeNum :=
    Nat.mod_lt _ (by omega)
  rw [freeNum_eq hhead htail] at hroom
  rw [freeNum_eq hhead htail, @freeNum_eq (pool.giveTail node) hhead hnextTail]
  simp only [giveTail, succ_mod_eq htail]
  split_ifs at * <;> omega

theorem freeNodes_giveTail
    (node : ℕ) (hroom : pool.freeNum + 1 < pool.iNodeNum) :
    (pool.giveTail node).freeNodes = pool.freeNodes ++ [node] := by
  have hlast := head_add_freeNum hhead htail
  unfold freeNodes
  rw [freeNum_giveTail hhead htail hroom]
  change ringRead pool.iNodeNum
    (Function.update pool.freeList pool.iFreeTail node) pool.iFreeHead _ = _
  rw [ringRead_add]
  congr 1
  · apply ringRead_congr
    intro index hmem
    refine Function.update_of_ne ?_ _ _
    rintro rfl
    obtain ⟨offset, hoffset, heq⟩ := mem_ringCells.mp hmem
    rw [← hlast] at heq
    have := ringIndex_injective (by omega) (by omega) heq
    omega
  · simp [ringRead, ringCells, hlast]

end Ends

namespace Valid

/-- Unless the ring is full its first node is free, and leaves it. -/
theorem takeHead
    (hvalid : pool.Valid used)
    (hroom : (pool.iFreeHead + 1) % pool.iNodeNum ≠ pool.iFreeTail) :
    pool.freeList pool.iFreeHead ∉ used ∧
      pool.takeHead.Valid (insert (pool.freeList pool.iFreeHead) used) := by
  have hhead := hvalid.head_lt
  have htail := hvalid.tail_lt
  have hapart : pool.iFreeHead ≠ pool.iFreeTail := by
    rcases hvalid.apart with hone | hapart
    · exact absurd (by rw [hone, Nat.mod_one]; omega) hroom
    · exact hapart
  have hfree := freeNodes_takeHead hhead htail hapart
  have hnodup := hvalid.free_nodup
  have hnotMem := hvalid.free_notMem
  have hunion := hvalid.union
  rw [hfree] at hnodup hnotMem hunion
  rw [List.nodup_cons] at hnodup
  have hfirst := hnotMem _ List.mem_cons_self
  refine ⟨hfirst, ?_⟩
  constructor
  · exact hvalid.nodes_pos
  · exact Nat.mod_lt _ hvalid.nodes_pos
  · exact htail
  · exact Or.inr hroom
  · exact hvalid.entries_lt
  · exact hnodup.2
  · intro node hmem hused
    rcases Finset.mem_insert.mp hused with rfl | hused
    · exact hnodup.1 hmem
    · exact hnotMem node (List.mem_cons_of_mem _ hmem) hused
  · intro node
    refine Iff.trans ?_ (hunion node)
    rw [List.mem_cons, Finset.mem_insert]
    tauto
  · intro node hnode
    change test (raise pool.usedBit (pool.freeList pool.iFreeHead)) node =
      true ↔ _
    rw [test_raise, Bool.or_eq_true, decide_eq_true_eq,
      hvalid.test_iff node hnode, Finset.mem_insert]
  · change pool.iUsedNodeNum + 1 = _
    rw [hvalid.used_eq, Finset.card_insert_of_notMem hfirst]
    rfl

theorem room (hvalid : pool.Valid used) {node : ℕ} (hmem : node ∈ used) :
    pool.freeNum + 1 < pool.iNodeNum := by
  have hpos : 0 < used.card := Finset.card_pos.mpr ⟨node, hmem⟩
  have hcard := hvalid.freeNum_add_card
  omega

theorem giveTail
    (hvalid : pool.Valid used) {node : ℕ} (hmem : node ∈ used) :
    (pool.giveTail node).Valid (used.erase node) := by
  have hhead := hvalid.head_lt
  have htail := hvalid.tail_lt
  have hnode := hvalid.used_lt hmem
  have hroom := hvalid.room hmem
  have hpos : 0 < used.card := Finset.card_pos.mpr ⟨node, hmem⟩
  have hfree := freeNodes_giveTail hhead htail node hroom
  have hnotMem : node ∉ pool.freeNodes :=
    fun hnode => hvalid.free_notMem node hnode hmem
  constructor
  · exact hvalid.nodes_pos
  · exact hhead
  · exact Nat.mod_lt _ hvalid.nodes_pos
  · right
    intro hmeet
    have hnum := @freeNum_eq (pool.giveTail node) hhead
      (Nat.mod_lt _ hvalid.nodes_pos)
    rw [hmeet, if_pos le_rfl, Nat.sub_self,
      freeNum_giveTail hhead htail hroom] at hnum
    omega
  · intro index hindex
    change Function.update pool.freeList pool.iFreeTail node index < _
    by_cases hat : index = pool.iFreeTail
    · rw [hat, Function.update_self]
      exact hnode.trans_le (Nat.sub_le _ _)
    · rw [Function.update_of_ne hat]
      exact hvalid.entries_lt index hindex
  · rw [hfree, List.nodup_append]
    refine ⟨hvalid.free_nodup, List.nodup_singleton _, ?_⟩
    intro first hfirst second hsecond heq
    rw [List.mem_singleton.mp hsecond] at heq
    exact hnotMem (heq ▸ hfirst)
  · intro other hother
    rw [hfree, List.mem_append, List.mem_singleton] at hother
    rw [Finset.mem_erase]
    rcases hother with hother | rfl
    · exact fun herased => hvalid.free_notMem other hother herased.2
    · exact fun herased => herased.1 rfl
  · intro other
    refine Iff.trans ?_ (hvalid.union other)
    rw [hfree, List.mem_append, List.mem_singleton, Finset.mem_erase]
    by_cases heq : other = node
    · subst heq
      simp [hmem]
    · simp [heq]
  · intro other hother
    change test (lower pool.usedBit node) other = true ↔ _
    rw [test_lower, Bool.and_eq_true, Bool.not_eq_true', decide_eq_false_iff_not,
      hvalid.test_iff other hother, Finset.mem_erase]
  · change pool.iUsedNodeNum - 1 = _
    rw [hvalid.used_eq, Finset.card_erase_of_mem hmem]
    omega

theorem freeNodes_giveTail
    (hvalid : pool.Valid used) {node : ℕ} (hmem : node ∈ used) :
    (pool.giveTail node).freeNodes = pool.freeNodes ++ [node] :=
  CFixedsizeMemPool.freeNodes_giveTail hvalid.head_lt hvalid.tail_lt node
    (hvalid.room hmem)

theorem allocateNode_eq (hvalid : pool.Valid used) :
    pool.allocateNode =
      if (pool.iFreeHead + 1) % pool.iNodeNum = pool.iFreeTail then
        some (none, pool)
      else some (some (pool.freeList pool.iFreeHead), pool.takeHead) := by
  unfold allocateNode
  rw [if_neg hvalid.nodes_pos.ne']
  rfl

variable {sizeofData : ℕ}

theorem releaseNode_eq
    (hvalid : pool.Valid used) (hsizeof : 0 < sizeofData) {node : ℕ}
    (hnode : node < pool.iNodeNum) :
    pool.releaseNode sizeofData (sizeofData * node) =
      if node ∈ used then some (success, pool.giveTail node)
      else some (success, pool) := by
  have hposition : ((sizeofData : ℤ) * node).toNat / sizeofData = node := by
    rw [← Nat.cast_mul, Int.toNat_natCast, Nat.mul_div_cancel_left _ hsizeof]
  unfold releaseNode
  rw [if_neg, hposition]
  · simp only [if_neg hvalid.nodes_pos.ne', Bool.eq_false_iff, ne_eq,
      hvalid.test_iff node hnode, ite_not]
    rfl
  · rw [Int.mul_emod_right]
    have hle : (sizeofData : ℤ) * node ≤ sizeofData * pool.iNodeNum := by
      gcongr
    have hnonneg : 0 ≤ (sizeofData : ℤ) * node := by positivity
    omega

end Valid

/-! ## Runs from `Init` -/

section Clear

variable (pool) (sizeofData : ℕ) (iMemSize : ℤ) {iNodeNum : ℕ}

theorem freeNodes_clear (hpos : 0 < iNodeNum) :
    (pool.clear sizeofData iMemSize iNodeNum).freeNodes =
      List.range (iNodeNum - 1) := by
  have hnum : (pool.clear sizeofData iMemSize iNodeNum).freeNum =
      iNodeNum - 1 := by
    rw [freeNum_eq hpos (Nat.sub_lt hpos Nat.one_pos)]
    exact if_pos (Nat.zero_le _)
  rw [freeNodes, hnum, ringRead]
  change (ringCells iNodeNum 0 (iNodeNum - 1)).map _ = _
  rw [ringCells_of_le (by omega), ← List.range_eq_range']
  conv_rhs => rw [← List.map_id (List.range (iNodeNum - 1))]
  apply List.map_congr_left
  intro index hindex
  rw [List.mem_range] at hindex
  exact if_pos (by omega)

theorem clear_valid (hpos : 0 < iNodeNum) :
    (pool.clear sizeofData iMemSize iNodeNum).Valid ∅ where
  nodes_pos := hpos
  head_lt := hpos
  tail_lt := Nat.sub_lt hpos Nat.one_pos
  apart := by
    change iNodeNum = 1 ∨ 0 ≠ iNodeNum - 1
    omega
  entries_lt := by
    intro index hindex
    exact (if_pos hindex).trans_lt hindex
  free_nodup := by
    rw [freeNodes_clear pool sizeofData iMemSize hpos]
    exact List.nodup_range
  free_notMem := fun _ _ => Finset.notMem_empty _
  union := by
    intro node
    rw [freeNodes_clear pool sizeofData iMemSize hpos, List.mem_range,
      or_iff_left (Finset.notMem_empty _)]
    rfl
  test_iff := by
    intro node hnode
    change node < iNodeNum at hnode
    have hbyte : (pool.clear sizeofData iMemSize iNodeNum).usedBit
        (node / 8) = 0 := if_pos (by omega)
    simp [test, hbyte]
  used_eq := rfl

end Clear

/-- A call of the owner of the pool. -/
inductive PoolCall where
  | allocateNode
  | releaseNode (node : ℕ)

/-- A release is of the start of one of the nodes. -/
def PoolCall.OnNodes (iNodeNum : ℕ) : PoolCall → Prop
  | .allocateNode => True
  | .releaseNode node => node < iNodeNum

/-- One call, with the nodes that were handed out and not released. -/
def step (sizeofData : ℕ) (state : CFixedsizeMemPool × Finset ℕ) :
    PoolCall → Option (CFixedsizeMemPool × Finset ℕ)
  | .allocateNode => do
      let (node, next) ← state.1.allocateNode
      return (next, node.elim state.2 fun node => insert node state.2)
  | .releaseNode node => do
      let (_, next) ← state.1.releaseNode sizeofData (sizeofData * node)
      return (next, state.2.erase node)

def run (sizeofData : ℕ) (pool : CFixedsizeMemPool) (calls : List PoolCall) :
    Option (CFixedsizeMemPool × Finset ℕ) :=
  calls.foldlM (step sizeofData) (pool, ∅)

section Runs

variable {sizeofData : ℕ} (hsizeof : 0 < sizeofData)

include hsizeof

theorem Valid.step (hvalid : pool.Valid used) {call : PoolCall}
    (hcall : call.OnNodes pool.iNodeNum) :
    ∃ next used', CFixedsizeMemPool.step sizeofData (pool, used) call =
        some (next, used') ∧
      next.Valid used' ∧ next.iNodeNum = pool.iNodeNum := by
  cases call with
  | allocateNode =>
      simp only [CFixedsizeMemPool.step, hvalid.allocateNode_eq]
      split_ifs with hfull
      · exact ⟨pool, used, rfl, hvalid, rfl⟩
      · exact ⟨_, _, rfl, (hvalid.takeHead hfull).2, rfl⟩
  | releaseNode node =>
      simp only [CFixedsizeMemPool.step,
        hvalid.releaseNode_eq hsizeof hcall]
      split_ifs with hmem
      · exact ⟨_, _, rfl, hvalid.giveTail hmem, rfl⟩
      · refine ⟨pool, used.erase node, rfl, ?_, rfl⟩
        rwa [Finset.erase_eq_of_notMem hmem]

theorem Valid.run (hvalid : pool.Valid used) {calls : List PoolCall}
    (hcalls : ∀ call ∈ calls, call.OnNodes pool.iNodeNum) :
    ∃ reached used', calls.foldlM (CFixedsizeMemPool.step sizeofData)
        (pool, used) = some (reached, used') ∧
      reached.Valid used' ∧ reached.iNodeNum = pool.iNodeNum := by
  induction calls generalizing pool used with
  | nil => exact ⟨pool, used, rfl, hvalid, rfl⟩
  | cons call calls ih =>
      obtain ⟨next, used', hstep, hnext, hnum⟩ :=
        hvalid.step hsizeof (hcalls call List.mem_cons_self)
      have hlater : ∀ later ∈ calls, later.OnNodes next.iNodeNum := by
        intro later hmem
        rw [hnum]
        exact hcalls later (List.mem_cons_of_mem _ hmem)
      obtain ⟨reached, final, hrun, hreached, hreachedNum⟩ := ih hnext hlater
      refine ⟨reached, final, ?_, hreached, hreachedNum.trans hnum⟩
      rw [List.foldlM_cons, hstep]
      exact hrun

end Runs

theorem exists_clear_of_init
    {memory : CFixedsizeMemPool} {sizeofData : ℕ} {pvMem : Bool}
    {iMemSize iNodeNum : ℤ}
    (hinit : memory.init sizeofData pvMem iMemSize iNodeNum 1 =
      some (success, pool)) :
    ∃ nodes, pool = memory.clear sizeofData iMemSize nodes := by
  unfold init at hinit
  simp only [if_pos] at hinit
  split_ifs at hinit
  · simp [eNodeNum, success] at hinit
  · simp [eMemSize, success] at hinit
  · simp [eMemSize, success] at hinit
  · exact ⟨_, (congrArg Prod.snd (Option.some.inj hinit)).symm⟩

theorem Valid.of_init
    {memory : CFixedsizeMemPool} {sizeofData : ℕ} {pvMem : Bool}
    {iMemSize iNodeNum : ℤ}
    (hinit : memory.init sizeofData pvMem iMemSize iNodeNum 1 =
      some (success, pool)) (hpos : 0 < pool.iNodeNum) :
    pool.Valid ∅ := by
  obtain ⟨nodes, rfl⟩ := exists_clear_of_init hinit
  exact clear_valid memory sizeofData iMemSize hpos

end CFixedsizeMemPool

/-- After `Init` with `iClearFlag`, and any calls on its nodes, the pool never
hands out a node that is in use, counts the nodes in use, keeps them apart from
the free ring, ignores the release of a free node and passes `Verify`. -/
theorem nodes_handed_out_once
    (memory pool : CFixedsizeMemPool) (sizeofData : ℕ)
    (hsizeof : 0 < sizeofData) (pvMem : Bool) (iMemSize iNodeNum : ℤ)
    (hinit : memory.init sizeofData pvMem iMemSize iNodeNum 1 =
      some (success, pool))
    (hnodes : 1 ≤ pool.iNodeNum) (calls : List CFixedsizeMemPool.PoolCall)
    (hcalls : ∀ call ∈ calls, call.OnNodes pool.iNodeNum) :
    ∃ reached used,
      CFixedsizeMemPool.run sizeofData pool calls = some (reached, used) ∧
      reached.iUsedNodeNum = raisedCount reached.usedBit pool.iNodeNum ∧
      reached.iUsedNodeNum = used.card ∧
      reached.freeNodes.Nodup ∧
      Disjoint reached.freeNodes.toFinset used ∧
      reached.freeNodes.toFinset ∪ used =
        Finset.range (pool.iNodeNum - 1) ∧
      reached.verify = some success ∧
      (∀ node next, reached.allocateNode = some (some node, next) →
        node ∉ used) ∧
      ∀ node < pool.iNodeNum, node ∉ used →
        reached.releaseNode sizeofData (sizeofData * node) =
          some (success, reached) := by
  have hstart := CFixedsizeMemPool.Valid.of_init hinit hnodes
  obtain ⟨reached, used, hrun, hreached, hnum⟩ := hstart.run hsizeof hcalls
  refine ⟨reached, used, hrun, ?_, hreached.used_eq, hreached.free_nodup, ?_,
    ?_, hreached.verify_eq, ?_, ?_⟩
  · rw [← hnum, hreached.raisedCount_eq, hreached.used_eq]
  · exact hreached.disjoint
  · rw [← hnum]
    exact hreached.union_eq
  · intro node next hallocate
    rw [hreached.allocateNode_eq] at hallocate
    split_ifs at hallocate with hfull
    · cases hallocate
    · obtain rfl : reached.freeList reached.iFreeHead = node := by
        simpa using congrArg (Option.map Prod.fst) hallocate
      exact (hreached.takeHead hfull).1
  · intro node hnode hnotMem
    rw [← hnum] at hnode
    rw [hreached.releaseNode_eq hsizeof hnode, if_neg hnotMem]

/-- A block of memory with nothing in it. -/
def blankMemory : CFixedsizeMemPool where
  iMemSize := 0
  iNodeNum := 0
  iUsedNodeNum := 0
  iFreeHead := 0
  iFreeTail := 0
  freeList := fun _ => 0
  usedBit := fun _ => 0

/-- With three nodes one can be in use; it is released twice. -/
theorem nodes_handed_out_once_three :
    ∃ reached used,
      CFixedsizeMemPool.run 8 (blankMemory.clear 8 100 3)
        [.allocateNode, .allocateNode, .releaseNode 0, .releaseNode 0,
          .releaseNode 2, .allocateNode] = some (reached, used) ∧
      reached.verify = some success ∧
      reached.freeNodes.toFinset ∪ used = Finset.range 2 := by
  obtain ⟨reached, used, hrun, -, -, -, -, hunion, hverify, -⟩ :=
    nodes_handed_out_once blankMemory (blankMemory.clear 8 100 3) 8
      (by decide) true 100 3 rfl (by decide)
      [.allocateNode, .allocateNode, .releaseNode 0, .releaseNode 0,
        .releaseNode 2, .allocateNode]
      (by simp [CFixedsizeMemPool.PoolCall.OnNodes,
        CFixedsizeMemPool.clear])
  exact ⟨reached, used, hrun, hverify, hunion⟩

end MessageBus.MemPool
