import MessageBus.MemPoolNodes

/-!
# A pool under any pointer

The owner of a pool may call `ReleaseNode` with any pointer, and whoever has a
node writes to it; the bytes of the nodes follow those of the bits.  Only one
pointer is taken for a node that is none: the one behind the last node.  `Init`
accepts a pool without nodes; `AllocateNode`, `Verify` and a `ReleaseNode` that
takes a node back divide by their number, and no other operation divides by
anything it has read.

The ring is full when its head is one place before its tail, and it starts with
the tail one place before its end, so that two nodes are always left over.
-/

namespace MessageBus.MemPool

open ByteFlags

namespace CFixedsizeMemPool

/-! ## Calls -/

inductive PointerCall where
  | allocateNode
  | releaseNode (pData : ℤ)
  | verify
  -- what the users of the nodes write
  | writeData (bytes : ℕ → UInt8)

inductive PointerAnswer where
  | node (node : Option ℕ)
  | code (ret : ℤ)
  | written

/-- Other bytes in the nodes. -/
def writeData (pool : CFixedsizeMemPool) (bytes : ℕ → UInt8) :
    CFixedsizeMemPool :=
  { pool with
    usedBit := fun index =>
      if index < (pool.iNodeNum + 7) / 8 then pool.usedBit index
      else bytes index }

def perform (sizeofData : ℕ) (pool : CFixedsizeMemPool) :
    PointerCall → Option (PointerAnswer × CFixedsizeMemPool)
  | .allocateNode =>
      pool.allocateNode.map fun answer => (.node answer.1, answer.2)
  | .releaseNode pData =>
      (pool.releaseNode sizeofData pData).map fun answer =>
        (.code answer.1, answer.2)
  | .verify => pool.verify.map fun ret => (.code ret, pool)
  | .writeData bytes => some (.written, pool.writeData bytes)

/-- The pointer is the start of a node. -/
def IsNode (sizeofData : ℕ) (pool : CFixedsizeMemPool) (pData : ℤ) : Prop :=
  ∃ node < pool.iNodeNum, pData = sizeofData * node

/-- `m_pDataBuff + m_pstHead->iNodeNum`. -/
def pastNodes (sizeofData : ℕ) (pool : CFixedsizeMemPool) : ℤ :=
  sizeofData * pool.iNodeNum

/-- The nodes that were handed out and not released. -/
def inUse (sizeofData : ℕ) (pool : CFixedsizeMemPool) (used : Finset ℕ) :
    PointerCall → PointerAnswer → Finset ℕ
  | _, .node (some node) => insert node used
  | .releaseNode pData, .code _ =>
      if 0 ≤ pData ∧ pData < pool.pastNodes sizeofData ∧
          pData % sizeofData = 0 then
        used.erase (pData.toNat / sizeofData)
      else used
  | _, _ => used

section Calls

variable {sizeofData : ℕ} {pool next : CFixedsizeMemPool} {used : Finset ℕ}
  {pData : ℤ} {call : PointerCall} {answer : PointerAnswer}

/-- Every other pointer is refused. -/
theorem releaseNode_of_foreign
    (hforeign : ¬ pool.IsNode sizeofData pData)
    (hpast : pData ≠ pool.pastNodes sizeofData) :
    pool.releaseNode sizeofData pData = some (eDatapErr, pool) := by
  unfold releaseNode
  rw [if_pos]
  by_contra hin
  obtain ⟨hnonneg, hin⟩ := not_or.mp hin
  obtain ⟨hle, haligned⟩ := not_or.mp hin
  obtain ⟨node, rfl⟩ := Int.dvd_of_emod_eq_zero (not_not.mp haligned)
  unfold pastNodes at hpast
  have hsizeof : (0 : ℤ) < sizeofData := by
    rcases (Int.natCast_nonneg sizeofData).eq_or_lt with hzero | hpos
    · rw [← hzero, zero_mul, zero_mul] at hpast
      exact absurd rfl hpast
    · exact hpos
  have hnode : 0 ≤ node := nonneg_of_mul_nonneg_right (not_lt.mp hnonneg) hsizeof
  have hnodeLe : node ≤ pool.iNodeNum :=
    le_of_mul_le_mul_left (not_lt.mp hle) hsizeof
  have hne : node ≠ pool.iNodeNum := fun heq => hpast (heq ▸ rfl)
  refine hforeign ⟨node.toNat, by omega, ?_⟩
  rw [Int.toNat_of_nonneg hnode]

theorem releaseNode_pastNodes
    (hrelease : pool.releaseNode sizeofData (pool.pastNodes sizeofData) =
      some (eDatapErr, next)) : False := by
  have hnonneg : 0 ≤ (sizeofData : ℤ) * pool.iNodeNum := by positivity
  unfold releaseNode pastNodes at hrelease
  rw [if_neg] at hrelease
  · simp only at hrelease
    split_ifs at hrelease
    · exact absurd (Prod.mk.inj (Option.some.inj hrelease)).1 (by decide)
    · exact absurd (Prod.mk.inj (Option.some.inj hrelease)).1 (by decide)
  · rw [Int.mul_emod_right]
    omega

theorem not_isNode_pastNodes (hsizeof : 0 < sizeofData) :
    ¬ pool.IsNode sizeofData (pool.pastNodes sizeofData) := by
  rintro ⟨node, hnode, heq⟩
  have hcast : (pool.iNodeNum : ℤ) = node :=
    mul_left_cancel₀ (Int.natCast_ne_zero.mpr hsizeof.ne') heq
  omega

theorem isNode_iff (hsizeof : 0 < sizeofData) :
    pool.IsNode sizeofData pData ↔
      0 ≤ pData ∧ pData < pool.pastNodes sizeofData ∧
        pData % sizeofData = 0 := by
  have hpos : (0 : ℤ) < sizeofData := by exact_mod_cast hsizeof
  constructor
  · rintro ⟨node, hnode, rfl⟩
    refine ⟨by positivity, ?_, Int.mul_emod_right _ _⟩
    exact mul_lt_mul_of_pos_left (by exact_mod_cast hnode) hpos
  · rintro ⟨hnonneg, hlt, haligned⟩
    obtain ⟨node, rfl⟩ := Int.dvd_of_emod_eq_zero haligned
    have hnode : 0 ≤ node := nonneg_of_mul_nonneg_right hnonneg hpos
    have hnodeLt : node < pool.iNodeNum := lt_of_mul_lt_mul_left hlt hpos.le
    exact ⟨node.toNat, by omega, by rw [Int.toNat_of_nonneg hnode]⟩

theorem iNodeNum_of_perform
    (hperform : pool.perform sizeofData call = some (answer, next)) :
    next.iNodeNum = pool.iNodeNum := by
  cases call with
  | allocateNode =>
      obtain ⟨⟨node, after⟩, hallocate, heq⟩ :=
        Option.map_eq_some_iff.mp hperform
      obtain ⟨-, rfl⟩ := Prod.mk.inj heq
      unfold allocateNode at hallocate
      split_ifs at hallocate <;> cases hallocate <;> rfl
  | releaseNode pData =>
      obtain ⟨⟨ret, after⟩, hrelease, heq⟩ :=
        Option.map_eq_some_iff.mp hperform
      obtain ⟨-, rfl⟩ := Prod.mk.inj heq
      unfold releaseNode at hrelease
      simp only at hrelease
      split_ifs at hrelease <;> cases hrelease <;> rfl
  | verify =>
      obtain ⟨ret, -, heq⟩ := Option.map_eq_some_iff.mp hperform
      obtain ⟨-, rfl⟩ := Prod.mk.inj heq
      rfl
  | writeData bytes =>
      obtain ⟨-, rfl⟩ := Prod.mk.inj (Option.some.inj hperform)
      rfl

theorem Valid.writeData (hvalid : pool.Valid used) (bytes : ℕ → UInt8) :
    (pool.writeData bytes).Valid used :=
  { hvalid with
    test_iff := by
      intro node hnode
      have hbyte : node / 8 < (pool.iNodeNum + 7) / 8 := by
        have hlt : node < pool.iNodeNum := hnode
        omega
      rw [← hvalid.test_iff node hnode]
      simp only [test, CFixedsizeMemPool.writeData, if_pos hbyte] }

end Calls

/-! ## What foreign pointers do -/

/-- A node that is handed out is a node of the pool, and a pointer that is none
is refused and changes nothing. -/
def Harmless (sizeofData : ℕ) (pool : CFixedsizeMemPool) :
    PointerCall → PointerAnswer → CFixedsizeMemPool → Prop
  | .allocateNode, answer, _ =>
      ∀ node, answer = .node (some node) → node < pool.iNodeNum
  | .releaseNode pData, answer, next =>
      ¬ pool.IsNode sizeofData pData →
        answer = .code eDatapErr ∧ next = pool
  | .verify, _, _ => True
  | .writeData _, _, _ => True

/-- All calls have a result, so none divides by zero, and all are harmless. -/
def PoolSafe (sizeofData : ℕ) : CFixedsizeMemPool → List PointerCall → Prop
  | _, [] => True
  | pool, call :: calls =>
      ∃ answer next, pool.perform sizeofData call = some (answer, next) ∧
        Harmless sizeofData pool call answer next ∧
        PoolSafe sizeofData next calls

section Safe

variable {sizeofData : ℕ} (hsizeof : 0 < sizeofData) {pool : CFixedsizeMemPool}
  {used : Finset ℕ} {calls : List PointerCall}

include hsizeof

theorem Valid.perform
    (hvalid : pool.Valid used) {call : PointerCall}
    (hpast : ∀ pData, call = .releaseNode pData →
      pData ≠ pool.pastNodes sizeofData) :
    ∃ answer next, pool.perform sizeofData call = some (answer, next) ∧
      Harmless sizeofData pool call answer next ∧
      next.Valid (inUse sizeofData pool used call answer) := by
  cases call with
  | allocateNode =>
      simp only [CFixedsizeMemPool.perform, hvalid.allocateNode_eq]
      split_ifs with hfull
      · refine ⟨.node none, pool, rfl, ?_, hvalid⟩
        rintro node ⟨⟩
      · refine ⟨_, _, rfl, ?_, (hvalid.takeHead hfull).2⟩
        rintro node ⟨rfl⟩
        exact hvalid.entries_lt _ hvalid.head_lt
  | releaseNode pData =>
      by_cases hnode : pool.IsNode sizeofData pData
      · obtain ⟨node, hlt, rfl⟩ := hnode
        have hisNode : pool.IsNode sizeofData (sizeofData * node) :=
          ⟨node, hlt, rfl⟩
        have hposition : ((sizeofData : ℤ) * node).toNat / sizeofData =
            node := by
          rw [← Nat.cast_mul, Int.toNat_natCast,
            Nat.mul_div_cancel_left _ hsizeof]
        have hused : inUse sizeofData pool used
            (.releaseNode (sizeofData * node)) (.code success) =
              used.erase node := by
          rw [inUse, if_pos ((isNode_iff hsizeof).mp hisNode), hposition]
        simp only [CFixedsizeMemPool.perform,
          hvalid.releaseNode_eq hsizeof hlt]
        split_ifs with hmem
        · refine ⟨.code success, _, rfl, fun hnot => absurd hisNode hnot, ?_⟩
          rw [hused]
          exact hvalid.giveTail hmem
        · refine ⟨.code success, pool, rfl, fun hnot => absurd hisNode hnot, ?_⟩
          rwa [hused, Finset.erase_eq_of_notMem hmem]
      · simp only [CFixedsizeMemPool.perform,
          releaseNode_of_foreign hnode (hpast pData rfl)]
        refine ⟨.code eDatapErr, pool, rfl, fun _ => ⟨rfl, rfl⟩, ?_⟩
        rwa [inUse, if_neg ((isNode_iff hsizeof).not.mp hnode)]
  | verify =>
      refine ⟨.code success, pool, ?_, trivial, hvalid⟩
      rw [CFixedsizeMemPool.perform, hvalid.verify_eq]
      rfl
  | writeData bytes =>
      exact ⟨.written, _, rfl, trivial, hvalid.writeData bytes⟩

/-- The run lemma for a pool that has nodes. -/
theorem Valid.poolSafe
    (hvalid : pool.Valid used)
    (hpast : ∀ pData, .releaseNode pData ∈ calls →
      pData ≠ pool.pastNodes sizeofData) :
    PoolSafe sizeofData pool calls := by
  induction calls generalizing pool used with
  | nil => trivial
  | cons call calls ih =>
      obtain ⟨answer, next, hperform, hharmless, hnext⟩ :=
        hvalid.perform hsizeof fun pData heq =>
          hpast pData (heq ▸ List.mem_cons_self)
      refine ⟨answer, next, hperform, hharmless, ih hnext ?_⟩
      intro pData hmem
      rw [pastNodes, iNodeNum_of_perform hperform]
      exact hpast pData (List.mem_cons_of_mem call hmem)

omit hsizeof in
/-- A pool without nodes refuses all pointers but one, and cannot allocate or
verify. -/
theorem poolSafe_of_empty
    (hzero : pool.iNodeNum = 0) (hallocate : .allocateNode ∉ calls)
    (hverify : .verify ∉ calls)
    (hpast : ∀ pData, .releaseNode pData ∈ calls →
      pData ≠ pool.pastNodes sizeofData) :
    PoolSafe sizeofData pool calls := by
  induction calls generalizing pool with
  | nil => trivial
  | cons call calls ih =>
      obtain ⟨hcall, hcalls⟩ := not_or.mp (List.mem_cons.not.mp hallocate)
      obtain ⟨hnot, hnots⟩ := not_or.mp (List.mem_cons.not.mp hverify)
      have hnone : ∀ pData, ¬ pool.IsNode sizeofData pData := by
        rintro pData ⟨node, hlt, -⟩
        omega
      obtain ⟨answer, next, hperform, hharmless⟩ : ∃ answer next,
          pool.perform sizeofData call = some (answer, next) ∧
            Harmless sizeofData pool call answer next := by
        cases call with
        | allocateNode => exact absurd rfl hcall
        | releaseNode pData =>
            simp only [CFixedsizeMemPool.perform, releaseNode_of_foreign
              (hnone pData) (hpast pData List.mem_cons_self)]
            exact ⟨_, _, rfl, fun _ => ⟨rfl, rfl⟩⟩
        | verify => exact absurd rfl hnot
        | writeData bytes => exact ⟨_, _, rfl, trivial⟩
      have hnum := iNodeNum_of_perform hperform
      refine ⟨answer, next, hperform, hharmless,
        ih (hnum.trans hzero) hcalls hnots ?_⟩
      intro pData hmem
      rw [pastNodes, hnum]
      exact hpast pData (List.mem_cons_of_mem call hmem)

/-- A run that is safe has not met either defect. -/
theorem PoolSafe.avoids (hsafe : PoolSafe sizeofData pool calls) :
    (pool.iNodeNum = 0 → .allocateNode ∉ calls ∧ .verify ∉ calls) ∧
      ∀ pData, .releaseNode pData ∈ calls →
        pData ≠ pool.pastNodes sizeofData := by
  induction calls generalizing pool with
  | nil => simp
  | cons call calls ih =>
      obtain ⟨answer, next, hperform, hharmless, hnext⟩ := hsafe
      have hnum := iNodeNum_of_perform hperform
      obtain ⟨hempty, hpast⟩ := ih hnext
      constructor
      · intro hzero
        obtain ⟨hallocate, hverify⟩ := hempty (hnum.trans hzero)
        constructor
        · intro hmem
          rcases List.mem_cons.mp hmem with rfl | hmem
          · simp [CFixedsizeMemPool.perform, CFixedsizeMemPool.allocateNode,
              hzero] at hperform
          · exact hallocate hmem
        · intro hmem
          rcases List.mem_cons.mp hmem with rfl | hmem
          · simp [CFixedsizeMemPool.perform, CFixedsizeMemPool.verify,
              hzero] at hperform
          · exact hverify hmem
      · intro pData hmem
        rcases List.mem_cons.mp hmem with rfl | hmem
        · rintro rfl
          obtain ⟨⟨ret, after⟩, hrelease, heq⟩ :=
            Option.map_eq_some_iff.mp hperform
          obtain ⟨rfl, rfl⟩ := Prod.mk.inj heq
          obtain ⟨hret, rfl⟩ := hharmless (not_isNode_pastNodes hsizeof)
          cases hret
          exact releaseNode_pastNodes hrelease
        · have hne := hpast pData hmem
          rwa [pastNodes, hnum] at hne

end Safe

end CFixedsizeMemPool

open CFixedsizeMemPool

/-- No pointer damages the pool in a run, and nothing divides by zero, exactly
when a pool without nodes is neither allocated from nor verified and the pointer
behind the last node is not released. -/
theorem pool_safe_iff
    {memory pool : CFixedsizeMemPool} {sizeofData : ℕ}
    (hsizeof : 0 < sizeofData) {pvMem : Bool} {iMemSize iNodeNum : ℤ}
    (hinit : memory.init sizeofData pvMem iMemSize iNodeNum 1 =
      some (success, pool)) (calls : List PointerCall) :
    PoolSafe sizeofData pool calls ↔
      (pool.iNodeNum = 0 → .allocateNode ∉ calls ∧ .verify ∉ calls) ∧
        ∀ pData, .releaseNode pData ∈ calls →
          pData ≠ pool.pastNodes sizeofData := by
  constructor
  · exact PoolSafe.avoids hsizeof
  · rintro ⟨hempty, hpast⟩
    rcases Nat.eq_zero_or_pos pool.iNodeNum with hzero | hpos
    · obtain ⟨hallocate, hverify⟩ := hempty hzero
      exact poolSafe_of_empty hzero hallocate hverify hpast
    · exact (Valid.of_init hinit hpos).poolSafe hsizeof hpast

/-- Eight nodes, a foreign pointer and other bytes in the nodes. -/
theorem pool_safe_eight :
    PoolSafe 8 (blankMemory.clear 8 200 8)
      [.allocateNode, .releaseNode 3, .writeData fun _ => 255,
        .releaseNode 0, .verify] :=
  (pool_safe_iff (by decide) (show blankMemory.init 8 true 200 8 1 =
      some (success, blankMemory.clear 8 200 8) from rfl) _).mpr
    ⟨fun hzero => absurd hzero (by decide), by
      simp only [List.mem_cons, PointerCall.releaseNode.injEq, reduceCtorEq,
        List.not_mem_nil, false_or, or_false]
      rintro pData (rfl | rfl) <;> decide⟩

/-- The pointer behind eight nodes, when the nodes are full of ones. -/
theorem pool_damaged :
    ¬ ∀ (memory pool : CFixedsizeMemPool) (sizeofData : ℕ) (pvMem : Bool)
        (iMemSize iNodeNum : ℤ), 0 < sizeofData →
      memory.init sizeofData pvMem iMemSize iNodeNum 1 =
        some (success, pool) →
      ∀ calls, PoolSafe sizeofData pool calls := by
  intro hall
  have hsafe := hall blankMemory (blankMemory.clear 8 200 8) 8 true 200 8
    (by decide) rfl [.writeData fun _ => 255, .releaseNode 64]
  exact (hsafe.avoids (by decide)).2 64 (by simp) rfl

/-! ## When the pool is full -/

namespace CFixedsizeMemPool

/-- A run with the nodes in use. -/
def pointerRun (sizeofData : ℕ) :
    CFixedsizeMemPool → Finset ℕ → List PointerCall →
      Option (CFixedsizeMemPool × Finset ℕ)
  | pool, used, [] => some (pool, used)
  | pool, used, call :: calls =>
      match pool.perform sizeofData call with
      | none => none
      | some (answer, next) =>
          pointerRun sizeofData next
            (inUse sizeofData pool used call answer) calls

/-- What the ends of the ring say about the counter. -/
structure RingCounted (pool : CFixedsizeMemPool) : Prop where
  head_lt : pool.iFreeHead < pool.iNodeNum
  tail_lt : pool.iFreeTail < pool.iNodeNum
  counted : (pool.iNodeNum : ℤ) ∣
    pool.iUsedNodeNum + pool.iFreeTail - pool.iFreeHead + 1

variable {sizeofData : ℕ} {pool next : CFixedsizeMemPool} {used : Finset ℕ}

theorem cast_succ_mod {index size : ℕ} (hindex : index < size) :
    (((index + 1) % size : ℕ) : ℤ) = index + 1 ∨
      (((index + 1) % size : ℕ) : ℤ) = index + 1 - size := by
  rw [succ_mod_eq hindex]
  split_ifs with hend
  · right
    omega
  · left
    omega

theorem RingCounted.perform
    (hcounted : pool.RingCounted) {call : PointerCall} {answer : PointerAnswer}
    (hperform : pool.perform sizeofData call = some (answer, next)) :
    next.RingCounted := by
  have hhead := hcounted.head_lt
  have htail := hcounted.tail_lt
  have hpos : 0 < pool.iNodeNum := by omega
  cases call with
  | allocateNode =>
      obtain ⟨⟨node, after⟩, hallocate, heq⟩ :=
        Option.map_eq_some_iff.mp hperform
      obtain ⟨-, rfl⟩ := Prod.mk.inj heq
      unfold allocateNode at hallocate
      split_ifs at hallocate with hzero hfull
      · obtain ⟨-, rfl⟩ := Prod.mk.inj (Option.some.inj hallocate)
        exact hcounted
      · obtain ⟨-, rfl⟩ := Prod.mk.inj (Option.some.inj hallocate)
        refine ⟨Nat.mod_lt _ hpos, htail, ?_⟩
        obtain ⟨rounds, hrounds⟩ := hcounted.counted
        rcases cast_succ_mod hhead with hnext | hnext
        · exact ⟨rounds, by simp only [hnext]; linear_combination hrounds⟩
        · exact ⟨rounds + 1, by simp only [hnext]; linear_combination hrounds⟩
  | releaseNode pData =>
      obtain ⟨⟨ret, after⟩, hrelease, heq⟩ :=
        Option.map_eq_some_iff.mp hperform
      obtain ⟨-, rfl⟩ := Prod.mk.inj heq
      unfold releaseNode at hrelease
      simp only at hrelease
      split_ifs at hrelease with hforeign hfree hzero
      · obtain ⟨-, rfl⟩ := Prod.mk.inj (Option.some.inj hrelease)
        exact hcounted
      · obtain ⟨-, rfl⟩ := Prod.mk.inj (Option.some.inj hrelease)
        exact hcounted
      · obtain ⟨-, rfl⟩ := Prod.mk.inj (Option.some.inj hrelease)
        refine ⟨hhead, Nat.mod_lt _ hpos, ?_⟩
        obtain ⟨rounds, hrounds⟩ := hcounted.counted
        rcases cast_succ_mod htail with hnext | hnext
        · exact ⟨rounds, by simp only [hnext]; linear_combination hrounds⟩
        · exact ⟨rounds - 1, by simp only [hnext]; linear_combination hrounds⟩
  | verify =>
      obtain ⟨ret, -, heq⟩ := Option.map_eq_some_iff.mp hperform
      obtain ⟨-, rfl⟩ := Prod.mk.inj heq
      exact hcounted
  | writeData bytes =>
      obtain ⟨-, rfl⟩ := Prod.mk.inj (Option.some.inj hperform)
      exact ⟨hhead, htail, hcounted.counted⟩

/-- The pool is full when, up to the size of the ring, two nodes are left. -/
theorem RingCounted.full_iff
    (hcounted : pool.RingCounted) :
    (pool.iFreeHead + 1) % pool.iNodeNum = pool.iFreeTail ↔
      (pool.iNodeNum : ℤ) ∣ pool.iUsedNodeNum + 2 := by
  have hhead := hcounted.head_lt
  have htail := hcounted.tail_lt
  obtain ⟨rounds, hrounds⟩ := hcounted.counted
  constructor
  · intro hfull
    have hnext := cast_succ_mod hhead
    rw [hfull] at hnext
    rcases hnext with hnext | hnext
    · exact ⟨rounds, by linear_combination hrounds - hnext⟩
    · exact ⟨rounds + 1, by linear_combination hrounds - hnext⟩
  · rintro ⟨turns, hturns⟩
    -- the ends are one place apart, as numbers or around the end of the ring
    have hends : (pool.iFreeTail : ℤ) - pool.iFreeHead - 1 =
        pool.iNodeNum * (rounds - turns) := by
      linear_combination hrounds - hturns
    have hlow : -1 ≤ rounds - turns := by
      by_contra hless
      have hmul : (pool.iNodeNum : ℤ) * (rounds - turns) ≤
          pool.iNodeNum * (-2) := by
        gcongr
        omega
      omega
    have hhigh : rounds - turns ≤ 0 := by
      by_contra hmore
      have hmul : (pool.iNodeNum : ℤ) * 1 ≤
          pool.iNodeNum * (rounds - turns) := by
        gcongr
        omega
      omega
    rw [succ_mod_eq hhead]
    rcases (show rounds - turns = 0 ∨ rounds - turns = -1 by omega) with
      heq | heq
    · rw [heq] at hends
      split_ifs <;> omega
    · rw [heq] at hends
      split_ifs <;> omega

section Runs

variable {calls : List PointerCall} {reached : CFixedsizeMemPool}
  {used' : Finset ℕ}

theorem RingCounted.run
    (hcounted : pool.RingCounted)
    (hrun : pointerRun sizeofData pool used calls = some (reached, used')) :
    reached.RingCounted ∧ reached.iNodeNum = pool.iNodeNum := by
  induction calls generalizing pool used with
  | nil =>
      obtain ⟨rfl, -⟩ := Prod.mk.inj (Option.some.inj hrun)
      exact ⟨hcounted, rfl⟩
  | cons call calls ih =>
      unfold pointerRun at hrun
      split at hrun
      · cases hrun
      · next answer next hperform =>
          obtain ⟨hreached, hnum⟩ := ih (hcounted.perform hperform) hrun
          exact ⟨hreached, hnum.trans (iNodeNum_of_perform hperform)⟩

theorem Valid.pointerRun
    (hvalid : pool.Valid used) (hsizeof : 0 < sizeofData)
    (hpast : ∀ pData, .releaseNode pData ∈ calls →
      pData ≠ pool.pastNodes sizeofData)
    (hrun : CFixedsizeMemPool.pointerRun sizeofData pool used calls =
      some (reached, used')) : reached.Valid used' := by
  induction calls generalizing pool used with
  | nil =>
      obtain ⟨rfl, rfl⟩ := Prod.mk.inj (Option.some.inj hrun)
      exact hvalid
  | cons call calls ih =>
      obtain ⟨answer, next, hperform, -, hnext⟩ :=
        hvalid.perform hsizeof fun pData heq =>
          hpast pData (heq ▸ List.mem_cons_self)
      simp only [CFixedsizeMemPool.pointerRun, hperform] at hrun
      refine ih hnext ?_ hrun
      intro pData hmem
      rw [pastNodes, iNodeNum_of_perform hperform]
      exact hpast pData (List.mem_cons_of_mem call hmem)

theorem RingCounted.of_init
    {memory : CFixedsizeMemPool} {pvMem : Bool} {iMemSize iNodeNum : ℤ}
    (hinit : memory.init sizeofData pvMem iMemSize iNodeNum 1 =
      some (success, pool)) (hpos : 0 < pool.iNodeNum) :
    pool.RingCounted := by
  have hvalid := Valid.of_init hinit hpos
  refine ⟨hvalid.head_lt, hvalid.tail_lt, ?_⟩
  obtain ⟨nodes, rfl⟩ := exists_clear_of_init hinit
  refine ⟨1, ?_⟩
  simp only [clear] at hpos ⊢
  omega

end Runs

theorem allocateNode_none_iff (hpos : 0 < pool.iNodeNum) :
    pool.allocateNode = some (none, next) ↔
      (pool.iFreeHead + 1) % pool.iNodeNum = pool.iFreeTail ∧ pool = next := by
  unfold allocateNode
  rw [if_neg hpos.ne']
  split_ifs with hfull <;> simp [hfull]

/-- What has to hold when `AllocateNode` returns NULL. -/
theorem RingCounted.forall_none_iff
    (hcounted : pool.RingCounted) (hnodes : 2 ≤ pool.iNodeNum) {holds : Prop}
    (hfew : holds → ¬ (pool.iNodeNum : ℤ) ∣ pool.iUsedNodeNum + 2) :
    (∀ next, pool.allocateNode = some (none, next) → holds) ↔
      ¬ (pool.iNodeNum : ℤ) ∣ pool.iUsedNodeNum + 2 := by
  simp only [allocateNode_none_iff (show 0 < pool.iNodeNum by omega),
    hcounted.full_iff]
  constructor
  · intro hnone hfull
    exact hfew (hnone pool ⟨hfull, rfl⟩) hfull
  · rintro hnot next ⟨hfull, -⟩
    exact absurd hfull hnot

/-- With the nodes of the pool counted, exactly two of them are left over. -/
theorem Valid.dvd_iff
    (hvalid : pool.Valid used) (hnodes : 2 ≤ pool.iNodeNum) :
    (pool.iNodeNum : ℤ) ∣ pool.iUsedNodeNum + 2 ↔
      used.card = pool.iNodeNum - 2 := by
  have hcard := hvalid.freeNum_add_card
  have hfree : pool.freeNum ≠ 0 := by
    intro hzero
    have hend := head_add_freeNum hvalid.head_lt hvalid.tail_lt
    rw [hzero, Nat.add_zero, Nat.mod_eq_of_lt hvalid.head_lt] at hend
    rcases hvalid.apart with hone | hne
    · omega
    · exact hne hend
  rw [hvalid.used_eq]
  constructor
  · intro hdvd
    have hle := Int.le_of_dvd (by omega) hdvd
    omega
  · intro heq
    exact ⟨1, by omega⟩

end CFixedsizeMemPool

/-- A state that is reached returns NULL with one node left over only, as the
note on the class has it, exactly when there are not two nodes left over. -/
theorem null_only_when_full_iff
    {memory pool reached : CFixedsizeMemPool} {sizeofData : ℕ}
    (hsizeof : 0 < sizeofData) {pvMem : Bool} {iMemSize iNodeNum : ℤ}
    (hinit : memory.init sizeofData pvMem iMemSize iNodeNum 1 =
      some (success, pool)) (hnodes : 2 ≤ pool.iNodeNum)
    {calls : List PointerCall} {used : Finset ℕ}
    (hrun : pointerRun sizeofData pool ∅ calls = some (reached, used)) :
    ((∀ next, reached.allocateNode = some (none, next) →
        reached.iUsedNodeNum = pool.iNodeNum - 1) ↔
      ¬ (pool.iNodeNum : ℤ) ∣ reached.iUsedNodeNum + 2) ∧
    ((∀ pData, .releaseNode pData ∈ calls →
        pData ≠ pool.pastNodes sizeofData) →
      reached.iUsedNodeNum = used.card ∧
      ((∀ next, reached.allocateNode = some (none, next) →
          used.card = pool.iNodeNum - 1) ↔
        used.card ≠ pool.iNodeNum - 2)) := by
  have hpos : 0 < pool.iNodeNum := by omega
  obtain ⟨hcounted, hnum⟩ := (RingCounted.of_init hinit hpos).run hrun
  rw [← hnum] at hnodes ⊢
  constructor
  · refine hcounted.forall_none_iff hnodes ?_
    intro hused hfull
    rw [hused, show (reached.iNodeNum : ℤ) - 1 + 2 = 1 + reached.iNodeNum by
      ring, dvd_add_self_right] at hfull
    have hle := Int.le_of_dvd one_pos hfull
    omega
  · intro hpast
    have hvalid := (Valid.of_init hinit hpos).pointerRun hsizeof hpast hrun
    have htwo := hvalid.dvd_iff hnodes
    refine ⟨hvalid.used_eq, (hcounted.forall_none_iff hnodes ?_).trans
      htwo.not⟩
    rw [htwo]
    omega

/-- Three nodes, one of them handed out and released. -/
theorem null_only_when_full_three :
    ∃ reached used,
      pointerRun 8 (blankMemory.clear 8 100 3) ∅
        [.allocateNode, .releaseNode 0] = some (reached, used) ∧
      ∀ next, reached.allocateNode = some (none, next) →
        reached.iUsedNodeNum = 3 - 1 := by
  obtain ⟨⟨reached, used⟩, hrun⟩ := Option.isSome_iff_exists.mp
    (show (pointerRun 8 (blankMemory.clear 8 100 3) ∅
      [.allocateNode, .releaseNode 0]).isSome from rfl)
  have hused : reached.iUsedNodeNum = 0 := by
    have heq := congrArg (Option.map fun answer => answer.1.iUsedNodeNum) hrun
    exact (Option.some.inj heq).symm
  refine ⟨reached, used, hrun, (null_only_when_full_iff (by decide)
    (show blankMemory.init 8 true 100 3 1 =
      some (success, blankMemory.clear 8 100 3) from rfl) (by decide) hrun).1.mpr
    ?_⟩
  rw [hused]
  decide

/-- Of four nodes the third is not handed out. -/
theorem null_with_two_left :
    ¬ ∀ (memory pool reached : CFixedsizeMemPool) (sizeofData : ℕ)
        (pvMem : Bool) (iMemSize iNodeNum : ℤ), 0 < sizeofData →
      memory.init sizeofData pvMem iMemSize iNodeNum 1 =
        some (success, pool) → 2 ≤ pool.iNodeNum →
      ∀ calls used,
        pointerRun sizeofData pool ∅ calls = some (reached, used) →
      ∀ next, reached.allocateNode = some (none, next) →
        reached.iUsedNodeNum = pool.iNodeNum - 1 := by
  intro hall
  have hused := hall blankMemory (blankMemory.clear 8 100 4) _ 8 true 100 4
    (by decide) rfl (by decide) [.allocateNode, .allocateNode] _ rfl _ rfl
  revert hused
  decide

end MessageBus.MemPool
