import MessageBus.ByteFlags

/-!
# The pool of nodes of one size `CFixedsizeMemPool`

A transcription of `mmlib/mem_pool/fixedsize_mem_pool.h`.  The pool lies in a
block of memory of its caller: the head, a ring of the numbers of free nodes, a
bit for each node that is in use, and the nodes.

A node is named by its number, and a pointer by its distance in bytes from
`m_pDataBuff`.  Nothing stops an operation on a pool without nodes, which
divides by their number; then it has no result here.
-/

namespace MessageBus.MemPool

open ByteFlags

def success : ℤ := 0
def eNodeNum : ℤ := -101
def eMemSize : ℤ := -102
def eDatapErr : ℤ := -103
def eVerifyCycleListErr : ℤ := -104
def eVerifyUsedNodeNum : ℤ := -105
def eVerifyUsedBitFlag : ℤ := -106

/-- `sizeof(Head)`. -/
def sizeofHead : ℤ := 20

/-- The memory of a pool: `Head`, `m_piFreeList` and the bytes from
`m_pucUsedBit` on, where the nodes follow the bits. -/
structure CFixedsizeMemPool where
  iMemSize : ℤ
  iNodeNum : ℕ
  iUsedNodeNum : ℤ
  iFreeHead : ℕ
  iFreeTail : ℕ
  freeList : ℕ → ℕ
  usedBit : ℕ → UInt8

/-- `CalculateMemSize`, a sum of `size_t` cut to an `int`. -/
def calculateMemSize (sizeofData : ℕ) (iNodeNum : ℤ) : ℤ :=
  Int.bmod (sizeofHead + 4 * iNodeNum + sizeofData * iNodeNum +
    (iNodeNum + 7).tdiv 8) (2 ^ 32)

/-- The number of nodes that `Init` works with; 0 asks for as many as fit. -/
def initNodeNum (sizeofData : ℕ) (iMemSize iNodeNum : ℤ) : ℤ :=
  if iNodeNum = 0 then
    Int.bmod ((iMemSize - sizeofHead) % 2 ^ 64 / (4 + sizeofData + 1)) (2 ^ 32)
  else iNodeNum

namespace CFixedsizeMemPool

/-- The memory after `Init` with `iClearFlag`. -/
def clear (pool : CFixedsizeMemPool) (sizeofData : ℕ) (iMemSize : ℤ)
    (iNodeNum : ℕ) : CFixedsizeMemPool where
  iMemSize := iMemSize
  iNodeNum := iNodeNum
  iUsedNodeNum := 0
  iFreeHead := 0
  iFreeTail := iNodeNum - 1
  freeList := fun index =>
    if index < iNodeNum then index else pool.freeList index
  usedBit := fun index =>
    if index < (iNodeNum + 7) / 8 + sizeofData * iNodeNum then 0
    else pool.usedBit index

/-- `Init` on a block of memory, which may be NULL.  A negative number of nodes
makes `memset` run out of all memory. -/
def init (pool : CFixedsizeMemPool) (sizeofData : ℕ) (pvMem : Bool)
    (iMemSize iNodeNum iClearFlag : ℤ) : Option (ℤ × CFixedsizeMemPool) :=
  if iNodeNum < 0 then some (eNodeNum, pool)
  else
    let iNodeNum := initNodeNum sizeofData iMemSize iNodeNum
    if pvMem = false then some (eMemSize, pool)
    else if iMemSize < calculateMemSize sizeofData iNodeNum then
      some (eMemSize, pool)
    else if iClearFlag = 1 then
      if iNodeNum < 0 then none
      else some (success, pool.clear sizeofData iMemSize iNodeNum.toNat)
    else if pool.iMemSize ≠ iMemSize then some (eMemSize, pool)
    else if (pool.iNodeNum : ℤ) ≠ iNodeNum then some (eNodeNum, pool)
    else some (success, pool)

def verify (pool : CFixedsizeMemPool) : Option ℤ :=
  if ∃ index < pool.iNodeNum, pool.iNodeNum ≤ pool.freeList index then
    some eVerifyCycleListErr
  else if pool.iNodeNum = 0 then none
  else if (pool.iNodeNum : ℤ) -
      (((pool.iFreeTail : ℤ) + pool.iNodeNum - pool.iFreeHead).tmod
        pool.iNodeNum + 1) ≠ pool.iUsedNodeNum then
    some eVerifyUsedNodeNum
  else if (raisedCount pool.usedBit pool.iNodeNum : ℤ) ≠
      pool.iUsedNodeNum then
    some eVerifyUsedBitFlag
  else some success

/-- `AllocateNode`, with the number of the node or NULL. -/
def allocateNode (pool : CFixedsizeMemPool) :
    Option (Option ℕ × CFixedsizeMemPool) :=
  if pool.iNodeNum = 0 then none
  else if (pool.iFreeHead + 1) % pool.iNodeNum = pool.iFreeTail then
    some (none, pool)
  else
    let node := pool.freeList pool.iFreeHead
    some (some node,
      { pool with
        usedBit := raise pool.usedBit node
        iFreeHead := (pool.iFreeHead + 1) % pool.iNodeNum
        iUsedNodeNum := pool.iUsedNodeNum + 1 })

/-- `ReleaseNode`.  A node that is free already is left as it is. -/
def releaseNode (pool : CFixedsizeMemPool) (sizeofData : ℕ) (pData : ℤ) :
    Option (ℤ × CFixedsizeMemPool) :=
  if pData < 0 ∨ (sizeofData : ℤ) * pool.iNodeNum < pData ∨
      pData % sizeofData ≠ 0 then
    some (eDatapErr, pool)
  else
    let iMaskPos := pData.toNat / sizeofData
    if test pool.usedBit iMaskPos = false then some (success, pool)
    else if pool.iNodeNum = 0 then none
    else
      some (success,
        { pool with
          freeList := Function.update pool.freeList pool.iFreeTail iMaskPos
          usedBit := lower pool.usedBit iMaskPos
          iFreeTail := (pool.iFreeTail + 1) % pool.iNodeNum
          iUsedNodeNum := pool.iUsedNodeNum - 1 })

end CFixedsizeMemPool

end MessageBus.MemPool
