import MessageBus.ShmQueueModel

/-!
# The queue between parent and child processes `CMmapQueue`

A transcription of `mmlib/mmap_queue/mmap_queue.cpp`.  The mapping is the bytes
from `m_pMem` on and the head behind them.  A block is its head, the data and
six marks, and each of the three is copied around the end of the buffer where it
does not fit before it.

The head of a block keeps the length of the data in an `unsigned short`.
-/

namespace MessageBus.MmapQueue

open ByteRing
open ShmQueue

def success : ℤ := 0
def error : ℤ := -1
def eMmapQueueError : ℤ := -603
def eMmapQueueFull : ℤ := -604
def eMmapQueueEmpty : ℤ := -605

/-- The mapping, and whether the semaphore is taken. -/
structure CMmapQueue where
  queueSize : ℕ
  iLen : ℕ
  iHead : ℕ
  iTail : ℕ
  iNum : ℕ
  mem : ℕ → UInt8
  semTaken : Bool

/-! ## Blocks -/

def blockHeadSize : ℕ := 8

def szTail : List UInt8 := List.replicate 6 0xAA

/-- A `BlockHead` in memory: the index, the length as an `unsigned short`, and
two bytes of padding that nothing writes. -/
def blockHead (iIndex iLen : ℕ) (padding : UInt8 × UInt8) : List UInt8 :=
  wordBytes iIndex ++ [UInt8.ofNat (iLen % 2 ^ 16), UInt8.ofNat (iLen % 2 ^ 16 / 2 ^ 8),
    padding.1, padding.2]

/-- The addresses of `count` bytes from an index on, `left` of which lie before
the end of the buffer, and the index and what is left after them. -/
def splitCells (iLen liIndex liLeft count : ℕ) : List ℕ × ℕ × ℕ :=
  if count ≤ liLeft then
    (List.range' liIndex count, (liIndex + count) % iLen, sub32 liLeft count)
  else
    let rest := (count - liLeft) % iLen
    (List.range' liIndex liLeft ++ List.range' 0 (count - liLeft), rest,
      sub32 iLen rest)

namespace CMmapQueue

/-- `Init` with a size; semaphore and mapping are new. -/
def init (aiSize : ℕ) : CMmapQueue where
  queueSize := aiSize
  iLen := aiSize
  iHead := 0
  iTail := 0
  iNum := 0
  mem := fun _ => 0
  semTaken := false

/-- `liFreeSpace`. -/
def freeSpace (queue : CMmapQueue) : ℕ :=
  if queue.iHead < queue.iTail ∨
      queue.iHead = queue.iTail ∧ queue.iNum = 0 then
    sub32 queue.iLen (sub32 queue.iTail queue.iHead)
  else if queue.iTail < queue.iHead then sub32 queue.iHead queue.iTail
  else 0

/-- The addresses that `InQueue` writes, in the order of a block. -/
def inCells (queue : CMmapQueue) (iDataLen : ℕ) : List ℕ :=
  let liIndex := queue.iTail
  let liLeft := sub32 queue.iLen queue.iTail
  if queue.iTail < queue.iHead ∨
      iDataLen + blockHeadSize + szTail.length ≤ liLeft then
    List.range' liIndex blockHeadSize ++
      List.range' (liIndex + blockHeadSize) iDataLen ++
      List.range' (liIndex + blockHeadSize + iDataLen) szTail.length
  else
    let (headCells, liIndex, liLeft) :=
      splitCells queue.iLen liIndex liLeft blockHeadSize
    let (dataCells, liIndex, liLeft) :=
      splitCells queue.iLen liIndex liLeft iDataLen
    let (tailCells, _, _) :=
      splitCells queue.iLen liIndex liLeft szTail.length
    headCells ++ dataCells ++ tailCells

/-- `InQueue`; `none` when the semaphore is never got. -/
def inQueue (queue : CMmapQueue) (padding : UInt8 × UInt8)
    (pData : List UInt8) : Option (ℤ × CMmapQueue) :=
  if queue.semTaken then none
  else if queue.freeSpace <
      pData.length + blockHeadSize + szTail.length then
    some (eMmapQueueFull, queue)
  else
    let block :=
      blockHead queue.iTail pData.length padding ++ pData ++ szTail
    some (success,
      { queue with
        mem := store queue.mem ((queue.inCells pData.length).zip block)
        iTail := (u32 (queue.iTail + pData.length) + blockHeadSize +
          szTail.length) % queue.iLen
        iNum := u32 (queue.iNum + 1) })

/-- What `OutQueue` leaves with its caller. -/
structure OutResult where
  ret : ℤ
  iBufLen : ℤ
  pBuf : List UInt8
deriving DecidableEq

/-- `OutQueue` on a buffer, which may be NULL; `none` when the semaphore is
never got.  On a block that it does not trust it forgets all messages, and
returns without releasing the semaphore. -/
def outQueue (queue : CMmapQueue) (pBuf : Bool) (iBufLen : ℤ) :
    Option (OutResult × CMmapQueue) :=
  if queue.semTaken then none
  else if 0 < queue.iNum ∨ queue.iHead ≠ queue.iTail then
    let (headCells, liIndex, _) := splitCells queue.iLen queue.iHead
      (sub32 queue.iLen queue.iHead) blockHeadSize
    let stHead := headCells.map queue.mem
    let stIndex := wordValue (stHead.take 4)
    let stLen := wordValue ((stHead.drop 4).take 2)
    if iBufLen < stLen ∨ stIndex ≠ queue.iHead ∨ pBuf = false then
      some (⟨eMmapQueueError, iBufLen, []⟩,
        { queue with
          iLen := queue.queueSize
          iHead := 0
          iTail := 0
          iNum := 0
          semTaken := true })
    else
      let (dataCells, liIndex, liLeft) :=
        splitCells queue.iLen liIndex (sub32 queue.iLen liIndex) stLen
      let (tailCells, _, _) :=
        splitCells queue.iLen liIndex liLeft szTail.length
      let ret :=
        if tailCells.map queue.mem ≠ szTail then error else success
      some (⟨ret, stLen, dataCells.map queue.mem⟩,
        { queue with
          iHead := (u32 (queue.iHead + stLen) + blockHeadSize +
            szTail.length) % queue.iLen
          iNum := sub32 queue.iNum 1 })
  else some (⟨eMmapQueueEmpty, iBufLen, []⟩, queue)

def getNum (queue : CMmapQueue) : Option ℤ :=
  if queue.semTaken then none
  else some (if queue.iNum < 2 ^ 31 then queue.iNum else queue.iNum - 2 ^ 32)

end CMmapQueue

end MessageBus.MmapQueue
