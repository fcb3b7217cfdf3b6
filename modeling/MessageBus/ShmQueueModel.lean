import MessageBus.ByteRing

/-!
# The shared-memory queue `CShmQueue`

A transcription of `mmlib/shm_queue/shm_queue.cpp`.  The segment is its two
offsets and the bytes that follow `m_pQueueDataStart`; an address is an offset
from there.  Offsets and lengths are `unsigned int`, so sums and differences
are reduced modulo `2 ^ 32` where the source computes them in that type.

`copyDataInQueue` is given as the sequence of single-byte writes its `memcpy`
calls perform and `copyDataOutQueue` as the sequence of bytes they read.  The
sequential operations below perform a whole sequence at once, the interleaved
ones of `ShmQueueConcurrent` one byte at a time.
-/

namespace MessageBus.ShmQueue

open ByteRing

def success : ℤ := 0
def eShmQueueFull : ℤ := -604
def eShmQueueEmpty : ℤ := -605
def eShmQueueDataLen : ℤ := -606
def eShmQueueParam : ℤ := -609
def eShmQueueInQueueLen : ℤ := -611

/-! ## Machine words -/

/-- The result of an `unsigned int` computation. -/
def u32 (value : ℕ) : ℕ := value % 2 ^ 32

/-- Subtraction in `unsigned int`. -/
def sub32 (first second : ℕ) : ℕ := (first + 2 ^ 32 - second) % 2 ^ 32

/-- The four bytes of an `unsigned int` in memory order. -/
def wordBytes (value : ℕ) : List UInt8 :=
  [UInt8.ofNat value, UInt8.ofNat (value / 2 ^ 8),
    UInt8.ofNat (value / 2 ^ 16), UInt8.ofNat (value / 2 ^ 24)]

/-- The `unsigned int` that some bytes, in memory order, denote. -/
def wordValue : List UInt8 → ℕ
  | [] => 0
  | byte :: bytes => byte.toNat + 2 ^ 8 * wordValue bytes

@[simp] theorem wordBytes_length (value : ℕ) :
    (wordBytes value).length = 4 := rfl

theorem wordValue_wordBytes {value : ℕ} (hvalue : value < 2 ^ 32) :
    wordValue (wordBytes value) = value := by
  simp only [wordBytes, wordValue, UInt8.toNat_ofNat']
  omega

theorem sub32_of_le {first second : ℕ}
    (hle : second ≤ first) (hfirst : first < 2 ^ 32) :
    sub32 first second = first - second := by
  unfold sub32
  omega

theorem u32_of_lt {value : ℕ} (hvalue : value < 2 ^ 32) : u32 value = value :=
  Nat.mod_eq_of_lt hvalue

/-! ## The segment -/

/-- The queue head, the ring size and the ring itself. -/
structure CShmQueue where
  queueDataSize : ℕ
  uiHead : ℕ
  uiTail : ℕ
  queueData : ℕ → UInt8

/-- `UsedSpace` on a head and a tail it has read. -/
def usedSpace (queueDataSize uiHead uiTail : ℕ) : ℕ :=
  if uiHead ≤ uiTail then sub32 uiTail uiHead
  else sub32 queueDataSize (sub32 uiHead uiTail)

/-- `FreeSpace` on a head and a tail it has read. -/
def freeSpace (queueDataSize uiHead uiTail : ℕ) : ℕ :=
  if uiHead ≤ uiTail then sub32 (sub32 queueDataSize (sub32 uiTail uiHead)) 1
  else sub32 (sub32 uiHead uiTail) 1

/-- The value `AddOffset` computes for an offset it has read. -/
def addOffset (queueDataSize offset size : ℕ) : ℕ :=
  u32 (offset + size) % queueDataSize

/-- `memcpy` of some bytes to an address, in ascending order. -/
def memcpy (destination : ℕ) (bytes : List UInt8) : List (ℕ × UInt8) :=
  (List.range' destination bytes.length).zip bytes

/-- The byte writes of `CopyDataInQueue`, in program order. -/
def copyDataInQueue
    (queueDataSize : ℕ) (pData : List UInt8) (offset : ℕ) :
    List (ℕ × UInt8) :=
  let uiDataLen := wordBytes pData.length
  let endFree := sub32 queueDataSize offset
  if 4 ≤ endFree then
    let endFree := endFree - 4
    memcpy offset uiDataLen ++
      (if pData.length ≤ endFree then memcpy (offset + 4) pData
      else if 0 < endFree then
        memcpy (offset + 4) (pData.take endFree) ++
          memcpy 0 (pData.drop endFree)
      else memcpy 0 pData)
  else
    let remainSize := 4 - endFree
    memcpy offset (uiDataLen.take endFree) ++
      memcpy 0 (uiDataLen.drop endFree) ++
      memcpy remainSize pData

/-- The bytes of the length word, as `DataLen` and `CopyDataOutQueue` read
them. -/
def lenCells (queueDataSize offset : ℕ) : List ℕ :=
  let endUsed := sub32 queueDataSize offset
  if 4 ≤ endUsed then List.range' offset 4
  else List.range' offset endUsed ++ List.range' 0 (4 - endUsed)

/-- The bytes of the data, as `CopyDataOutQueue` reads them once it knows the
length. -/
def dataCells (queueDataSize offset len : ℕ) : List ℕ :=
  let endUsed := sub32 queueDataSize offset
  if 4 ≤ endUsed then
    let endUsed := endUsed - 4
    let pDataStart := if endUsed = 0 then 0 else offset + 4
    if len ≤ endUsed then List.range' pDataStart len
    else if 0 < endUsed then
      List.range' pDataStart endUsed ++ List.range' 0 (len - endUsed)
    else List.range' pDataStart len
  else List.range' (4 - endUsed) len

namespace CShmQueue

def dataLen (queue : CShmQueue) (offset : ℕ) : ℕ :=
  wordValue ((lenCells queue.queueDataSize offset).map queue.queueData)

/-- What a call of `OutQueue` leaves with its caller: the return value, the
length variable and the bytes copied to the buffer. -/
structure OutResult where
  ret : ℤ
  uiDataLen : ℕ
  pData : List UInt8
deriving DecidableEq

def copyDataOutQueue
    (queue : CShmQueue) (uiDataLen offset : ℕ) : OutResult :=
  let len := queue.dataLen offset
  if uiDataLen < len then ⟨eShmQueueDataLen, len, []⟩
  else
    ⟨success, len,
      (dataCells queue.queueDataSize offset len).map queue.queueData⟩

def addHead (queue : CShmQueue) (size : ℕ) : CShmQueue :=
  { queue with uiHead := addOffset queue.queueDataSize queue.uiHead size }

def addTail (queue : CShmQueue) (size : ℕ) : CShmQueue :=
  { queue with uiTail := addOffset queue.queueDataSize queue.uiTail size }

/-- `InQueue` with semaphore 0 held. -/
def inQueue (queue : CShmQueue) (pData : List UInt8) : ℤ × CShmQueue :=
  if pData.length = 0 then (eShmQueueInQueueLen, queue)
  else
    let nodeSize := u32 (pData.length + 4)
    if freeSpace queue.queueDataSize queue.uiHead queue.uiTail < nodeSize then
      (eShmQueueFull, queue)
    else
      let written := { queue with
        queueData := store queue.queueData
          (copyDataInQueue queue.queueDataSize pData queue.uiTail) }
      (success, written.addTail nodeSize)

/-- `OutQueue` with semaphore 1 held, on a buffer of `uiDataLen` bytes. -/
def outQueue (queue : CShmQueue) (uiDataLen : ℕ) : OutResult × CShmQueue :=
  if usedSpace queue.queueDataSize queue.uiHead queue.uiTail < 4 then
    (⟨eShmQueueEmpty, uiDataLen, []⟩, queue)
  else
    let result := queue.copyDataOutQueue uiDataLen queue.uiHead
    (result, queue.addHead (u32 (result.uiDataLen + 4)))

/-- The `int` overload of `OutQueue`: the caller's variable, the return value
and the bytes copied. -/
def outQueueInt (queue : CShmQueue) (iDataLen : ℤ) :
    (ℤ × ℤ × List UInt8) × CShmQueue :=
  if 0 < iDataLen then
    let (result, next) := queue.outQueue iDataLen.toNat
    if result.ret ≠ 0 then ((iDataLen, result.ret, result.pData), next)
    else ((result.uiDataLen, success, result.pData), next)
  else ((iDataLen, eShmQueueParam, []), queue)

def clean (queue : CShmQueue) : CShmQueue :=
  { queue with uiHead := 0, uiTail := 0 }

/-- The bytes `GetAllQueueData` appends for the message at an offset. -/
def messageCells (queueDataSize offset len : ℕ) : List ℕ :=
  if offset + 4 + len ≤ queueDataSize then List.range' (offset + 4) len
  else if offset + 4 < queueDataSize then
    let endLen := queueDataSize - offset - 4
    List.range' (offset + 4) endLen ++ List.range' 0 (len - endLen)
  else List.range' (4 - (queueDataSize - offset)) len

/-- The loop of `GetAllQueueData`; `none` when it has not ended within
`fuel` iterations. -/
def allQueueData (queue : CShmQueue) :
    ℕ → ℕ → Option (List (List UInt8))
  | 0, _ => none
  | fuel + 1, offsetHead =>
      if usedSpace queue.queueDataSize offsetHead queue.uiTail < 4 then
        some []
      else
        let len := queue.dataLen offsetHead
        let text :=
          (messageCells queue.queueDataSize offsetHead len).map queue.queueData
        let next := addOffset queue.queueDataSize offsetHead (u32 (len + 4))
        (queue.allQueueData fuel next).map (text :: ·)

/-- `GetAllQueueData` with both semaphores held.  A message takes at least
four bytes, so a loop over a well-formed ring ends within its size. -/
def getAllQueueData (queue : CShmQueue) : Option (List (List UInt8)) :=
  queue.allQueueData queue.queueDataSize queue.uiHead

end CShmQueue

end MessageBus.ShmQueue
