import MessageBus.DoubleLinks
import MessageBus.MemPoolModel

/-!
# The timers of `CTimerPool`

A transcription of `mmlib/timer_pool/timer_pool.h`.  A timer stands in a bucket
of one of five wheels, which turn together like the digits of a number: when one
has gone round, a bucket of the next one is emptied into it.  The nodes come from
a pool of nodes of one size and are linked into lists behind the buckets.

A pointer is named by what it points to.  The times that the clock shows are
numbered, and the pool carries how many of them have been read.
-/

namespace MessageBus.TimerPool

open DoubleLinks MemPool

def success : ℤ := 0
def error : ℤ := -1
def poolFull : ℤ := 101
def timerNotExist : ℤ := 102

def timerElement : ℤ := 10000
def intMax : ℤ := 2147483647

/-- The conversion to an `int`. -/
def toInt32 (value : ℤ) : ℤ := Int.bmod value (2 ^ 32)

/-! ## Times -/

structure Timeval where
  tv_sec : ℤ
  tv_usec : ℤ
deriving DecidableEq

namespace Timeval

/-- `timercmp` with `<`. -/
def Before (left right : Timeval) : Prop :=
  left.tv_sec < right.tv_sec ∨
    left.tv_sec = right.tv_sec ∧ left.tv_usec < right.tv_usec

instance (left right : Timeval) : Decidable (left.Before right) :=
  inferInstanceAs (Decidable (_ ∨ _))

/-- `timersub`. -/
def sub (left right : Timeval) : Timeval :=
  if left.tv_usec - right.tv_usec < 0 then
    ⟨left.tv_sec - right.tv_sec - 1, left.tv_usec - right.tv_usec + 1000000⟩
  else ⟨left.tv_sec - right.tv_sec, left.tv_usec - right.tv_usec⟩

/-- A time cut to `TIMER_ELEMENT`. -/
def cut (time : Timeval) : Timeval :=
  ⟨time.tv_sec, time.tv_usec.tdiv timerElement * timerElement⟩

/-- `tExpire` for an interval of milliseconds.  The second is taken off in
`unsigned int`, and what that gives is added to a `long`. -/
def after (time : Timeval) (uiInterval : UInt32) : Timeval :=
  let sec := time.tv_sec + (uiInterval / 1000).toNat
  let usec : UInt32 := (uiInterval % 1000) * 1000
  if time.tv_usec + usec.toNat < 1000000 then ⟨sec, time.tv_usec + usec.toNat⟩
  else ⟨sec + 1, time.tv_usec + (usec - 1000000).toNat⟩

end Timeval

/-! ## The wheels -/

/-- `TB1_BIT` to `TB5_BIT`. -/
def tbBit (wheel : ℕ) : ℕ := if wheel = 1 then 8 else 6

/-- `TB1_NUM` to `TB5_NUM`. -/
def tbNum (wheel : ℕ) : ℕ := 1 <<< tbBit wheel

/-- The bits of the wheels in front of this one. -/
def maskBits (wheel : ℕ) : ℕ := if wheel = 1 then 0 else 8 + 6 * (wheel - 2)

/-- `m_pstTB1` to `m_pstTB5`: the first bucket, counted from `m_pstTB1`. -/
def firstTB (wheel : ℕ) : ℕ := if wheel = 1 then 0 else 256 + 64 * (wheel - 2)

def tballNum : ℕ := 512

/-- The bucket for an interval in steps of the clock, where `rest` wheels come
after this one. -/
def chooseBucket (uiCurPt : ℕ → ℕ) : ℕ → ℕ → ℕ → ℕ
  | 0, wheel, uiIntervalForTB =>
      firstTB wheel +
        (uiCurPt wheel + uiIntervalForTB >>> maskBits wheel) % tbNum wheel
  | rest + 1, wheel, uiIntervalForTB =>
      if uiIntervalForTB >>> (maskBits wheel + tbBit wheel) = 0 then
        firstTB wheel +
          (uiCurPt wheel + uiIntervalForTB >>> maskBits wheel) % tbNum wheel
      else
        chooseBucket uiCurPt rest (wheel + 1)
          (uiIntervalForTB - (tbNum wheel - uiCurPt wheel) <<< maskBits wheel)

/-- What `Migrate` takes for the steps of the clock up to `tExpire`. -/
def stepsLeft (stTimeNow tExpire : Timeval) : ℤ :=
  (tExpire.tv_sec - stTimeNow.tv_sec) * 100 +
    (tExpire.tv_usec - stTimeNow.tv_usec).tdiv timerElement

/-- The place in a wheel for a node that is moved to it. -/
def migrateSlot (wheel : ℕ) (stTimeNow tExpire : Timeval) : ℕ :=
  let uiInterval : ℕ :=
    if stTimeNow.Before tExpire then
      (stepsLeft stTimeNow tExpire % 2 ^ 32).toNat
    else 0
  let uiInterval := uiInterval >>> maskBits wheel
  let uiInterval := if 0 < uiInterval then uiInterval - 1 else uiInterval
  if (tbNum wheel : ℤ) ≤ toInt32 uiInterval then tbNum wheel - 1 else uiInterval

/-! ## The memory -/

/-- What a link of a bucket or a node points to. -/
inductive Cell where
  | null
  | bucket (number : ℕ)
  | node (number : ℕ)
deriving DecidableEq

structure TimerNode (Data : Type) where
  tExpire : Timeval
  uiRandom : UInt32
  TimerParam : Data

/-- The id of a timer, in its two halves. -/
structure TimerID where
  offset : UInt32
  random : UInt32
deriving DecidableEq

/-- The pool, with the size of its nodes and the number of times read. -/
structure CTimerPool (Data : Type) where
  sizeofNode : ℕ
  m_iMemSize : ℤ
  tLastScanTime : Timeval
  uiCurPt : ℕ → ℕ
  iTimerNodeNum : ℤ
  links : Links Cell
  node : ℕ → TimerNode Data
  m_objTimerNodePool : CFixedsizeMemPool
  readings : ℕ

variable {Data : Type} (clock : ℕ → Timeval)

namespace CTimerPool

variable (pool : CTimerPool Data)

/-- `sizeof(TimerPoolHeader)` and the buckets. -/
def headSize : ℕ := 144 + 8 * tballNum

/-- Where the nodes begin. -/
def dataOffset : ℕ :=
  headSize + 20 + 4 * pool.m_objTimerNodePool.iNodeNum +
    (pool.m_objTimerNodePool.iNodeNum + 7) / 8

def nodeOffset (i : ℕ) : ℕ := pool.dataOffset + pool.sizeofNode * i

/-- The node that begins at an offset. -/
def nodeAt (offset : ℕ) : Option ℕ :=
  if pool.dataOffset ≤ offset ∧
      (offset - pool.dataOffset) % pool.sizeofNode = 0 ∧
      (offset - pool.dataOffset) / pool.sizeofNode <
        pool.m_objTimerNodePool.iNodeNum then
    some ((offset - pool.dataOffset) / pool.sizeofNode)
  else none

def timerID (i : ℕ) : TimerID :=
  ⟨(pool.nodeOffset i).toUInt32, (pool.node i).uiRandom⟩

/-! ## `Init` -/

/-- The memory after `Init` with `iClearFlag`. -/
def clear [Inhabited Data] (nodePool : CFixedsizeMemPool) (iMemSize : ℤ) :
    CTimerPool Data :=
  { pool with
    m_iMemSize := iMemSize
    tLastScanTime := (clock pool.readings).cut
    uiCurPt := fun _ => 0
    iTimerNodeNum := 0
    links := ⟨fun _ => .null, fun _ => .null⟩
    node := fun _ => ⟨⟨0, 0⟩, 0, default⟩
    m_objTimerNodePool := nodePool
    readings := pool.readings + 1 }

/-- `Init` with `iClearFlag`; `none` when the nodes run out of the memory. -/
def init [Inhabited Data] (iMemSize : ℤ) : Option (ℤ × CTimerPool Data) :=
  if iMemSize ≤ headSize then some (error, pool)
  else
    (pool.m_objTimerNodePool.init pool.sizeofNode true (iMemSize - headSize) 0 1).bind
      fun (iRetVal, nodePool) =>
        if iRetVal ≠ 0 then some (error, pool)
        else
          let cleared := pool.clear clock nodePool iMemSize
          if iMemSize < cleared.nodeOffset nodePool.iNodeNum then none
          else some (success, cleared)

/-! ## `AddTimer` and `DelTimer` -/

/-- `AddTimer`, with the random number that it draws. -/
def addTimer (uiInterval : UInt32) (TimerParam : Data) (uiRandom : UInt32) :
    Option (ℤ × Option TimerID × CTimerPool Data) :=
  if uiInterval = 0 then some (error, none, pool)
  else
    pool.m_objTimerNodePool.allocateNode.map fun (allocated, nodePool) =>
      match allocated with
      | none => (poolFull, none, pool)
      | some i =>
          let bucket := chooseBucket pool.uiCurPt 4 1 (uiInterval / 10).toNat
          let tExpire := (clock pool.readings).after uiInterval
          let added := { pool with
            iTimerNodeNum := pool.iTimerNodeNum + 1
            links := pool.links.push .null (.bucket bucket) (.node i)
            node := Function.update pool.node i ⟨tExpire, uiRandom, TimerParam⟩
            m_objTimerNodePool := nodePool
            readings := pool.readings + 1 }
          (success, some (added.timerID i), added)

/-- A node leaves its list, from behind `before`, and goes back to the pool. -/
def dropNode (before : Cell) (i : ℕ) : Option (ℤ × CTimerPool Data) :=
  (pool.m_objTimerNodePool.releaseNode pool.sizeofNode (pool.sizeofNode * i)).map
    fun (iRetVal, nodePool) =>
      (iRetVal, { pool with
        iTimerNodeNum :=
          if pool.iTimerNodeNum - 1 < 0 then 0 else pool.iTimerNodeNum - 1
        links := pool.links.unlink .null before (.node i)
        m_objTimerNodePool := nodePool })

/-- `DelTimer`; `none` for an offset inside the memory where no node begins. -/
def delTimer (ullTimerID : TimerID) : Option (ℤ × CTimerPool Data) :=
  if pool.iTimerNodeNum = 0 then some (timerNotExist, pool)
  else
    let iOffSet := toInt32 ullTimerID.offset.toNat
    if iOffSet ≤ 0 ∨ pool.m_iMemSize ≤ iOffSet then some (error, pool)
    else
      (pool.nodeAt iOffSet.toNat).bind fun i =>
        if pool.links.prev (.node i) = .null then some (error, pool)
        else if (pool.node i).uiRandom ≠ ullTimerID.random then
          some (timerNotExist, pool)
        else
          (pool.dropNode (pool.links.prev (.node i)) i).map fun (iRetVal, pool) =>
            (if iRetVal ≠ 0 then error else success, pool)

/-! ## `Migrate` -/

/-- A node goes from its bucket to one of another wheel; `none` when that is
outside the wheel. -/
def migrateNode (wheel : ℕ) (before : Cell) (i : ℕ) : Option (CTimerPool Data) :=
  let slot := migrateSlot wheel (clock pool.readings) (pool.node i).tExpire
  if slot < tbNum wheel then
    some { pool with
      links := (pool.links.unlink .null before (.node i)).push .null
        (.bucket (firstTB wheel + slot)) (.node i)
      readings := pool.readings + 1 }
  else none

/-- The loop of `Migrate`; `none` when it has not ended within `fuel` rounds. -/
def migrateLoop (wheel : ℕ) (before : Cell) :
    ℕ → Cell → CTimerPool Data → Option (CTimerPool Data)
  | _, .null, pool => some pool
  | fuel + 1, .node i, pool =>
      (pool.migrateNode clock wheel before i).bind
        (migrateLoop wheel before fuel (pool.links.next (.node i)))
  | _, _, _ => none

/-- `Migrate` of a bucket to the buckets of a wheel. -/
def migrate (wheel source : ℕ) : Option (CTimerPool Data) :=
  let first := pool.links.next (.bucket source)
  if first = .null then some pool
  else
    migrateLoop clock wheel (pool.links.prev first)
      pool.m_objTimerNodePool.iNodeNum first pool

/-! ## `GetTimer` -/

/-- The loop over the timers that have come up. -/
def fireLoop (before : Cell) :
    ℕ → Cell → CTimerPool Data → Option (List (TimerID × Data) × CTimerPool Data)
  | _, .null, pool => some ([], pool)
  | fuel + 1, .node i, pool =>
      (pool.dropNode before i).bind fun (_, dropped) =>
        (fireLoop before fuel (pool.links.next (.node i)) dropped).map
          fun (fired, after) =>
            ((pool.timerID i, (pool.node i).TimerParam) :: fired, after)
  | _, _, _ => none

def setCurPt (wheel value : ℕ) : CTimerPool Data :=
  { pool with uiCurPt := Function.update pool.uiCurPt wheel value }

/-- A pointer that is outside its wheel is set to its start. -/
def fixCurPt (wheel : ℕ) : CTimerPool Data :=
  if tbNum wheel ≤ pool.uiCurPt wheel then pool.setCurPt wheel 0 else pool

/-- The wheels turn, from one with `rest` wheels after it on. -/
def turn : ℕ → ℕ → CTimerPool Data → Option (CTimerPool Data)
  | 0, wheel, pool =>
      some (pool.setCurPt wheel ((pool.uiCurPt wheel + 1) % tbNum wheel))
  | rest + 1, wheel, pool =>
      let pool := pool.setCurPt wheel (pool.uiCurPt wheel + 1)
      if pool.uiCurPt wheel = tbNum wheel then
        let pool := pool.fixCurPt (wheel + 1)
        (pool.migrate clock wheel
          (firstTB (wheel + 1) + pool.uiCurPt (wheel + 1))).bind fun pool =>
            turn rest (wheel + 1) (pool.setCurPt wheel 0)
      else some pool

/-- The timers of the bucket that the first pointer shows are taken out. -/
def fire : Option (List (TimerID × Data) × CTimerPool Data) :=
  let first := pool.links.next (.bucket (firstTB 1 + pool.uiCurPt 1))
  if first = .null then some ([], pool)
  else
    fireLoop (pool.links.prev first) pool.m_objTimerNodePool.iNodeNum first pool

def getTimerInternal : Option (List (TimerID × Data) × CTimerPool Data) :=
  if pool.iTimerNodeNum = 0 then some ([], pool)
  else
    ((pool.fixCurPt 1).fire).bind fun (fired, pool) =>
      if pool.iTimerNodeNum = 0 then some (fired, pool)
      else (turn clock 4 1 pool).map fun pool => (fired, pool)

/-- The loop of `GetTimer`. -/
def getTimerLoop :
    ℕ → CTimerPool Data → Option (List (TimerID × Data) × CTimerPool Data)
  | 0, pool => some ([], pool)
  | iLoopTimes + 1, pool =>
      (pool.getTimerInternal clock).bind fun (fired, pool) =>
        (getTimerLoop iLoopTimes pool).map fun (later, pool) =>
          (fired ++ later, pool)

/-- `GetTimer`, with the ids and the parameters that it appends. -/
def getTimer [Inhabited Data] :
    Option (ℤ × List (TimerID × Data) × CTimerPool Data) :=
  let tTimeNow := (clock pool.readings).cut
  let pool := { pool with readings := pool.readings + 1 }
  let tTimeDiff := tTimeNow.sub pool.tLastScanTime
  if intMax.tdiv 100 < tTimeDiff.tv_sec then
    (pool.init clock pool.m_iMemSize).map fun (iRetVal, pool) => (iRetVal, [], pool)
  else
    let (iLoopTimes, pool) :=
      if 0 < tTimeDiff.tv_sec ∨ timerElement ≤ tTimeDiff.tv_usec then
        (toInt32 (tTimeDiff.tv_sec * 100 + tTimeDiff.tv_usec.tdiv timerElement),
          { pool with tLastScanTime := tTimeNow })
      else (0, pool)
    (getTimerLoop clock iLoopTimes.toNat pool).map fun (fired, pool) =>
      (success, fired, pool)

end CTimerPool

end MessageBus.TimerPool
