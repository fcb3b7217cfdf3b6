import MessageBus.IndexChain

/-!
# The shared-memory hash list `CHashListNoLock`

A transcription of `mmlib/hash_list/hash_list_nolock.h` for `uint64_t` keys.
The segment is its head, the index nodes and the data nodes, addressed as the
C arrays are: an index outside the array is an address outside it.  Node 0 is
the null pointer.

The updating operations return the single-field writes they perform, in
program order; in none of them does a read follow a write to the field it
reads.  A `while` loop carries fuel and answers `none` if it has not ended
when the fuel is spent.
-/

namespace MessageBus.HashList

def success : ℤ := 0
def error : ℤ := -1
def eHashListMemSize : ℤ := -101
def eHashListIndexNum : ℤ := -102
def eHashListDataNum : ℤ := -103
def eHashListNoSpace : ℤ := -104
def eHashListNoNode : ℤ := -105
def eHashListNodeExist : ℤ := -106
def eHashListVerifyIndexHashVal : ℤ := -108
def eHashListVerifyIndexDataNum : ℤ := -109
def eHashListVerifyDataPtr : ℤ := -110
def eHashListVerifyHeadUsedDataNum : ℤ := -111
def eHashListVerifyHeadTotalDataNum : ℤ := -113

structure Head where
  iSize : ℤ
  iTotalDataNodeNum : ℤ
  iUsedDataNodeNum : ℤ
  iIndexNodeNum : ℤ
  ipFreeDataNodeList : ℤ
deriving DecidableEq, Inhabited

/-- The memory of a hash list as mapped by a process.  The arrays of index
nodes and of data nodes are given by one function for each field. -/
structure Segment (Data : Type) where
  head : Head
  -- IndexNode
  iHashVal : ℤ → ℤ
  iDataNodeNum : ℤ → ℤ
  ipDataNodeList : ℤ → ℤ
  -- DataNode
  keyVal : ℤ → UInt64
  ipNextDataNode : ℤ → ℤ
  data : ℤ → Data
deriving Inhabited

variable {Data : Type}

/-- `Hash` on a given number of index nodes. -/
def hashVal (iIndexNodeNum : ℕ) (key : UInt64) : ℕ :=
  key.toNat % iIndexNodeNum

def Segment.hash (segment : Segment Data) (key : UInt64) : ℤ :=
  hashVal segment.head.iIndexNodeNum.toNat key

/-! ## Single writes -/

inductive Write (Data : Type) where
  | usedDataNodeNum (value : ℤ)
  | freeDataNodeList (value : ℤ)
  | keyVal (ipData : ℤ) (key : UInt64)
  | nextDataNode (ipData value : ℤ)
  | nodeData (ipData : ℤ) (value : Data)
  | dataNodeList (iHashVal value : ℤ)
  | dataNodeNum (iHashVal value : ℤ)

def Write.apply (segment : Segment Data) : Write Data → Segment Data
  | .usedDataNodeNum value =>
      { segment with head := { segment.head with iUsedDataNodeNum := value } }
  | .freeDataNodeList value =>
      { segment with
        head := { segment.head with ipFreeDataNodeList := value } }
  | .keyVal ipData key =>
      { segment with keyVal := Function.update segment.keyVal ipData key }
  | .nextDataNode ipData value =>
      { segment with
        ipNextDataNode :=
          Function.update segment.ipNextDataNode ipData value }
  | .nodeData ipData value =>
      { segment with data := Function.update segment.data ipData value }
  | .dataNodeList iHashVal value =>
      { segment with
        ipDataNodeList :=
          Function.update segment.ipDataNodeList iHashVal value }
  | .dataNodeNum iHashVal value =>
      { segment with
        iDataNodeNum := Function.update segment.iDataNodeNum iHashVal value }

/-- Perform writes in order. -/
def Segment.perform (segment : Segment Data) (writes : List (Write Data)) :
    Segment Data :=
  writes.foldl Write.apply segment

/-! ## Init, Clear and Verify -/

/-- `int` arithmetic, taken to wrap. -/
def toInt32 (value : ℤ) : ℤ := Int.bmod value (2 ^ 32)

theorem toInt32_of_lt {value : ℤ} (hnonneg : 0 ≤ value)
    (hlt : value < 2 ^ 31) : toInt32 value = value := by
  unfold toInt32
  rw [Int.bmod_def]
  omega

def headSize : ℤ := 20
def indexNodeSize : ℤ := 12

/-- `Init`; `dataNodeSize` is `sizeof(DataNode)`. -/
def Segment.init
    (segment : Segment Data)
    (dataNodeSize iMemSize iIndexNum iDataNum : ℤ) : ℤ × Segment Data :=
  let iTotalMemSize :=
    toInt32 (headSize + iIndexNum * indexNodeSize + iDataNum * dataNodeSize)
  if iMemSize < iTotalMemSize then (eHashListMemSize, segment)
  else if iIndexNum < 1 then (eHashListIndexNum, segment)
  else if iDataNum < 2 then (eHashListDataNum, segment)
  else
    (success, { segment with
      head := { segment.head with
        iSize := iMemSize
        iIndexNodeNum := iIndexNum
        iTotalDataNodeNum := iDataNum } })

/-- `Clear`: everything is zeroed, the index nodes are numbered and the data
nodes from 1 on are linked into the free list. -/
def Segment.clear [Inhabited Data] (segment : Segment Data) : Segment Data :=
  let indexNum := segment.head.iIndexNodeNum
  let total := segment.head.iTotalDataNodeNum
  { head := { segment.head with
      iUsedDataNodeNum := 1
      ipFreeDataNodeList := 1 }
    iHashVal := fun i =>
      if 0 ≤ i ∧ i < indexNum then i else segment.iHashVal i
    iDataNodeNum := fun i =>
      if 0 ≤ i ∧ i < indexNum then 0 else segment.iDataNodeNum i
    ipDataNodeList := fun i =>
      if 0 ≤ i ∧ i < indexNum then 0 else segment.ipDataNodeList i
    keyVal := fun i =>
      if 0 ≤ i ∧ i < total then 0 else segment.keyVal i
    ipNextDataNode := fun i =>
      if i = total - 1 then 0
      else if 1 ≤ i ∧ i < total then i + 1
      else if i = 0 then 0
      else segment.ipNextDataNode i
    data := fun i =>
      if 0 ≤ i ∧ i < total then default else segment.data i }

/-- The inner loop of `Verify`: the length of a chain, or the error code at a
pointer past the array. -/
def Segment.countChain (segment : Segment Data) :
    ℕ → ℤ → ℤ → ExceptT ℤ Option ℤ
  | 0, _, _ => ExceptT.mk none
  | fuel + 1, ipData, iRealDataNodeNum =>
      if ipData = 0 then pure iRealDataNodeNum
      else if segment.head.iTotalDataNodeNum < ipData then
        throw eHashListVerifyDataPtr
      else
        segment.countChain fuel (segment.ipNextDataNode ipData) (iRealDataNodeNum + 1)

/-- The loop of `Verify` over the index nodes from `i` on. -/
def Segment.verifyIndex (segment : Segment Data) (fuel : ℕ) :
    ℕ → ℤ → ℤ → ExceptT ℤ Option ℤ
  | 0, _, iRealUsedDataNodeNum => pure iRealUsedDataNodeNum
  | remaining + 1, i, iRealUsedDataNodeNum => do
      if segment.iHashVal i ≠ i then
        throw eHashListVerifyIndexHashVal
      let iRealDataNodeNum ←
        segment.countChain fuel (segment.ipDataNodeList i) 0
      if iRealDataNodeNum ≠ segment.iDataNodeNum i then
        throw eHashListVerifyIndexDataNum
      segment.verifyIndex fuel remaining (i + 1)
        (iRealUsedDataNodeNum + iRealDataNodeNum)

def Segment.verifyAll (segment : Segment Data) (fuel : ℕ) :
    ExceptT ℤ Option Unit := do
  let iRealUsedDataNodeNum ←
    segment.verifyIndex fuel segment.head.iIndexNodeNum.toNat 0 1
  if iRealUsedDataNodeNum ≠ segment.head.iUsedDataNodeNum then
    throw eHashListVerifyHeadUsedDataNum
  let iFreeDataNodeNum ←
    segment.countChain fuel segment.head.ipFreeDataNodeList 0
  if iFreeDataNodeNum + segment.head.iUsedDataNodeNum ≠
      segment.head.iTotalDataNodeNum then
    throw eHashListVerifyHeadTotalDataNum

/-- `Verify`; `none` when one of its loops has not ended within the fuel. -/
def Segment.verify (segment : Segment Data) (fuel : ℕ) : Option ℤ :=
  match (segment.verifyAll fuel).run with
  | none => none
  | some (.error code) => some code
  | some (.ok ()) => some 0

/-! ## The operations -/

/-- The search loop shared by the operations: the node found, or 0. -/
def Segment.find (segment : Segment Data) (key : UInt64) :
    ℕ → ℤ → Option ℤ
  | 0, _ => none
  | fuel + 1, ipData =>
      if ipData ≠ 0 ∧ segment.keyVal ipData ≠ key then
        segment.find key fuel (segment.ipNextDataNode ipData)
      else some ipData

/-- The search loop of `Remove`, which also remembers the node before. -/
def Segment.findLast (segment : Segment Data) (key : UInt64) :
    ℕ → ℤ → ℤ → Option (ℤ × ℤ)
  | 0, _, _ => none
  | fuel + 1, ipLastData, ipData =>
      if ipData ≠ 0 ∧ segment.keyVal ipData ≠ key then
        segment.findLast key fuel ipData (segment.ipNextDataNode ipData)
      else some (ipLastData, ipData)

def Segment.getFreeNode (segment : Segment Data) : ℤ × List (Write Data) :=
  let iFreeNodeNum :=
    segment.head.iTotalDataNodeNum - segment.head.iUsedDataNodeNum
  let iFreeNode := segment.head.ipFreeDataNodeList
  if iFreeNodeNum ≤ 0 ∨ iFreeNode ≤ 0 then (eHashListNoSpace, [])
  else
    (iFreeNode,
      [.usedDataNodeNum (segment.head.iUsedDataNodeNum + 1),
        .freeDataNodeList (segment.ipNextDataNode iFreeNode)])

def Segment.recycleNode (segment : Segment Data) (iNode : ℤ) :
    ℤ × List (Write Data) :=
  if iNode = 0 ∨ segment.head.iTotalDataNodeNum < iNode then (error, [])
  else
    (success,
      [.usedDataNodeNum (segment.head.iUsedDataNodeNum - 1),
        .nextDataNode iNode segment.head.ipFreeDataNodeList,
        .freeDataNodeList iNode])

/-- The part of `Insert` and `InsertWithRet` for a key that was not found. -/
def Segment.insertNew
    (segment : Segment Data) (key : UInt64) (data : Data) :
    ℤ × List (Write Data) :=
  let iHashVal := segment.hash key
  let (ipFreeNode, writes) := segment.getFreeNode
  if 0 < ipFreeNode then
    (success, writes ++
      [.keyVal ipFreeNode key,
        .nextDataNode ipFreeNode (segment.ipDataNodeList iHashVal),
        .nodeData ipFreeNode data,
        .dataNodeList iHashVal ipFreeNode,
        .dataNodeNum iHashVal (segment.iDataNodeNum iHashVal + 1)])
  else (ipFreeNode, writes)

def Segment.findKey (segment : Segment Data) (fuel : ℕ) (key : UInt64) :
    Option ℤ :=
  segment.find key fuel (segment.ipDataNodeList (segment.hash key))

def Segment.insert
    (segment : Segment Data) (fuel : ℕ) (key : UInt64) (data : Data) :
    Option (ℤ × List (Write Data)) :=
  (segment.findKey fuel key).map fun ipData =>
    if 0 < ipData then (eHashListNodeExist, [])
    else segment.insertNew key data

/-- `InsertWithRet`, with the caller's `Data` as it is on return. -/
def Segment.insertWithRet
    (segment : Segment Data) (fuel : ℕ) (key : UInt64) (data : Data) :
    Option ((ℤ × Data) × List (Write Data)) :=
  (segment.findKey fuel key).map fun ipData =>
    if 0 < ipData then
      ((eHashListNodeExist, segment.data ipData), [])
    else
      let (iRetVal, writes) := segment.insertNew key data
      ((iRetVal, data), writes)

def Segment.update
    (segment : Segment Data) (fuel : ℕ) (key : UInt64) (data : Data) :
    Option (ℤ × List (Write Data)) :=
  (segment.findKey fuel key).map fun ipData =>
    if 0 < ipData then (success, [.nodeData ipData data])
    else (eHashListNoNode, [])

def Segment.remove
    (segment : Segment Data) (fuel : ℕ) (key : UInt64) :
    Option (ℤ × List (Write Data)) :=
  let iHashVal := segment.hash key
  (segment.findLast key fuel 0 (segment.ipDataNodeList iHashVal)).map
    fun (ipLastData, ipData) =>
      if 0 < ipData then
        let unlink : Write Data :=
          if ipLastData = 0 then
            .dataNodeList iHashVal (segment.ipNextDataNode ipData)
          else .nextDataNode ipLastData (segment.ipNextDataNode ipData)
        let (iRetVal, writes) := segment.recycleNode ipData
        (iRetVal,
          unlink ::
            .dataNodeNum iHashVal (segment.iDataNodeNum iHashVal - 1) ::
            writes)
      else (eHashListNoNode, [])

/-- `Get`, both the pointer and the copying form. -/
def Segment.get (segment : Segment Data) (fuel : ℕ) (key : UInt64) :
    Option (ℤ × Option Data) :=
  (segment.findKey fuel key).map fun ipData =>
    if 0 < ipData then (success, some (segment.data ipData))
    else (eHashListNoNode, none)

/-! ## Attaching to a segment -/

/-- The stage of `CConn::Init` and of `CUserShmApi::Init` between attaching
the shared memory and using the map: the segment is cleared if the magic is
missing and must then pass `Verify`. -/
def Segment.attach [Inhabited Data]
    (segment : Segment Data) (fuel : ℕ) (magic : Bool)
    (dataNodeSize iMemSize nodeNum : ℤ) : Option (ℤ × Segment Data) :=
  let (ret, opened) := segment.init dataNodeSize iMemSize nodeNum nodeNum
  if ret ≠ 0 then some (-1, opened)
  else
    let ready := if magic then opened else opened.clear
    (ready.verify fuel).map fun ret =>
      if ret ≠ 0 then (-1, ready) else (0, ready)

end MessageBus.HashList
