import MessageBus.MemPoolModel

/-!
# Maps in a pool of blocks `CMemPool`

A transcription of `mmlib/mem_pool/mem_pool.h`.  A map is a chain of blocks of
fifty entries; it is named by the number of its first block, and the chain ends
with the number -1, which is the block before `GetDataMem()`.  Operations work on
the map that was chosen last.

A loop over a chain is given one step more than the pool has nodes.  It has no
result if the chain is longer, and an insertion has none if it would write past
the entries of a block.
-/

namespace MessageBus.MemPool

def memPoolNotInited : ℤ := -103
def invalidMapHandle : ℤ := -104
def nodeNotExist : ℤ := -105
def nodeExist : ℤ := -106
def memPoolAllocateFailed : ℤ := -107
def memPoolReleaseFailed : ℤ := -108

def mapBlockDataNum : ℕ := 50

variable {Key Data : Type}

structure DataBlock (Key Data : Type) where
  iUsedDataNum : ℕ
  iNextHandle : ℤ
  astKey : ℕ → Key
  astData : ℕ → Data

namespace DataBlock

/-- A new block: all its bytes are cleared, and it is the end of a chain. -/
def cleared (zeroKey : Key) (zeroData : Data) : DataBlock Key Data where
  iUsedDataNum := 0
  iNextHandle := -1
  astKey := fun _ => zeroKey
  astData := fun _ => zeroData

/-- The place of a key among the entries of a block. -/
def keyIndex [DecidableEq Key]
    (block : DataBlock Key Data) (key : Key) : Option ℕ :=
  (List.range block.iUsedDataNum).find? fun index =>
    block.astKey index = key

/-- An entry is written behind those of a block. -/
def push (block : DataBlock Key Data) (key : Key) (data : Data) :
    DataBlock Key Data :=
  { block with
    astKey := Function.update block.astKey block.iUsedDataNum key
    astData := Function.update block.astData block.iUsedDataNum data
    iUsedDataNum := block.iUsedDataNum + 1 }

end DataBlock

/-- The pool, its blocks by number, and the map that is chosen. -/
structure CMemPool (Key Data : Type) where
  objFMP : CFixedsizeMemPool
  dataBuff : ℤ → DataBlock Key Data
  iMapHandle : ℤ
  headDataBlock : Option ℤ
  iFMPInitFlag : ℤ

namespace CMemPool

/-- An object of the class before `InitMemPool`, on memory with any content. -/
def new (memory : CFixedsizeMemPool) (dataBuff : ℤ → DataBlock Key Data) :
    CMemPool Key Data where
  objFMP := memory
  dataBuff := dataBuff
  iMapHandle := -1
  headDataBlock := none
  iFMPInitFlag := 0

section Memory

/-! `sizeofBlock` is `sizeof(DataBlock)`; `zeroKey` and `zeroData` are the values
whose bytes are all zero. -/

variable (sizeofBlock : ℕ) (zeroKey : Key) (zeroData : Data)

def newMap (pool : CMemPool Key Data) : Option (ℤ × CMemPool Key Data) := do
  if pool.iFMPInitFlag ≠ 1 then return (memPoolNotInited, pool)
  else
    match ← pool.objFMP.allocateNode with
    | (none, objFMP) => return (memPoolAllocateFailed, { pool with objFMP })
    | (some node, objFMP) =>
        return (node,
          { pool with
            objFMP
            dataBuff := Function.update pool.dataBuff node
              (.cleared zeroKey zeroData)
            iMapHandle := node
            headDataBlock := some (node : ℤ) })

/-- The check before an operation on the chosen map. -/
def checkHandle (pool : CMemPool Key Data) (iMapHandle : ℤ) : Option ℤ :=
  if pool.iFMPInitFlag ≠ 1 then some memPoolNotInited
  else if iMapHandle < 0 ∨ (pool.objFMP.iNodeNum : ℤ) ≤ iMapHandle then
    some invalidMapHandle
  else none

/-- The loop of `ReleaseMap`. -/
def releaseBlocks (dataBuff : ℤ → DataBlock Key Data) :
    ℕ → ℤ → CFixedsizeMemPool → Option (ℤ × CFixedsizeMemPool)
  | 0, _, _ => none
  | fuel + 1, block, objFMP =>
      if block = -1 then some (success, objFMP)
      else do
        let (iRetVal, objFMP) ←
          objFMP.releaseNode sizeofBlock (sizeofBlock * block)
        if iRetVal ≠ success then return (memPoolReleaseFailed, objFMP)
        else releaseBlocks dataBuff fuel (dataBuff block).iNextHandle objFMP

def releaseMap (pool : CMemPool Key Data) : Option (ℤ × CMemPool Key Data) :=
  match pool.checkHandle pool.iMapHandle with
  | some iRetVal => some (iRetVal, pool)
  | none => do
      let (iRetVal, objFMP) ← releaseBlocks sizeofBlock pool.dataBuff
        (pool.objFMP.iNodeNum + 1) (← pool.headDataBlock) pool.objFMP
      if iRetVal ≠ success then return (iRetVal, { pool with objFMP })
      else return (success, { pool with objFMP, iMapHandle := -1 })

end Memory

def initWithHandle (pool : CMemPool Key Data) (iMapHandle : ℤ) :
    ℤ × CMemPool Key Data :=
  match pool.checkHandle iMapHandle with
  | some iRetVal => (iRetVal, pool)
  | none =>
      (success, { pool with iMapHandle, headDataBlock := some iMapHandle })

/-- The loop of `GetNode`, with the block and the place of the key. -/
def findNode [DecidableEq Key] (dataBuff : ℤ → DataBlock Key Data)
    (key : Key) : ℕ → ℤ → Option (Option (ℤ × ℕ))
  | 0, _ => none
  | fuel + 1, block =>
      if block = -1 then some none
      else
        match (dataBuff block).keyIndex key with
        | some index => some (some (block, index))
        | none => findNode dataBuff key fuel (dataBuff block).iNextHandle

/-- `GetNode`, with where `*ppData` points to if it is set. -/
def getNode [DecidableEq Key] (pool : CMemPool Key Data) (key : Key) :
    Option (ℤ × Option (ℤ × ℕ)) :=
  match pool.checkHandle pool.iMapHandle with
  | some iRetVal => some (iRetVal, none)
  | none => do
      match ← findNode pool.dataBuff key (pool.objFMP.iNodeNum + 1)
        (← pool.headDataBlock) with
      | some place => return (success, some place)
      | none => return (nodeNotExist, none)

/-- The loop of `GetAllNode`. -/
def allData (dataBuff : ℤ → DataBlock Key Data) :
    ℕ → ℤ → List Data → Option (List Data)
  | 0, _, _ => none
  | fuel + 1, block, vstAllData =>
      if block = -1 then some vstAllData
      else
        allData dataBuff fuel (dataBuff block).iNextHandle
          (vstAllData ++ (List.range (dataBuff block).iUsedDataNum).map
            (dataBuff block).astData)

/-- `GetAllNode` on a vector of the caller. -/
def getAllNode (pool : CMemPool Key Data) (vstAllData : List Data) :
    Option (ℤ × List Data) :=
  match pool.checkHandle pool.iMapHandle with
  | some iRetVal => some (iRetVal, vstAllData)
  | none => do
      let vstAllData ← allData pool.dataBuff (pool.objFMP.iNodeNum + 1)
        (← pool.headDataBlock) []
      return (success, vstAllData)

/-- The first loop of `InsertNode`: whether the key is there, and the last block
of the chain, NULL before the first turn. -/
def findLast [DecidableEq Key] (dataBuff : ℤ → DataBlock Key Data)
    (key : Key) : ℕ → ℤ → Option ℤ → Option (Bool × Option ℤ)
  | 0, _, _ => none
  | fuel + 1, block, last =>
      if block = -1 then some (false, last)
      else if ((dataBuff block).keyIndex key).isSome then
        some (true, last)
      else
        findLast dataBuff key fuel (dataBuff block).iNextHandle (some block)

/-- The end of `InsertNode`. -/
def writeEntry (pool : CMemPool Key Data) (block : ℤ) (key : Key)
    (data : Data) : Option (CMemPool Key Data) :=
  if mapBlockDataNum ≤ (pool.dataBuff block).iUsedDataNum then none
  else
    some { pool with
      dataBuff := Function.update pool.dataBuff block
        ((pool.dataBuff block).push key data) }

/-- A new block is cleared and linked behind the last one. -/
def linkBlock (zeroKey : Key) (zeroData : Data)
    (dataBuff : ℤ → DataBlock Key Data) (last node : ℤ) :
    ℤ → DataBlock Key Data :=
  let cleared := Function.update dataBuff node (.cleared zeroKey zeroData)
  Function.update cleared last { cleared last with iNextHandle := node }

/-- The second half of `InsertNode`, which has found the last block. -/
def insertData (zeroKey : Key) (zeroData : Data) (pool : CMemPool Key Data)
    (last : ℤ) (key : Key) (data : Data) :
    Option (ℤ × CMemPool Key Data) := do
  if (pool.dataBuff last).iUsedDataNum = mapBlockDataNum then
    match ← pool.objFMP.allocateNode with
    | (none, objFMP) => return (memPoolAllocateFailed, { pool with objFMP })
    | (some node, objFMP) =>
        let dataBuff := linkBlock zeroKey zeroData pool.dataBuff last node
        let pool ← writeEntry { pool with objFMP, dataBuff } node key data
        return (success, pool)
  else
    let pool ← writeEntry pool last key data
    return (success, pool)

def insertNode [DecidableEq Key] (zeroKey : Key) (zeroData : Data)
    (pool : CMemPool Key Data) (key : Key) (data : Data) :
    Option (ℤ × CMemPool Key Data) :=
  match pool.checkHandle pool.iMapHandle with
  | some iRetVal => some (iRetVal, pool)
  | none => do
      let (found, last) ← findLast pool.dataBuff key
        (pool.objFMP.iNodeNum + 1) (← pool.headDataBlock) none
      if found then return (nodeExist, pool)
      else pool.insertData zeroKey zeroData (← last) key data

end CMemPool

end MessageBus.MemPool
