import MessageBus.HashListRuns
import MessageBus.SharedCells

/-!
# The single accesses of `CHashListNoLock`

The operations of `mmlib/hash_list/hash_list_nolock.h` as codes over the cells
of a segment.  A data node holds the fields of a record, so `memcpy` is one
access for each field.  `view` reads the cells as the segment of
`HashListModel`, with the records decoded; alone, every operation does to the
view what it does there.
-/

namespace MessageBus.HashList

open Shared

inductive Cell (Field : Type) where
  -- Head
  | iTotalDataNodeNum
  | iUsedDataNodeNum
  | iIndexNodeNum
  | ipFreeDataNodeList
  -- IndexNode
  | iDataNodeNum (iHashVal : ℤ)
  | ipDataNodeList (iHashVal : ℤ)
  -- DataNode
  | keyVal (ipData : ℤ)
  | ipNextDataNode (ipData : ℤ)
  | data (ipData : ℤ) (field : Field)
deriving DecidableEq

variable {Field : Type} {FieldValue : Field → Type} {Data α : Type}

@[reducible] def Cell.Value (FieldValue : Field → Type) :
    Cell Field → Type
  | .iTotalDataNodeNum => ℤ
  | .iUsedDataNodeNum => ℤ
  | .iIndexNodeNum => ℤ
  | .ipFreeDataNodeList => ℤ
  | .iDataNodeNum _ => ℤ
  | .ipDataNodeList _ => ℤ
  | .keyVal _ => UInt64
  | .ipNextDataNode _ => ℤ
  | .data _ field => FieldValue field

abbrev Record (FieldValue : Field → Type) : Type :=
  (field : Field) → FieldValue field

abbrev Cells (FieldValue : Field → Type) : Type :=
  Memory (Cell.Value FieldValue)

/-- Code on a segment; the clock is `time(NULL)`. -/
abbrev SegmentCode (FieldValue : Field → Type) (α : Type) : Type :=
  Code (Cell.Value FieldValue) UInt64 α

namespace CHashListNoLock

/-- `memcpy` from a local record into a data node. -/
def copyIn (ipData : ℤ) (record : Record FieldValue) :
    List Field → SegmentCode FieldValue Unit
  | [] => pure ()
  | field :: fields => do
      store (.data ipData field) (record field)
      copyIn ipData record fields

/-- `memcpy` from a data node into a local record. -/
def copyOut [DecidableEq Field] (ipData : ℤ) :
    List Field → Record FieldValue →
      SegmentCode FieldValue (Record FieldValue)
  | [], record => pure record
  | field :: fields, record => do
      let value ← load (.data ipData field)
      copyOut ipData fields (Function.update record field value)

def hash (key : UInt64) : SegmentCode FieldValue ℤ := do
  let iIndexNodeNum ← load Cell.iIndexNodeNum
  pure (hashVal iIndexNodeNum.toNat key)

/-- The search loop. -/
def search (key : UInt64) : ℕ → ℤ → SegmentCode FieldValue ℤ
  | 0, _ => spin
  | fuel + 1, ipData =>
      if ipData = 0 then pure ipData
      else do
        let keyVal ← load (.keyVal ipData)
        if keyVal ≠ key then
          let ipNextData ← load (.ipNextDataNode ipData)
          search key fuel ipNextData
        else pure ipData

/-- The search loop of `Remove`. -/
def searchLast (key : UInt64) :
    ℕ → ℤ → ℤ → SegmentCode FieldValue (ℤ × ℤ)
  | 0, _, _ => spin
  | fuel + 1, ipLastData, ipData =>
      if ipData = 0 then pure (ipLastData, ipData)
      else do
        let keyVal ← load (.keyVal ipData)
        if keyVal ≠ key then
          let ipNextData ← load (.ipNextDataNode ipData)
          searchLast key fuel ipData ipNextData
        else pure (ipLastData, ipData)

def getFreeNode : SegmentCode FieldValue ℤ := do
  let iTotalDataNodeNum ← load .iTotalDataNodeNum
  let iUsedDataNodeNum ← load .iUsedDataNodeNum
  let iFreeNode ← load .ipFreeDataNodeList
  if iTotalDataNodeNum - iUsedDataNodeNum ≤ 0 ∨ iFreeNode ≤ 0 then
    pure eHashListNoSpace
  else
    let iUsedDataNodeNum ← load .iUsedDataNodeNum
    store .iUsedDataNodeNum (iUsedDataNodeNum + 1)
    let ipNextDataNode ← load (.ipNextDataNode iFreeNode)
    store .ipFreeDataNodeList ipNextDataNode
    pure iFreeNode

def recycleNode (iNode : ℤ) : SegmentCode FieldValue ℤ :=
  if iNode = 0 then pure error
  else do
    let iTotalDataNodeNum ← load .iTotalDataNodeNum
    if iTotalDataNodeNum < iNode then pure error
    else
      let iUsedDataNodeNum ← load .iUsedDataNodeNum
      store .iUsedDataNodeNum (iUsedDataNodeNum - 1)
      let ipFreeDataNodeList ← load .ipFreeDataNodeList
      store (.ipNextDataNode iNode) ipFreeDataNodeList
      store .ipFreeDataNodeList iNode
      pure success

def insert (fuel : ℕ) (fields : List Field) (key : UInt64)
    (record : Record FieldValue) : SegmentCode FieldValue ℤ := do
  let iHashVal ← hash key
  let ipDataNodeList ← load (.ipDataNodeList iHashVal)
  let ipData ← search key fuel ipDataNodeList
  if 0 < ipData then pure eHashListNodeExist
  else
    let ipFreeNode ← getFreeNode
    if 0 < ipFreeNode then
      store (.keyVal ipFreeNode) key
      let ipDataNodeList ← load (.ipDataNodeList iHashVal)
      store (.ipNextDataNode ipFreeNode) ipDataNodeList
      copyIn ipFreeNode record fields
      store (.ipDataNodeList iHashVal) ipFreeNode
      let iDataNodeNum ← load (.iDataNodeNum iHashVal)
      store (.iDataNodeNum iHashVal) (iDataNodeNum + 1)
      pure success
    else pure ipFreeNode

def update (fuel : ℕ) (fields : List Field) (key : UInt64)
    (record : Record FieldValue) : SegmentCode FieldValue ℤ := do
  let iHashVal ← hash key
  let ipDataNodeList ← load (.ipDataNodeList iHashVal)
  let ipData ← search key fuel ipDataNodeList
  if 0 < ipData then
    copyIn ipData record fields
    pure success
  else pure eHashListNoNode

def remove (fuel : ℕ) (key : UInt64) : SegmentCode FieldValue ℤ := do
  let iHashVal ← hash key
  let ipDataNodeList ← load (.ipDataNodeList iHashVal)
  let (ipLastData, ipData) ← searchLast key fuel 0 ipDataNodeList
  if 0 < ipData then
    let ipNextDataNode ← load (.ipNextDataNode ipData)
    if ipLastData = 0 then
      store (.ipDataNodeList iHashVal) ipNextDataNode
    else
      store (.ipNextDataNode ipLastData) ipNextDataNode
    let iDataNodeNum ← load (.iDataNodeNum iHashVal)
    store (.iDataNodeNum iHashVal) (iDataNodeNum - 1)
    recycleNode ipData
  else pure eHashListNoNode

/-- `Get` that returns a pointer: the data node, or 0. -/
def get (fuel : ℕ) (key : UInt64) : SegmentCode FieldValue ℤ := do
  let iHashVal ← hash key
  let ipDataNodeList ← load (.ipDataNodeList iHashVal)
  let ipData ← search key fuel ipDataNodeList
  pure (if 0 < ipData then ipData else 0)

/-- `Get` into the caller's record. -/
def getData [DecidableEq Field] (fuel : ℕ) (fields : List Field)
    (key : UInt64) (record : Record FieldValue) :
    SegmentCode FieldValue (ℤ × Record FieldValue) := do
  let iHashVal ← hash key
  let ipDataNodeList ← load (.ipDataNodeList iHashVal)
  let ipData ← search key fuel ipDataNodeList
  if 0 < ipData then
    let copy ← copyOut ipData fields record
    pure (success, copy)
  else pure (eHashListNoNode, record)

/-- The loop of `ProcessAll`; the callback is given the key and the data node. -/
def processChain (callBackFunc : UInt64 → ℤ → α → SegmentCode FieldValue α) :
    ℕ → ℤ → α → SegmentCode FieldValue α
  | 0, _, _ => spin
  | fuel + 1, ipData, privateData =>
      if ipData = 0 then pure privateData
      else do
        let ipNextData ← load (.ipNextDataNode ipData)
        let keyVal ← load (.keyVal ipData)
        let privateData ← callBackFunc keyVal ipData privateData
        processChain callBackFunc fuel ipNextData privateData

def processAll (fuel : ℕ) (iIndex : ℤ)
    (callBackFunc : UInt64 → ℤ → α → SegmentCode FieldValue α)
    (privateData : α) : SegmentCode FieldValue α := do
  let iDataNodeNum ← load (.iDataNodeNum iIndex)
  if 0 < iDataNodeNum then
    let ipData ← load (.ipDataNodeList iIndex)
    processChain callBackFunc fuel ipData privateData
  else pure privateData

end CHashListNoLock

/-! ## The segment in the cells -/

theorem perform_perform
    (segment : Segment Data) (first second : List (Write Data)) :
    (segment.perform first).perform second =
      segment.perform (first ++ second) :=
  List.foldl_append.symm

section View

variable (decode : Record FieldValue → Data)

def view (memory : Cells FieldValue) : Segment Data where
  head :=
    { iSize := 0
      iTotalDataNodeNum := memory .iTotalDataNodeNum
      iUsedDataNodeNum := memory .iUsedDataNodeNum
      iIndexNodeNum := memory .iIndexNodeNum
      ipFreeDataNodeList := memory .ipFreeDataNodeList }
  iHashVal := fun iHashVal => iHashVal
  iDataNodeNum := fun iHashVal => memory (.iDataNodeNum iHashVal)
  ipDataNodeList := fun iHashVal => memory (.ipDataNodeList iHashVal)
  keyVal := fun ipData => memory (.keyVal ipData)
  ipNextDataNode := fun ipData => memory (.ipNextDataNode ipData)
  data := fun ipData => decode fun field => memory (.data ipData field)

variable [DecidableEq Field] (memory : Cells FieldValue)

@[simp] theorem view_usedDataNodeNum (value : ℤ) :
    view decode (Function.update memory .iUsedDataNodeNum value) =
      (view decode memory).perform [.usedDataNodeNum value] := by
  simp [view, Segment.perform, Write.apply]

@[simp] theorem view_freeDataNodeList (value : ℤ) :
    view decode (Function.update memory .ipFreeDataNodeList value) =
      (view decode memory).perform [.freeDataNodeList value] := by
  simp [view, Segment.perform, Write.apply]

@[simp] theorem view_keyVal (ipData : ℤ) (key : UInt64) :
    view decode (Function.update memory (.keyVal ipData) key) =
      (view decode memory).perform [.keyVal ipData key] := by
  have hupdate := Function.update_comp_eq_of_injective' memory
    (fun _ _ heq => Cell.keyVal.inj heq) ipData key
  simp [view, Segment.perform, Write.apply, hupdate]

@[simp] theorem view_nextDataNode (ipData value : ℤ) :
    view decode (Function.update memory (.ipNextDataNode ipData) value) =
      (view decode memory).perform [.nextDataNode ipData value] := by
  have hupdate := Function.update_comp_eq_of_injective' memory
    (fun _ _ heq => Cell.ipNextDataNode.inj heq) ipData value
  simp [view, Segment.perform, Write.apply, hupdate]

@[simp] theorem view_dataNodeList (iHashVal value : ℤ) :
    view decode (Function.update memory (.ipDataNodeList iHashVal) value) =
      (view decode memory).perform [.dataNodeList iHashVal value] := by
  have hupdate := Function.update_comp_eq_of_injective' memory
    (fun _ _ heq => Cell.ipDataNodeList.inj heq) iHashVal value
  simp [view, Segment.perform, Write.apply, hupdate]

@[simp] theorem view_dataNodeNum (iHashVal value : ℤ) :
    view decode (Function.update memory (.iDataNodeNum iHashVal) value) =
      (view decode memory).perform [.dataNodeNum iHashVal value] := by
  have hupdate := Function.update_comp_eq_of_injective' memory
    (fun _ _ heq => Cell.iDataNodeNum.inj heq) iHashVal value
  simp [view, Segment.perform, Write.apply, hupdate]

/-- The cells after a `memcpy` into a data node. -/
def filled (ipData : ℤ) (record : Record FieldValue) :
    List Field → Cells FieldValue → Cells FieldValue
  | [], memory => memory
  | field :: fields, memory =>
      filled ipData record fields
        (Function.update memory (.data ipData field) (record field))

theorem filled_of_ne
    {ipData : ℤ} {record : Record FieldValue} {fields : List Field}
    {cell : Cell Field} (hcell : ∀ field ∈ fields, cell ≠ .data ipData field) :
    filled ipData record fields memory cell = memory cell := by
  induction fields generalizing memory with
  | nil => rfl
  | cons field fields ih =>
      rw [filled, ih _ fun other hother =>
        hcell other (List.mem_cons_of_mem field hother)]
      exact Function.update_of_ne (hcell field List.mem_cons_self) _ _

theorem filled_data
    {ipData : ℤ} {record : Record FieldValue} {fields : List Field}
    {field : Field} (hfield : field ∈ fields) :
    filled ipData record fields memory (.data ipData field) =
      record field := by
  induction fields generalizing memory with
  | nil => cases hfield
  | cons first fields ih =>
      rw [filled]
      by_cases hlater : field ∈ fields
      · exact ih _ hlater
      · have hfirst : field = first :=
          (List.mem_cons.mp hfield).resolve_right hlater
        subst hfirst
        rw [filled_of_ne]
        · exact Function.update_self _ _ _
        · intro other hother heq
          simp only [Cell.data.injEq, true_and] at heq
          rw [heq] at hlater
          exact hlater hother

omit [DecidableEq Field] in
/-- Changes inside one data node. -/
theorem view_of_data
    {after : Cells FieldValue} (ipData : ℤ)
    (hsame : ∀ cell, (∀ field, cell ≠ .data ipData field) →
      after cell = memory cell) :
    view decode after = (view decode memory).perform
      [.nodeData ipData (decode fun field => after (.data ipData field))] := by
  have hdata : (fun node => decode fun field => after (.data node field)) =
      Function.update
        (fun node => decode fun field => memory (.data node field)) ipData
        (decode fun field => after (.data ipData field)) := by
    funext node
    by_cases hnode : node = ipData
    · subst hnode
      rw [Function.update_self]
    · rw [Function.update_of_ne hnode]
      congr 1
      funext field
      apply hsame
      intro other heq
      exact hnode (Cell.data.inj heq).1
  simp [view, Segment.perform, Write.apply, hdata, hsame]

theorem view_filled
    {fields : List Field} (hfields : ∀ field, field ∈ fields)
    (ipData : ℤ) (record : Record FieldValue) :
    view decode (filled ipData record fields memory) =
      (view decode memory).perform [.nodeData ipData (decode record)] := by
  have hrecord : (fun field =>
      filled ipData record fields memory (.data ipData field)) = record :=
    funext fun field => filled_data memory (hfields field)
  have hsame (cell : Cell Field) (hcell : ∀ field, cell ≠ .data ipData field) :
      filled ipData record fields memory cell = memory cell :=
    filled_of_ne memory fun field _ => hcell field
  rw [view_of_data decode memory ipData hsame, hrecord]

end View

/-! ## The operations alone -/

section Alone

open CHashListNoLock

variable [DecidableEq Field] (decode : Record FieldValue → Data)
  {memory : Cells FieldValue} {readings : List UInt64}

theorem run_copyIn (ipData : ℤ) (record : Record FieldValue)
    (fields : List Field) :
    run (copyIn ipData record fields) memory readings =
      some ((), filled ipData record fields memory, readings) := by
  induction fields generalizing memory with
  | nil => rfl
  | cons field fields ih =>
      rw [copyIn, store_bind, run_store]
      exact ih

theorem run_copyOut (ipData : ℤ) (record : Record FieldValue)
    (fields : List Field) :
    run (copyOut ipData fields record) memory readings =
      some (fun field => if field ∈ fields then memory (.data ipData field)
        else record field, memory, readings) := by
  induction fields generalizing record with
  | nil => simp [copyOut]
  | cons field fields ih =>
      rw [copyOut, load_bind, run_load, ih]
      congr 2
      funext other
      by_cases hother : other = field
      · subst hother
        simp
      · simp [hother]

theorem run_hash (key : UInt64) :
    run (hash key) memory readings =
      some ((view decode memory).hash key, memory, readings) := rfl

theorem run_search (key : UInt64) (fuel : ℕ) (ipData : ℤ) :
    run (search key fuel ipData) memory readings =
      ((view decode memory).find key fuel ipData).map
        fun ipData => (ipData, memory, readings) := by
  induction fuel generalizing ipData with
  | zero => rfl
  | succ fuel ih =>
      rw [search, Segment.find]
      by_cases hnull : ipData = 0
      · simp [hnull]
      · have hkey : (view decode memory).keyVal ipData =
            memory (.keyVal ipData) := rfl
        rw [if_neg hnull, load_bind, run_load, hkey]
        by_cases hmatch : memory (.keyVal ipData) = key
        · simp [hmatch]
        · rw [if_pos hmatch, if_pos ⟨hnull, hmatch⟩, load_bind, run_load]
          exact ih _

theorem run_searchLast (key : UInt64) (fuel : ℕ) (ipLastData ipData : ℤ) :
    run (searchLast key fuel ipLastData ipData) memory readings =
      ((view decode memory).findLast key fuel ipLastData ipData).map
        fun found => (found, memory, readings) := by
  induction fuel generalizing ipLastData ipData with
  | zero => rfl
  | succ fuel ih =>
      rw [searchLast, Segment.findLast]
      by_cases hnull : ipData = 0
      · simp [hnull]
      · have hkey : (view decode memory).keyVal ipData =
            memory (.keyVal ipData) := rfl
        rw [if_neg hnull, load_bind, run_load, hkey]
        by_cases hmatch : memory (.keyVal ipData) = key
        · simp [hmatch]
        · rw [if_pos hmatch, if_pos ⟨hnull, hmatch⟩, load_bind, run_load]
          exact ih _ _

/-- The search for a key with which `Insert`, `Update` and `Get` begin. -/
theorem run_findKey (fuel : ℕ) (key : UInt64)
    (later : ℤ → ℤ → SegmentCode FieldValue α) :
    run (do
        let iHashVal ← hash key
        let ipDataNodeList ← load (.ipDataNodeList iHashVal)
        let ipData ← search key fuel ipDataNodeList
        later iHashVal ipData) memory readings =
      ((view decode memory).findKey fuel key).bind fun ipData =>
        run (later ((view decode memory).hash key) ipData) memory readings := by
  rw [run_bind, run_hash decode]
  simp only [Option.bind_some, load_bind, run_load, run_bind,
    run_search decode, Option.bind_map]
  rfl

/-- What a run leaves, with its cells read as a segment. -/
def outcome (result : Option (α × Cells FieldValue × List UInt64)) :
    Option (α × Segment Data × List UInt64) :=
  result.map fun (value, memory, readings) =>
    (value, view decode memory, readings)

theorem run_getFreeNode_of_full
    (hfull : memory .iTotalDataNodeNum - memory .iUsedDataNodeNum ≤ 0 ∨
      memory .ipFreeDataNodeList ≤ 0) :
    run getFreeNode memory readings =
      some (eHashListNoSpace, memory, readings) := by
  simp only [getFreeNode, load_bind, run_load, if_pos hfull]
  rfl

theorem run_getFreeNode_of_room
    (hroom : ¬ (memory .iTotalDataNodeNum - memory .iUsedDataNodeNum ≤ 0 ∨
      memory .ipFreeDataNodeList ≤ 0)) :
    run getFreeNode memory readings =
      some (memory .ipFreeDataNodeList,
        Function.update
          (Function.update memory .iUsedDataNodeNum
            (memory .iUsedDataNodeNum + 1))
          .ipFreeDataNodeList
          (memory (.ipNextDataNode (memory .ipFreeDataNodeList))),
        readings) := by
  simp only [getFreeNode, load_bind, run_load, if_neg hroom, store_bind,
    run_store, Program.pure_eq, run_done]
  simp

theorem outcome_run_insert
    {fields : List Field} (hfields : ∀ field, field ∈ fields)
    (fuel : ℕ) (key : UInt64) (record : Record FieldValue) :
    outcome decode (run (insert fuel fields key record) memory readings) =
      ((view decode memory).call fuel (.insert key (decode record))).map
        fun (answer, segment) => (answer.iRetVal, segment, readings) := by
  unfold CHashListNoLock.insert
  rw [run_findKey decode]
  simp only [Segment.call, Segment.insert]
  set iHashVal := (view decode memory).hash key
  cases (view decode memory).findKey fuel key with
  | none => rfl
  | some ipData =>
      simp only [Option.map_some, Option.bind_some]
      by_cases hfound : 0 < ipData
      · simp [hfound, outcome, Segment.perform]
      · simp only [if_neg hfound, load_bind, run_bind]
        by_cases hfull : memory .iTotalDataNodeNum -
            memory .iUsedDataNodeNum ≤ 0 ∨ memory .ipFreeDataNodeList ≤ 0
        · have hfree : (view decode memory).getFreeNode =
              (eHashListNoSpace, []) := if_pos hfull
          simp [run_getFreeNode_of_full hfull, Segment.insertNew, hfree,
            eHashListNoSpace, outcome, Segment.perform]
        · have hfree : (view decode memory).getFreeNode = _ := if_neg hfull
          have hnode : 0 < memory .ipFreeDataNodeList :=
            not_le.mp (not_or.mp hfull).2
          rw [run_getFreeNode_of_room hfull, Segment.insertNew, hfree]
          have hnode' : 0 < (view decode memory).head.ipFreeDataNodeList :=
            hnode
          simp only [Option.bind_some, if_pos hnode, if_pos hnode',
            store_bind, run_store, run_load, run_bind, run_copyIn]
          simp only [Program.pure_eq, run_done, outcome, Option.map_some,
            view_dataNodeNum, view_dataNodeList, view_filled decode _ hfields,
            view_nextDataNode, view_keyVal, view_freeDataNodeList,
            view_usedDataNodeNum, perform_perform]
          simp [filled_of_ne]
          rfl

theorem outcome_run_update
    {fields : List Field} (hfields : ∀ field, field ∈ fields)
    (fuel : ℕ) (key : UInt64) (record : Record FieldValue) :
    outcome decode (run (CHashListNoLock.update fuel fields key record) memory
        readings) =
      ((view decode memory).call fuel (.update key (decode record))).map
        fun (answer, segment) => (answer.iRetVal, segment, readings) := by
  unfold CHashListNoLock.update
  rw [run_findKey decode]
  simp only [Segment.call, Segment.update]
  cases (view decode memory).findKey fuel key with
  | none => rfl
  | some ipData =>
      simp only [Option.map_some, Option.bind_some]
      by_cases hfound : 0 < ipData
      · simp [hfound, run_bind, run_copyIn, outcome,
          view_filled decode _ hfields]
      · simp [hfound, outcome, Segment.perform]

theorem outcome_run_recycleNode (iNode : ℤ) :
    outcome decode (run (recycleNode iNode) memory readings) =
      some (((view decode memory).recycleNode iNode).1,
        (view decode memory).perform ((view decode memory).recycleNode iNode).2,
        readings) := by
  have hseg : (view decode memory).recycleNode iNode =
      if iNode = 0 ∨ memory .iTotalDataNodeNum < iNode then (error, [])
      else (success,
        [.usedDataNodeNum (memory .iUsedDataNodeNum - 1),
          .nextDataNode iNode (memory .ipFreeDataNodeList),
          .freeDataNodeList iNode]) := rfl
  rw [hseg, recycleNode]
  by_cases hnull : iNode = 0
  · simp [hnull, outcome, Segment.perform]
  · by_cases hbound : memory .iTotalDataNodeNum < iNode
    · simp [hnull, hbound, outcome, Segment.perform]
    · simp [hnull, hbound, outcome, perform_perform]

/-- The rest of `Remove` once the node is unlinked, which leaves the head of
the segment alone. -/
theorem outcome_run_unlinked
    {write : Write Data} {unlinked : Cells FieldValue} {iHashVal : ℤ}
    (hview : view decode unlinked = (view decode memory).perform [write])
    (hhead : (view decode unlinked).head = (view decode memory).head)
    (hnum : unlinked (.iDataNodeNum iHashVal) =
      memory (.iDataNodeNum iHashVal)) (ipData : ℤ) :
    outcome decode (run (.call (.load (.iDataNodeNum iHashVal))
        fun iDataNodeNum => do
          store (.iDataNodeNum iHashVal) (iDataNodeNum - 1)
          recycleNode ipData) unlinked readings) =
      some (((view decode memory).recycleNode ipData).1,
        (view decode memory).perform (write ::
          .dataNodeNum iHashVal
            ((view decode memory).iDataNodeNum iHashVal - 1) ::
          ((view decode memory).recycleNode ipData).2),
        readings) := by
  rw [run_load, store_bind, run_store, outcome_run_recycleNode, hnum,
    view_dataNodeNum, hview, perform_perform]
  have hsame : ((view decode memory).perform ([write] ++
      [.dataNodeNum iHashVal (memory (.iDataNodeNum iHashVal) - 1)])).head =
      (view decode memory).head := by
    rw [← perform_perform, ← hview, ← hhead]
    rfl
  have hrecycle : ((view decode memory).perform ([write] ++
      [.dataNodeNum iHashVal
        (memory (.iDataNodeNum iHashVal) - 1)])).recycleNode ipData =
      (view decode memory).recycleNode ipData := by
    unfold Segment.recycleNode
    rw [hsame]
  rw [hrecycle, perform_perform]
  rfl

theorem outcome_run_remove (fuel : ℕ) (key : UInt64) :
    outcome decode (run (remove fuel key) memory readings) =
      ((view decode memory).call fuel (.remove key)).map
        fun (answer, segment) => (answer.iRetVal, segment, readings) := by
  unfold CHashListNoLock.remove Segment.call Segment.remove
  rw [run_bind, run_hash decode]
  simp only [Option.bind_some, load_bind, run_load, run_bind,
    run_searchLast decode]
  set iHashVal := (view decode memory).hash key
  have hlist : (view decode memory).ipDataNodeList iHashVal =
      memory (.ipDataNodeList iHashVal) := rfl
  rw [hlist]
  cases (view decode memory).findLast key fuel 0
      (memory (.ipDataNodeList iHashVal)) with
  | none => rfl
  | some found =>
      obtain ⟨ipLastData, ipData⟩ := found
      simp only [Option.map_some, Option.bind_some]
      by_cases hfound : 0 < ipData
      · simp only [if_pos hfound, run_load]
        by_cases hlast : ipLastData = 0
        · simp only [if_pos hlast, store_bind, run_store]
          apply outcome_run_unlinked
          · exact view_dataNodeList decode memory _ _
          · rfl
          · simp
        · simp only [if_neg hlast, store_bind, run_store]
          apply outcome_run_unlinked
          · exact view_nextDataNode decode memory _ _
          · rfl
          · simp
      · simp [hfound, outcome, Segment.perform]

theorem run_get (fuel : ℕ) (key : UInt64) :
    run (get fuel key) memory readings =
      ((view decode memory).findKey fuel key).map
        fun ipData => (if 0 < ipData then ipData else 0, memory, readings) := by
  unfold CHashListNoLock.get
  rw [run_findKey decode]
  cases (view decode memory).findKey fuel key with
  | none => rfl
  | some ipData => rfl

theorem run_getData
    {fields : List Field} (hfields : ∀ field, field ∈ fields)
    (fuel : ℕ) (key : UInt64) (record : Record FieldValue) :
    run (getData fuel fields key record) memory readings =
      ((view decode memory).findKey fuel key).map fun ipData =>
        (if 0 < ipData then
            (success, fun field => memory (.data ipData field))
          else (eHashListNoNode, record), memory, readings) := by
  unfold CHashListNoLock.getData
  rw [run_findKey decode]
  cases (view decode memory).findKey fuel key with
  | none => rfl
  | some ipData =>
      simp only [Option.map_some, Option.bind_some]
      by_cases hfound : 0 < ipData
      · simp [hfound, run_bind, run_copyOut, hfields]
      · simp [hfound]

end Alone

end MessageBus.HashList
