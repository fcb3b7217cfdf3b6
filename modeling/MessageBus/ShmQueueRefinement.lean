import MessageBus.ShmQueueModel

/-!
# `CShmQueue` is a FIFO list of byte strings

The ring holds the messages one after the other, each framed by its length
word.  The byte sequences of `CopyDataInQueue` and `CopyDataOutQueue` are first
shown to be the consecutive ring cells of a frame, whichever of their branches
is taken; from then on no proof looks at the wrap-around again.
-/

namespace MessageBus.ShmQueue

open ByteRing

/-! ## The copied cells are the cells of the ring -/

theorem lenCells_eq
    {size offset : ℕ} (hoffset : offset < size) (hsize : size < 2 ^ 32)
    (hword : 4 ≤ size) :
    lenCells size offset = ringCells size offset 4 := by
  unfold lenCells
  rw [sub32_of_le hoffset.le hsize]
  by_cases hend : 4 ≤ size - offset
  · simp only [hend, if_true]
    rw [ringCells_of_le (by omega)]
  · simp only [hend, if_false]
    have hsplit : 4 = (size - offset) + (4 - (size - offset)) := by omega
    rw [hsplit, ringCells_cross (by omega) (by omega)]
    simp

/-- The cells after the length word, in the three ways in which they can lie
relative to the end of the ring. -/
theorem ringCells_afterWord
    {size offset len : ℕ} (hoffset : offset < size) (hlen : len + 4 ≤ size) :
    ringCells size (offset + 4) len =
      if offset + 4 + len ≤ size then List.range' (offset + 4) len
      else if offset + 4 < size then
        List.range' (offset + 4) (size - offset - 4) ++
          List.range' 0 (len - (size - offset - 4))
      else List.range' (4 - (size - offset)) len := by
  split_ifs with hfit hbefore
  · exact ringCells_of_le hfit
  · have hsplit :
        len = (size - offset - 4) + (len - (size - offset - 4)) := by omega
    conv_lhs => rw [hsplit]
    exact ringCells_cross (by omega) (by omega)
  · have hpast : offset + 4 = size + (4 - (size - offset)) := by omega
    rw [hpast]
    exact ringCells_past (by omega)

theorem dataCells_eq
    {size offset len : ℕ} (hoffset : offset < size) (hsize : size < 2 ^ 32)
    (hlen : len + 4 ≤ size) :
    dataCells size offset len = ringCells size (offset + 4) len := by
  rw [ringCells_afterWord hoffset hlen]
  unfold dataCells
  rw [sub32_of_le hoffset.le hsize]
  dsimp only
  by_cases hword : 4 ≤ size - offset
  · rw [if_pos hword]
    by_cases hend : size - offset - 4 = 0
    · -- the word ends exactly at the end of the ring
      have hstart : 4 - (size - offset) = 0 := by omega
      have hafter : ¬ offset + 4 < size := by omega
      by_cases hempty : len = 0
      · simp [hempty, hend]
      · have hfit : ¬ offset + 4 + len ≤ size := by omega
        simp [hend, hempty, hafter, hfit, hstart]
    · have hbefore : offset + 4 < size := by omega
      have hpositive : 0 < size - offset - 4 := by omega
      simp only [hend, if_false, hbefore, hpositive, if_true]
      by_cases hfit : len ≤ size - offset - 4
      · rw [if_pos hfit, if_pos (by omega)]
      · rw [if_neg hfit, if_neg (by omega)]
  · rw [if_neg hword, if_neg (by omega), if_neg (by omega)]

theorem messageCells_eq
    {size offset len : ℕ} (hoffset : offset < size) (hlen : len + 4 ≤ size) :
    CShmQueue.messageCells size offset len =
      ringCells size (offset + 4) len := by
  rw [ringCells_afterWord hoffset hlen]
  rfl

/-- A message as it lies in the ring. -/
def frame (message : List UInt8) : List UInt8 :=
  wordBytes message.length ++ message

@[simp] theorem frame_length (message : List UInt8) :
    (frame message).length = message.length + 4 := by
  simp [frame, Nat.add_comm]

theorem copyDataInQueue_eq
    {size offset : ℕ} {pData : List UInt8}
    (hoffset : offset < size) (hsize : size < 2 ^ 32)
    (hlen : pData.length + 4 ≤ size) :
    copyDataInQueue size pData offset =
      (ringCells size offset (pData.length + 4)).zip (frame pData) := by
  rw [Nat.add_comm pData.length 4, ringCells_add, frame, List.zip_append (by simp),
    ringCells_afterWord hoffset hlen]
  unfold copyDataInQueue
  rw [sub32_of_le hoffset.le hsize]
  dsimp only
  by_cases hword : 4 ≤ size - offset
  · rw [if_pos hword, ringCells_of_le (show offset + 4 ≤ size by omega)]
    congr 1
    by_cases hfit : pData.length ≤ size - offset - 4
    · rw [if_pos hfit, if_pos (by omega)]
      rfl
    · have hcross : ¬ offset + 4 + pData.length ≤ size := by omega
      rw [if_neg hfit, if_neg hcross]
      by_cases hbefore : 0 < size - offset - 4
      · rw [if_pos hbefore, if_pos (by omega)]
        conv_rhs => rw [← List.take_append_drop (size - offset - 4) pData]
        rw [List.zip_append (by simp; omega)]
        unfold memcpy
        rw [List.length_take_of_le (by omega), List.length_drop]
        simp
      · rw [if_neg hbefore, if_neg (by omega)]
        have hstart : 4 - (size - offset) = 0 := by omega
        rw [hstart]
        rfl
  · rw [if_neg hword, if_neg (by omega), if_neg (by omega)]
    have hsplit : 4 = (size - offset) + (4 - (size - offset)) := by omega
    have hcross : ringCells size offset 4 =
        List.range' offset (size - offset) ++
          List.range' 0 (4 - (size - offset)) := by
      conv_lhs => rw [hsplit]
      exact ringCells_cross (by omega) (by omega)
    rw [hcross]
    congr 1
    conv_rhs =>
      rw [← List.take_append_drop (size - offset) (wordBytes pData.length)]
    rw [List.zip_append (by simp; omega)]
    unfold memcpy
    rw [List.length_take_of_le (by simp; omega), List.length_drop]
    simp

/-! ## Offsets -/

theorem wrapped_tail {size head used : ℕ} (hhead : head < size)
    (hused : used < size) (hwrap : size ≤ head + used) :
    (head + used) % size = head + used - size := by
  rw [Nat.mod_eq_sub_mod hwrap, Nat.mod_eq_of_lt (by omega)]

theorem usedSpace_eq
    {size head used : ℕ} (hhead : head < size) (hsize : size < 2 ^ 32)
    (hused : used < size) :
    usedSpace size head ((head + used) % size) = used := by
  unfold usedSpace
  by_cases hwrap : head + used < size
  · rw [Nat.mod_eq_of_lt hwrap, if_pos (by omega),
      sub32_of_le (by omega) (by omega)]
    omega
  · rw [wrapped_tail hhead hused (not_lt.mp hwrap), if_neg (by omega),
      sub32_of_le (show head + used - size ≤ head by omega) (by omega),
      sub32_of_le (by omega) hsize]
    omega

theorem freeSpace_eq
    {size head used : ℕ} (hhead : head < size) (hsize : size < 2 ^ 32)
    (hused : used < size) :
    freeSpace size head ((head + used) % size) = size - 1 - used := by
  unfold freeSpace
  by_cases hwrap : head + used < size
  · rw [Nat.mod_eq_of_lt hwrap, if_pos (by omega),
      sub32_of_le (show head ≤ head + used by omega) (by omega),
      sub32_of_le (by omega) hsize, sub32_of_le (by omega) (by omega)]
    omega
  · rw [wrapped_tail hhead hused (not_lt.mp hwrap), if_neg (by omega),
      sub32_of_le (show head + used - size ≤ head by omega) (by omega),
      sub32_of_le (by omega) (by omega)]
    omega

theorem addOffset_eq
    {size offset step : ℕ} (hoffset : offset < size) (hsize : size < 2 ^ 31)
    (hstep : step ≤ size) :
    addOffset size offset step = (offset + step) % size := by
  unfold addOffset
  rw [u32_of_lt (by omega)]

/-! ## The abstract queue -/

/-- The bytes a list of messages takes in the ring. -/
def usedBytes (messages : List (List UInt8)) : ℕ :=
  (messages.map fun message => message.length + 4).sum

@[simp] theorem usedBytes_nil : usedBytes [] = 0 := rfl

@[simp] theorem usedBytes_cons
    (message : List UInt8) (messages : List (List UInt8)) :
    usedBytes (message :: messages) =
      (message.length + 4) + usedBytes messages := by
  simp [usedBytes]

@[simp] theorem usedBytes_append
    (before after : List (List UInt8)) :
    usedBytes (before ++ after) = usedBytes before + usedBytes after := by
  simp [usedBytes]

/-- The ring holds exactly the given messages, oldest first. -/
structure CShmQueue.Holds
    (queue : CShmQueue) (messages : List (List UInt8)) : Prop where
  size_lt : queue.queueDataSize < 2 ^ 31
  head_lt : queue.uiHead < queue.queueDataSize
  used_lt : usedBytes messages < queue.queueDataSize
  tail_eq : queue.uiTail =
    (queue.uiHead + usedBytes messages) % queue.queueDataSize
  bytes_eq :
    ringRead queue.queueDataSize queue.queueData queue.uiHead
      (usedBytes messages) = messages.flatMap frame

namespace CShmQueue.Holds

variable {queue : CShmQueue} {messages : List (List UInt8)}
  {message : List UInt8}

theorem tail_lt (hholds : queue.Holds messages) :
    queue.uiTail < queue.queueDataSize := by
  rw [hholds.tail_eq]
  exact Nat.mod_lt _ (by have := hholds.head_lt; omega)

theorem usedSpace_eq (hholds : queue.Holds messages) :
    usedSpace queue.queueDataSize queue.uiHead queue.uiTail =
      usedBytes messages := by
  rw [hholds.tail_eq]
  exact ShmQueue.usedSpace_eq hholds.head_lt
    (by have := hholds.size_lt; omega) hholds.used_lt

theorem freeSpace_eq (hholds : queue.Holds messages) :
    freeSpace queue.queueDataSize queue.uiHead queue.uiTail =
      queue.queueDataSize - 1 - usedBytes messages := by
  rw [hholds.tail_eq]
  exact ShmQueue.freeSpace_eq hholds.head_lt
    (by have := hholds.size_lt; omega) hholds.used_lt

/-- The bytes of the oldest message and of the rest. -/
theorem bytes_cons (hholds : queue.Holds (message :: messages)) :
    ringRead queue.queueDataSize queue.queueData queue.uiHead 4 =
        wordBytes message.length ∧
      ringRead queue.queueDataSize queue.queueData (queue.uiHead + 4)
          message.length = message ∧
      ringRead queue.queueDataSize queue.queueData
          (queue.uiHead + (message.length + 4)) (usedBytes messages) =
        messages.flatMap frame := by
  have hbytes := hholds.bytes_eq
  rw [usedBytes_cons, ringRead_add, List.flatMap_cons] at hbytes
  obtain ⟨hframe, hrest⟩ := List.append_inj hbytes (by simp)
  rw [Nat.add_comm message.length 4, ringRead_add, frame] at hframe
  obtain ⟨hword, hdata⟩ := List.append_inj hframe (by simp)
  exact ⟨hword, hdata, hrest⟩

theorem message_fits (hholds : queue.Holds (message :: messages)) :
    message.length + 4 < queue.queueDataSize := by
  have hused := hholds.used_lt
  rw [usedBytes_cons] at hused
  omega

theorem dataLen_eq (hholds : queue.Holds (message :: messages)) :
    queue.dataLen queue.uiHead = message.length := by
  have hfits := hholds.message_fits
  have hsize := hholds.size_lt
  unfold CShmQueue.dataLen
  rw [lenCells_eq hholds.head_lt (by omega) (by omega)]
  change wordValue (ringRead _ _ _ 4) = _
  rw [hholds.bytes_cons.1, wordValue_wordBytes (by omega)]

theorem addHead (hholds : queue.Holds (message :: messages)) :
    (queue.addHead (u32 (message.length + 4))).Holds messages := by
  have hfits := hholds.message_fits
  have hsize := hholds.size_lt
  have hused := hholds.used_lt
  have hstep : u32 (message.length + 4) = message.length + 4 :=
    u32_of_lt (by omega)
  have hoffset :=
    addOffset_eq hholds.head_lt hsize (show message.length + 4 ≤ _ by omega)
  rw [usedBytes_cons] at hused
  unfold CShmQueue.addHead
  rw [hstep, hoffset]
  refine ⟨hsize, Nat.mod_lt _ (by omega), by simpa using by omega, ?_, ?_⟩
  · simp only [hholds.tail_eq, usedBytes_cons, Nat.mod_add_mod]
    congr 1
    omega
  · simp only [ringRead_mod]
    exact hholds.bytes_cons.2.2

theorem store
    (hholds : queue.Holds messages) {writes : List (ℕ × UInt8)}
    (hfree : ∀ address ∈ writes.map Prod.fst,
      address ∉ ringCells queue.queueDataSize queue.uiHead
        (usedBytes messages)) :
    CShmQueue.Holds
      { queue with queueData := ByteRing.store queue.queueData writes }
      messages where
  size_lt := hholds.size_lt
  head_lt := hholds.head_lt
  used_lt := hholds.used_lt
  tail_eq := hholds.tail_eq
  bytes_eq := by
    rw [← hholds.bytes_eq]
    apply ringRead_congr
    intro address hmem
    apply store_of_notMem
    intro hwritten
    exact hfree address hwritten hmem

/-- The cells behind the tail are free as far as the ring has room. -/
theorem free_cells
    (hholds : queue.Holds messages) {count : ℕ}
    (hroom : usedBytes messages + count ≤ queue.queueDataSize) :
    ∀ address ∈ ringCells queue.queueDataSize queue.uiTail count,
      address ∉ ringCells queue.queueDataSize queue.uiHead
        (usedBytes messages) := by
  intro address hfree hused
  rw [hholds.tail_eq, ringCells_mod] at hfree
  exact ringCells_disjoint hroom hused hfree

/-- Moving the tail past a frame written behind it appends the message. -/
theorem addTail
    (hholds : queue.Holds messages)
    (hroom : usedBytes messages + (message.length + 4) < queue.queueDataSize)
    (hframe : ringRead queue.queueDataSize queue.queueData queue.uiTail
      (message.length + 4) = frame message) :
    (queue.addTail (u32 (message.length + 4))).Holds
      (messages ++ [message]) := by
  have hlt := hholds.size_lt
  have hstep : u32 (message.length + 4) = message.length + 4 :=
    u32_of_lt (by omega)
  have hoffset :=
    addOffset_eq hholds.tail_lt hlt (show message.length + 4 ≤ _ by omega)
  unfold CShmQueue.addTail
  rw [hstep, hoffset]
  refine ⟨hlt, hholds.head_lt, by simpa using hroom, ?_, ?_⟩
  · simp [hholds.tail_eq, Nat.add_assoc]
  · simp only [usedBytes_append, usedBytes_cons, usedBytes_nil, Nat.add_zero,
      List.flatMap_append, List.flatMap_cons, List.flatMap_nil,
      List.append_nil]
    rw [ringRead_add, hholds.bytes_eq]
    rw [hholds.tail_eq, ringRead_mod] at hframe
    rw [hframe]

theorem clean (hholds : queue.Holds messages) : queue.clean.Holds [] where
  size_lt := hholds.size_lt
  head_lt := by
    have hhead := hholds.head_lt
    simp only [CShmQueue.clean]
    omega
  used_lt := by
    have hhead := hholds.head_lt
    simp only [CShmQueue.clean, usedBytes_nil]
    omega
  tail_eq := by simp [CShmQueue.clean]
  bytes_eq := by simp [ringRead]

/-- Each message takes at least its length word. -/
theorem length_lt (hholds : queue.Holds messages) :
    messages.length < queue.queueDataSize := by
  have hlength : ∀ list : List (List UInt8), list.length ≤ usedBytes list := by
    intro list
    induction list with
    | nil => simp
    | cons message list ih =>
        rw [usedBytes_cons, List.length_cons]
        omega
  have hused := hholds.used_lt
  have hle := hlength messages
  omega

end CShmQueue.Holds

/-! ## What each operation does -/

section Operations

variable {queue : CShmQueue} {messages : List (List UInt8)}

theorem inQueue_of_room
    (hholds : queue.Holds messages) {pData : List UInt8}
    (hdata : 0 < pData.length)
    (hroom : pData.length + 4 ≤
      queue.queueDataSize - 1 - usedBytes messages) :
    (queue.inQueue pData).1 = success ∧
      (queue.inQueue pData).2.Holds (messages ++ [pData]) ∧
      (queue.inQueue pData).2.queueDataSize = queue.queueDataSize := by
  have hsize := hholds.size_lt
  have hused := hholds.used_lt
  have hnode : u32 (pData.length + 4) = pData.length + 4 :=
    u32_of_lt (by omega)
  have hfree :
      ¬ freeSpace queue.queueDataSize queue.uiHead queue.uiTail <
        u32 (pData.length + 4) := by
    rw [hholds.freeSpace_eq, hnode]
    omega
  unfold CShmQueue.inQueue
  rw [if_neg (by omega), if_neg hfree]
  refine ⟨rfl, ?_, rfl⟩
  rw [copyDataInQueue_eq hholds.tail_lt (by omega) (by omega)]
  have hcells : ∀ address ∈
      ((ringCells queue.queueDataSize queue.uiTail (pData.length + 4)).zip
        (frame pData)).map Prod.fst,
      address ∉ ringCells queue.queueDataSize queue.uiHead
        (usedBytes messages) := by
    rw [List.map_fst_zip (by simp)]
    exact hholds.free_cells (by omega)
  apply (hholds.store hcells).addTail
  · change usedBytes messages + (pData.length + 4) < queue.queueDataSize
    omega
  · have hread := ringRead_store queue.queueData queue.uiTail
      (show (frame pData).length ≤ queue.queueDataSize by
        rw [frame_length]
        omega)
    simpa using hread

theorem inQueue_of_no_room
    (hholds : queue.Holds messages) {pData : List UInt8}
    (hlen : pData.length + 4 < 2 ^ 32) (hdata : 0 < pData.length)
    (hroom : queue.queueDataSize - 1 - usedBytes messages <
      pData.length + 4) :
    queue.inQueue pData = (eShmQueueFull, queue) := by
  unfold CShmQueue.inQueue
  rw [if_neg (by omega), if_pos]
  rw [hholds.freeSpace_eq, u32_of_lt hlen]
  exact hroom

theorem inQueue_of_empty (queue : CShmQueue) {pData : List UInt8}
    (hdata : pData.length = 0) :
    queue.inQueue pData = (eShmQueueInQueueLen, queue) := by
  unfold CShmQueue.inQueue
  rw [if_pos hdata]

theorem inQueue_success_iff
    (hholds : queue.Holds messages) {pData : List UInt8}
    (hlen : pData.length + 4 < 2 ^ 32) :
    (queue.inQueue pData).1 = success ↔
      0 < pData.length ∧
        pData.length + 4 ≤ queue.queueDataSize - 1 - usedBytes messages := by
  by_cases hdata : pData.length = 0
  · rw [inQueue_of_empty queue hdata]
    simp [hdata, eShmQueueInQueueLen, success]
  · by_cases hroom : pData.length + 4 ≤
        queue.queueDataSize - 1 - usedBytes messages
    · have hsuccess := (inQueue_of_room hholds (by omega) hroom).1
      simp only [hsuccess, hroom, true_iff, and_true]
      omega
    · rw [inQueue_of_no_room hholds hlen (by omega) (by omega)]
      simp [hroom, eShmQueueFull, success]

theorem inQueue_of_failure
    (hholds : queue.Holds messages) {pData : List UInt8}
    (hlen : pData.length + 4 < 2 ^ 32)
    (hfail : (queue.inQueue pData).1 ≠ success) :
    (queue.inQueue pData).2 = queue := by
  rw [ne_eq, inQueue_success_iff hholds hlen, not_and] at hfail
  by_cases hdata : pData.length = 0
  · rw [inQueue_of_empty queue hdata]
  · have hroom := hfail (by omega)
    rw [inQueue_of_no_room hholds hlen (by omega) (by omega)]

theorem outQueue_of_nil (hholds : queue.Holds []) (uiDataLen : ℕ) :
    queue.outQueue uiDataLen = (⟨eShmQueueEmpty, uiDataLen, []⟩, queue) := by
  unfold CShmQueue.outQueue
  rw [if_pos]
  rw [hholds.usedSpace_eq]
  decide

theorem copyDataOutQueue_eq
    {message : List UInt8} (hholds : queue.Holds (message :: messages))
    (uiDataLen : ℕ) :
    queue.copyDataOutQueue uiDataLen queue.uiHead =
      if uiDataLen < message.length then
        ⟨eShmQueueDataLen, message.length, []⟩
      else ⟨success, message.length, message⟩ := by
  have hfits := hholds.message_fits
  have hsize := hholds.size_lt
  unfold CShmQueue.copyDataOutQueue
  rw [hholds.dataLen_eq]
  dsimp only
  rw [dataCells_eq hholds.head_lt (by omega) hfits.le]
  change (if uiDataLen < message.length then _ else
    CShmQueue.OutResult.mk success message.length (ringRead _ _ _ _)) = _
  rw [hholds.bytes_cons.2.1]

theorem outQueue_of_cons
    {message : List UInt8} (hholds : queue.Holds (message :: messages))
    (uiDataLen : ℕ) :
    queue.outQueue uiDataLen =
      (if uiDataLen < message.length then
        ⟨eShmQueueDataLen, message.length, []⟩
      else ⟨success, message.length, message⟩,
        queue.addHead (u32 (message.length + 4))) := by
  unfold CShmQueue.outQueue
  rw [hholds.usedSpace_eq, usedBytes_cons, if_neg (by omega),
    copyDataOutQueue_eq hholds]
  dsimp only
  split_ifs <;> rfl

theorem allQueueData_eq
    {offset fuel : ℕ}
    (hholds : CShmQueue.Holds { queue with uiHead := offset } messages)
    (hfuel : messages.length < fuel) :
    queue.allQueueData fuel offset = some messages := by
  induction messages generalizing offset fuel with
  | nil =>
      obtain ⟨fuel, rfl⟩ := Nat.exists_eq_succ_of_ne_zero (by omega : fuel ≠ 0)
      have hused := hholds.usedSpace_eq
      simp only [usedBytes_nil] at hused
      simp [CShmQueue.allQueueData, hused]
  | cons message messages ih =>
      obtain ⟨fuel, rfl⟩ := Nat.exists_eq_succ_of_ne_zero (by omega : fuel ≠ 0)
      have hused := hholds.usedSpace_eq
      have hlen := hholds.dataLen_eq
      have hfits := hholds.message_fits
      have hdata := hholds.bytes_cons.2.1
      simp only [usedBytes_cons] at hused
      have hcells : CShmQueue.messageCells queue.queueDataSize offset
          message.length =
            ringCells queue.queueDataSize (offset + 4) message.length :=
        messageCells_eq hholds.head_lt hfits.le
      have hnext := ih hholds.addHead
        (show messages.length < fuel by
          rw [List.length_cons] at hfuel
          omega)
      simp only [CShmQueue.allQueueData]
      rw [hused, if_neg (by omega)]
      change queue.dataLen offset = _ at hlen
      change (ringCells queue.queueDataSize (offset + 4)
        message.length).map queue.queueData = _ at hdata
      rw [hlen, hcells, hdata, hnext]
      rfl

theorem getAllQueueData_eq (hholds : queue.Holds messages) :
    queue.getAllQueueData = some messages :=
  allQueueData_eq hholds hholds.length_lt

end Operations

/-! ## Sequences of calls -/

/-- A call of one of the public operations. -/
inductive QueueCall where
  | inQueue (pData : List UInt8)
  | outQueue (uiDataLen : ℕ)
  | outQueueInt (iDataLen : ℤ)
  | clean

/-- What a call leaves with its caller. -/
inductive QueueAnswer where
  | inQueue (ret : ℤ)
  | outQueue (result : CShmQueue.OutResult)
  | outQueueInt (iDataLen ret : ℤ) (pData : List UInt8)
  | clean
deriving DecidableEq

/-- The arguments the declared types allow, with a non-empty buffer. -/
def QueueCall.Admissible : QueueCall → Prop
  | .inQueue pData => pData.length + 4 < 2 ^ 32
  | .outQueue uiDataLen => 0 < uiDataLen ∧ uiDataLen < 2 ^ 32
  | .outQueueInt iDataLen => 0 < iDataLen ∧ iDataLen < 2 ^ 31
  | .clean => True

instance : DecidablePred QueueCall.Admissible
  | .inQueue pData => inferInstanceAs (Decidable (pData.length + 4 < 2 ^ 32))
  | .outQueue uiDataLen =>
      inferInstanceAs (Decidable (0 < uiDataLen ∧ uiDataLen < 2 ^ 32))
  | .outQueueInt iDataLen =>
      inferInstanceAs (Decidable (0 < iDataLen ∧ iDataLen < 2 ^ 31))
  | .clean => inferInstanceAs (Decidable True)

def CShmQueue.call (queue : CShmQueue) : QueueCall → QueueAnswer × CShmQueue
  | .inQueue pData =>
      let (ret, next) := queue.inQueue pData
      (.inQueue ret, next)
  | .outQueue uiDataLen =>
      let (result, next) := queue.outQueue uiDataLen
      (.outQueue result, next)
  | .outQueueInt iDataLen =>
      let ((newLen, ret, pData), next) := queue.outQueueInt iDataLen
      (.outQueueInt newLen ret pData, next)
  | .clean => (.clean, queue.clean)

def CShmQueue.run (queue : CShmQueue) :
    List QueueCall → List QueueAnswer × CShmQueue
  | [] => ([], queue)
  | call :: calls =>
      let (answer, next) := queue.call call
      let (answers, last) := next.run calls
      (answer :: answers, last)

/-! The specification: a list of messages and the room left in the ring. -/

namespace Fifo

def inQueue
    (size : ℕ) (messages : List (List UInt8)) (pData : List UInt8) :
    ℤ × List (List UInt8) :=
  if pData.length = 0 then (eShmQueueInQueueLen, messages)
  else if size - 1 - usedBytes messages < pData.length + 4 then
    (eShmQueueFull, messages)
  else (success, messages ++ [pData])

/-- The oldest message leaves the list also when the buffer is too small for
it. -/
def outQueue (uiDataLen : ℕ) :
    List (List UInt8) → CShmQueue.OutResult × List (List UInt8)
  | [] => (⟨eShmQueueEmpty, uiDataLen, []⟩, [])
  | message :: messages =>
      if uiDataLen < message.length then
        (⟨eShmQueueDataLen, message.length, []⟩, messages)
      else (⟨success, message.length, message⟩, messages)

def call (size : ℕ) (messages : List (List UInt8)) :
    QueueCall → QueueAnswer × List (List UInt8)
  | .inQueue pData =>
      let (ret, next) := inQueue size messages pData
      (.inQueue ret, next)
  | .outQueue uiDataLen =>
      let (result, next) := outQueue uiDataLen messages
      (.outQueue result, next)
  | .outQueueInt iDataLen =>
      let (result, next) := outQueue iDataLen.toNat messages
      if result.ret = success then
        (.outQueueInt result.uiDataLen success result.pData, next)
      else (.outQueueInt iDataLen result.ret result.pData, next)
  | .clean => (.clean, [])

def run (size : ℕ) (messages : List (List UInt8)) :
    List QueueCall → List QueueAnswer × List (List UInt8)
  | [] => ([], messages)
  | next :: calls =>
      let (answer, messages) := call size messages next
      let (answers, last) := run size messages calls
      (answer :: answers, last)

end Fifo

theorem inQueue_refines
    {queue : CShmQueue} {messages : List (List UInt8)}
    (hholds : queue.Holds messages) {pData : List UInt8}
    (hlen : pData.length + 4 < 2 ^ 32) :
    (queue.inQueue pData).1 =
        (Fifo.inQueue queue.queueDataSize messages pData).1 ∧
      (queue.inQueue pData).2.Holds
        (Fifo.inQueue queue.queueDataSize messages pData).2 ∧
      (queue.inQueue pData).2.queueDataSize = queue.queueDataSize := by
  unfold Fifo.inQueue
  by_cases hdata : pData.length = 0
  · rw [if_pos hdata, inQueue_of_empty queue hdata]
    exact ⟨rfl, hholds, rfl⟩
  · rw [if_neg hdata]
    by_cases hroom :
        queue.queueDataSize - 1 - usedBytes messages < pData.length + 4
    · rw [if_pos hroom,
        inQueue_of_no_room hholds hlen (by omega) hroom]
      exact ⟨rfl, hholds, rfl⟩
    · rw [if_neg hroom]
      exact inQueue_of_room hholds (by omega) (by omega)

theorem outQueue_refines
    {queue : CShmQueue} {messages : List (List UInt8)}
    (hholds : queue.Holds messages) (uiDataLen : ℕ) :
    (queue.outQueue uiDataLen).1 = (Fifo.outQueue uiDataLen messages).1 ∧
      (queue.outQueue uiDataLen).2.Holds
        (Fifo.outQueue uiDataLen messages).2 ∧
      (queue.outQueue uiDataLen).2.queueDataSize = queue.queueDataSize := by
  cases messages with
  | nil =>
      rw [outQueue_of_nil hholds]
      exact ⟨rfl, hholds, rfl⟩
  | cons message messages =>
      rw [outQueue_of_cons hholds]
      by_cases hsmall : uiDataLen < message.length
      · simp only [Fifo.outQueue, if_pos hsmall]
        exact ⟨trivial, hholds.addHead, rfl⟩
      · simp only [Fifo.outQueue, if_neg hsmall]
        exact ⟨trivial, hholds.addHead, rfl⟩

/-- One call answers as the list does and keeps the two in step. -/
theorem call_refines
    {queue : CShmQueue} {messages : List (List UInt8)}
    (hholds : queue.Holds messages) {call : QueueCall}
    (hcall : call.Admissible) :
    (queue.call call).1 = (Fifo.call queue.queueDataSize messages call).1 ∧
      (queue.call call).2.Holds
        (Fifo.call queue.queueDataSize messages call).2 ∧
      (queue.call call).2.queueDataSize = queue.queueDataSize := by
  cases call with
  | inQueue pData =>
      obtain ⟨hret, hnext, hsize⟩ := inQueue_refines hholds hcall
      exact ⟨congrArg QueueAnswer.inQueue hret, hnext, hsize⟩
  | outQueue uiDataLen =>
      obtain ⟨hresult, hnext, hsize⟩ := outQueue_refines hholds uiDataLen
      exact ⟨congrArg QueueAnswer.outQueue hresult, hnext, hsize⟩
  | outQueueInt iDataLen =>
      obtain ⟨hresult, hnext, hsize⟩ :=
        outQueue_refines hholds iDataLen.toNat
      simp only [CShmQueue.call, CShmQueue.outQueueInt, if_pos hcall.1,
        Fifo.call, hresult]
      by_cases hret : (Fifo.outQueue iDataLen.toNat messages).1.ret = success
      · have hzero : ¬ (Fifo.outQueue iDataLen.toNat messages).1.ret ≠ 0 :=
          not_not.mpr hret
        rw [if_neg hzero, if_pos hret]
        exact ⟨rfl, hnext, hsize⟩
      · rw [if_pos (show _ ≠ (0 : ℤ) from hret), if_neg hret]
        exact ⟨rfl, hnext, hsize⟩
  | clean => exact ⟨rfl, hholds.clean, rfl⟩

theorem run_refines
    {queue : CShmQueue} {messages : List (List UInt8)}
    (hholds : queue.Holds messages) {calls : List QueueCall}
    (hcalls : ∀ call ∈ calls, call.Admissible) :
    (queue.run calls).1 = (Fifo.run queue.queueDataSize messages calls).1 ∧
      (queue.run calls).2.Holds
        (Fifo.run queue.queueDataSize messages calls).2 ∧
      (queue.run calls).2.queueDataSize = queue.queueDataSize := by
  induction calls generalizing queue messages with
  | nil => exact ⟨rfl, hholds, rfl⟩
  | cons call calls ih =>
      obtain ⟨hanswer, hnext, hsize⟩ :=
        call_refines hholds (hcalls call (by simp))
      obtain ⟨hanswers, hlast, hlastSize⟩ :=
        ih hnext fun later hlater => hcalls later (by simp [hlater])
      rw [hsize] at hanswers hlast hlastSize
      refine ⟨?_, hlast, hlastSize⟩
      simp only [CShmQueue.run, Fifo.run, hanswer, hanswers]

theorem holds_of_empty
    {queue : CShmQueue}
    (hsize : queue.queueDataSize < 2 ^ 31)
    (hhead : queue.uiHead < queue.queueDataSize)
    (hempty : queue.uiTail = queue.uiHead) : queue.Holds [] where
  size_lt := hsize
  head_lt := hhead
  used_lt := by
    rw [usedBytes_nil]
    omega
  tail_eq := by rw [usedBytes_nil, Nat.add_zero, Nat.mod_eq_of_lt hhead, hempty]
  bytes_eq := by simp [ringRead]

/-- Every sequence of calls on an empty ring is answered as the FIFO list
answers it, and the ring then reads back as that list.  The last two parts say
for the state reached when `InQueue` succeeds, that it changes nothing when it
fails, and when `OutQueue` reports an empty queue. -/
theorem cShmQueue_refines_fifo
    (queue : CShmQueue)
    (hsize : queue.queueDataSize < 2 ^ 31)
    (hhead : queue.uiHead < queue.queueDataSize)
    (hempty : queue.uiTail = queue.uiHead)
    (calls : List QueueCall) (hcalls : ∀ call ∈ calls, call.Admissible) :
    let reached := (queue.run calls).2
    let messages := (Fifo.run queue.queueDataSize [] calls).2
    (queue.run calls).1 = (Fifo.run queue.queueDataSize [] calls).1 ∧
      reached.getAllQueueData = some messages ∧
      (∀ pData : List UInt8, pData.length + 4 < 2 ^ 32 →
        ((reached.inQueue pData).1 = success ↔
          0 < pData.length ∧
            pData.length + 4 ≤
              queue.queueDataSize - 1 - usedBytes messages) ∧
        ((reached.inQueue pData).1 ≠ success →
          (reached.inQueue pData).2 = reached)) ∧
      (∀ uiDataLen : ℕ,
        (reached.outQueue uiDataLen).1.ret = eShmQueueEmpty ↔
          messages = []) := by
  have hstart := holds_of_empty hsize hhead hempty
  obtain ⟨hanswers, hholds, hreached⟩ := run_refines hstart hcalls
  refine ⟨hanswers, getAllQueueData_eq hholds, ?_, ?_⟩
  · intro pData hlen
    have hiff := inQueue_success_iff hholds hlen
    rw [hreached] at hiff
    exact ⟨hiff, inQueue_of_failure hholds hlen⟩
  · intro uiDataLen
    rw [(outQueue_refines hholds uiDataLen).1]
    cases (Fifo.run queue.queueDataSize [] calls).2 with
    | nil => simp [Fifo.outQueue]
    | cons message messages =>
        simp only [Fifo.outQueue, reduceCtorEq, iff_false]
        split_ifs <;> simp [eShmQueueDataLen, eShmQueueEmpty, success]

/-- On the smallest ring the one-byte message that starts at offset three
wraps inside its length word. -/
theorem cShmQueue_refines_fifo_six :
    ((CShmQueue.mk 6 3 3 fun _ => 0).run
      [.inQueue [7], .inQueue [8], .outQueueInt 4, .outQueue 4]).1 =
      [.inQueue success, .inQueue eShmQueueFull,
        .outQueueInt 1 success [7], .outQueue ⟨eShmQueueEmpty, 4, []⟩] :=
  (cShmQueue_refines_fifo (CShmQueue.mk 6 3 3 fun _ => 0) (by decide)
    (by decide) rfl
    [.inQueue [7], .inQueue [8], .outQueueInt 4, .outQueue 4]
    (by decide)).1.trans (by decide)

end MessageBus.ShmQueue
