import MessageBus.MmapQueueModel

/-!
# When `CMmapQueue` is a FIFO list of byte strings

The buffer holds the blocks of the messages one after the other, wherever the
parts of a block are cut by its end.  Whether the buffer is empty or full when
head and tail meet is told by the number of messages.  A block gives back its
message exactly if the length of the message fits into the sixteen bits of its
head.
-/

namespace MessageBus.MmapQueue

open ByteRing
open ShmQueue

/-! ## Copies around the end of the buffer -/

/-- An index and the bytes left before the end, for a position of the ring.  A
copy that ends at the end of the buffer leaves index 0 and no bytes. -/
def PlacedAt (size position liIndex liLeft : ℕ) : Prop :=
  liIndex = position % size ∧
    (liLeft = size - liIndex ∨ liLeft = 0 ∧ liIndex = 0)

theorem placedAt_of_lt {size position : ℕ} (hlt : position < size) :
    PlacedAt size position position (size - position) :=
  ⟨(Nat.mod_eq_of_lt hlt).symm, Or.inl rfl⟩

section Split

variable {size position liIndex liLeft count : ℕ}

theorem splitCells_cells
    (hsize : 0 < size) (hplaced : PlacedAt size position liIndex liLeft)
    (hcount : count ≤ size) :
    (splitCells size liIndex liLeft count).1 =
      ringCells size position count := by
  obtain ⟨hindex, hleft⟩ := hplaced
  have hlt : liIndex < size := hindex ▸ Nat.mod_lt _ hsize
  rw [← ringCells_mod, ← hindex]
  unfold splitCells
  split_ifs with hfits
  · rcases hleft with rfl | ⟨rfl, rfl⟩
    · rw [ringCells_of_le (by omega)]
    · obtain rfl : count = 0 := by omega
      rfl
  · dsimp only
    rcases hleft with rfl | ⟨rfl, rfl⟩
    · have hcross : count = (size - liIndex) + (count - (size - liIndex)) := by
        omega
      conv_rhs => rw [hcross]
      rw [ringCells_cross (by omega) (by omega)]
    · rw [ringCells_of_le (by omega)]
      simp

theorem splitCells_placed
    (hsize : 0 < size) (hlt : size < 2 ^ 32)
    (hplaced : PlacedAt size position liIndex liLeft) (hcount : count ≤ size) :
    PlacedAt size (position + count) (splitCells size liIndex liLeft count).2.1
      (splitCells size liIndex liLeft count).2.2 := by
  obtain ⟨hindex, hleft⟩ := hplaced
  have hindexLt : liIndex < size := hindex ▸ Nat.mod_lt _ hsize
  have hnext : (position + count) % size = (liIndex + count) % size := by
    rw [hindex, Nat.mod_add_mod]
  unfold splitCells PlacedAt
  rw [hnext]
  split_ifs with hfits
  · refine ⟨rfl, ?_⟩
    dsimp only
    rw [sub32_of_le hfits (by omega)]
    by_cases hend : liIndex + count < size
    · rw [Nat.mod_eq_of_lt hend]
      omega
    · have hexact : liIndex + count = size ∨ count = 0 := by omega
      rcases hexact with hexact | rfl
      · rw [hexact, Nat.mod_self]
        omega
      · rw [Nat.add_zero, Nat.mod_eq_of_lt hindexLt]
        omega
  · dsimp only
    have hrest : (count - liLeft) % size = (liIndex + count) % size := by
      rcases hleft with rfl | ⟨rfl, rfl⟩
      · have hturn : liIndex + count =
            (count - (size - liIndex)) + size := by omega
        rw [hturn, Nat.add_mod_right]
      · simp
    have hrestLt : (count - liLeft) % size < size := Nat.mod_lt _ hsize
    refine ⟨hrest, Or.inl ?_⟩
    rw [sub32_of_le hrestLt.le hlt]

end Split

/-! ## Blocks in the ring -/

/-- The bytes of a block. -/
def block (iIndex : ℕ) (padding : UInt8 × UInt8) (message : List UInt8) :
    List UInt8 :=
  blockHead iIndex message.length padding ++ message ++ szTail

@[simp] theorem blockHead_length
    (iIndex iLen : ℕ) (padding : UInt8 × UInt8) :
    (blockHead iIndex iLen padding).length = 8 := rfl

@[simp] theorem szTail_length : szTail.length = 6 := rfl

@[simp] theorem block_length
    (iIndex : ℕ) (padding : UInt8 × UInt8) (message : List UInt8) :
    (block iIndex padding message).length = message.length + 14 := by
  simp only [block, List.length_append, blockHead_length, szTail_length]
  omega

theorem wordValue_index
    {iIndex iLen : ℕ} {padding : UInt8 × UInt8} (hindex : iIndex < 2 ^ 32) :
    wordValue ((blockHead iIndex iLen padding).take 4) = iIndex :=
  wordValue_wordBytes hindex

theorem wordValue_len (iIndex iLen : ℕ) (padding : UInt8 × UInt8) :
    wordValue (((blockHead iIndex iLen padding).drop 4).take 2) =
      iLen % 2 ^ 16 := by
  change wordValue [UInt8.ofNat (iLen % 2 ^ 16),
    UInt8.ofNat (iLen % 2 ^ 16 / 2 ^ 8)] = _
  simp only [wordValue, UInt8.toNat_ofNat']
  omega

/-- The bytes the blocks of some messages take. -/
def blockBytes (messages : List (List UInt8)) : ℕ :=
  (messages.map fun message => message.length + 14).sum

@[simp] theorem blockBytes_nil : blockBytes [] = 0 := rfl

@[simp] theorem blockBytes_cons
    (message : List UInt8) (messages : List (List UInt8)) :
    blockBytes (message :: messages) =
      (message.length + 14) + blockBytes messages := by
  simp [blockBytes]

@[simp] theorem blockBytes_append (before after : List (List UInt8)) :
    blockBytes (before ++ after) = blockBytes before + blockBytes after := by
  simp [blockBytes]

theorem length_mul_le (messages : List (List UInt8)) :
    14 * messages.length ≤ blockBytes messages := by
  induction messages with
  | nil => simp
  | cons message messages ih =>
      rw [blockBytes_cons, List.length_cons]
      omega

/-- The blocks of the messages lie in the ring from a position on; each names
its own index. -/
def Framed (size : ℕ) (mem : ℕ → UInt8) : ℕ → List (List UInt8) → Prop
  | _, [] => True
  | position, message :: messages =>
      (∃ padding, ringRead size mem position (message.length + 14) =
        block (position % size) padding message) ∧
      Framed size mem (position + (message.length + 14)) messages

section Framed

variable {size position : ℕ} {mem mem' : ℕ → UInt8}
  {messages : List (List UInt8)} {message : List UInt8}

theorem Framed.congr
    (hframed : Framed size mem position messages)
    (hagree : ∀ address ∈ ringCells size position (blockBytes messages),
      mem' address = mem address) :
    Framed size mem' position messages := by
  induction messages generalizing position with
  | nil => trivial
  | cons message messages ih =>
      rw [blockBytes_cons, ringCells_add] at hagree
      obtain ⟨⟨padding, hread⟩, hrest⟩ := hframed
      constructor
      · refine ⟨padding, ?_⟩
        rw [← hread]
        exact ringRead_congr fun address hmem =>
          hagree address (List.mem_append_left _ hmem)
      · exact ih hrest fun address hmem =>
          hagree address (List.mem_append_right _ hmem)

theorem Framed.append
    {padding : UInt8 × UInt8} (hframed : Framed size mem position messages)
    (hread : ringRead size mem (position + blockBytes messages)
        (message.length + 14) =
      block ((position + blockBytes messages) % size) padding message) :
    Framed size mem position (messages ++ [message]) := by
  induction messages generalizing position with
  | nil => exact ⟨⟨padding, by simpa using hread⟩, trivial⟩
  | cons first messages ih =>
      refine ⟨hframed.1, ih hframed.2 ?_⟩
      rwa [blockBytes_cons, ← Nat.add_assoc] at hread

theorem framed_mod (position : ℕ) :
    Framed size mem (position % size) messages ↔
      Framed size mem position messages := by
  induction messages generalizing position with
  | nil => exact Iff.rfl
  | cons message messages ih =>
      simp only [Framed, ringRead_mod, Nat.mod_mod]
      rw [← ih (position % size + (message.length + 14)), Nat.mod_add_mod, ih]

end Framed

/-- The queue holds the messages, oldest first, and nobody is inside. -/
structure CMmapQueue.Holds
    (queue : CMmapQueue) (messages : List (List UInt8)) : Prop where
  released : queue.semTaken = false
  size_eq : queue.iLen = queue.queueSize
  size_lt : queue.iLen < 2 ^ 31
  head_le : queue.iHead ≤ queue.iLen - 1
  used_le : blockBytes messages ≤ queue.iLen
  tail_eq : queue.iTail =
    (queue.iHead + blockBytes messages) % queue.iLen
  num_eq : queue.iNum = messages.length
  framed : Framed queue.iLen queue.mem queue.iHead messages

theorem init_holds {aiSize : ℕ} (hsize : aiSize < 2 ^ 31) :
    (CMmapQueue.init aiSize).Holds [] where
  released := rfl
  size_eq := rfl
  size_lt := hsize
  head_le := Nat.zero_le _
  used_le := Nat.zero_le _
  tail_eq := by simp [CMmapQueue.init]
  num_eq := rfl
  framed := trivial

namespace CMmapQueue.Holds

variable {queue : CMmapQueue} {messages : List (List UInt8)}
  {message : List UInt8}

theorem freeSpace_eq (hholds : queue.Holds messages) :
    queue.freeSpace = queue.iLen - blockBytes messages := by
  have hsize := hholds.size_lt
  have hhead := hholds.head_le
  have hused := hholds.used_le
  have htail := hholds.tail_eq
  have hcount := length_mul_le messages
  have hnum := hholds.num_eq
  have hempty : messages.length = 0 → blockBytes messages = 0 := by
    intro hlength
    rw [List.length_eq_zero_iff.mp hlength]
    rfl
  unfold CMmapQueue.freeSpace
  by_cases hzero : queue.iLen = 0
  · have hbytes : blockBytes messages = 0 := by omega
    rw [hzero, hbytes, Nat.mod_zero] at htail
    rw [if_pos (by omega),
      sub32_of_le (show queue.iHead ≤ queue.iTail by omega) (by omega),
      sub32_of_le (by omega) (by omega)]
    omega
  by_cases hwrap : queue.iHead + blockBytes messages < queue.iLen
  · rw [Nat.mod_eq_of_lt hwrap] at htail
    rw [if_pos (by omega),
      sub32_of_le (show queue.iHead ≤ queue.iTail by omega) (by omega),
      sub32_of_le (by omega) (by omega)]
    omega
  · rw [Nat.mod_eq_sub_mod (by omega), Nat.mod_eq_of_lt (by omega)] at htail
    rw [if_neg (by omega)]
    split_ifs with hbelow
    · rw [sub32_of_le (by omega) (by omega)]
      omega
    · omega

theorem tail_lt (hholds : queue.Holds messages) (hsize : 0 < queue.iLen) :
    queue.iTail < queue.iLen := by
  rw [hholds.tail_eq]
  exact Nat.mod_lt _ hsize

/-- The bytes that `InQueue` writes are the ring cells behind the tail. -/
theorem inCells_eq
    (hholds : queue.Holds messages) {iDataLen : ℕ}
    (hroom : iDataLen + 14 ≤ queue.iLen - blockBytes messages) :
    queue.inCells iDataLen =
      ringCells queue.iLen queue.iTail (8 + iDataLen + 6) := by
  have hsize := hholds.size_lt
  have htail := hholds.tail_lt (by omega)
  have hfree := hholds.freeSpace_eq
  have hhead := hholds.head_le
  unfold CMmapQueue.inCells
  rw [sub32_of_le htail.le (by omega)]
  by_cases hwhole : queue.iTail < queue.iHead ∨
      iDataLen + blockHeadSize + szTail.length ≤ queue.iLen - queue.iTail
  · rw [if_pos hwhole]
    simp only [blockHeadSize, szTail_length] at hwhole ⊢
    have hend : queue.iTail + (8 + iDataLen + 6) ≤ queue.iLen := by
      rcases hwhole with hbelow | hleft
      · unfold CMmapQueue.freeSpace at hfree
        rw [if_neg (by omega), if_pos hbelow,
          sub32_of_le hbelow.le (by omega)] at hfree
        omega
      · omega
    rw [ringCells_of_le hend, List.range'_append_1, Nat.add_assoc queue.iTail,
      List.range'_append_1]
  · rw [if_neg hwhole]
    simp only [blockHeadSize, szTail_length]
    have hplaced := placedAt_of_lt htail
    have hfirst := splitCells_placed (by omega) (by omega) hplaced
      (show 8 ≤ queue.iLen by omega)
    have hsecond := splitCells_placed (by omega) (by omega) hfirst
      (show iDataLen ≤ queue.iLen by omega)
    rw [splitCells_cells (by omega) hplaced (by omega),
      splitCells_cells (by omega) hfirst (by omega),
      splitCells_cells (by omega) hsecond (by omega), ← ringCells_add,
      Nat.add_assoc queue.iTail, ← ringCells_add]

theorem inQueue_of_no_room
    (hholds : queue.Holds messages) (padding : UInt8 × UInt8)
    (hroom : queue.iLen - blockBytes messages < message.length + 14) :
    queue.inQueue padding message = some (eMmapQueueFull, queue) := by
  unfold CMmapQueue.inQueue
  rw [hholds.released, if_neg (by simp), hholds.freeSpace_eq, if_pos]
  simpa only [blockHeadSize, szTail_length] using hroom

/-- A message that has room is appended, whatever its length. -/
theorem inQueue_of_room
    (hholds : queue.Holds messages) (padding : UInt8 × UInt8)
    (hroom : message.length + 14 ≤ queue.iLen - blockBytes messages) :
    ∃ next, queue.inQueue padding message = some (success, next) ∧
      next.Holds (messages ++ [message]) ∧ next.iLen = queue.iLen := by
  have hsize := hholds.size_lt
  have hused := hholds.used_le
  have htail := hholds.tail_lt (by omega)
  have hcount := length_mul_le messages
  have hnum := hholds.num_eq
  have hlength : (block queue.iTail padding message).length =
      8 + message.length + 6 := by
    rw [block_length]
    omega
  have hcells := hholds.inCells_eq hroom
  rw [← hlength] at hcells
  unfold CMmapQueue.inQueue
  rw [hholds.released, if_neg (by simp), hholds.freeSpace_eq, if_neg (by
    simp only [blockHeadSize, szTail_length]
    omega), u32_of_lt (by omega), u32_of_lt (by omega)]
  refine ⟨_, rfl, ?_, rfl⟩
  constructor
  · rfl
  · exact hholds.size_eq
  · exact hsize
  · exact hholds.head_le
  · simp only [blockBytes_append, blockBytes_cons, blockBytes_nil]
    omega
  · simp only [hholds.tail_eq, blockBytes_append, blockBytes_cons,
      blockBytes_nil, blockHeadSize, szTail_length, Nat.add_assoc,
      Nat.mod_add_mod]
  · simp [hnum]
  · change Framed queue.iLen (store queue.mem
      ((queue.inCells message.length).zip
        (block queue.iTail padding message))) queue.iHead _
    rw [hcells]
    have hread : ringRead queue.iLen
        (store queue.mem ((ringCells queue.iLen queue.iTail
          (block queue.iTail padding message).length).zip
            (block queue.iTail padding message))) queue.iTail
          (block queue.iTail padding message).length =
        block queue.iTail padding message :=
      ringRead_store queue.mem queue.iTail (by omega)
    apply Framed.append
    · apply hholds.framed.congr
      intro address hmem
      apply store_of_notMem
      rw [List.map_fst_zip (by simp), block_length, hholds.tail_eq,
        ringCells_mod]
      exact fun hwritten => ringCells_disjoint (by omega) hmem hwritten
    · rw [← hholds.tail_eq, ← ringRead_mod, ← hholds.tail_eq,
        ← block_length queue.iTail padding message]
      exact hread

theorem outQueue_of_nil
    (hholds : queue.Holds []) (pBuf : Bool) (iBufLen : ℤ) :
    queue.outQueue pBuf iBufLen =
      some (⟨eMmapQueueEmpty, iBufLen, []⟩, queue) := by
  have hnum : queue.iNum = 0 := hholds.num_eq
  have hmeet : queue.iHead = queue.iTail := by
    have htail := hholds.tail_eq
    have hhead := hholds.head_le
    rw [blockBytes_nil, Nat.add_zero] at htail
    by_cases hzero : queue.iLen = 0
    · rw [htail, hzero, Nat.mod_zero]
    · rw [htail, Nat.mod_eq_of_lt (by omega)]
  unfold CMmapQueue.outQueue
  rw [hholds.released, if_neg (by simp), if_neg (by simp [hnum, hmeet])]

/-- The bytes of the oldest message, in the three parts of its block. -/
theorem read_parts
    (hholds : queue.Holds (message :: messages)) :
    ∃ padding,
      ringRead queue.iLen queue.mem queue.iHead 8 =
          blockHead queue.iHead message.length padding ∧
        ringRead queue.iLen queue.mem (queue.iHead + 8) message.length =
          message ∧
        ringRead queue.iLen queue.mem (queue.iHead + 8 + message.length) 6 =
          szTail := by
  have hused := hholds.used_le
  rw [blockBytes_cons] at hused
  have hhead := hholds.head_le
  obtain ⟨⟨padding, hread⟩, -⟩ := hholds.framed
  rw [Nat.mod_eq_of_lt (by omega), block,
    show message.length + 14 = 8 + message.length + 6 by omega, ringRead_add,
    ringRead_add, ← Nat.add_assoc] at hread
  obtain ⟨hfirst, htail⟩ := List.append_inj hread (by simp)
  obtain ⟨hblock, hdata⟩ := List.append_inj hfirst (by simp)
  exact ⟨padding, hblock, hdata, htail⟩

theorem remove (hholds : queue.Holds (message :: messages)) :
    CMmapQueue.Holds
      { queue with
        iHead := (u32 (queue.iHead + message.length) + blockHeadSize +
          szTail.length) % queue.iLen
        iNum := sub32 queue.iNum 1 } messages := by
  have hsize := hholds.size_lt
  have hhead := hholds.head_le
  have hused := hholds.used_le
  have hcount := length_mul_le messages
  have hnum := hholds.num_eq
  rw [blockBytes_cons] at hused
  rw [List.length_cons] at hnum
  rw [u32_of_lt (by omega)]
  simp only [blockHeadSize, szTail_length, Nat.add_assoc]
  constructor
  · exact hholds.released
  · exact hholds.size_eq
  · exact hsize
  · exact Nat.le_sub_one_of_lt (Nat.mod_lt _ (by omega))
  · change blockBytes messages ≤ queue.iLen
    omega
  · simp only [hholds.tail_eq, blockBytes_cons, Nat.mod_add_mod]
    congr 1
    omega
  · change sub32 queue.iNum 1 = messages.length
    rw [sub32_of_le (by omega) (by omega)]
    omega
  · exact (framed_mod _).mpr hholds.framed.2

/-- `OutQueue` reports the sixteen bits of the length that the block keeps. -/
theorem outQueue_of_cons
    (hholds : queue.Holds (message :: messages)) {iBufLen : ℤ}
    (hbuffer : (message.length : ℤ) ≤ iBufLen) :
    ∃ ret pBuf next, queue.outQueue true iBufLen =
        some (⟨ret, (message.length % 2 ^ 16 : ℕ), pBuf⟩, next) ∧
      (message.length < 2 ^ 16 → ret = success ∧ pBuf = message ∧
        next.Holds messages ∧ next.iLen = queue.iLen) := by
  have hsize := hholds.size_lt
  have hhead := hholds.head_le
  have hused := hholds.used_le
  have hcount := length_mul_le (message :: messages)
  have hnum := hholds.num_eq
  rw [blockBytes_cons] at hused
  rw [List.length_cons] at hnum hcount
  obtain ⟨padding, hblock, hdata, htail⟩ := hholds.read_parts
  have hlt : queue.iHead < queue.iLen := by omega
  have hplaced := placedAt_of_lt hlt
  have hfirst := splitCells_placed (by omega) (by omega) hplaced
    (show 8 ≤ queue.iLen by omega)
  have hcells := splitCells_cells (by omega) hplaced
    (show 8 ≤ queue.iLen by omega)
  unfold CMmapQueue.outQueue
  rw [if_neg (by simp [hholds.released]), if_pos (by omega),
    sub32_of_le hlt.le (by omega)]
  simp only [blockHeadSize, hcells]
  rw [show (ringCells queue.iLen queue.iHead 8).map queue.mem = _ from hblock,
    wordValue_index (by omega), wordValue_len, if_neg (by
      simp only [ne_eq, not_true_eq_false, Bool.true_eq_false, or_false]
      omega)]
  refine ⟨_, _, _, rfl, ?_⟩
  intro hshort
  rw [Nat.mod_eq_of_lt hshort]
  have hindexLt : (splitCells queue.iLen queue.iHead
      (queue.iLen - queue.iHead) 8).2.1 < queue.iLen := by
    rw [hfirst.1]
    exact Nat.mod_lt _ (by omega)
  rw [sub32_of_le hindexLt.le (by omega)]
  -- The data is copied from where the head ends, and the marks from there.
  have hafterHead : PlacedAt queue.iLen (queue.iHead + 8) _ (queue.iLen - _) :=
    ⟨hfirst.1, Or.inl rfl⟩
  have hafterData := splitCells_placed (by omega) (by omega) hafterHead
    (show message.length ≤ queue.iLen by omega)
  refine ⟨if_neg (not_not.mpr ?_), ?_, hholds.remove, rfl⟩
  · rw [szTail_length, splitCells_cells (by omega) hafterData (by omega)]
    exact htail
  · rw [splitCells_cells (by omega) hafterHead (by omega)]
    exact hdata

theorem getNum_eq (hholds : queue.Holds messages) :
    queue.getNum = some (messages.length : ℤ) := by
  have hsize := hholds.size_lt
  have hused := hholds.used_le
  have hcount := length_mul_le messages
  unfold CMmapQueue.getNum
  rw [hholds.released, if_neg (by simp), hholds.num_eq, if_pos (by omega)]

end CMmapQueue.Holds

/-! ## Sequences of calls -/

/-- A call; what `InQueue` leaves in the padding of a block is arbitrary. -/
inductive MmapCall where
  | inQueue (padding : UInt8 × UInt8) (pData : List UInt8)
  | outQueue (pBuf : Bool) (iBufLen : ℤ)
  | getNum

inductive MmapAnswer where
  | inQueue (ret : ℤ)
  | outQueue (result : CMmapQueue.OutResult)
  | getNum (num : ℤ)
deriving DecidableEq

def CMmapQueue.call (queue : CMmapQueue) :
    MmapCall → Option (MmapAnswer × CMmapQueue)
  | .inQueue padding pData => do
      let (ret, next) ← queue.inQueue padding pData
      return (.inQueue ret, next)
  | .outQueue pBuf iBufLen => do
      let (result, next) ← queue.outQueue pBuf iBufLen
      return (.outQueue result, next)
  | .getNum => do
      let num ← queue.getNum
      return (.getNum num, queue)

/-- The answers of a run; `none` when one of its calls never returns. -/
def CMmapQueue.answers (queue : CMmapQueue) :
    List MmapCall → Option (List MmapAnswer)
  | [] => some []
  | call :: calls => do
      let (answer, next) ← queue.call call
      let answers ← next.answers calls
      return answer :: answers

/-! The specification: a list of messages and the room for their blocks. -/

namespace Fifo

def call (size : ℕ) (messages : List (List UInt8)) :
    MmapCall → MmapAnswer × List (List UInt8)
  | .inQueue _ pData =>
      if size - blockBytes messages < pData.length + 14 then
        (.inQueue eMmapQueueFull, messages)
      else (.inQueue success, messages ++ [pData])
  | .outQueue _ iBufLen =>
      match messages with
      | [] => (.outQueue ⟨eMmapQueueEmpty, iBufLen, []⟩, [])
      | message :: rest =>
          (.outQueue ⟨success, message.length, message⟩, rest)
  | .getNum => (.getNum messages.length, messages)

def answers (size : ℕ) (messages : List (List UInt8)) :
    List MmapCall → List MmapAnswer
  | [] => []
  | next :: calls =>
      (call size messages next).1 ::
        answers size (call size messages next).2 calls

/-- Every call of a run meets a condition on the messages it finds. -/
def Along (condition : List (List UInt8) → MmapCall → Prop) (size : ℕ) :
    List (List UInt8) → List MmapCall → Prop
  | _, [] => True
  | messages, next :: calls =>
      condition messages next ∧
        Along condition size (call size messages next).2 calls

end Fifo

/-- `OutQueue` is given a buffer that holds the oldest message. -/
def LargeEnough (messages : List (List UInt8)) : MmapCall → Prop
  | .outQueue pBuf iBufLen =>
      pBuf = true ∧ ∀ message ∈ messages.head?, (message.length : ℤ) ≤ iBufLen
  | _ => True

/-- `OutQueue` comes to a message whose length has at most sixteen bits. -/
def TakesShort (messages : List (List UInt8)) : MmapCall → Prop
  | .outQueue _ _ => ∀ message ∈ messages.head?, message.length < 2 ^ 16
  | _ => True

section Runs

variable {queue : CMmapQueue} {messages : List (List UInt8)}
  {call : MmapCall} {calls : List MmapCall}

theorem call_refines
    (hholds : queue.Holds messages) (hlarge : LargeEnough messages call)
    (hshort : TakesShort messages call) :
    ∃ next, queue.call call =
        some ((Fifo.call queue.iLen messages call).1, next) ∧
      next.Holds (Fifo.call queue.iLen messages call).2 ∧
      next.iLen = queue.iLen := by
  cases call with
  | inQueue padding pData =>
      by_cases hroom : queue.iLen - blockBytes messages < pData.length + 14
      · refine ⟨queue, ?_, ?_, rfl⟩
        · simp [CMmapQueue.call, Fifo.call, hroom,
            hholds.inQueue_of_no_room padding hroom]
        · simpa only [Fifo.call, if_pos hroom] using hholds
      · obtain ⟨next, hcall, hnext, hlen⟩ :=
          hholds.inQueue_of_room padding (not_lt.mp hroom)
        refine ⟨next, ?_, ?_, hlen⟩
        · simp [CMmapQueue.call, Fifo.call, hroom, hcall]
        · simpa only [Fifo.call, if_neg hroom] using hnext
  | outQueue pBuf iBufLen =>
      obtain ⟨rfl, hbuffer⟩ := hlarge
      cases messages with
      | nil =>
          refine ⟨queue, ?_, hholds, rfl⟩
          simp [CMmapQueue.call, Fifo.call, hholds.outQueue_of_nil]
      | cons message messages =>
          obtain ⟨ret, pBuf, next, hcall, hnext⟩ :=
            hholds.outQueue_of_cons (hbuffer message rfl)
          have hlength := hshort message rfl
          obtain ⟨rfl, rfl, hnext, hlen⟩ := hnext hlength
          rw [Nat.mod_eq_of_lt hlength] at hcall
          refine ⟨next, ?_, hnext, hlen⟩
          simp [CMmapQueue.call, Fifo.call, hcall]
  | getNum =>
      refine ⟨queue, ?_, hholds, rfl⟩
      simp [CMmapQueue.call, Fifo.call, hholds.getNum_eq]

/-- A message that is too long comes out with another length. -/
theorem call_differs
    (hholds : queue.Holds messages) (hlarge : LargeEnough messages call)
    (hlong : ¬ TakesShort messages call) :
    ∃ answer next, queue.call call = some (answer, next) ∧
      answer ≠ (Fifo.call queue.iLen messages call).1 := by
  cases call with
  | inQueue padding pData => exact absurd trivial hlong
  | getNum => exact absurd trivial hlong
  | outQueue pBuf iBufLen =>
      obtain ⟨rfl, hbuffer⟩ := hlarge
      cases messages with
      | nil => simp [TakesShort] at hlong
      | cons message messages =>
          obtain ⟨ret, pBuf, next, hcall, -⟩ :=
            hholds.outQueue_of_cons (hbuffer message rfl)
          have hlength : 2 ^ 16 ≤ message.length := by
            simpa [TakesShort] using hlong
          have hanswer : queue.call (.outQueue true iBufLen) =
              some (.outQueue ⟨ret, (message.length % 2 ^ 16 : ℕ), pBuf⟩,
                next) := by
            rw [CMmapQueue.call, hcall]
            rfl
          refine ⟨_, next, hanswer, ?_⟩
          intro hsame
          simp only [Fifo.call, MmapAnswer.outQueue.injEq,
            CMmapQueue.OutResult.mk.injEq, Nat.cast_inj] at hsame
          omega

theorem answers_cons_eq
    {answer first : MmapAnswer} {next : CMmapQueue} {later : List MmapAnswer}
    (hcall : queue.call call = some (answer, next)) :
    queue.answers (call :: calls) = some (first :: later) ↔
      answer = first ∧ next.answers calls = some later := by
  cases hlater : next.answers calls with
  | none => simp [CMmapQueue.answers, hcall, hlater]
  | some answers => simp [CMmapQueue.answers, hcall, hlater]

theorem answers_iff
    {size : ℕ} (hholds : queue.Holds messages) (hsize : queue.iLen = size)
    (hlarge : Fifo.Along LargeEnough size messages calls) :
    queue.answers calls = some (Fifo.answers size messages calls) ↔
      Fifo.Along TakesShort size messages calls := by
  induction calls generalizing queue messages with
  | nil => exact ⟨fun _ => trivial, fun _ => rfl⟩
  | cons call calls ih =>
      by_cases hshort : TakesShort messages call
      · obtain ⟨next, hcall, hnext, hlen⟩ :=
          call_refines hholds hlarge.1 hshort
        rw [hsize] at hcall hnext
        rw [Fifo.answers, answers_cons_eq hcall,
          ih hnext (hlen.trans hsize) hlarge.2]
        simp only [Fifo.Along, hshort, true_and]
      · obtain ⟨answer, next, hcall, hdiffers⟩ :=
          call_differs hholds hlarge.1 hshort
        rw [hsize] at hdiffers
        rw [Fifo.answers, answers_cons_eq hcall]
        simp only [Fifo.Along, hshort, hdiffers, false_and]

end Runs

/-- From `Init` on, with buffers that hold the oldest message, a run is answered
as the FIFO list answers it if and only if no `OutQueue` of it comes to a message
of 65536 bytes or more. -/
theorem mmap_queue_refines_fifo_iff
    (aiSize : ℕ) (hsize : aiSize < 2 ^ 31) (calls : List MmapCall)
    (hlarge : Fifo.Along LargeEnough aiSize [] calls) :
    (CMmapQueue.init aiSize).answers calls =
        some (Fifo.answers aiSize [] calls) ↔
      Fifo.Along TakesShort aiSize [] calls :=
  answers_iff (init_holds hsize) rfl hlarge

/-- On a queue of 36 bytes the third block is cut by the end of the buffer. -/
theorem mmap_queue_refines_fifo_iff_wrapped :
    (CMmapQueue.init 36).answers
      [.inQueue (0, 0) [1, 2], .inQueue (0, 0) [3], .inQueue (0, 0) [],
        .outQueue true 2, .inQueue (0, 0) [4], .getNum, .outQueue true 9,
        .outQueue true 9, .outQueue true 9] =
      some [.inQueue success, .inQueue success, .inQueue eMmapQueueFull,
        .outQueue ⟨success, 2, [1, 2]⟩, .inQueue success, .getNum 2,
        .outQueue ⟨success, 1, [3]⟩, .outQueue ⟨success, 1, [4]⟩,
        .outQueue ⟨eMmapQueueEmpty, 9, []⟩] :=
  ((mmap_queue_refines_fifo_iff 36 (by decide)
    [.inQueue (0, 0) [1, 2], .inQueue (0, 0) [3], .inQueue (0, 0) [],
      .outQueue true 2, .inQueue (0, 0) [4], .getNum, .outQueue true 9,
      .outQueue true 9, .outQueue true 9]
    (by simp [Fifo.Along, Fifo.call, LargeEnough])).mpr
      (by simp [Fifo.Along, Fifo.call, TakesShort])).trans (by decide)

/-- A message of 65536 bytes is accepted and does not come out. -/
theorem long_message_lost :
    Fifo.Along LargeEnough 70000 []
        [.inQueue (0, 0) (List.replicate 65536 7), .outQueue true 65536] ∧
      (CMmapQueue.init 70000).answers
          [.inQueue (0, 0) (List.replicate 65536 7), .outQueue true 65536] ≠
        some (Fifo.answers 70000 []
          [.inQueue (0, 0) (List.replicate 65536 7), .outQueue true 65536]) := by
  have hlength : (List.replicate 65536 (7 : UInt8)).length = 65536 :=
    List.length_replicate
  generalize List.replicate 65536 (7 : UInt8) = message at hlength ⊢
  have hqueued :
      (Fifo.call 70000 [] (.inQueue (0, 0) message)).2 = [message] := by
    simp [Fifo.call, hlength]
  have hlarge : Fifo.Along LargeEnough 70000 []
      [.inQueue (0, 0) message, .outQueue true 65536] := by
    rw [Fifo.Along, hqueued]
    simp [Fifo.Along, LargeEnough, hlength]
  refine ⟨hlarge, ?_⟩
  intro hanswers
  have hshort : Fifo.Along TakesShort 70000 [] _ :=
    (answers_iff (init_holds (by norm_num)) rfl hlarge).mp hanswers
  rw [Fifo.Along, hqueued] at hshort
  simp [Fifo.Along, TakesShort, hlength] at hshort

end MessageBus.MmapQueue
