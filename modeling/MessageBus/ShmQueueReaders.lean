import MessageBus.ShmQueueRefinement
import MessageBus.Transition

/-!
# What enters a `CShmQueue` and the ways of reading it

`InQueue` compares a 32-bit sum with the free space and copies the length that
is not reduced.  `GetNum`, `GetAllQueueData`, `OutQueue`, `MsgPeek` and
`ReleaseMsg` go round the end of the ring each in its own way; on a ring that
holds messages they all see the same list.
-/

namespace MessageBus.ShmQueue

open ByteRing

/-! ## What `InQueue` admits -/

/-- The message and its length word fit into the free space. -/
def Fits (queue : CShmQueue) (pData : List UInt8) : Prop :=
  0 < pData.length ∧
    pData.length + 4 ≤
      freeSpace queue.queueDataSize queue.uiHead queue.uiTail

/-- `InQueue` succeeds only on a message that fits; any other is refused and
nothing is touched. -/
structure AdmitsFitting (queue : CShmQueue) (pData : List UInt8) : Prop where
  fits : (queue.inQueue pData).1 = success → Fits queue pData
  refused : ¬ Fits queue pData →
    (queue.inQueue pData).1 ≠ success ∧ (queue.inQueue pData).2 = queue

theorem freeSpace_lt (size head tail : ℕ) :
    freeSpace size head tail < 2 ^ 32 := by
  unfold freeSpace
  split_ifs
  · exact Nat.mod_lt _ (by decide)
  · exact Nat.mod_lt _ (by decide)

theorem inQueue_of_lt_free
    {queue : CShmQueue} {pData : List UInt8} (hdata : 0 < pData.length)
    (hfull : freeSpace queue.queueDataSize queue.uiHead queue.uiTail <
      u32 (pData.length + 4)) :
    queue.inQueue pData = (eShmQueueFull, queue) := by
  unfold CShmQueue.inQueue
  rw [if_neg (by omega), if_pos hfull]

theorem inQueue_success_of_free
    {queue : CShmQueue} {pData : List UInt8} (hdata : 0 < pData.length)
    (hfree : u32 (pData.length + 4) ≤
      freeSpace queue.queueDataSize queue.uiHead queue.uiTail) :
    (queue.inQueue pData).1 = success := by
  unfold CShmQueue.inQueue
  rw [if_neg (by omega), if_neg (by omega)]

/-- The sum of `InQueue` wraps for the four greatest lengths: such a message is
admitted as soon as the free space is at least what is left of the sum. -/
theorem inQueue_admits_fitting_iff
    (queue : CShmQueue) (pData : List UInt8) (hlen : pData.length < 2 ^ 32) :
    AdmitsFitting queue pData ↔
      pData.length + 4 < 2 ^ 32 ∨
        freeSpace queue.queueDataSize queue.uiHead queue.uiTail <
          pData.length + 4 - 2 ^ 32 := by
  have hfree := freeSpace_lt queue.queueDataSize queue.uiHead queue.uiTail
  constructor
  · intro hadmits
    by_contra hcontra
    obtain ⟨hwrap, hroom⟩ := not_or.mp hcontra
    have hnode : u32 (pData.length + 4) = pData.length + 4 - 2 ^ 32 := by
      unfold u32
      omega
    have hsuccess : (queue.inQueue pData).1 = success := by
      apply inQueue_success_of_free (by omega)
      rw [hnode]
      omega
    have hfits := (hadmits.fits hsuccess).2
    omega
  · intro hcondition
    have hrefused : ¬ Fits queue pData →
        (queue.inQueue pData).1 ≠ success ∧
          (queue.inQueue pData).2 = queue := by
      intro hfits
      by_cases hdata : pData.length = 0
      · rw [inQueue_of_empty queue hdata]
        exact ⟨by simp [eShmQueueInQueueLen, success], rfl⟩
      · have hfull : freeSpace queue.queueDataSize queue.uiHead queue.uiTail <
            u32 (pData.length + 4) := by
          unfold Fits at hfits
          unfold u32
          omega
        rw [inQueue_of_lt_free (by omega) hfull]
        exact ⟨by simp [eShmQueueFull, success], rfl⟩
    constructor
    · intro hsuccess
      by_contra hfits
      exact (hrefused hfits).1 hsuccess
    · exact hrefused

theorem inQueue_admits_fitting_iff_seven :
    AdmitsFitting (CShmQueue.mk 12 0 0 fun _ => 0) (List.replicate 7 0) :=
  (inQueue_admits_fitting_iff (CShmQueue.mk 12 0 0 fun _ => 0)
    (List.replicate 7 0) (by decide)).mpr (Or.inl (by decide))

theorem not_admitsFitting_of_wrapped
    {pData : List UInt8} (hlen : pData.length = 2 ^ 32 - 1) :
    pData.length < 2 ^ 32 ∧
      ((CShmQueue.mk 16 0 0 fun _ => 0).inQueue pData).1 = success ∧
      ¬ AdmitsFitting (CShmQueue.mk 16 0 0 fun _ => 0) pData := by
  have hsuccess :
      ((CShmQueue.mk 16 0 0 fun _ => 0).inQueue pData).1 = success := by
    apply inQueue_success_of_free
    · rw [hlen]
      decide
    · rw [hlen]
      decide
  refine ⟨by omega, hsuccess, ?_⟩
  intro hadmits
  have hfits := (hadmits.fits hsuccess).2
  have hfree := freeSpace_lt 16 0 0
  rw [hlen] at hfits
  change 2 ^ 32 - 1 + 4 ≤ freeSpace 16 0 0 at hfits
  omega

/-- Four gigabytes enter a ring with fifteen bytes free. -/
theorem longest_message_admitted :
    freeSpace 16 0 0 = 15 ∧
      ∃ pData : List UInt8, pData.length < 2 ^ 32 ∧
        ((CShmQueue.mk 16 0 0 fun _ => 0).inQueue pData).1 = success ∧
        ¬ AdmitsFitting (CShmQueue.mk 16 0 0 fun _ => 0) pData :=
  ⟨by decide, List.replicate (2 ^ 32 - 1) 0,
    not_admitsFitting_of_wrapped List.length_replicate⟩

/-! ## The other readers -/

def eShmQueueMalloc : ℤ := -610

namespace CShmQueue

/-- The loop of `GetNum`; `none` when it has not ended within `fuel`
iterations. -/
def countQueueData (queue : CShmQueue) : ℕ → ℕ → Option ℕ
  | 0, _ => none
  | fuel + 1, offsetHead =>
      if usedSpace queue.queueDataSize offsetHead queue.uiTail < 4 then some 0
      else
        let next := addOffset queue.queueDataSize offsetHead
          (u32 (queue.dataLen offsetHead + 4))
        (queue.countQueueData fuel next).map (· + 1)

def getNum (queue : CShmQueue) : Option ℕ :=
  queue.countQueueData queue.queueDataSize queue.uiHead

/-- `MsgPeek`: the return value and the `*piDataLen` bytes at `*ppDate`.
`malloc` says which requests for memory are met. -/
def msgPeek (queue : CShmQueue) (malloc : ℕ → Bool) :
    (ℤ × List UInt8) × CShmQueue :=
  let read (cells : List ℕ) : List UInt8 := cells.map queue.queueData
  if usedSpace queue.queueDataSize queue.uiHead queue.uiTail < 4 then
    ((eShmQueueEmpty, []), queue)
  else
    let endUsed := sub32 queue.queueDataSize queue.uiHead
    let len := queue.dataLen queue.uiHead
    if 4 ≤ endUsed then
      let endUsed := endUsed - 4
      if endUsed = 0 then ((success, read (List.range' 0 len)), queue)
      else if endUsed < len then
        -- the message lies at both ends of the ring
        if malloc len then
          ((success, read (List.range' (queue.uiHead + 4) endUsed ++
            List.range' 0 (len - endUsed))), queue)
        else ((eShmQueueMalloc, []), queue)
      else ((success, read (List.range' (queue.uiHead + 4) len)), queue)
    else ((success, read (List.range' (4 - endUsed) len)), queue)

def releaseMsg (queue : CShmQueue) : CShmQueue :=
  if usedSpace queue.queueDataSize queue.uiHead queue.uiTail < 4 then queue
  else queue.addHead (u32 (queue.dataLen queue.uiHead + 4))

/-- `OutQueue` with one buffer, until the queue is empty. -/
def drain (uiDataLen : ℕ) : ℕ → CShmQueue → Option (List (List UInt8))
  | 0, _ => none
  | fuel + 1, queue =>
      let (result, next) := queue.outQueue uiDataLen
      if result.ret = eShmQueueEmpty then some []
      else (drain uiDataLen fuel next).map (result.pData :: ·)

end CShmQueue

section Readers

variable {queue : CShmQueue} {messages : List (List UInt8)}

theorem countQueueData_eq_map (fuel offset : ℕ) :
    queue.countQueueData fuel offset =
      (queue.allQueueData fuel offset).map List.length := by
  induction fuel generalizing offset with
  | zero => rfl
  | succ fuel ih =>
      simp only [CShmQueue.countQueueData, CShmQueue.allQueueData, ih]
      split_ifs
      · rfl
      · rw [Option.map_map, Option.map_map]
        rfl

theorem getNum_eq (hholds : queue.Holds messages) :
    queue.getNum = some messages.length := by
  have hall := getAllQueueData_eq hholds
  unfold CShmQueue.getAllQueueData at hall
  rw [CShmQueue.getNum, countQueueData_eq_map, hall, Option.map_some]

theorem drain_eq
    (hholds : queue.Holds messages) {uiDataLen fuel : ℕ}
    (hbuffer : ∀ message ∈ messages, message.length ≤ uiDataLen)
    (hfuel : messages.length < fuel) :
    CShmQueue.drain uiDataLen fuel queue = some messages := by
  induction messages generalizing queue fuel with
  | nil =>
      obtain ⟨fuel, rfl⟩ := Nat.exists_eq_succ_of_ne_zero (by omega : fuel ≠ 0)
      simp only [CShmQueue.drain, outQueue_of_nil hholds, if_true]
  | cons message messages ih =>
      obtain ⟨fuel, rfl⟩ := Nat.exists_eq_succ_of_ne_zero (by omega : fuel ≠ 0)
      have hfits := hbuffer message List.mem_cons_self
      have hless : messages.length < fuel := by
        rw [List.length_cons] at hfuel
        omega
      have hnext := ih hholds.addHead
        (fun later hlater => hbuffer later (List.mem_cons_of_mem _ hlater))
        hless
      have hret : ¬ success = eShmQueueEmpty := by
        simp [success, eShmQueueEmpty]
      simp only [CShmQueue.drain, outQueue_of_cons hholds,
        if_neg (not_lt.mpr hfits), if_neg hret, hnext, Option.map_some]

theorem msgPeek_of_nil (hholds : queue.Holds []) (malloc : ℕ → Bool) :
    queue.msgPeek malloc = ((eShmQueueEmpty, []), queue) := by
  unfold CShmQueue.msgPeek
  rw [hholds.usedSpace_eq, if_pos (by decide)]

/-- The branches of `MsgPeek` are those of `CopyDataOutQueue`. -/
theorem msgPeek_of_cons
    {message : List UInt8} (hholds : queue.Holds (message :: messages))
    {malloc : ℕ → Bool} (hmalloc : malloc message.length = true) :
    queue.msgPeek malloc = ((success, message), queue) := by
  have hfits := hholds.message_fits
  have hsize := hholds.size_lt
  have hcells := dataCells_eq hholds.head_lt (by omega) hfits.le
  have hdata := hholds.bytes_cons.2.1
  change (ringCells queue.queueDataSize (queue.uiHead + 4)
    message.length).map queue.queueData = _ at hdata
  rw [← hcells] at hdata
  unfold dataCells at hdata
  unfold CShmQueue.msgPeek
  rw [hholds.usedSpace_eq, usedBytes_cons, if_neg (by omega),
    hholds.dataLen_eq]
  dsimp only at hdata ⊢
  split_ifs at hdata ⊢ <;>
    first
      | rw [hdata]
      | omega

theorem msgPeek_unchanged (queue : CShmQueue) (malloc : ℕ → Bool) :
    (queue.msgPeek malloc).2 = queue := by
  unfold CShmQueue.msgPeek
  dsimp only
  split_ifs <;> rfl

theorem releaseMsg_eq (hholds : queue.Holds messages) (uiDataLen : ℕ) :
    queue.releaseMsg = (queue.outQueue uiDataLen).2 := by
  unfold CShmQueue.releaseMsg
  cases messages with
  | nil =>
      rw [outQueue_of_nil hholds, hholds.usedSpace_eq, if_pos (by decide)]
  | cons message messages =>
      rw [outQueue_of_cons hholds, hholds.usedSpace_eq, usedBytes_cons,
        if_neg (by omega), hholds.dataLen_eq]

theorem outQueue_ret_empty_iff
    (hholds : queue.Holds messages) (uiDataLen : ℕ) :
    (queue.outQueue uiDataLen).1.ret = eShmQueueEmpty ↔ messages = [] := by
  cases messages with
  | nil =>
      rw [outQueue_of_nil hholds]
      exact ⟨fun _ => rfl, fun _ => rfl⟩
  | cons message messages =>
      rw [outQueue_of_cons hholds]
      dsimp only
      split_ifs <;> simp [eShmQueueDataLen, eShmQueueEmpty, success]

theorem msgPeek_ret_empty_iff
    (hholds : queue.Holds messages) (malloc : ℕ → Bool) :
    (queue.msgPeek malloc).1.1 = eShmQueueEmpty ↔ messages = [] := by
  cases messages with
  | nil =>
      rw [msgPeek_of_nil hholds]
      exact ⟨fun _ => rfl, fun _ => rfl⟩
  | cons message messages =>
      have hret : (queue.msgPeek malloc).1.1 ≠ eShmQueueEmpty := by
        rcases hpeek : queue.msgPeek malloc with ⟨⟨ret, pData⟩, after⟩
        unfold CShmQueue.msgPeek at hpeek
        rw [hholds.usedSpace_eq, usedBytes_cons, if_neg (by omega)] at hpeek
        dsimp only at hpeek ⊢
        split_ifs at hpeek <;>
          simp only [Prod.mk.injEq] at hpeek <;>
          rw [← hpeek.1.1] <;>
          decide
      exact iff_of_false hret (List.cons_ne_nil _ _)

end Readers

/-! ## The states the calls lead to -/

inductive ReadersCall where
  | inQueue (pData : List UInt8)
  | outQueue (uiDataLen : ℕ)
  | releaseMsg
  | clean

/-- `CopyDataInQueue` writes to the ring only. -/
def CopiesInside (queue : CShmQueue) (pData : List UInt8) : Prop :=
  ∀ write ∈ copyDataInQueue queue.queueDataSize pData queue.uiTail,
    write.1 < queue.queueDataSize

instance (queue : CShmQueue) (pData : List UInt8) :
    Decidable (CopiesInside queue pData) :=
  inferInstanceAs (Decidable (∀ write ∈ copyDataInQueue queue.queueDataSize
    pData queue.uiTail, write.1 < queue.queueDataSize))

/-- A call with a length of 32 bits.  An `InQueue` that copies past the end of
the segment leads to no state of the queue. -/
def readersStep (queue : CShmQueue) : ReadersCall → Option CShmQueue
  | .inQueue pData =>
      if pData.length < 2 ^ 32 then
        if (queue.inQueue pData).1 = success ∧ ¬ CopiesInside queue pData then
          none
        else some (queue.inQueue pData).2
      else none
  | .outQueue uiDataLen => some (queue.outQueue uiDataLen).2
  | .releaseMsg => some queue.releaseMsg
  | .clean => some queue.clean

theorem mem_memcpy {destination address : ℕ} {bytes : List UInt8}
    (hlow : destination ≤ address)
    (hhigh : address < destination + bytes.length) :
    ∃ write ∈ memcpy destination bytes, write.1 = address := by
  have hmem : address ∈ (memcpy destination bytes).map Prod.fst := by
    rw [memcpy, List.map_fst_zip (by simp), List.mem_range'_1]
    exact ⟨hlow, hhigh⟩
  exact List.mem_map.mp hmem

/-- A message longer than the ring is copied past its end. -/
theorem not_copiesInside
    {queue : CShmQueue} {pData : List UInt8}
    (hsize : queue.queueDataSize < 2 ^ 32)
    (htail : queue.uiTail < queue.queueDataSize)
    (hlonger : queue.queueDataSize < pData.length)
    (hlong : 2 * queue.queueDataSize < pData.length + 4) :
    ¬ CopiesInside queue pData := by
  intro hinside
  have hcells : ∀ (destination : ℕ) (bytes : List UInt8),
      memcpy destination bytes ⊆
        copyDataInQueue queue.queueDataSize pData queue.uiTail →
      queue.queueDataSize < bytes.length → False := by
    intro destination bytes hsub hhigh
    obtain ⟨write, hwrite, haddress⟩ :=
      mem_memcpy (Nat.le_add_right destination queue.queueDataSize)
        (Nat.add_lt_add_left hhigh destination)
    have hlt := hinside write (hsub hwrite)
    omega
  have hend := sub32_of_le htail.le hsize
  by_cases hword : 4 ≤ queue.queueDataSize - queue.uiTail
  · by_cases hrest : 0 < queue.queueDataSize - queue.uiTail - 4
    · apply hcells 0 (pData.drop (queue.queueDataSize - queue.uiTail - 4))
      · intro write hwrite
        unfold copyDataInQueue
        rw [hend]
        simp only [if_pos hword,
          if_neg (show ¬ pData.length ≤
            queue.queueDataSize - queue.uiTail - 4 by omega), if_pos hrest]
        exact List.mem_append_right _ (List.mem_append_right _ hwrite)
      · rw [List.length_drop]
        omega
    · apply hcells 0 pData
      · intro write hwrite
        unfold copyDataInQueue
        rw [hend]
        simp only [if_pos hword,
          if_neg (show ¬ pData.length ≤
            queue.queueDataSize - queue.uiTail - 4 by omega), if_neg hrest]
        exact List.mem_append_right _ hwrite
      · omega
  · apply hcells (4 - (queue.queueDataSize - queue.uiTail)) pData
    · intro write hwrite
      unfold copyDataInQueue
      rw [hend]
      simp only [if_neg hword]
      exact List.mem_append_right _ hwrite
    · omega

theorem readersStep_holds
    {queue next : CShmQueue} {messages : List (List UInt8)}
    (hholds : queue.Holds messages) {call : ReadersCall}
    (hstep : readersStep queue call = some next) :
    ∃ later, next.Holds later := by
  cases call with
  | inQueue pData =>
      simp only [readersStep] at hstep
      split_ifs at hstep with hlen hinside
      cases hstep
      by_cases hwrap : pData.length + 4 < 2 ^ 32
      · exact ⟨_, (inQueue_refines hholds hwrap).2.1⟩
      · -- the sum has wrapped: the message is longer than any ring
        have hsize := hholds.size_lt
        have hlong : ¬ CopiesInside queue pData :=
          not_copiesInside (by omega) hholds.tail_lt (by omega) (by omega)
        have hfail : (queue.inQueue pData).1 ≠ success :=
          fun hsuccess => hinside ⟨hsuccess, hlong⟩
        have hfull : freeSpace queue.queueDataSize queue.uiHead queue.uiTail <
            u32 (pData.length + 4) := by
          by_contra hfree
          exact hfail (inQueue_success_of_free (by omega) (not_lt.mp hfree))
        rw [inQueue_of_lt_free (by omega) hfull]
        exact ⟨messages, hholds⟩
  | outQueue uiDataLen =>
      cases hstep
      exact ⟨_, (outQueue_refines hholds uiDataLen).2.1⟩
  | releaseMsg =>
      cases hstep
      rw [releaseMsg_eq hholds 0]
      exact ⟨_, (outQueue_refines hholds 0).2.1⟩
  | clean =>
      cases hstep
      exact ⟨[], hholds.clean⟩

/-- All the ways of reading the queue show one list of messages. -/
def ReadersAgree (queue : CShmQueue) : Prop :=
  ∃ messages,
    queue.getAllQueueData = some messages ∧
    queue.getNum = some messages.length ∧
    (∀ uiDataLen, (∀ message ∈ messages, message.length ≤ uiDataLen) →
      ∃ fuel, CShmQueue.drain uiDataLen fuel queue = some messages) ∧
    (∀ malloc, (queue.msgPeek malloc).2 = queue ∧
      ((queue.msgPeek malloc).1.1 = eShmQueueEmpty ↔ messages = []) ∧
      ∀ message ∈ messages.head?, malloc message.length →
        (queue.msgPeek malloc).1 = (success, message)) ∧
    ∀ uiDataLen,
      ((queue.outQueue uiDataLen).1.ret = eShmQueueEmpty ↔ messages = []) ∧
        queue.releaseMsg = (queue.outQueue uiDataLen).2

theorem readersAgree_of_holds
    {queue : CShmQueue} {messages : List (List UInt8)}
    (hholds : queue.Holds messages) : ReadersAgree queue := by
  refine ⟨messages, getAllQueueData_eq hholds, getNum_eq hholds, ?_, ?_, ?_⟩
  · intro uiDataLen hbuffer
    exact ⟨messages.length + 1, drain_eq hholds hbuffer (Nat.lt_succ_self _)⟩
  · intro malloc
    refine ⟨msgPeek_unchanged queue malloc,
      msgPeek_ret_empty_iff hholds malloc, ?_⟩
    intro message hmessage hmalloc
    cases messages with
    | nil => cases hmessage
    | cons first rest =>
        cases hmessage
        rw [msgPeek_of_cons hholds hmalloc]
  · intro uiDataLen
    exact ⟨outQueue_ret_empty_iff hholds uiDataLen,
      releaseMsg_eq hholds uiDataLen⟩

theorem shm_queue_readers_agree
    (size : ℕ) (hpos : 0 < size) (hsize : size < 2 ^ 31)
    (queueData : ℕ → UInt8) {queue : CShmQueue}
    (hreach : Transition.Reaches readersStep (fun _ _ => True)
      ⟨size, 0, 0, queueData⟩ queue) :
    ReadersAgree queue := by
  have hholds : ∃ messages, queue.Holds messages := by
    apply hreach.invariant (fun queue => ∃ messages, queue.Holds messages)
    · exact ⟨[], holds_of_empty hsize hpos rfl⟩
    · rintro before after call ⟨messages, hholds⟩ - hstep
      exact readersStep_holds hholds hstep
  obtain ⟨messages, hmessages⟩ := hholds
  exact readersAgree_of_holds hmessages

/-- The second message lies across the end of the ring, its first byte at the
last place. -/
theorem shm_queue_readers_agree_wrapped :
    ∃ queue,
      Transition.Reaches readersStep (fun _ _ => True)
        ⟨16, 0, 0, fun _ => 0⟩ queue ∧
      queue.getAllQueueData = some [[8, 9, 10]] ∧ ReadersAgree queue := by
  have hrun : (Transition.replay readersStep (fun _ _ => True)
      ⟨16, 0, 0, fun _ => 0⟩
      [.inQueue [1, 2, 3, 4, 5, 6, 7], .releaseMsg, .inQueue [8, 9, 10]]).map
        CShmQueue.getAllQueueData = some (some [[8, 9, 10]]) := by
    decide
  obtain ⟨queue, hreplay, hdata⟩ := Option.map_eq_some_iff.mp hrun
  have hreach := Transition.reaches_of_replay hreplay
  exact ⟨queue, hreach, hdata,
    shm_queue_readers_agree 16 (by decide) (by decide) (fun _ => 0) hreach⟩

end MessageBus.ShmQueue
