import MessageBus.ShmQueueRefinement

/-!
# The queue without duplicates `CShmUniqQueue`

A transcription of `mmlib/shm_queue/shm_uniq_queue.cpp`.  The set beside the
queue follows it on all paths but one: `CShmQueue::OutQueue` skips a message
that does not fit into the buffer, and reports an error on which the set is left
alone.  The message then stays in the set for ever.
-/

namespace MessageBus.ShmQueue

def eShmQueueInLock : ℤ := -607
def eShmQueueOutLock : ℤ := -608
def eShmQueueDataExist : ℤ := -701

/-! ## The operations -/

/-- `InQueue` with the semaphore; `locked` says whether it is got, or no lock is
asked for. -/
def CShmQueue.lockedInQueue (queue : CShmQueue) (locked : Bool)
    (pData : List UInt8) : ℤ × CShmQueue :=
  if locked then queue.inQueue pData else (eShmQueueInLock, queue)

/-- The `int` overload of `OutQueue` with the semaphore. -/
def CShmQueue.lockedOutQueue (queue : CShmQueue) (locked : Bool)
    (iDataLen : ℤ) : (ℤ × ℤ × List UInt8) × CShmQueue :=
  if 0 < iDataLen ∧ locked = false then
    ((iDataLen, eShmQueueOutLock, []), queue)
  else queue.outQueueInt iDataLen

/-- The queue and the keys of `m_mQueueDataMap`, whose values are all 0. -/
structure CShmUniqQueue where
  queueDataMap : Finset (List UInt8)
  shmQueue : CShmQueue

namespace CShmUniqQueue

/-- `Init` on the ring that `m_ShmQueue.Init` has attached. -/
def init (shmQueue : CShmQueue) : Option CShmUniqQueue :=
  shmQueue.getAllQueueData.map fun vsAllData =>
    { queueDataMap := vsAllData.foldl (fun map data => insert data map) ∅
      shmQueue := shmQueue }

/-- `InQueue` on a pointer, which may be NULL, and a length. -/
def inQueue (uniq : CShmUniqQueue) (locked : Bool)
    (pData : Option (List UInt8)) (iDataLen : ℤ) : ℤ × CShmUniqQueue :=
  match pData with
  | none => (eShmQueueDataLen, uniq)
  | some pData =>
      if iDataLen ≤ 0 then (eShmQueueDataLen, uniq)
      else
        let tmpData := pData.take iDataLen.toNat
        if tmpData ∈ uniq.queueDataMap then (eShmQueueDataExist, uniq)
        else
          let inner := uniq.shmQueue.lockedInQueue locked tmpData
          if inner.1 = 0 then
            (inner.1,
              { queueDataMap := insert tmpData uniq.queueDataMap
                shmQueue := inner.2 })
          else (inner.1, { uniq with shmQueue := inner.2 })

/-- `OutQueue`: the caller's variable, the return value and the bytes
copied. -/
def outQueue (uniq : CShmUniqQueue) (locked : Bool) (iBufLen : ℤ) :
    (ℤ × ℤ × List UInt8) × CShmUniqQueue :=
  let inner := uniq.shmQueue.lockedOutQueue locked iBufLen
  let (iBufLen, ret, pBuf) := inner.1
  if ret = 0 then
    (inner.1,
      { queueDataMap := uniq.queueDataMap.erase (pBuf.take iBufLen.toNat)
        shmQueue := inner.2 })
  else (inner.1, { uniq with shmQueue := inner.2 })

end CShmUniqQueue

inductive UniqCall where
  | inQueue (locked : Bool) (pData : Option (List UInt8)) (iDataLen : ℤ)
  | outQueue (locked : Bool) (iBufLen : ℤ)

/-- The lengths are `int`s, and the caller has as many bytes as it says. -/
def UniqCall.Admissible : UniqCall → Prop
  | .inQueue _ pData iDataLen =>
      iDataLen < 2 ^ 31 ∧ ∀ bytes ∈ pData, iDataLen ≤ bytes.length
  | .outQueue _ iBufLen => iBufLen < 2 ^ 31

def CShmUniqQueue.call (uniq : CShmUniqQueue) : UniqCall → CShmUniqQueue
  | .inQueue locked pData iDataLen => (uniq.inQueue locked pData iDataLen).2
  | .outQueue locked iBufLen => (uniq.outQueue locked iBufLen).2

def CShmUniqQueue.run (uniq : CShmUniqQueue) (calls : List UniqCall) :
    CShmUniqQueue :=
  calls.foldl CShmUniqQueue.call uniq

/-- The call is an `OutQueue` with a buffer that is too small for the oldest
message. -/
def UniqCall.Skips (uniq : CShmUniqQueue) : UniqCall → Prop
  | .inQueue _ _ _ => False
  | .outQueue locked iBufLen =>
      locked = true ∧ 0 < iBufLen ∧
        4 ≤ usedSpace uniq.shmQueue.queueDataSize uniq.shmQueue.uiHead
          uniq.shmQueue.uiTail ∧
        iBufLen < uniq.shmQueue.dataLen uniq.shmQueue.uiHead

/-! ## The invariant -/

/-- The ring holds the messages, no two of them equal, and the set is the set
of the messages. -/
structure InStep (uniq : CShmUniqQueue) (messages : List (List UInt8)) :
    Prop where
  holds : uniq.shmQueue.Holds messages
  nodup : messages.Nodup
  nonempty : ∀ message ∈ messages, message ≠ []
  map_eq : uniq.queueDataMap = messages.toFinset

section Steps

variable {uniq : CShmUniqQueue} {messages : List (List UInt8)}

theorem foldl_insert_eq (all : List (List UInt8)) (map : Finset (List UInt8)) :
    all.foldl (fun map data => insert data map) map = map ∪ all.toFinset := by
  induction all generalizing map with
  | nil => simp
  | cons data all ih =>
      rw [List.foldl_cons, ih, List.toFinset_cons, Finset.insert_union,
        Finset.union_insert]

theorem init_inStep
    {shmQueue : CShmQueue} (hholds : shmQueue.Holds messages)
    (hnodup : messages.Nodup)
    (hnonempty : ∀ message ∈ messages, message ≠ []) :
    ∃ uniq, CShmUniqQueue.init shmQueue = some uniq ∧ InStep uniq messages := by
  refine ⟨⟨messages.toFinset, shmQueue⟩, ?_, hholds, hnodup, hnonempty, rfl⟩
  rw [CShmUniqQueue.init, getAllQueueData_eq hholds, Option.map_some,
    foldl_insert_eq, Finset.empty_union]

/-- `InQueue` of the inner queue appends the message, or fails and changes
nothing. -/
theorem lockedInQueue_cases
    {queue : CShmQueue} (hholds : queue.Holds messages) (locked : Bool)
    {pData : List UInt8} (hlen : pData.length + 4 < 2 ^ 32) :
    (queue.lockedInQueue locked pData).1 = 0 ∧ pData ≠ [] ∧
        (queue.lockedInQueue locked pData).2.Holds (messages ++ [pData]) ∨
      (queue.lockedInQueue locked pData).1 ≠ 0 ∧
        (queue.lockedInQueue locked pData).1 ≠ eShmQueueDataExist ∧
        (queue.lockedInQueue locked pData).2 = queue := by
  cases locked with
  | false =>
      right
      simp [CShmQueue.lockedInQueue, eShmQueueInLock, eShmQueueDataExist]
  | true =>
      simp only [CShmQueue.lockedInQueue, if_true]
      obtain ⟨hret, hnext, -⟩ := inQueue_refines hholds hlen
      by_cases hsuccess : (queue.inQueue pData).1 = success
      · left
        have hfits := (inQueue_success_iff hholds hlen).mp hsuccess
        refine ⟨hsuccess, List.ne_nil_of_length_pos hfits.1, ?_⟩
        rwa [Fifo.inQueue, if_neg (by omega), if_neg (by omega)] at hnext
      · right
        refine ⟨hsuccess, ?_, inQueue_of_failure hholds hlen hsuccess⟩
        rw [hret]
        unfold Fifo.inQueue
        split_ifs <;> simp [eShmQueueInQueueLen, eShmQueueFull, success,
          eShmQueueDataExist]

theorem length_take_lt (bytes : List UInt8) {iDataLen : ℤ}
    (hint : iDataLen < 2 ^ 31) :
    (bytes.take iDataLen.toNat).length + 4 < 2 ^ 32 := by
  rw [List.length_take]
  omega

theorem InStep.append
    (hstep : InStep uniq messages) {message : List UInt8}
    {queue : CShmQueue} (hnew : message ∉ messages) (hmessage : message ≠ [])
    (hqueue : queue.Holds (messages ++ [message])) :
    InStep ⟨insert message uniq.queueDataMap, queue⟩
      (messages ++ [message]) where
  holds := hqueue
  nodup := by
    rw [List.nodup_append]
    refine ⟨hstep.nodup, List.nodup_singleton _, ?_⟩
    rintro old hold new hmem rfl
    exact hnew (by rwa [List.mem_singleton.mp hmem] at hold)
  nonempty := by
    intro other hother
    rw [List.mem_append, List.mem_singleton] at hother
    rcases hother with hold | rfl
    · exact hstep.nonempty other hold
    · exact hmessage
  map_eq := by
    ext data
    simp [hstep.map_eq]

theorem InStep.inQueue
    (hstep : InStep uniq messages) {locked : Bool}
    {pData : Option (List UInt8)} {iDataLen : ℤ}
    (hcall : (UniqCall.inQueue locked pData iDataLen).Admissible) :
    ∃ messages', InStep (uniq.inQueue locked pData iDataLen).2 messages' := by
  unfold CShmUniqQueue.inQueue
  cases pData with
  | none => exact ⟨messages, hstep⟩
  | some bytes =>
      dsimp only
      by_cases hnegative : iDataLen ≤ 0
      · rw [if_pos hnegative]
        exact ⟨messages, hstep⟩
      by_cases hexists : bytes.take iDataLen.toNat ∈ uniq.queueDataMap
      · rw [if_neg hnegative, if_pos hexists]
        exact ⟨messages, hstep⟩
      rw [if_neg hnegative, if_neg hexists]
      rcases lockedInQueue_cases hstep.holds locked
          (length_take_lt bytes hcall.1) with
        ⟨hret, hdata, hqueue⟩ | ⟨hret, -, hqueue⟩
      · rw [if_pos hret]
        rw [hstep.map_eq, List.mem_toFinset] at hexists
        exact ⟨_, hstep.append hexists hdata hqueue⟩
      · rw [if_neg hret, hqueue]
        exact ⟨messages, hstep⟩

theorem InStep.skips_iff
    (hstep : InStep uniq messages) (locked : Bool) (iBufLen : ℤ) :
    (UniqCall.outQueue locked iBufLen).Skips uniq ↔
      locked = true ∧ 0 < iBufLen ∧
        ∃ message ∈ messages.head?, iBufLen < message.length := by
  unfold UniqCall.Skips
  rw [hstep.holds.usedSpace_eq]
  cases messages with
  | nil => simp
  | cons message messages =>
      rw [usedBytes_cons, hstep.holds.dataLen_eq]
      simp only [List.head?_cons, Option.mem_some_iff, exists_eq_left',
        and_congr_right_iff]
      intro _ _
      omega

/-- An `OutQueue` that does not skip a message returns the oldest one, or
nothing, and the set follows. -/
theorem InStep.outQueue
    (hstep : InStep uniq messages) {locked : Bool} {iBufLen : ℤ}
    (hskips : ¬ (UniqCall.outQueue locked iBufLen).Skips uniq) :
    ∃ messages', InStep (uniq.outQueue locked iBufLen).2 messages' := by
  rw [hstep.skips_iff] at hskips
  unfold CShmUniqQueue.outQueue CShmQueue.lockedOutQueue
  by_cases hpositive : 0 < iBufLen
  · cases locked with
    | false =>
        rw [if_pos ⟨hpositive, rfl⟩]
        exact ⟨messages, hstep⟩
    | true =>
        rw [if_neg (by simp)]
        unfold CShmQueue.outQueueInt
        rw [if_pos hpositive]
        cases messages with
        | nil =>
            rw [outQueue_of_nil hstep.holds]
            exact ⟨[], hstep⟩
        | cons message messages =>
            have hfits : ¬ iBufLen.toNat < message.length := by
              intro hsmall
              exact hskips ⟨rfl, hpositive, message, rfl, by omega⟩
            obtain ⟨hnotMem, hnodup⟩ := List.nodup_cons.mp hstep.nodup
            rw [outQueue_of_cons hstep.holds, if_neg hfits]
            refine ⟨messages, hstep.holds.addHead, hnodup, ?_, ?_⟩
            · exact fun other hother =>
                hstep.nonempty other (List.mem_cons_of_mem _ hother)
            · change uniq.queueDataMap.erase
                (message.take (message.length : ℤ).toNat) = _
              rw [Int.toNat_natCast, List.take_length, hstep.map_eq,
                List.toFinset_cons, Finset.erase_insert]
              rwa [List.mem_toFinset]
  · rw [if_neg (by simp [hpositive])]
    unfold CShmQueue.outQueueInt
    rw [if_neg hpositive]
    exact ⟨messages, hstep⟩

/-- A skipped message has left the queue and not the set. -/
theorem InStep.outQueue_of_skips
    (hstep : InStep uniq messages) {locked : Bool} {iBufLen : ℤ}
    (hskips : (UniqCall.outQueue locked iBufLen).Skips uniq) :
    ∃ message rest, messages = message :: rest ∧ message ∉ rest ∧
      (uniq.outQueue locked iBufLen).2.shmQueue.Holds rest ∧
      message ∈ (uniq.outQueue locked iBufLen).2.queueDataMap := by
  rw [hstep.skips_iff] at hskips
  obtain ⟨rfl, hpositive, message, hhead, hsmall⟩ := hskips
  cases messages with
  | nil => simp at hhead
  | cons first rest =>
      obtain rfl : first = message := by simpa using hhead
      have hmem : first ∈ uniq.queueDataMap := by
        rw [hstep.map_eq]
        simp
      unfold CShmUniqQueue.outQueue CShmQueue.lockedOutQueue
      rw [if_neg (by simp)]
      unfold CShmQueue.outQueueInt
      rw [if_pos hpositive, outQueue_of_cons hstep.holds,
        if_pos (by omega)]
      exact ⟨first, rest, rfl, (List.nodup_cons.mp hstep.nodup).1,
        hstep.holds.addHead, hmem⟩

end Steps

/-! ## Runs -/

/-- The set and the queue are in step: the set has exactly the messages of the
queue, no two of which are equal; `InQueue` refuses as a duplicate exactly what
is in the queue, and answers as the inner queue does for everything else. -/
structure CShmUniqQueue.Exact (uniq : CShmUniqQueue)
    (messages : List (List UInt8)) : Prop where
  queued : uniq.shmQueue.getAllQueueData = some messages
  map_iff : ∀ data, data ∈ uniq.queueDataMap ↔ data ∈ messages
  nodup : messages.Nodup
  refused_iff : ∀ locked bytes iDataLen, 0 < iDataLen →
    (UniqCall.inQueue locked (some bytes) iDataLen).Admissible →
    ((uniq.inQueue locked (some bytes) iDataLen).1 = eShmQueueDataExist ↔
      bytes.take iDataLen.toNat ∈ messages)
  accepted : ∀ locked bytes iDataLen, 0 < iDataLen →
    (UniqCall.inQueue locked (some bytes) iDataLen).Admissible →
    bytes.take iDataLen.toNat ∉ messages →
    (uniq.inQueue locked (some bytes) iDataLen).1 =
      (uniq.shmQueue.lockedInQueue locked (bytes.take iDataLen.toNat)).1

section Runs

variable {uniq : CShmUniqQueue} {messages : List (List UInt8)}

theorem InStep.mem_map_iff (hstep : InStep uniq messages)
    (data : List UInt8) : data ∈ uniq.queueDataMap ↔ data ∈ messages := by
  rw [hstep.map_eq, List.mem_toFinset]

theorem inQueue_ret_of_new
    {bytes : List UInt8} {iDataLen : ℤ} (locked : Bool)
    (hpositive : 0 < iDataLen)
    (hnew : bytes.take iDataLen.toNat ∉ uniq.queueDataMap) :
    (uniq.inQueue locked (some bytes) iDataLen).1 =
      (uniq.shmQueue.lockedInQueue locked (bytes.take iDataLen.toNat)).1 := by
  unfold CShmUniqQueue.inQueue
  dsimp only
  rw [if_neg (by omega), if_neg hnew]
  split_ifs
  · rfl
  · rfl

theorem InStep.exact (hstep : InStep uniq messages) : uniq.Exact messages where
  queued := getAllQueueData_eq hstep.holds
  map_iff := hstep.mem_map_iff
  nodup := hstep.nodup
  refused_iff := by
    intro locked bytes iDataLen hpositive hcall
    rw [← hstep.mem_map_iff]
    by_cases hexists : bytes.take iDataLen.toNat ∈ uniq.queueDataMap
    · unfold CShmUniqQueue.inQueue
      dsimp only
      rw [if_neg (by omega), if_pos hexists]
      simp [hexists]
    · rw [inQueue_ret_of_new locked hpositive hexists]
      rcases lockedInQueue_cases hstep.holds locked
          (length_take_lt bytes hcall.1) with ⟨hret, -⟩ | ⟨-, hret, -⟩
      · simp [hret, hexists, eShmQueueDataExist]
      · simp [hret, hexists]
  accepted := by
    intro locked bytes iDataLen hpositive _ hnew
    rw [← hstep.mem_map_iff] at hnew
    exact inQueue_ret_of_new locked hpositive hnew

theorem InStep.call
    (hstep : InStep uniq messages) {call : UniqCall} (hcall : call.Admissible)
    (hskips : ¬ call.Skips uniq) :
    ∃ messages', InStep (uniq.call call) messages' := by
  cases call with
  | inQueue locked pData iDataLen => exact hstep.inQueue hcall
  | outQueue locked iBufLen => exact hstep.outQueue hskips

theorem InStep.not_exact_of_skips
    (hstep : InStep uniq messages) {call : UniqCall}
    (hskips : call.Skips uniq) (messages' : List (List UInt8)) :
    ¬ (uniq.call call).Exact messages' := by
  cases call with
  | inQueue locked pData iDataLen => exact hskips.elim
  | outQueue locked iBufLen =>
      obtain ⟨message, rest, -, hnotMem, hholds, hmem⟩ :=
        hstep.outQueue_of_skips hskips
      intro hexact
      have hrest := hexact.queued
      rw [CShmUniqQueue.call, getAllQueueData_eq hholds,
        Option.some.injEq] at hrest
      subst hrest
      exact hnotMem ((hexact.map_iff message).mp hmem)

theorem InStep.run_exact_iff
    (hstep : InStep uniq messages) {calls : List UniqCall}
    (hcalls : ∀ call ∈ calls, call.Admissible) :
    (∀ earlier, earlier <+: calls →
      ∃ messages', (uniq.run earlier).Exact messages') ↔
      ∀ earlier call, earlier ++ [call] <+: calls →
        ¬ call.Skips (uniq.run earlier) := by
  induction calls generalizing uniq messages with
  | nil =>
      constructor
      · intro _ earlier call hearlier
        simp at hearlier
      · intro _ earlier hearlier
        rw [List.prefix_nil.mp hearlier]
        exact ⟨messages, hstep.exact⟩
  | cons call calls ih =>
      have hcall := hcalls call (by simp)
      have hlater : ∀ later ∈ calls, later.Admissible :=
        fun later hmem => hcalls later (by simp [hmem])
      constructor
      · intro hexact
        have hskips : ¬ call.Skips uniq := by
          intro hskips
          obtain ⟨messages', hfirst⟩ := hexact [call] (by simp)
          exact hstep.not_exact_of_skips hskips messages' hfirst
        obtain ⟨messages', hnext⟩ := hstep.call hcall hskips
        intro earlier later hearlier
        cases earlier with
        | nil =>
            obtain rfl : later = call := by simpa using hearlier
            exact hskips
        | cons first earlier =>
            rw [List.cons_append, List.cons_prefix_cons] at hearlier
            obtain ⟨rfl, hearlier⟩ := hearlier
            refine (ih hnext hlater).mp ?_ earlier later hearlier
            intro others hothers
            exact hexact (first :: others) (by simpa using hothers)
      · intro hskips earlier hearlier
        cases earlier with
        | nil => exact ⟨messages, hstep.exact⟩
        | cons first earlier =>
            rw [List.cons_prefix_cons] at hearlier
            obtain ⟨rfl, hearlier⟩ := hearlier
            obtain ⟨messages', hnext⟩ :=
              hstep.call hcall (hskips [] first (by simp))
            refine (ih hnext hlater).mpr ?_ earlier hearlier
            intro others later hothers
            exact hskips (first :: others) later (by simpa using hothers)

end Runs

/-- From `Init` on a ring of distinct messages, the set and the queue are in
step in every state of a run if and only if no `OutQueue` of the run is given a
buffer that is too small for the oldest message. -/
theorem uniq_queue_exact_iff
    (shmQueue : CShmQueue) (messages : List (List UInt8))
    (hholds : shmQueue.Holds messages) (hnodup : messages.Nodup)
    (hnonempty : ∀ message ∈ messages, message ≠ [])
    (calls : List UniqCall) (hcalls : ∀ call ∈ calls, call.Admissible) :
    ∃ uniq, CShmUniqQueue.init shmQueue = some uniq ∧
      ((∀ earlier, earlier <+: calls →
        ∃ queued, (uniq.run earlier).Exact queued) ↔
        ∀ earlier call, earlier ++ [call] <+: calls →
          ¬ call.Skips (uniq.run earlier)) := by
  obtain ⟨uniq, hinit, hstep⟩ := init_inStep hholds hnodup hnonempty
  exact ⟨uniq, hinit, hstep.run_exact_iff hcalls⟩

/-- A ring of 32 bytes without messages. -/
def emptyRing : CShmQueue := ⟨32, 0, 0, fun _ => 0⟩

theorem emptyRing_holds : emptyRing.Holds [] :=
  holds_of_empty (by decide) (by decide) rfl

/-- A message is queued and taken out again. -/
theorem uniq_queue_exact_iff_fits :
    ∃ uniq, CShmUniqQueue.init emptyRing = some uniq ∧
      ∀ earlier, earlier <+: [UniqCall.inQueue true (some [7, 8]) 2,
          UniqCall.outQueue true 4] →
        ∃ queued, (uniq.run earlier).Exact queued := by
  obtain ⟨uniq, hinit, hiff⟩ := uniq_queue_exact_iff emptyRing []
    emptyRing_holds List.nodup_nil (by simp)
    [.inQueue true (some [7, 8]) 2, .outQueue true 4]
    (by simp [UniqCall.Admissible])
  refine ⟨uniq, hinit, hiff.mpr ?_⟩
  obtain rfl : uniq = ⟨∅, emptyRing⟩ := Option.some.inj hinit.symm
  intro earlier call hearlier
  match earlier, hearlier with
  | [], hfirst =>
      obtain rfl : call = .inQueue true (some [7, 8]) 2 := by
        simpa using hfirst
      exact id
  | [first], hsecond =>
      obtain ⟨rfl, rfl⟩ : first = .inQueue true (some [7, 8]) 2 ∧
          call = .outQueue true 4 := by simpa using hsecond
      rintro ⟨-, -, -, hsmall⟩
      exact absurd hsmall (by decide)
  | _ :: _ :: _, hlong =>
      have hlength := hlong.length_le
      simp at hlength

/-- A message is skipped because the buffer has one byte; the queue is empty,
and the message is refused as a duplicate. -/
theorem skipped_message_refused :
    ∃ uniq, CShmUniqQueue.init emptyRing = some uniq ∧
      (uniq.run [.inQueue true (some [7, 8]) 2,
        .outQueue true 1]).shmQueue.getAllQueueData = some [] ∧
      ((uniq.run [.inQueue true (some [7, 8]) 2,
        .outQueue true 1]).inQueue true (some [7, 8]) 2).1 =
          eShmQueueDataExist ∧
      ¬ ∃ queued, (uniq.run [.inQueue true (some [7, 8]) 2,
        .outQueue true 1]).Exact queued := by
  have hqueue : ((CShmUniqQueue.mk ∅ emptyRing).run
      [.inQueue true (some [7, 8]) 2,
        .outQueue true 1]).shmQueue.getAllQueueData = some [] := by decide
  have hrefused : (((CShmUniqQueue.mk ∅ emptyRing).run
      [.inQueue true (some [7, 8]) 2,
        .outQueue true 1]).inQueue true (some [7, 8]) 2).1 =
          eShmQueueDataExist := by decide
  refine ⟨⟨∅, emptyRing⟩, rfl, hqueue, hrefused, ?_⟩
  rintro ⟨queued, hexact⟩
  have hempty := hexact.queued
  rw [hqueue, Option.some.injEq] at hempty
  subst hempty
  have hmem := (hexact.refused_iff true [7, 8] 2 (by decide)
    ⟨by decide, by simp⟩).mp hrefused
  simp at hmem

end MessageBus.ShmQueue
