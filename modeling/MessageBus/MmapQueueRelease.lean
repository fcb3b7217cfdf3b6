import MessageBus.MmapQueueRefinement

/-!
# What `OutQueue` leaves behind

`OutQueue` distrusts a block also when its caller gave it no buffer, or one that
is too small.  It then forgets the whole queue and returns with the semaphore
still taken.  A block whose length has lost its upper bits is trusted; the head
then comes to stand inside the message.
-/

namespace MessageBus.MmapQueue

open ByteRing
open ShmQueue

/-- What may be left of the messages after a call. -/
def Remains (size : ℕ) (messages : List (List UInt8)) :
    MmapCall → List (List UInt8) → Prop
  | .outQueue _ _, kept => kept = messages ∨ kept = messages.tail
  | call, kept => kept = (Fifo.call size messages call).2

/-- All calls of a run return, release the semaphore and take at most the oldest
message from the queue. -/
def Kept (size : ℕ) : CMmapQueue → List (List UInt8) → List MmapCall → Prop
  | _, _, [] => True
  | queue, messages, call :: calls =>
      ∃ answer next, queue.call call = some (answer, next) ∧
        next.semTaken = false ∧
        ∃ kept, Remains size messages call kept ∧ next.Holds kept ∧
          Kept size next kept calls

/-- `OutQueue` comes to no message, or has the buffer for it, and its length has
at most sixteen bits. -/
def Trusted (messages : List (List UInt8)) : MmapCall → Prop
  | .outQueue pBuf iBufLen => ∀ message ∈ messages.head?,
      pBuf = true ∧ (message.length : ℤ) ≤ iBufLen ∧ message.length < 2 ^ 16
  | _ => True

section Calls

variable {queue next : CMmapQueue} {messages : List (List UInt8)}
  {message : List UInt8} {call : MmapCall} {answer : MmapAnswer}

/-- `OutQueue` on the block of the oldest message. -/
theorem CMmapQueue.Holds.outQueue_eq
    (hholds : queue.Holds (message :: messages)) (pBuf : Bool) (iBufLen : ℤ) :
    ∃ result, queue.outQueue pBuf iBufLen =
      if iBufLen < (message.length % 2 ^ 16 : ℕ) ∨ pBuf = false then
        some (⟨eMmapQueueError, iBufLen, []⟩,
          { queue with
            iLen := queue.queueSize
            iHead := 0
            iTail := 0
            iNum := 0
            semTaken := true })
      else
        some (result,
          { queue with
            iHead := (u32 (queue.iHead + message.length % 2 ^ 16) +
              blockHeadSize + szTail.length) % queue.iLen
            iNum := sub32 queue.iNum 1 }) := by
  have hsize := hholds.size_lt
  have hhead := hholds.head_le
  have hused := hholds.used_le
  have hnum := hholds.num_eq
  rw [blockBytes_cons] at hused
  rw [List.length_cons] at hnum
  obtain ⟨padding, hblock, -, -⟩ := hholds.read_parts
  have hlt : queue.iHead < queue.iLen := by omega
  have hcells := splitCells_cells (by omega) (placedAt_of_lt hlt)
    (show 8 ≤ queue.iLen by omega)
  unfold CMmapQueue.outQueue
  rw [if_neg (by simp [hholds.released]), if_pos (by omega),
    sub32_of_le hlt.le (by omega)]
  simp only [blockHeadSize, hcells]
  rw [show (ringCells queue.iLen queue.iHead 8).map queue.mem = _ from hblock,
    wordValue_index (by omega), wordValue_len]
  simp only [ne_eq, not_true_eq_false, false_or]
  exact ⟨_, rfl⟩

/-- Behind a length that was cut there is no queue any more. -/
theorem CMmapQueue.Holds.not_holds_of_long
    (hholds : queue.Holds (message :: messages))
    (hlong : 2 ^ 16 ≤ message.length) :
    ¬ CMmapQueue.Holds
      { queue with
        iHead := (u32 (queue.iHead + message.length % 2 ^ 16) +
          blockHeadSize + szTail.length) % queue.iLen
        iNum := sub32 queue.iNum 1 } messages := by
  intro hnext
  have hsize := hholds.size_lt
  have hhead := hholds.head_le
  have hused := hholds.used_le
  have hcut : message.length % 2 ^ 16 < 2 ^ 16 := Nat.mod_lt _ (by positivity)
  generalize message.length % 2 ^ 16 = cut at hcut hnext
  rw [blockBytes_cons] at hused
  have htail := hholds.tail_eq.symm.trans hnext.tail_eq
  simp only [u32_of_lt (show queue.iHead + cut < 2 ^ 32 by omega),
    blockHeadSize, szTail_length, blockBytes_cons, Nat.mod_add_mod] at htail
  -- Both lengths lead from the old head to the tail.
  have hends : queue.iHead + 14 + blockBytes messages + message.length ≡
      queue.iHead + 14 + blockBytes messages + cut [MOD queue.iLen] := by
    unfold Nat.ModEq
    rw [show queue.iHead + 14 + blockBytes messages + message.length =
      queue.iHead + (message.length + 14 + blockBytes messages) by omega, htail]
    congr 1
    omega
  have hlength := (Nat.ModEq.add_left_cancel' _ hends).eq_of_lt_of_lt
    (by omega) (by omega)
  omega

/-- The other two calls keep everything. -/
theorem CMmapQueue.Holds.call_of_ne
    (hholds : queue.Holds messages) (call : MmapCall)
    (hne : ∀ pBuf iBufLen, call ≠ .outQueue pBuf iBufLen) :
    ∃ next, queue.call call =
        some ((Fifo.call queue.iLen messages call).1, next) ∧
      next.Holds (Fifo.call queue.iLen messages call).2 ∧
      next.iLen = queue.iLen := by
  cases call with
  | inQueue padding pData => exact call_refines hholds trivial trivial
  | getNum => exact call_refines hholds trivial trivial
  | outQueue pBuf iBufLen => exact absurd rfl (hne pBuf iBufLen)

theorem CMmapQueue.Holds.iLen_of_call
    (hholds : queue.Holds messages)
    (hcall : queue.call call = some (answer, next)) :
    next.iLen = queue.iLen := by
  cases call with
  | inQueue padding pData =>
      obtain ⟨after, hafter, -, hlen⟩ :=
        hholds.call_of_ne (.inQueue padding pData) nofun
      obtain ⟨-, rfl⟩ := Prod.mk.inj
        (Option.some.inj (hcall.symm.trans hafter))
      exact hlen
  | getNum =>
      obtain ⟨after, hafter, -, hlen⟩ :=
        hholds.call_of_ne .getNum nofun
      obtain ⟨-, rfl⟩ := Prod.mk.inj
        (Option.some.inj (hcall.symm.trans hafter))
      exact hlen
  | outQueue pBuf iBufLen =>
      obtain ⟨⟨result, after⟩, houtQueue, heq⟩ :=
        Option.bind_eq_some_iff.mp hcall
      obtain ⟨-, rfl⟩ := Prod.mk.inj (Option.some.inj heq)
      cases messages with
      | nil =>
          rw [hholds.outQueue_of_nil] at houtQueue
          obtain ⟨-, rfl⟩ := Prod.mk.inj (Option.some.inj houtQueue)
          rfl
      | cons message messages =>
          obtain ⟨taken, hout⟩ := hholds.outQueue_eq pBuf iBufLen
          rw [hout] at houtQueue
          split_ifs at houtQueue
          · obtain ⟨-, rfl⟩ := Prod.mk.inj (Option.some.inj houtQueue)
            exact hholds.size_eq.symm
          · obtain ⟨-, rfl⟩ := Prod.mk.inj (Option.some.inj houtQueue)
            rfl

theorem CMmapQueue.Holds.iNum_lt_of_outQueue
    (hholds : queue.Holds (message :: messages)) {pBuf : Bool} {iBufLen : ℤ}
    {result : CMmapQueue.OutResult}
    (houtQueue : queue.outQueue pBuf iBufLen = some (result, next)) :
    next.iNum < (message :: messages).length := by
  have hnum := hholds.num_eq
  have hsize := hholds.size_lt
  have hused := hholds.used_le
  have hcount := length_mul_le (message :: messages)
  rw [List.length_cons] at hnum hcount ⊢
  obtain ⟨taken, heq⟩ := hholds.outQueue_eq pBuf iBufLen
  rw [heq] at houtQueue
  split_ifs at houtQueue
  · cases houtQueue
    exact Nat.succ_pos _
  · cases houtQueue
    change sub32 queue.iNum 1 < _
    rw [sub32_of_le (by omega) (by omega)]
    omega

/-- What remains is what the list of messages has then. -/
theorem CMmapQueue.Holds.remains_eq
    (hholds : queue.Holds messages)
    (hcall : queue.call call = some (answer, next)) {size : ℕ}
    {kept : List (List UInt8)} (hremains : Remains size messages call kept)
    (hnext : next.Holds kept) :
    kept = (Fifo.call size messages call).2 := by
  cases call with
  | inQueue padding pData => exact hremains
  | getNum => exact hremains
  | outQueue pBuf iBufLen =>
      cases messages with
      | nil => rcases hremains with rfl | rfl <;> rfl
      | cons message messages =>
          obtain ⟨⟨result, after⟩, houtQueue, heq⟩ :=
            Option.bind_eq_some_iff.mp hcall
          obtain ⟨-, rfl⟩ := Prod.mk.inj (Option.some.inj heq)
          have hlt := hholds.iNum_lt_of_outQueue houtQueue
          rcases hremains with rfl | rfl
          · exact absurd hnext.num_eq hlt.ne
          · rfl

/-- The step lemma: a call releases the semaphore and keeps the messages exactly
when it can be trusted. -/
theorem CMmapQueue.Holds.call_keeps_iff
    (hholds : queue.Holds messages) (size : ℕ) (call : MmapCall)
    (hsize : queue.iLen = size) :
    (∃ answer next, queue.call call = some (answer, next) ∧
      next.semTaken = false ∧
      ∃ kept, Remains size messages call kept ∧ next.Holds kept) ↔
        Trusted messages call := by
  subst hsize
  cases call with
  | inQueue padding pData =>
      obtain ⟨next, hcall, hnext, -⟩ :=
        hholds.call_of_ne (.inQueue padding pData) nofun
      exact iff_of_true
        ⟨_, next, hcall, hnext.released, _, rfl, hnext⟩ trivial
  | getNum =>
      obtain ⟨next, hcall, hnext, -⟩ :=
        hholds.call_of_ne .getNum nofun
      exact iff_of_true
        ⟨_, next, hcall, hnext.released, _, rfl, hnext⟩ trivial
  | outQueue pBuf iBufLen =>
      cases messages with
      | nil =>
          refine iff_of_true ⟨.outQueue ⟨eMmapQueueEmpty, iBufLen, []⟩, queue,
            ?_, hholds.released, [], Or.inl rfl, hholds⟩ (by simp [Trusted])
          simp [CMmapQueue.call, hholds.outQueue_of_nil]
      | cons message messages =>
          obtain ⟨result, houtQueue⟩ := hholds.outQueue_eq pBuf iBufLen
          constructor
          · rintro ⟨answer, next, hcall, hreleased, kept, hremains, hnext⟩
            obtain rfl := hholds.remains_eq hcall hremains hnext
            obtain ⟨⟨taken, after⟩, hout, heq⟩ :=
              Option.bind_eq_some_iff.mp hcall
            obtain ⟨-, rfl⟩ := Prod.mk.inj (Option.some.inj heq)
            rw [houtQueue] at hout
            split_ifs at hout with hdistrust
            · obtain ⟨-, rfl⟩ := Prod.mk.inj (Option.some.inj hout)
              cases hreleased
            · obtain ⟨-, rfl⟩ := Prod.mk.inj (Option.some.inj hout)
              have hshort : message.length < 2 ^ 16 := by
                by_contra hlong
                exact hholds.not_holds_of_long (not_lt.mp hlong) hnext
              rw [Nat.mod_eq_of_lt hshort, not_or] at hdistrust
              intro oldest holdest
              obtain rfl : message = oldest := Option.mem_some_iff.mp holdest
              exact ⟨Bool.not_eq_false _ ▸ hdistrust.2,
                not_lt.mp hdistrust.1, hshort⟩
          · intro htrusted
            obtain ⟨rfl, hbuffer, hshort⟩ := htrusted message rfl
            rw [Nat.mod_eq_of_lt hshort, if_neg (by
              simp only [Bool.true_eq_false, or_false]
              omega)] at houtQueue
            have hcall := congrArg (fun out => out.bind fun answer =>
              some (MmapAnswer.outQueue answer.1, answer.2)) houtQueue
            exact ⟨_, _, hcall, hholds.released, messages, Or.inr rfl,
              hholds.remove⟩

end Calls

theorem kept_iff
    {queue : CMmapQueue} {messages : List (List UInt8)} {size : ℕ}
    (hholds : queue.Holds messages) (hsize : queue.iLen = size)
    (calls : List MmapCall) :
    Kept size queue messages calls ↔
      Fifo.Along Trusted size messages calls := by
  induction calls generalizing queue messages with
  | nil => exact Iff.rfl
  | cons call calls ih =>
      have hstep := hholds.call_keeps_iff size call hsize
      constructor
      · rintro ⟨answer, next, hcall, hreleased, kept, hremains, hnext, hrest⟩
        refine ⟨hstep.mp ⟨answer, next, hcall, hreleased, kept, hremains,
          hnext⟩, ?_⟩
        rw [← hholds.remains_eq hcall hremains hnext]
        exact (ih hnext ((hholds.iLen_of_call hcall).trans hsize)).mp hrest
      · rintro ⟨htrusted, hrest⟩
        obtain ⟨answer, next, hcall, hreleased, kept, hremains, hnext⟩ :=
          hstep.mpr htrusted
        rw [← hholds.remains_eq hcall hremains hnext] at hrest
        exact ⟨answer, next, hcall, hreleased, kept, hremains, hnext,
          (ih hnext ((hholds.iLen_of_call hcall).trans hsize)).mpr hrest⟩

/-- From `Init` on, all calls of a run release the semaphore and keep all
messages but the oldest if and only if each `OutQueue` of it that comes to a
message has a buffer for it, and the message is shorter than 65536 bytes. -/
theorem messages_kept_iff
    (aiSize : ℕ) (hsize : aiSize < 2 ^ 31) (calls : List MmapCall) :
    Kept aiSize (CMmapQueue.init aiSize) [] calls ↔
      Fifo.Along Trusted aiSize [] calls :=
  kept_iff (init_holds hsize) rfl calls

theorem messages_kept_three :
    Kept 36 (CMmapQueue.init 36) []
      [.outQueue false 0, .inQueue (0, 0) [1, 2], .inQueue (0, 0) [3],
        .outQueue true 2, .getNum] :=
  (messages_kept_iff 36 (by decide) _).mpr (by
    simp [Fifo.Along, Fifo.call, Trusted])

/-- Two messages, and a buffer of one byte for the first. -/
theorem messages_forgotten :
    ¬ ∀ (aiSize : ℕ) (calls : List MmapCall), aiSize < 2 ^ 31 →
      Kept aiSize (CMmapQueue.init aiSize) [] calls := by
  intro hall
  have hkept := hall 36 [.inQueue (0, 0) [1, 2], .inQueue (0, 0) [3],
    .outQueue true 1] (by decide)
  have htrusted : Fifo.Along Trusted 36 [] _ :=
    (kept_iff (init_holds (by decide)) rfl _).mp hkept
  simp [Fifo.Along, Fifo.call, Trusted] at htrusted

end MessageBus.MmapQueue
