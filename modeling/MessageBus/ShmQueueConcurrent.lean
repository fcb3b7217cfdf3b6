import MessageBus.ShmQueueRefinement
import MessageBus.Transition

/-!
# One producer and one consumer on a `CShmQueue`

`InQueue` holds semaphore 0 and `OutQueue` semaphore 1, so one call of each can
be under way at the same time.  Every step below is one access to the shared
segment: a read of an offset, one byte of a `memcpy`, or the compare-and-swap
of `AddOffset`.  The steps of the two processes interleave freely.

The consumer only ever frees space and the producer only ever adds messages,
so an offset of the other process that has become stale by the time it is used
errs on the safe side; this is the content of `ProducerOk` and `ConsumerOk`.
-/

namespace MessageBus.ShmQueue

open ByteRing
open Transition

/-! ## The two programs -/

/-- Where the producer is within `InQueue`. -/
inductive ProducerPc where
  | idle
  /-- `FreeSpace` is about to read `*tail`. -/
  | readTail (pData : List UInt8)
  /-- `FreeSpace` is about to read `*head`. -/
  | readHead (pData : List UInt8) (uiTail : ℕ)
  /-- The offset argument of `CopyDataInQueue` is about to be read. -/
  | readOffset (pData : List UInt8)
  /-- The byte writes still to be done; when none is left, `AddOffset` reads
  the tail. -/
  | copy (pData : List UInt8) (todo : List (ℕ × UInt8))
  /-- `AddOffset` is about to compare and swap the tail. -/
  | swapTail (pData : List UInt8) (uiOldOffset : ℕ)

/-- Where the consumer is within `OutQueue`. -/
inductive ConsumerPc where
  | idle
  /-- `UsedSpace` is about to read `*tail`. -/
  | readTail (uiDataLen : ℕ)
  /-- `UsedSpace` is about to read `*head`. -/
  | readHead (uiDataLen uiTail : ℕ)
  /-- The offset argument of `CopyDataOutQueue` is about to be read. -/
  | readOffset (uiDataLen : ℕ)
  /-- The cells of the length word still to be read, and the bytes read. -/
  | readLen (uiDataLen offset : ℕ) (todo : List ℕ) (got : List UInt8)
  /-- The cells of the data still to be read, and the bytes read. -/
  | readData (uiDataLen len : ℕ) (todo : List ℕ) (got : List UInt8)
  /-- `AddOffset` is about to read the head. -/
  | loadHead (uiDataLen : ℕ) (result : CShmQueue.OutResult)
  /-- `AddOffset` is about to compare and swap the head. -/
  | swapHead (uiDataLen : ℕ) (result : CShmQueue.OutResult) (uiOldOffset : ℕ)

/-- The segment and the two processes.  `published` and `taken` are history:
the messages whose `AddTail` has taken effect and, for each `AddHead` that has,
the buffer size and the result of that `OutQueue`. -/
structure QueueState where
  queue : CShmQueue
  producer : ProducerPc
  consumer : ConsumerPc
  published : List (List UInt8)
  taken : List (ℕ × CShmQueue.OutResult)

inductive QueueAction where
  | callInQueue (pData : List UInt8)
  | stepProducer
  | callOutQueue (uiDataLen : ℕ)
  | stepConsumer

namespace QueueState

/-- One shared-memory access of the producer. -/
def stepProducer (state : QueueState) : Option QueueState :=
  let size := state.queue.queueDataSize
  match state.producer with
  | .idle => none
  | .readTail pData =>
      some { state with producer := .readHead pData state.queue.uiTail }
  | .readHead pData uiTail =>
      if freeSpace size state.queue.uiHead uiTail < u32 (pData.length + 4) then
        some { state with producer := .idle }
      else some { state with producer := .readOffset pData }
  | .readOffset pData =>
      some { state with
        producer := .copy pData (copyDataInQueue size pData state.queue.uiTail) }
  | .copy pData (write :: todo) =>
      some { state with
        queue := { state.queue with
          queueData := store state.queue.queueData [write] }
        producer := .copy pData todo }
  | .copy pData [] =>
      some { state with producer := .swapTail pData state.queue.uiTail }
  | .swapTail pData uiOldOffset =>
      if state.queue.uiTail = uiOldOffset then
        some { state with
          queue := { state.queue with
            uiTail := addOffset size uiOldOffset (u32 (pData.length + 4)) }
          producer := .idle
          published := state.published ++ [pData] }
      else some { state with producer := .idle }

/-- One shared-memory access of the consumer. -/
def stepConsumer (state : QueueState) : Option QueueState :=
  let size := state.queue.queueDataSize
  match state.consumer with
  | .idle => none
  | .readTail uiDataLen =>
      some { state with consumer := .readHead uiDataLen state.queue.uiTail }
  | .readHead uiDataLen uiTail =>
      if usedSpace size state.queue.uiHead uiTail < 4 then
        some { state with consumer := .idle }
      else some { state with consumer := .readOffset uiDataLen }
  | .readOffset uiDataLen =>
      some { state with
        consumer := .readLen uiDataLen state.queue.uiHead
          (lenCells size state.queue.uiHead) [] }
  | .readLen uiDataLen offset (cell :: todo) got =>
      some { state with
        consumer := .readLen uiDataLen offset todo
          (got ++ [state.queue.queueData cell]) }
  | .readLen uiDataLen offset [] got =>
      let len := wordValue got
      if uiDataLen < len then
        some { state with
          consumer := .loadHead uiDataLen ⟨eShmQueueDataLen, len, []⟩ }
      else
        some { state with
          consumer := .readData uiDataLen len (dataCells size offset len) [] }
  | .readData uiDataLen len (cell :: todo) got =>
      some { state with
        consumer := .readData uiDataLen len todo
          (got ++ [state.queue.queueData cell]) }
  | .readData uiDataLen len [] got =>
      some { state with consumer := .loadHead uiDataLen ⟨success, len, got⟩ }
  | .loadHead uiDataLen result =>
      some { state with
        consumer := .swapHead uiDataLen result state.queue.uiHead }
  | .swapHead uiDataLen result uiOldOffset =>
      if state.queue.uiHead = uiOldOffset then
        some { state with
          queue := { state.queue with
            uiHead := addOffset size uiOldOffset
              (u32 (result.uiDataLen + 4)) }
          consumer := .idle
          taken := state.taken ++ [(uiDataLen, result)] }
      else some { state with consumer := .idle }

/-- A process calls its operation when its last call has returned.  A message
of length zero is refused before the segment is touched. -/
def step (state : QueueState) : QueueAction → Option QueueState
  | .callInQueue pData =>
      match state.producer with
      | .idle =>
          if pData.length = 0 then some state
          else some { state with producer := .readTail pData }
      | _ => none
  | .stepProducer => state.stepProducer
  | .callOutQueue uiDataLen =>
      match state.consumer with
      | .idle => some { state with consumer := .readTail uiDataLen }
      | _ => none
  | .stepConsumer => state.stepConsumer

end QueueState

/-- Packets are far shorter than the range of `unsigned int`. -/
def QueueAction.Allowed (_ : QueueState) : QueueAction → Prop
  | .callInQueue pData => pData.length + 4 < 2 ^ 32
  | _ => True

instance (state : QueueState) : DecidablePred (QueueAction.Allowed state)
  | .callInQueue pData =>
      inferInstanceAs (Decidable (pData.length + 4 < 2 ^ 32))
  | .stepProducer => inferInstanceAs (Decidable True)
  | .callOutQueue _ => inferInstanceAs (Decidable True)
  | .stepConsumer => inferInstanceAs (Decidable True)

/-- The ring cell the consumer is about to read. -/
def ConsumerPc.nextCell : ConsumerPc → Option ℕ
  | .readLen _ _ (cell :: _) _ => some cell
  | .readData _ _ (cell :: _) _ => some cell
  | _ => none

/-- What `OutQueue` hands over for a message, given the size of its buffer. -/
def outcome (uiDataLen : ℕ) (message : List UInt8) : CShmQueue.OutResult :=
  if uiDataLen < message.length then
    ⟨eShmQueueDataLen, message.length, []⟩
  else ⟨success, message.length, message⟩

/-! ## The invariant -/

/-- What the producer relies on at each point of `InQueue`. -/
def ProducerOk (queue : CShmQueue) (pending : List (List UInt8)) :
    ProducerPc → Prop
  | .idle => True
  | .readTail pData => pData.length + 4 < 2 ^ 32
  | .readHead pData uiTail =>
      pData.length + 4 < 2 ^ 32 ∧ uiTail = queue.uiTail
  | .readOffset pData =>
      usedBytes pending + (pData.length + 4) < queue.queueDataSize
  | .copy pData todo =>
      usedBytes pending + (pData.length + 4) < queue.queueDataSize ∧
      ∃ written,
        written ++ todo =
          (ringCells queue.queueDataSize queue.uiTail
            (pData.length + 4)).zip (frame pData) ∧
        ∀ write ∈ written, queue.queueData write.1 = write.2
  | .swapTail pData uiOldOffset =>
      usedBytes pending + (pData.length + 4) < queue.queueDataSize ∧
      uiOldOffset = queue.uiTail ∧
      ringRead queue.queueDataSize queue.queueData queue.uiTail
        (pData.length + 4) = frame pData

/-- What the consumer relies on at each point of `OutQueue`.  It mentions the
oldest message and the head only, which the producer never changes. -/
def ConsumerOk (size uiHead : ℕ) (pending : List (List UInt8)) :
    ConsumerPc → Prop
  | .idle => True
  | .readTail _ => True
  | .readHead _ uiTail => uiTail = uiHead ∨ pending ≠ []
  | .readOffset _ => pending ≠ []
  | .readLen _ offset todo got =>
      offset = uiHead ∧ ∃ message rest, pending = message :: rest ∧
        got = (wordBytes message.length).take got.length ∧
        todo = (ringCells size uiHead 4).drop got.length
  | .readData uiDataLen len todo got =>
      ∃ message rest, pending = message :: rest ∧ len = message.length ∧
        ¬ uiDataLen < message.length ∧
        got = message.take got.length ∧
        todo = (ringCells size (uiHead + 4) message.length).drop got.length
  | .loadHead uiDataLen result =>
      ∃ message rest, pending = message :: rest ∧
        result = outcome uiDataLen message
  | .swapHead uiDataLen result uiOldOffset =>
      uiOldOffset = uiHead ∧ ∃ message rest, pending = message :: rest ∧
        result = outcome uiDataLen message

/-- The ring holds `pending`, which is what was published and not yet taken;
`finished` are the messages taken, each with the result it must have given. -/
structure QueueState.Invariant
    (state : QueueState) (finished pending : List (List UInt8)) : Prop where
  holds : state.queue.Holds pending
  published_eq : state.published = finished ++ pending
  taken_eq : List.Forall₂ (fun entry message =>
    entry.2 = outcome entry.1 message) state.taken finished
  producer_ok : ProducerOk state.queue pending state.producer
  consumer_ok : ConsumerOk state.queue.queueDataSize state.queue.uiHead
    pending state.consumer

/-- The consumer does not disturb the producer: it leaves the ring bytes and
the tail alone and the messages only become fewer. -/
theorem ProducerOk.of_consumed
    {queue : CShmQueue} {pending remaining : List (List UInt8)}
    {pc : ProducerPc} (hok : ProducerOk queue pending pc)
    (hless : usedBytes remaining ≤ usedBytes pending) (uiHead : ℕ) :
    ProducerOk { queue with uiHead := uiHead } remaining pc := by
  cases pc with
  | idle => exact trivial
  | readTail pData => exact hok
  | readHead pData uiTail => exact hok
  | readOffset pData => exact lt_of_le_of_lt (Nat.add_le_add_right hless _) hok
  | copy pData todo =>
      exact ⟨lt_of_le_of_lt (Nat.add_le_add_right hless _) hok.1, hok.2⟩
  | swapTail pData uiOldOffset =>
      exact ⟨lt_of_le_of_lt (Nat.add_le_add_right hless _) hok.1, hok.2⟩

/-- The producer does not disturb the consumer: the oldest message stays the
oldest. -/
theorem ConsumerOk.of_produced
    {size uiHead : ℕ} {pending : List (List UInt8)} {pc : ConsumerPc}
    (hok : ConsumerOk size uiHead pending pc) (message : List UInt8) :
    ConsumerOk size uiHead (pending ++ [message]) pc := by
  cases pc with
  | idle => exact trivial
  | readTail uiDataLen => exact trivial
  | readHead uiDataLen uiTail => exact Or.inr (by simp)
  | readOffset uiDataLen => simp [ConsumerOk]
  | readLen uiDataLen offset todo got =>
      obtain ⟨hoffset, oldest, rest, hpending, hread⟩ := hok
      exact ⟨hoffset, oldest, rest ++ [message], by simp [hpending], hread⟩
  | readData uiDataLen len todo got =>
      obtain ⟨oldest, rest, hpending, hread⟩ := hok
      exact ⟨oldest, rest ++ [message], by simp [hpending], hread⟩
  | loadHead uiDataLen result =>
      obtain ⟨oldest, rest, hpending, hresult⟩ := hok
      exact ⟨oldest, rest ++ [message], by simp [hpending], hresult⟩
  | swapHead uiDataLen result uiOldOffset =>
      obtain ⟨hold, oldest, rest, hpending, hresult⟩ := hok
      exact ⟨hold, oldest, rest ++ [message], by simp [hpending], hresult⟩

/-! ## Steps keep the invariant -/

/-- How a step changes the messages in the ring: not at all, or by the swap
that completes the operation under way. -/
def StepEffect
    (state : QueueState) (action : QueueAction)
    (finished pending finished' pending' : List (List UInt8)) : Prop :=
  (finished' = finished ∧ pending' = pending) ∨
  (action = .stepProducer ∧ finished' = finished ∧
    ∃ pData uiOldOffset, state.producer = .swapTail pData uiOldOffset ∧
      pending' = pending ++ [pData]) ∨
  (action = .stepConsumer ∧
    ∃ uiDataLen result uiOldOffset message,
      state.consumer = .swapHead uiDataLen result uiOldOffset ∧
      pending = message :: pending' ∧ finished' = finished ++ [message])

section Steps

variable {state next : QueueState} {finished pending : List (List UInt8)}

/-- A producer step that changes nothing but its program counter. -/
theorem QueueState.Invariant.producerAt
    (hinv : state.Invariant finished pending) {pc : ProducerPc}
    (hpc : ProducerOk state.queue pending pc) :
    QueueState.Invariant { state with producer := pc } finished pending :=
  { hinv with producer_ok := hpc }

/-- A consumer step that changes nothing but its program counter. -/
theorem QueueState.Invariant.consumerAt
    (hinv : state.Invariant finished pending) {pc : ConsumerPc}
    (hpc : ConsumerOk state.queue.queueDataSize state.queue.uiHead
      pending pc) :
    QueueState.Invariant { state with consumer := pc } finished pending :=
  { hinv with consumer_ok := hpc }

/-- The byte writes under way go to the distinct free cells behind the
tail. -/
theorem QueueState.Invariant.write_cells
    (hinv : state.Invariant finished pending) {pData : List UInt8}
    {todo : List (ℕ × UInt8)}
    (hpc : state.producer = .copy pData todo) :
    ∃ written,
      (written ++ todo).map Prod.fst =
        ringCells state.queue.queueDataSize state.queue.uiTail
          (pData.length + 4) ∧
      ((written ++ todo).map Prod.fst).Nodup ∧
      written ++ todo =
        (ringCells state.queue.queueDataSize state.queue.uiTail
          (pData.length + 4)).zip (frame pData) ∧
      ∀ write ∈ written, state.queue.queueData write.1 = write.2 := by
  have hok := hinv.producer_ok
  rw [hpc] at hok
  obtain ⟨hroom, written, hsplit, hwritten⟩ := hok
  have haddresses :
      (written ++ todo).map Prod.fst =
        ringCells state.queue.queueDataSize state.queue.uiTail
          (pData.length + 4) := by
    rw [hsplit, List.map_fst_zip (by simp)]
  refine ⟨written, haddresses, ?_, hsplit, hwritten⟩
  rw [haddresses]
  exact ringCells_nodup (by omega)

theorem QueueState.Invariant.written_free
    (hinv : state.Invariant finished pending) {pData : List UInt8}
    {write : ℕ × UInt8} {todo : List (ℕ × UInt8)}
    (hpc : state.producer = .copy pData (write :: todo)) :
    write.1 < state.queue.queueDataSize ∧
      write.1 ∉ ringCells state.queue.queueDataSize state.queue.uiHead
        (usedBytes pending) := by
  have hok := hinv.producer_ok
  rw [hpc] at hok
  have hroom := hok.1
  obtain ⟨written, haddresses, _, _, _⟩ := hinv.write_cells hpc
  have hcell : write.1 ∈ ringCells state.queue.queueDataSize
      state.queue.uiTail (pData.length + 4) := by
    rw [← haddresses]
    simp
  exact ⟨ringCells_lt (by omega) hcell,
    hinv.holds.free_cells (by omega) write.1 hcell⟩

theorem QueueState.Invariant.copyByte
    (hinv : state.Invariant finished pending) {pData : List UInt8}
    {write : ℕ × UInt8} {todo : List (ℕ × UInt8)}
    (hpc : state.producer = .copy pData (write :: todo)) :
    QueueState.Invariant { state with
      queue := { state.queue with
        queueData := store state.queue.queueData [write] }
      producer := .copy pData todo } finished pending := by
  have hfree := (hinv.written_free hpc).2
  obtain ⟨written, _, hnodup, hsplit, hwritten⟩ := hinv.write_cells hpc
  have hok := hinv.producer_ok
  rw [hpc] at hok
  refine ⟨hinv.holds.store (by simpa using hfree), hinv.published_eq,
    hinv.taken_eq, ⟨hok.1, written ++ [write], by simpa using hsplit, ?_⟩,
    hinv.consumer_ok⟩
  intro earlier hearlier
  rcases List.mem_append.mp hearlier with hbefore | hlast
  · -- the addresses of a frame are distinct, so earlier bytes stay
    have hne : earlier.1 ≠ write.1 := by
      rw [List.map_append, List.nodup_append'] at hnodup
      intro heq
      apply hnodup.2.2 (List.mem_map_of_mem hbefore)
      simp [heq]
    simpa [store, Function.update, hne] using hwritten earlier hbefore
  · rw [List.mem_singleton.mp hlast]
    simp [store]

/-- The byte read next belongs to the oldest message. -/
theorem QueueState.Invariant.read_used
    (hinv : state.Invariant finished pending) {cell : ℕ}
    (hcell : state.consumer.nextCell = some cell) :
    cell ∈ ringCells state.queue.queueDataSize state.queue.uiHead
      (usedBytes pending) := by
  have hok := hinv.consumer_ok
  cases hpc : state.consumer with
  | readLen uiDataLen offset todo got =>
      cases todo with
      | nil => simp [hpc, ConsumerPc.nextCell] at hcell
      | cons next todo =>
          simp only [hpc, ConsumerPc.nextCell, Option.some.injEq] at hcell
          subst next
          rw [hpc] at hok
          obtain ⟨_, message, rest, rfl, _, htodo⟩ := hok
          rw [usedBytes_cons, Nat.add_comm message.length 4, Nat.add_assoc,
            ringCells_add]
          apply List.mem_append_left
          apply List.mem_of_mem_drop
          rw [← htodo]
          simp
  | readData uiDataLen len todo got =>
      cases todo with
      | nil => simp [hpc, ConsumerPc.nextCell] at hcell
      | cons next todo =>
          simp only [hpc, ConsumerPc.nextCell, Option.some.injEq] at hcell
          subst next
          rw [hpc] at hok
          obtain ⟨message, rest, rfl, _, _, _, htodo⟩ := hok
          rw [usedBytes_cons, Nat.add_comm message.length 4, ringCells_add,
            ringCells_add]
          apply List.mem_append_left
          apply List.mem_append_right
          apply List.mem_of_mem_drop
          rw [← htodo]
          simp
  | idle | readTail | readHead | readOffset | loadHead | swapHead =>
      simp [hpc, ConsumerPc.nextCell] at hcell

theorem stepProducer_invariant
    (hinv : state.Invariant finished pending)
    (hstep : state.stepProducer = some next) :
    ∃ finished' pending', next.Invariant finished' pending' ∧
      StepEffect state .stepProducer finished pending finished' pending' := by
  have hok := hinv.producer_ok
  have hsize := hinv.holds.size_lt
  unfold QueueState.stepProducer at hstep
  cases hpc : state.producer with
  | idle => simp [hpc] at hstep
  | readTail pData =>
      rw [hpc] at hok
      simp only [hpc, Option.some.injEq] at hstep
      subst next
      exact ⟨finished, pending, hinv.producerAt ⟨hok, rfl⟩, Or.inl ⟨rfl, rfl⟩⟩
  | readHead pData uiTail =>
      rw [hpc] at hok
      obtain ⟨hlen, rfl⟩ := hok
      simp only [hpc] at hstep
      rw [hinv.holds.freeSpace_eq, u32_of_lt hlen] at hstep
      split_ifs at hstep with hfull
      · simp only [Option.some.injEq] at hstep
        subst next
        exact ⟨finished, pending, hinv.producerAt trivial,
          Or.inl ⟨rfl, rfl⟩⟩
      · simp only [Option.some.injEq] at hstep
        subst next
        have hused := hinv.holds.used_lt
        refine ⟨finished, pending, hinv.producerAt ?_, Or.inl ⟨rfl, rfl⟩⟩
        simp only [ProducerOk]
        omega
  | readOffset pData =>
      rw [hpc] at hok
      simp only [ProducerOk] at hok
      simp only [hpc, Option.some.injEq] at hstep
      subst next
      refine ⟨finished, pending, hinv.producerAt ⟨hok, [], ?_, by simp⟩,
        Or.inl ⟨rfl, rfl⟩⟩
      rw [List.nil_append]
      exact copyDataInQueue_eq hinv.holds.tail_lt (by omega) (by omega)
  | copy pData todo =>
      cases todo with
      | cons write todo =>
          simp only [hpc, Option.some.injEq] at hstep
          subst next
          exact ⟨finished, pending, hinv.copyByte hpc, Or.inl ⟨rfl, rfl⟩⟩
      | nil =>
          rw [hpc] at hok
          obtain ⟨hroom, written, hsplit, hwritten⟩ := hok
          simp only [hpc, Option.some.injEq] at hstep
          subst next
          rw [List.append_nil] at hsplit
          subst written
          exact ⟨finished, pending,
            hinv.producerAt
              ⟨hroom, rfl, map_eq_of_written (by simp) hwritten⟩,
            Or.inl ⟨rfl, rfl⟩⟩
  | swapTail pData uiOldOffset =>
      rw [hpc] at hok
      obtain ⟨hroom, rfl, hframe⟩ := hok
      simp only [hpc, if_true, Option.some.injEq] at hstep
      subst next
      refine ⟨finished, pending ++ [pData],
        ⟨hinv.holds.addTail hroom hframe, ?_, hinv.taken_eq, trivial,
          hinv.consumer_ok.of_produced pData⟩,
        Or.inr (Or.inl ⟨rfl, rfl, pData, _, hpc, rfl⟩)⟩
      simp [hinv.published_eq]

theorem QueueState.Invariant.readLenByte
    (hinv : state.Invariant finished pending)
    {uiDataLen offset cell : ℕ} {todo : List ℕ} {got : List UInt8}
    (hpc : state.consumer = .readLen uiDataLen offset (cell :: todo) got) :
    ConsumerOk state.queue.queueDataSize state.queue.uiHead pending
      (.readLen uiDataLen offset todo
        (got ++ [state.queue.queueData cell])) := by
  have hok := hinv.consumer_ok
  rw [hpc] at hok
  obtain ⟨hoffset, message, rest, hpending, hgot, htodo⟩ := hok
  have hholds := hinv.holds
  rw [hpending] at hholds
  obtain ⟨hgot', htodo'⟩ := read_next hholds.bytes_cons.1 hgot htodo.symm
  exact ⟨hoffset, message, rest, hpending, hgot', htodo'.symm⟩

theorem QueueState.Invariant.readDataByte
    (hinv : state.Invariant finished pending)
    {uiDataLen len cell : ℕ} {todo : List ℕ} {got : List UInt8}
    (hpc : state.consumer = .readData uiDataLen len (cell :: todo) got) :
    ConsumerOk state.queue.queueDataSize state.queue.uiHead pending
      (.readData uiDataLen len todo
        (got ++ [state.queue.queueData cell])) := by
  have hok := hinv.consumer_ok
  rw [hpc] at hok
  obtain ⟨message, rest, hpending, hlen, hfits, hgot, htodo⟩ := hok
  have hholds := hinv.holds
  rw [hpending] at hholds
  obtain ⟨hgot', htodo'⟩ := read_next hholds.bytes_cons.2.1 hgot htodo.symm
  exact ⟨message, rest, hpending, hlen, hfits, hgot', htodo'.symm⟩

/-- A partly read list with no cell left has been read completely. -/
theorem take_of_drop_nil
    {cells : List ℕ} {values got : List UInt8}
    (hlength : cells.length = values.length)
    (hgot : got = values.take got.length)
    (htodo : [] = cells.drop got.length) : got = values := by
  have hge : cells.length ≤ got.length := by
    simpa using List.drop_eq_nil_iff.mp htodo.symm
  rw [hgot, List.take_of_length_le (by omega)]

theorem outcome_len (uiDataLen : ℕ) (message : List UInt8) :
    (outcome uiDataLen message).uiDataLen = message.length := by
  unfold outcome
  split_ifs <;> rfl

/-- The tail is the head exactly when nothing is pending. -/
theorem QueueState.Invariant.tailRead
    (hinv : state.Invariant finished pending) (uiDataLen : ℕ) :
    ConsumerOk state.queue.queueDataSize state.queue.uiHead pending
      (.readHead uiDataLen state.queue.uiTail) := by
  cases pending with
  | nil =>
      left
      have htail := hinv.holds.tail_eq
      rw [usedBytes_nil, Nat.add_zero,
        Nat.mod_eq_of_lt hinv.holds.head_lt] at htail
      exact htail
  | cons message rest => exact Or.inr (by simp)

/-- A tail that was ahead of the head shows that a message is pending, however
old it is by now. -/
theorem QueueState.Invariant.headRead
    (hinv : state.Invariant finished pending) {uiDataLen uiTail : ℕ}
    (hpc : state.consumer = .readHead uiDataLen uiTail)
    (hused : ¬ usedSpace state.queue.queueDataSize state.queue.uiHead
      uiTail < 4) : pending ≠ [] := by
  have hok := hinv.consumer_ok
  rw [hpc] at hok
  rcases hok with rfl | hpending
  · exfalso
    apply hused
    have hhead := hinv.holds.head_lt
    have hsize := hinv.holds.size_lt
    unfold usedSpace
    rw [if_pos le_rfl, sub32_of_le le_rfl (by omega)]
    omega
  · exact hpending

theorem QueueState.Invariant.lenRead
    (hinv : state.Invariant finished pending)
    {uiDataLen offset : ℕ} {got : List UInt8}
    (hpc : state.consumer = .readLen uiDataLen offset [] got) :
    offset = state.queue.uiHead ∧ ∃ message rest, pending = message :: rest ∧
      wordValue got = message.length := by
  have hok := hinv.consumer_ok
  have hsize := hinv.holds.size_lt
  rw [hpc] at hok
  obtain ⟨rfl, message, rest, rfl, hgot, htodo⟩ := hok
  have hfits := hinv.holds.message_fits
  refine ⟨rfl, message, rest, rfl, ?_⟩
  rw [take_of_drop_nil (by simp) hgot htodo, wordValue_wordBytes (by omega)]

/-- The swap of the head removes the oldest message. -/
theorem QueueState.Invariant.swapped
    {message : List UInt8} {rest : List (List UInt8)} {uiDataLen : ℕ}
    (hinv : state.Invariant finished (message :: rest)) :
    QueueState.Invariant { state with
      queue := { state.queue with
        uiHead := addOffset state.queue.queueDataSize state.queue.uiHead
          (u32 (message.length + 4)) }
      consumer := .idle
      taken := state.taken ++ [(uiDataLen, outcome uiDataLen message)] }
      (finished ++ [message]) rest := by
  have hless : usedBytes rest ≤ usedBytes (message :: rest) := by
    rw [usedBytes_cons]
    omega
  refine ⟨hinv.holds.addHead, ?_, ?_,
    hinv.producer_ok.of_consumed hless _, trivial⟩
  · simp [hinv.published_eq]
  · exact List.rel_append hinv.taken_eq
      (List.Forall₂.cons rfl List.Forall₂.nil)

theorem stepConsumer_invariant
    (hinv : state.Invariant finished pending)
    (hstep : state.stepConsumer = some next) :
    ∃ finished' pending', next.Invariant finished' pending' ∧
      StepEffect state .stepConsumer finished pending finished' pending' := by
  have hok := hinv.consumer_ok
  have hholds := hinv.holds
  have hsize := hholds.size_lt
  unfold QueueState.stepConsumer at hstep
  cases hpc : state.consumer with
  | idle => simp [hpc] at hstep
  | readTail uiDataLen =>
      simp only [hpc, Option.some.injEq] at hstep
      subst next
      exact ⟨finished, pending, hinv.consumerAt (hinv.tailRead uiDataLen),
        Or.inl ⟨rfl, rfl⟩⟩
  | readHead uiDataLen uiTail =>
      simp only [hpc] at hstep
      split_ifs at hstep with hempty
      · simp only [Option.some.injEq] at hstep
        subst next
        exact ⟨finished, pending, hinv.consumerAt trivial,
          Or.inl ⟨rfl, rfl⟩⟩
      · simp only [Option.some.injEq] at hstep
        subst next
        exact ⟨finished, pending, hinv.consumerAt (hinv.headRead hpc hempty),
          Or.inl ⟨rfl, rfl⟩⟩
  | readOffset uiDataLen =>
      rw [hpc] at hok
      simp only [hpc, Option.some.injEq] at hstep
      subst next
      refine ⟨finished, pending, hinv.consumerAt ?_, Or.inl ⟨rfl, rfl⟩⟩
      obtain ⟨message, rest, rfl⟩ := List.exists_cons_of_ne_nil hok
      have hfits := hholds.message_fits
      refine ⟨rfl, message, rest, rfl, rfl, ?_⟩
      rw [lenCells_eq hholds.head_lt (by omega) (by omega)]
      rfl
  | readLen uiDataLen offset todo got =>
      cases todo with
      | cons cell todo =>
          simp only [hpc, Option.some.injEq] at hstep
          subst next
          exact ⟨finished, pending, hinv.consumerAt (hinv.readLenByte hpc),
            Or.inl ⟨rfl, rfl⟩⟩
      | nil =>
          obtain ⟨rfl, message, rest, rfl, hword⟩ := hinv.lenRead hpc
          simp only [hpc, hword] at hstep
          split_ifs at hstep with hsmall
          · simp only [Option.some.injEq] at hstep
            subst next
            refine ⟨finished, message :: rest, hinv.consumerAt
              ⟨message, rest, rfl, ?_⟩, Or.inl ⟨rfl, rfl⟩⟩
            rw [outcome, if_pos hsmall]
          · simp only [Option.some.injEq] at hstep
            subst next
            refine ⟨finished, message :: rest, hinv.consumerAt
              ⟨message, rest, rfl, rfl, hsmall, rfl, ?_⟩,
              Or.inl ⟨rfl, rfl⟩⟩
            rw [dataCells_eq hholds.head_lt (by omega) hholds.message_fits.le]
            rfl
  | readData uiDataLen len todo got =>
      cases todo with
      | cons cell todo =>
          simp only [hpc, Option.some.injEq] at hstep
          subst next
          exact ⟨finished, pending, hinv.consumerAt (hinv.readDataByte hpc),
            Or.inl ⟨rfl, rfl⟩⟩
      | nil =>
          rw [hpc] at hok
          obtain ⟨message, rest, hpending, rfl, hlarge, hgot, htodo⟩ := hok
          simp only [hpc, Option.some.injEq] at hstep
          subst next
          refine ⟨finished, pending, hinv.consumerAt
            ⟨message, rest, hpending, ?_⟩, Or.inl ⟨rfl, rfl⟩⟩
          rw [outcome, if_neg hlarge,
            take_of_drop_nil (by simp) hgot htodo]
  | loadHead uiDataLen result =>
      rw [hpc] at hok
      simp only [hpc, Option.some.injEq] at hstep
      subst next
      exact ⟨finished, pending, hinv.consumerAt ⟨rfl, hok⟩,
        Or.inl ⟨rfl, rfl⟩⟩
  | swapHead uiDataLen result uiOldOffset =>
      rw [hpc] at hok
      obtain ⟨rfl, message, rest, rfl, rfl⟩ := hok
      simp only [hpc, if_true, Option.some.injEq] at hstep
      subst next
      rw [outcome_len]
      exact ⟨finished ++ [message], rest, hinv.swapped,
        Or.inr (Or.inr ⟨rfl, _, _, _, message, hpc, rfl, rfl⟩)⟩

theorem step_invariant
    (hinv : state.Invariant finished pending) {action : QueueAction}
    (hallowed : action.Allowed state)
    (hstep : state.step action = some next) :
    ∃ finished' pending', next.Invariant finished' pending' ∧
      StepEffect state action finished pending finished' pending' := by
  cases action with
  | callInQueue pData =>
      simp only [QueueState.step] at hstep
      cases hpc : state.producer with
      | idle =>
          simp only [hpc] at hstep
          split_ifs at hstep with hempty
          · simp only [Option.some.injEq] at hstep
            subst next
            exact ⟨finished, pending, hinv, Or.inl ⟨rfl, rfl⟩⟩
          · simp only [Option.some.injEq] at hstep
            subst next
            exact ⟨finished, pending, hinv.producerAt hallowed,
              Or.inl ⟨rfl, rfl⟩⟩
      | readTail | readHead | readOffset | copy | swapTail =>
          simp [hpc] at hstep
  | stepProducer => exact stepProducer_invariant hinv hstep
  | callOutQueue uiDataLen =>
      simp only [QueueState.step] at hstep
      cases hpc : state.consumer with
      | idle =>
          simp only [hpc, Option.some.injEq] at hstep
          subst next
          exact ⟨finished, pending, hinv.consumerAt trivial,
            Or.inl ⟨rfl, rfl⟩⟩
      | readTail | readHead | readOffset | readLen | readData | loadHead
      | swapHead => simp [hpc] at hstep
  | stepConsumer => exact stepConsumer_invariant hinv hstep

end Steps

/-- Both processes idle on an empty ring. -/
def QueueState.start (queue : CShmQueue) : QueueState where
  queue := queue
  producer := .idle
  consumer := .idle
  published := []
  taken := []

theorem reachable_invariant
    {queue : CShmQueue} (hsize : queue.queueDataSize < 2 ^ 31)
    (hhead : queue.uiHead < queue.queueDataSize)
    (hempty : queue.uiTail = queue.uiHead)
    {state : QueueState}
    (hreach : Reaches QueueState.step (fun state action =>
      action.Allowed state) (.start queue) state) :
    ∃ finished pending, state.Invariant finished pending := by
  refine hreach.invariant (fun state => ∃ finished pending,
    state.Invariant finished pending) ?_ ?_
  · exact ⟨[], [], holds_of_empty hsize hhead hempty, rfl,
      List.Forall₂.nil, trivial, trivial⟩
  · rintro before after action ⟨finished, pending, hinv⟩ hallowed hstep
    obtain ⟨finished', pending', hinv', _⟩ :=
      step_invariant hinv hallowed hstep
    exact ⟨finished', pending', hinv'⟩

end MessageBus.ShmQueue
