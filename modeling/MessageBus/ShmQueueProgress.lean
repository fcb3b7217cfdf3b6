import MessageBus.ShmQueueConcurrent

/-!
# Calls on a `CShmQueue` come to an end

Neither process waits for the other: `InQueue` and `OutQueue` are loops over the
bytes of one message, so each ends after a number of its own steps that is known
beforehand, whatever the other process does in between.  A call of `OutQueue` on
a ring with messages takes the oldest one, and one of `InQueue` on a ring with
room publishes its own.
-/

namespace MessageBus.ShmQueue

open ByteRing
open Transition

/-! ## What is left of a call -/

/-- How many steps `InQueue` still takes, at most. -/
def ProducerPc.left : ProducerPc → ℕ
  | .idle => 0
  | .readTail pData => pData.length + 9
  | .readHead pData _ => pData.length + 8
  | .readOffset pData => pData.length + 7
  | .copy _ todo => todo.length + 2
  | .swapTail _ _ => 1

/-- How many steps `OutQueue` still takes, at most, when the oldest message has
no more than `len` bytes. -/
def ConsumerPc.left (len : ℕ) : ConsumerPc → ℕ
  | .idle => 0
  | .readTail _ => len + 11
  | .readHead _ _ => len + 10
  | .readOffset _ => len + 9
  | .readLen _ _ todo _ => todo.length + len + 4
  | .readData _ _ todo _ => todo.length + 3
  | .loadHead _ _ => 2
  | .swapHead _ _ _ => 1

theorem ProducerPc.left_pos {pc : ProducerPc} (hbusy : pc ≠ .idle) :
    0 < pc.left := by
  cases pc with
  | idle => exact absurd rfl hbusy
  | readTail | readHead | readOffset | copy | swapTail =>
      simp [ProducerPc.left]

theorem ConsumerPc.left_pos {pc : ConsumerPc} (hbusy : pc ≠ .idle) (len : ℕ) :
    0 < pc.left len := by
  cases pc with
  | idle => exact absurd rfl hbusy
  | readTail | readHead | readOffset | readLen | readData | loadHead
  | swapHead => simp [ConsumerPc.left]

/-- The producer is putting this message in. -/
def ProducerPc.Serves (pData : List UInt8) : ProducerPc → Prop
  | .idle => False
  | .readTail data => data = pData
  | .readHead data _ => data = pData
  | .readOffset data => data = pData
  | .copy data _ => data = pData
  | .swapTail data _ => data = pData

/-- The consumer is in a call with this buffer size, and the tail it has read
shows that there is a message. -/
def ConsumerPc.Serves (queueDataSize uiHead uiDataLen : ℕ) :
    ConsumerPc → Prop
  | .idle => False
  | .readTail size => size = uiDataLen
  | .readHead size uiTail =>
      size = uiDataLen ∧ 4 ≤ usedSpace queueDataSize uiHead uiTail
  | .readOffset size => size = uiDataLen
  | .readLen size _ _ _ => size = uiDataLen
  | .readData size _ _ _ => size = uiDataLen
  | .loadHead size _ => size = uiDataLen
  | .swapHead size _ _ => size = uiDataLen

def QueueAction.ofProducer : QueueAction → Bool
  | .stepProducer => true
  | _ => false

def QueueAction.ofConsumer : QueueAction → Bool
  | .stepConsumer => true
  | _ => false

namespace QueueState

def run (state : QueueState) (actions : List QueueAction) :
    Option QueueState :=
  replay step (fun state action => action.Allowed state) state actions

/-- The run of some actions passes a state with `Goal`. -/
def Passes (state : QueueState) (actions : List QueueAction)
    (Goal : QueueState → Prop) : Prop :=
  Transition.Passes step (fun state action => action.Allowed state) state
    actions Goal

/-- Calls can be made and can go on.  A call that is under way returns after the
number of its own steps that is left of it.  A message for which the ring has
room is published, and the oldest message is taken, in a call of this length. -/
structure Progresses (state : QueueState) (pending : List (List UInt8)) :
    Prop where
  inQueue_called : state.producer = .idle →
    ∀ pData, ∃ next, state.step (.callInQueue pData) = some next
  outQueue_called : state.consumer = .idle →
    ∀ uiDataLen, ∃ next, state.step (.callOutQueue uiDataLen) = some next
  inQueue_goes_on : state.producer ≠ .idle →
    ∃ next, state.step .stepProducer = some next
  outQueue_goes_on : state.consumer ≠ .idle →
    ∃ next, state.step .stepConsumer = some next
  inQueue_returns : state.producer ≠ .idle →
    ∀ actions final, state.run actions = some final →
      state.producer.left ≤ actions.countP QueueAction.ofProducer →
      state.Passes actions fun after => after.producer = .idle
  outQueue_returns : state.consumer ≠ .idle →
    ∀ actions final, state.run actions = some final →
      state.consumer.left state.queue.queueDataSize ≤
        actions.countP QueueAction.ofConsumer →
      state.Passes actions fun after => after.consumer = .idle
  inQueue_publishes : state.producer = .idle →
    ∀ pData, pData ≠ [] →
      usedBytes pending + (pData.length + 4) < state.queue.queueDataSize →
    ∀ actions final,
      state.run (.callInQueue pData :: actions) = some final →
      pData.length + 9 ≤ actions.countP QueueAction.ofProducer →
      state.Passes (.callInQueue pData :: actions) fun after =>
        after.producer = .idle ∧
          after.published = state.published ++ [pData]
  outQueue_takes : state.consumer = .idle →
    ∀ message rest, pending = message :: rest →
    ∀ uiDataLen actions final,
      state.run (.callOutQueue uiDataLen :: actions) = some final →
      message.length + 11 ≤ actions.countP QueueAction.ofConsumer →
      state.Passes (.callOutQueue uiDataLen :: actions) fun after =>
        after.consumer = .idle ∧
          after.taken = state.taken ++ [(uiDataLen, outcome uiDataLen message)]

end QueueState

/-! ## What a step of the other process leaves alone -/

section Frames

variable {state next : QueueState} {action : QueueAction}

theorem stepProducer_frame (hstep : state.stepProducer = some next) :
    next.consumer = state.consumer ∧ next.taken = state.taken ∧
      next.queue.uiHead = state.queue.uiHead ∧
      next.queue.queueDataSize = state.queue.queueDataSize := by
  unfold QueueState.stepProducer at hstep
  cases hpc : state.producer with
  | idle => simp [hpc] at hstep
  | copy pData todo =>
      cases todo <;> simp only [hpc, Option.some.injEq] at hstep <;>
        subst next <;> exact ⟨rfl, rfl, rfl, rfl⟩
  | readTail | readOffset =>
      simp only [hpc, Option.some.injEq] at hstep
      subst next
      exact ⟨rfl, rfl, rfl, rfl⟩
  | readHead | swapTail =>
      simp only [hpc] at hstep
      split_ifs at hstep <;> cases hstep <;> exact ⟨rfl, rfl, rfl, rfl⟩

theorem stepConsumer_frame (hstep : state.stepConsumer = some next) :
    next.producer = state.producer ∧ next.published = state.published ∧
      next.queue.queueDataSize = state.queue.queueDataSize := by
  unfold QueueState.stepConsumer at hstep
  cases hpc : state.consumer with
  | idle => simp [hpc] at hstep
  | readLen uiDataLen offset todo got =>
      cases todo <;> simp only [hpc] at hstep
      · split_ifs at hstep <;> cases hstep <;> exact ⟨rfl, rfl, rfl⟩
      · cases hstep
        exact ⟨rfl, rfl, rfl⟩
  | readData uiDataLen len todo got =>
      cases todo <;> simp only [hpc, Option.some.injEq] at hstep <;>
        subst next <;> exact ⟨rfl, rfl, rfl⟩
  | readTail | readOffset | loadHead =>
      simp only [hpc, Option.some.injEq] at hstep
      subst next
      exact ⟨rfl, rfl, rfl⟩
  | readHead | swapHead =>
      simp only [hpc] at hstep
      split_ifs at hstep <;> cases hstep <;> exact ⟨rfl, rfl, rfl⟩

/-- While the consumer is in a call, only its own steps move it. -/
theorem step_consumer_frame
    (hother : action.ofConsumer = false) (hbusy : state.consumer ≠ .idle)
    (hstep : state.step action = some next) :
    next.consumer = state.consumer ∧ next.taken = state.taken ∧
      next.queue.uiHead = state.queue.uiHead ∧
      next.queue.queueDataSize = state.queue.queueDataSize := by
  cases action with
  | stepConsumer => cases hother
  | stepProducer => exact stepProducer_frame hstep
  | callOutQueue uiDataLen =>
      -- refused while a call is under way
      simp only [QueueState.step] at hstep
      cases hstep
  | callInQueue pData =>
      simp only [QueueState.step] at hstep
      split at hstep
      · split_ifs at hstep <;> cases hstep <;> exact ⟨rfl, rfl, rfl, rfl⟩
      · cases hstep

/-- While the producer is in a call, only its own steps move it. -/
theorem step_producer_frame
    (hother : action.ofProducer = false) (hbusy : state.producer ≠ .idle)
    (hstep : state.step action = some next) :
    next.producer = state.producer ∧ next.published = state.published ∧
      next.queue.queueDataSize = state.queue.queueDataSize := by
  cases action with
  | stepProducer => cases hother
  | stepConsumer => exact stepConsumer_frame hstep
  | callInQueue pData =>
      -- refused while a call is under way
      simp only [QueueState.step] at hstep
      cases hstep
  | callOutQueue uiDataLen =>
      simp only [QueueState.step] at hstep
      split at hstep
      · cases hstep
        exact ⟨rfl, rfl, rfl⟩
      · cases hstep

theorem stepProducer_of_busy (hbusy : state.producer ≠ .idle) :
    ∃ next, state.stepProducer = some next := by
  unfold QueueState.stepProducer
  cases hpc : state.producer with
  | idle => exact absurd hpc hbusy
  | copy pData todo => cases todo <;> exact ⟨_, rfl⟩
  | readTail | readOffset => exact ⟨_, rfl⟩
  | readHead | swapTail =>
      dsimp only
      split_ifs <;> exact ⟨_, rfl⟩

theorem stepConsumer_of_busy (hbusy : state.consumer ≠ .idle) :
    ∃ next, state.stepConsumer = some next := by
  unfold QueueState.stepConsumer
  cases hpc : state.consumer with
  | idle => exact absurd hpc hbusy
  | readLen uiDataLen offset todo got =>
      cases todo with
      | nil =>
          dsimp only
          split_ifs <;> exact ⟨_, rfl⟩
      | cons cell todo => exact ⟨_, rfl⟩
  | readData uiDataLen len todo got => cases todo <;> exact ⟨_, rfl⟩
  | readTail | readOffset | loadHead => exact ⟨_, rfl⟩
  | readHead | swapHead =>
      dsimp only
      split_ifs <;> exact ⟨_, rfl⟩

end Frames

/-! ## What an own step brings -/

section Steps

variable {state next : QueueState} {finished pending : List (List UInt8)}
  {message : List UInt8} {rest : List (List UInt8)}

theorem stepProducer_left
    (hinv : state.Invariant finished pending)
    (hstep : state.stepProducer = some next) :
    next.producer = .idle ∨ next.producer.left < state.producer.left := by
  have hok := hinv.producer_ok
  have hsize := hinv.holds.size_lt
  unfold QueueState.stepProducer at hstep
  cases hpc : state.producer with
  | idle => simp [hpc] at hstep
  | readTail pData =>
      simp only [hpc, Option.some.injEq] at hstep
      subst next
      exact Or.inr (Nat.lt_succ_self _)
  | readHead pData uiTail =>
      simp only [hpc] at hstep
      split_ifs at hstep
      · cases hstep
        exact Or.inl rfl
      · cases hstep
        exact Or.inr (Nat.lt_succ_self _)
  | readOffset pData =>
      rw [hpc] at hok
      simp only [ProducerOk] at hok
      simp only [hpc, Option.some.injEq] at hstep
      subst next
      right
      rw [copyDataInQueue_eq hinv.holds.tail_lt (by omega) (by omega)]
      simp [ProducerPc.left]
  | copy pData todo =>
      cases todo with
      | cons write todo =>
          simp only [hpc, Option.some.injEq] at hstep
          subst next
          simp [ProducerPc.left]
      | nil =>
          simp only [hpc, Option.some.injEq] at hstep
          subst next
          exact Or.inr (Nat.lt_succ_self _)
  | swapTail pData uiOldOffset =>
      simp only [hpc] at hstep
      split_ifs at hstep <;> cases hstep <;> exact Or.inl rfl

/-- A message that fits is published by the last step of its call. -/
theorem stepProducer_serves {pData : List UInt8}
    (hinv : state.Invariant finished pending)
    (hserves : state.producer.Serves pData)
    (hroom : usedBytes pending + (pData.length + 4) <
      state.queue.queueDataSize)
    (hstep : state.stepProducer = some next) :
    next.producer = .idle ∧ next.published = state.published ++ [pData] ∨
      next.producer.Serves pData ∧ next.published = state.published := by
  have hok := hinv.producer_ok
  have hsize := hinv.holds.size_lt
  unfold QueueState.stepProducer at hstep
  cases hpc : state.producer with
  | idle => simp [hpc] at hstep
  | readTail data =>
      rw [hpc] at hserves
      simp only [hpc, Option.some.injEq] at hstep
      subst next
      exact Or.inr ⟨hserves, rfl⟩
  | readHead data uiTail =>
      rw [hpc] at hok hserves
      obtain ⟨hlen, rfl⟩ := hok
      obtain rfl : data = pData := hserves
      have hfree : ¬ state.queue.queueDataSize - 1 - usedBytes pending <
          data.length + 4 := by omega
      simp only [hpc, hinv.holds.freeSpace_eq, u32_of_lt hlen, hfree, if_false,
        Option.some.injEq] at hstep
      subst next
      exact Or.inr ⟨rfl, rfl⟩
  | readOffset data =>
      rw [hpc] at hserves
      simp only [hpc, Option.some.injEq] at hstep
      subst next
      exact Or.inr ⟨hserves, rfl⟩
  | copy data todo =>
      rw [hpc] at hserves
      cases todo with
      | cons write todo =>
          simp only [hpc, Option.some.injEq] at hstep
          subst next
          exact Or.inr ⟨hserves, rfl⟩
      | nil =>
          simp only [hpc, Option.some.injEq] at hstep
          subst next
          exact Or.inr ⟨hserves, rfl⟩
  | swapTail data uiOldOffset =>
      rw [hpc] at hok hserves
      obtain ⟨-, rfl, -⟩ := hok
      obtain rfl : data = pData := hserves
      simp only [hpc, if_true, Option.some.injEq] at hstep
      subst next
      exact Or.inl ⟨rfl, rfl⟩

theorem stepConsumer_left {len : ℕ}
    (hinv : state.Invariant finished pending)
    (hlen : ∀ message ∈ pending.head?, message.length ≤ len)
    (hstep : state.stepConsumer = some next) :
    next.consumer = .idle ∨
      next.consumer.left len < state.consumer.left len := by
  have hok := hinv.consumer_ok
  have hsize := hinv.holds.size_lt
  unfold QueueState.stepConsumer at hstep
  cases hpc : state.consumer with
  | idle => simp [hpc] at hstep
  | readTail uiDataLen =>
      simp only [hpc, Option.some.injEq] at hstep
      subst next
      exact Or.inr (Nat.lt_succ_self _)
  | readHead uiDataLen uiTail =>
      simp only [hpc] at hstep
      split_ifs at hstep
      · cases hstep
        exact Or.inl rfl
      · cases hstep
        exact Or.inr (Nat.lt_succ_self _)
  | readOffset uiDataLen =>
      rw [hpc] at hok
      obtain ⟨message, rest, rfl⟩ := List.exists_cons_of_ne_nil hok
      have hfits := hinv.holds.message_fits
      simp only [hpc, Option.some.injEq] at hstep
      subst next
      right
      rw [lenCells_eq hinv.holds.head_lt (by omega) (by omega)]
      simp only [ConsumerPc.left, ringCells_length]
      omega
  | readLen uiDataLen offset todo got =>
      cases todo with
      | cons cell todo =>
          simp only [hpc, Option.some.injEq] at hstep
          subst next
          right
          simp only [ConsumerPc.left, List.length_cons]
          omega
      | nil =>
          obtain ⟨rfl, message, rest, rfl, hword⟩ := hinv.lenRead hpc
          have hfits := hinv.holds.message_fits
          have hmessage := hlen message rfl
          simp only [hpc, hword] at hstep
          right
          split_ifs at hstep
          · cases hstep
            simp only [ConsumerPc.left]
            omega
          · cases hstep
            rw [dataCells_eq hinv.holds.head_lt (by omega) hfits.le]
            simp only [ConsumerPc.left, ringCells_length, List.length_nil]
            omega
  | readData uiDataLen len todo got =>
      cases todo with
      | cons cell todo =>
          simp only [hpc, Option.some.injEq] at hstep
          subst next
          simp [ConsumerPc.left]
      | nil =>
          simp only [hpc, Option.some.injEq] at hstep
          subst next
          exact Or.inr (Nat.lt_succ_self _)
  | loadHead uiDataLen result =>
      simp only [hpc, Option.some.injEq] at hstep
      subst next
      exact Or.inr (Nat.lt_succ_self _)
  | swapHead uiDataLen result uiOldOffset =>
      simp only [hpc] at hstep
      split_ifs at hstep <;> cases hstep <;> exact Or.inl rfl

/-- The oldest message is taken by the last step of a call that has seen it. -/
theorem stepConsumer_serves {uiDataLen : ℕ}
    (hinv : state.Invariant finished (message :: rest))
    (hserves : state.consumer.Serves state.queue.queueDataSize
      state.queue.uiHead uiDataLen)
    (hstep : state.stepConsumer = some next) :
    next.consumer = .idle ∧
        next.taken = state.taken ++ [(uiDataLen, outcome uiDataLen message)] ∨
      next.consumer.Serves next.queue.queueDataSize next.queue.uiHead
        uiDataLen ∧ next.taken = state.taken ∧ next.queue = state.queue := by
  have hok := hinv.consumer_ok
  have hused := hinv.holds.usedSpace_eq
  unfold QueueState.stepConsumer at hstep
  cases hpc : state.consumer with
  | idle => simp [hpc] at hstep
  | readTail size =>
      rw [hpc] at hserves
      simp only [hpc, Option.some.injEq] at hstep
      subst next
      refine Or.inr ⟨⟨hserves, ?_⟩, rfl, rfl⟩
      rw [hused, usedBytes_cons]
      omega
  | readHead size uiTail =>
      rw [hpc] at hserves
      obtain ⟨hdata, hspace⟩ := hserves
      simp only [hpc, if_neg (Nat.not_lt.mpr hspace), Option.some.injEq]
        at hstep
      subst next
      exact Or.inr ⟨hdata, rfl, rfl⟩
  | readOffset size | loadHead size result =>
      rw [hpc] at hserves
      simp only [hpc, Option.some.injEq] at hstep
      subst next
      exact Or.inr ⟨hserves, rfl, rfl⟩
  | readLen size offset todo got =>
      rw [hpc] at hserves
      cases todo with
      | cons cell todo =>
          simp only [hpc, Option.some.injEq] at hstep
          subst next
          exact Or.inr ⟨hserves, rfl, rfl⟩
      | nil =>
          simp only [hpc] at hstep
          split_ifs at hstep <;> cases hstep <;>
            exact Or.inr ⟨hserves, rfl, rfl⟩
  | readData size len todo got =>
      rw [hpc] at hserves
      cases todo with
      | cons cell todo =>
          simp only [hpc, Option.some.injEq] at hstep
          subst next
          exact Or.inr ⟨hserves, rfl, rfl⟩
      | nil =>
          simp only [hpc, Option.some.injEq] at hstep
          subst next
          exact Or.inr ⟨hserves, rfl, rfl⟩
  | swapHead size result uiOldOffset =>
      rw [hpc] at hok hserves
      obtain ⟨rfl, oldest, later, hpending, rfl⟩ := hok
      obtain ⟨rfl, -⟩ := List.cons.inj hpending
      obtain rfl : size = uiDataLen := hserves
      simp only [hpc, if_true, Option.some.injEq] at hstep
      subst next
      exact Or.inl ⟨rfl, rfl⟩

end Steps

/-! ## Runs of both processes -/

section Runs

variable {state final : QueueState} {finished pending : List (List UInt8)}
  {actions : List QueueAction}

theorem ProducerPc.Serves.busy {pc : ProducerPc} {pData : List UInt8}
    (hserves : pc.Serves pData) : pc ≠ .idle := by
  rintro rfl
  exact hserves

theorem ConsumerPc.Serves.busy {pc : ConsumerPc}
    {queueDataSize uiHead uiDataLen : ℕ}
    (hserves : pc.Serves queueDataSize uiHead uiDataLen) : pc ≠ .idle := by
  rintro rfl
  exact hserves

theorem eq_stepProducer {action : QueueAction}
    (hown : action.ofProducer = true) : action = .stepProducer := by
  cases action with
  | stepProducer => rfl
  | callInQueue | callOutQueue | stepConsumer => cases hown

theorem eq_stepConsumer {action : QueueAction}
    (hown : action.ofConsumer = true) : action = .stepConsumer := by
  cases action with
  | stepConsumer => rfl
  | callInQueue | callOutQueue | stepProducer => cases hown

theorem CShmQueue.Holds.length_le {queue : CShmQueue}
    {messages : List (List UInt8)} (hholds : queue.Holds messages) :
    ∀ message ∈ messages.head?, message.length ≤ queue.queueDataSize := by
  cases messages with
  | nil => simp
  | cons first messages =>
      intro message hmem
      obtain rfl : first = message := Option.some.inj hmem
      have hfits := hholds.message_fits
      omega

theorem QueueState.Invariant.inQueue_returns
    (hinv : state.Invariant finished pending) (hbusy : state.producer ≠ .idle)
    (hrun : state.run actions = some final)
    (hcount : state.producer.left ≤ actions.countP QueueAction.ofProducer) :
    state.Passes actions fun after => after.producer = .idle := by
  refine passes_of_rank QueueAction.ofProducer
    (fun state => state.producer ≠ .idle ∧
      ∃ finished pending, state.Invariant finished pending)
    (fun state => state.producer.left)
    (fun state hkept => ProducerPc.left_pos hkept.1) ?_ ?_
    ⟨hbusy, finished, pending, hinv⟩ hrun hcount
  · rintro before after action ⟨-, finished, pending, hbefore⟩ hallowed hown
      hstep
    obtain rfl := eq_stepProducer hown
    obtain ⟨finished', pending', hafter, -⟩ :=
      step_invariant hbefore hallowed hstep
    by_cases hidle : after.producer = .idle
    · exact Or.inl hidle
    · right
      exact ⟨⟨hidle, finished', pending', hafter⟩,
        (stepProducer_left hbefore hstep).resolve_left hidle⟩
  · rintro before after action ⟨hbefore, finished, pending, hinv⟩ hallowed
      hother hstep
    obtain ⟨hproducer, -⟩ := step_producer_frame hother hbefore hstep
    obtain ⟨finished', pending', hafter, -⟩ :=
      step_invariant hinv hallowed hstep
    rw [hproducer]
    exact ⟨⟨hbefore, finished', pending', hafter⟩, rfl⟩

theorem QueueState.Invariant.outQueue_returns
    (hinv : state.Invariant finished pending) (hbusy : state.consumer ≠ .idle)
    (hrun : state.run actions = some final)
    (hcount : state.consumer.left state.queue.queueDataSize ≤
      actions.countP QueueAction.ofConsumer) :
    state.Passes actions fun after => after.consumer = .idle := by
  refine passes_of_rank QueueAction.ofConsumer
    (fun after => after.consumer ≠ .idle ∧
      after.queue.queueDataSize = state.queue.queueDataSize ∧
      ∃ finished pending, after.Invariant finished pending)
    (fun after => after.consumer.left state.queue.queueDataSize)
    (fun after hkept => ConsumerPc.left_pos hkept.1 _) ?_ ?_
    ⟨hbusy, rfl, finished, pending, hinv⟩ hrun hcount
  · rintro before after action ⟨-, hsize, finished, pending, hbefore⟩ hallowed
      hown hstep
    obtain rfl := eq_stepConsumer hown
    obtain ⟨finished', pending', hafter, -⟩ :=
      step_invariant hbefore hallowed hstep
    have hlen := hbefore.holds.length_le
    rw [hsize] at hlen
    by_cases hidle : after.consumer = .idle
    · exact Or.inl hidle
    · right
      exact ⟨⟨hidle, (stepConsumer_frame hstep).2.2.trans hsize, finished',
        pending', hafter⟩,
        (stepConsumer_left hbefore hlen hstep).resolve_left hidle⟩
  · rintro before after action ⟨hbefore, hsize, finished, pending, hinv⟩
      hallowed hother hstep
    obtain ⟨hconsumer, -, -, hsame⟩ :=
      step_consumer_frame hother hbefore hstep
    obtain ⟨finished', pending', hafter, -⟩ :=
      step_invariant hinv hallowed hstep
    rw [hconsumer]
    exact ⟨⟨hbefore, hsame.trans hsize, finished', pending', hafter⟩, rfl⟩

/-- The consumer only makes room, so a message that fits when the call is made
still fits when its length is compared. -/
theorem QueueState.Invariant.inQueue_publishes {pData : List UInt8}
    (hinv : state.Invariant finished pending)
    (hserves : state.producer.Serves pData)
    (hroom : usedBytes pending + (pData.length + 4) <
      state.queue.queueDataSize)
    (hrun : state.run actions = some final)
    (hcount : state.producer.left ≤ actions.countP QueueAction.ofProducer) :
    state.Passes actions fun after => after.producer = .idle ∧
      after.published = state.published ++ [pData] := by
  refine passes_of_rank QueueAction.ofProducer
    (fun after => after.producer.Serves pData ∧
      after.published = state.published ∧
      ∃ finished pending, after.Invariant finished pending ∧
        usedBytes pending + (pData.length + 4) < after.queue.queueDataSize)
    (fun after => after.producer.left)
    (fun after hkept => ProducerPc.left_pos hkept.1.busy) ?_ ?_
    ⟨hserves, rfl, finished, pending, hinv, hroom⟩ hrun hcount
  · rintro before after action
      ⟨hbefore, hpublished, finished, pending, hinv, hroom⟩ hallowed hown hstep
    obtain rfl := eq_stepProducer hown
    obtain ⟨finished', pending', hafter, heffect⟩ :=
      step_invariant hinv hallowed hstep
    obtain ⟨hidle, hnew⟩ | ⟨hafterServes, hsame⟩ :=
      stepProducer_serves hinv hbefore hroom hstep
    · left
      exact ⟨hidle, hnew.trans (by rw [hpublished])⟩
    · right
      have hpending : pending' = pending := by
        obtain ⟨-, hpending⟩ | ⟨-, hfinished, pData, -, -, hpending⟩ |
          ⟨haction, -⟩ := heffect
        · exact hpending
        · -- nothing was published
          have heq := hafter.published_eq
          rw [hsame, hinv.published_eq, hfinished, hpending] at heq
          simp at heq
        · cases haction
      refine ⟨⟨hafterServes, hsame.trans hpublished, finished', pending',
        hafter, ?_⟩, (stepProducer_left hinv hstep).resolve_left
          hafterServes.busy⟩
      rw [hpending, (stepProducer_frame hstep).2.2.2]
      exact hroom
  · rintro before after action
      ⟨hbefore, hpublished, finished, pending, hinv, hroom⟩ hallowed hother
      hstep
    obtain ⟨hproducer, hsame, hsize⟩ :=
      step_producer_frame hother hbefore.busy hstep
    obtain ⟨finished', pending', hafter, heffect⟩ :=
      step_invariant hinv hallowed hstep
    have hless : usedBytes pending' ≤ usedBytes pending := by
      obtain ⟨-, rfl⟩ | ⟨rfl, -⟩ | ⟨-, -, -, -, message, -, rfl, -⟩ := heffect
      · exact le_rfl
      · cases hother
      · rw [usedBytes_cons]
        exact Nat.le_add_left _ _
    rw [hproducer]
    refine ⟨⟨hbefore, hsame.trans hpublished, finished', pending', hafter, ?_⟩,
      rfl⟩
    rw [hsize]
    omega

/-- The producer only appends, so the oldest message stays the oldest until the
consumer has taken it. -/
theorem QueueState.Invariant.outQueue_takes
    {message : List UInt8} {rest : List (List UInt8)} {uiDataLen : ℕ}
    (hinv : state.Invariant finished (message :: rest))
    (hserves : state.consumer.Serves state.queue.queueDataSize
      state.queue.uiHead uiDataLen)
    (hrun : state.run actions = some final)
    (hcount : state.consumer.left message.length ≤
      actions.countP QueueAction.ofConsumer) :
    state.Passes actions fun after => after.consumer = .idle ∧
      after.taken = state.taken ++ [(uiDataLen, outcome uiDataLen message)] := by
  refine passes_of_rank QueueAction.ofConsumer
    (fun after =>
      after.consumer.Serves after.queue.queueDataSize after.queue.uiHead
        uiDataLen ∧ after.taken = state.taken ∧
      ∃ finished rest, after.Invariant finished (message :: rest))
    (fun after => after.consumer.left message.length)
    (fun after hkept => ConsumerPc.left_pos hkept.1.busy _) ?_ ?_
    ⟨hserves, rfl, finished, rest, hinv⟩ hrun hcount
  · rintro before after action ⟨hbefore, htaken, finished, rest, hinv⟩ hallowed
      hown hstep
    obtain rfl := eq_stepConsumer hown
    obtain ⟨finished', pending', hafter, -⟩ :=
      step_invariant hinv hallowed hstep
    obtain ⟨hidle, hnew⟩ | ⟨hafterServes, hsame, hqueue⟩ :=
      stepConsumer_serves hinv hbefore hstep
    · left
      exact ⟨hidle, hnew.trans (by rw [htaken])⟩
    · right
      -- the ring is the same, so it holds the same messages
      have hpending : pending' = message :: rest := by
        have hcontents := getAllQueueData_eq hafter.holds
        rw [hqueue, getAllQueueData_eq hinv.holds] at hcontents
        exact (Option.some.inj hcontents).symm
      rw [hpending] at hafter
      have hlen : ∀ oldest ∈ (message :: rest).head?,
          oldest.length ≤ message.length := by
        rintro oldest ⟨⟩
        exact le_rfl
      exact ⟨⟨hafterServes, hsame.trans htaken, finished', rest, hafter⟩,
        (stepConsumer_left hinv hlen hstep).resolve_left hafterServes.busy⟩
  · rintro before after action ⟨hbefore, htaken, finished, rest, hinv⟩ hallowed
      hother hstep
    obtain ⟨hconsumer, hsame, hhead, hsize⟩ :=
      step_consumer_frame hother hbefore.busy hstep
    obtain ⟨finished', pending', hafter, heffect⟩ :=
      step_invariant hinv hallowed hstep
    have hpending : ∃ later, pending' = message :: later := by
      obtain ⟨-, rfl⟩ | ⟨-, -, pData, -, -, rfl⟩ | ⟨rfl, -⟩ := heffect
      · exact ⟨rest, rfl⟩
      · exact ⟨rest ++ [pData], rfl⟩
      · cases hother
    obtain ⟨later, rfl⟩ := hpending
    rw [hconsumer, hsize, hhead]
    exact ⟨⟨hbefore, hsame.trans htaken, finished', later, hafter⟩, rfl⟩

theorem run_cons {next : QueueState} {action : QueueAction}
    (hstep : state.step action = some next)
    (hrun : state.run (action :: actions) = some final) :
    action.Allowed state ∧ next.run actions = some final := by
  unfold QueueState.run at hrun
  simp only [replay] at hrun
  split_ifs at hrun with hallowed
  rw [hstep, Option.bind_some] at hrun
  exact ⟨hallowed, hrun⟩

theorem QueueState.Invariant.progresses
    (hinv : state.Invariant finished pending) :
    state.Progresses pending where
  inQueue_called hidle pData := by
    simp only [QueueState.step, hidle]
    split_ifs <;> exact ⟨_, rfl⟩
  outQueue_called hidle uiDataLen := by
    simp only [QueueState.step, hidle]
    exact ⟨_, rfl⟩
  inQueue_goes_on := stepProducer_of_busy
  outQueue_goes_on := stepConsumer_of_busy
  inQueue_returns hbusy _ _ hrun hcount :=
    hinv.inQueue_returns hbusy hrun hcount
  outQueue_returns hbusy _ _ hrun hcount :=
    hinv.outQueue_returns hbusy hrun hcount
  inQueue_publishes hidle pData hdata hroom actions final hrun hcount := by
    have hempty : pData.length ≠ 0 := List.length_eq_zero_iff.not.mpr hdata
    have hstep : state.step (.callInQueue pData) =
        some { state with producer := .readTail pData } := by
      simp only [QueueState.step, hidle, if_neg hempty]
    obtain ⟨hallowed, hrest⟩ := run_cons hstep hrun
    have hcalled : QueueState.Invariant
        { state with producer := .readTail pData } finished pending :=
      hinv.producerAt hallowed
    exact Transition.Passes.cons hallowed hstep
      (hcalled.inQueue_publishes rfl hroom hrest hcount)
  outQueue_takes hidle message rest hpending uiDataLen actions final hrun
      hcount := by
    have hstep : state.step (.callOutQueue uiDataLen) =
        some { state with consumer := .readTail uiDataLen } := by
      simp only [QueueState.step, hidle]
    obtain ⟨hallowed, hrest⟩ := run_cons hstep hrun
    have hcalled : QueueState.Invariant
        { state with consumer := .readTail uiDataLen } finished pending :=
      hinv.consumerAt trivial
    rw [hpending] at hcalled
    exact Transition.Passes.cons hallowed hstep
      (hcalled.outQueue_takes rfl hrest hcount)

end Runs

/-- In every state of every interleaving the ring reads back as the messages
published and not yet taken, and the taken ones were handed over whole, once
each and in order.  The byte written next lies outside these messages and the
byte read next inside them.  A step of either process leaves the contents
alone, or is the swap that completes its own operation.  Neither process can
keep the other from completing it: every call returns after a bounded number of
its own steps, a message that fits is published and the oldest one taken. -/
theorem interleaved_queue_safe
    (queue : CShmQueue) (hsize : queue.queueDataSize < 2 ^ 31)
    (hhead : queue.uiHead < queue.queueDataSize)
    (hempty : queue.uiTail = queue.uiHead)
    (state : QueueState)
    (hreach : Reaches QueueState.step (fun state action =>
      action.Allowed state) (.start queue) state) :
    ∃ finished pending,
      state.queue.getAllQueueData = some pending ∧
      state.published = finished ++ pending ∧
      List.Forall₂ (fun entry message =>
        entry.2 = outcome entry.1 message) state.taken finished ∧
      (∀ pData write todo, state.producer = .copy pData (write :: todo) →
        write.1 < state.queue.queueDataSize ∧
        write.1 ∉ ringCells state.queue.queueDataSize state.queue.uiHead
          (usedBytes pending)) ∧
      (∀ cell, state.consumer.nextCell = some cell →
        cell ∈ ringCells state.queue.queueDataSize state.queue.uiHead
          (usedBytes pending)) ∧
      (∀ action next, action.Allowed state →
        state.step action = some next →
        ∃ finished' pending',
          next.queue.getAllQueueData = some pending' ∧
          StepEffect state action finished pending finished' pending') ∧
      state.Progresses pending := by
  obtain ⟨finished, pending, hinv⟩ :=
    reachable_invariant hsize hhead hempty hreach
  refine ⟨finished, pending, getAllQueueData_eq hinv.holds,
    hinv.published_eq, hinv.taken_eq, ?_, ?_, ?_, hinv.progresses⟩
  · intro pData write todo hpc
    exact hinv.written_free hpc
  · intro cell hcell
    exact hinv.read_used hcell
  · intro action next hallowed hstep
    obtain ⟨finished', pending', hinv', heffect⟩ :=
      step_invariant hinv hallowed hstep
    exact ⟨finished', pending', getAllQueueData_eq hinv'.holds, heffect⟩

/-- A message that wraps inside its length word, and a second call. -/
def wrappedMessage : QueueState :=
  (replay QueueState.step (fun state action => action.Allowed state)
    (.start ⟨12, 10, 10, fun _ => 0⟩)
    (.callInQueue [9] :: List.replicate 10 .stepProducer ++
      [.callInQueue [4]])).getD (.start ⟨12, 10, 10, fun _ => 0⟩)

/-- The message is taken while the second one is being written. -/
theorem interleaved_queue_safe_wrapped :
    wrappedMessage.published = [[9]] ∧
      wrappedMessage.Passes
        (.callOutQueue 8 ::
          ((List.replicate 10 [.stepProducer, .stepConsumer]).flatten ++
            [.stepConsumer, .stepConsumer]))
        fun after => after.consumer = .idle ∧
          after.taken = [(8, ⟨success, 1, [9]⟩)] := by
  obtain ⟨finished, pending, -, hpublished, htaken, -, -, -, hprogress⟩ :=
    interleaved_queue_safe ⟨12, 10, 10, fun _ => 0⟩ (by decide) (by decide)
      rfl wrappedMessage (reaches_getD (by decide))
  have hfinished : finished = [] :=
    List.forall₂_nil_left_iff.mp htaken
  rw [hfinished, List.nil_append] at hpublished
  obtain ⟨final, hfinal⟩ := Option.isSome_iff_exists.mp
    (show (wrappedMessage.run (.callOutQueue 8 ::
      ((List.replicate 10 [.stepProducer, .stepConsumer]).flatten ++
        [.stepConsumer, .stepConsumer]))).isSome = true by decide)
  exact ⟨rfl, hprogress.outQueue_takes rfl [9] [] hpublished.symm 8 _ final
    hfinal (by decide)⟩

end MessageBus.ShmQueue
