import MessageBus.SharedCells
import MessageBus.Transition

/-!
# Calls that lock what they use

Processes share the cells of one memory.  A call takes its locks one after the
other, runs its body while it holds them, and gives them back; the accesses of
the bodies of different processes alternate in any way.

`Serial` says what the same calls do one after the other.
-/

namespace MessageBus.Locked

open Shared

variable {Process Lock Cell : Type} {Value : Cell → Type}
  {Reading Local Request Answer : Type}

/-- The locks of a call in the order in which it takes them, and its body, which
ends with an answer and the new local state of the process. -/
structure Section (Lock : Type) (Value : Cell → Type)
    (Reading Local Answer : Type) where
  locks : List Lock
  body : Code Value Reading (Answer × Local)

inductive Phase (Lock : Type) (Value : Cell → Type)
    (Reading Local Request Answer : Type) where
  | idle
  | locking (request : Request) (held remaining : List Lock)
  | running (request : Request) (held : List Lock) (readings : List Reading)
      (code : Code Value Reading (Answer × Local))
  -- the body has ended; the locks still held are given back in this order
  | unlocking (held : List Lock)

def Phase.held : Phase Lock Value Reading Local Request Answer → List Lock
  | .idle => []
  | .locking _ held _ => held
  | .running _ held _ _ => held
  | .unlocking held => held

/-- A call whose body has ended, with the readings of the clock it took. -/
structure Call (Process Reading Request Answer : Type) where
  process : Process
  request : Request
  readings : List Reading
  answer : Answer

structure State (Process Lock : Type) (Value : Cell → Type)
    (Reading Local Request Answer : Type) where
  memory : Memory Value
  holder : Lock → Option Process
  phase : Process → Phase Lock Value Reading Local Request Answer
  locals : Process → Local
  -- in the order in which the bodies have ended
  finished : List (Call Process Reading Request Answer)

inductive Action (Process Reading Request : Type) where
  | invoke (process : Process) (request : Request)
  -- the next step of a process; the reading is used if it looks at the clock
  | advance (process : Process) (reading : Reading)

/-- Nobody has called anything yet. -/
def initial (memory : Memory Value) (locals : Process → Local) :
    State Process Lock Value Reading Local Request Answer where
  memory := memory
  holder := fun _ => none
  phase := fun _ => .idle
  locals := locals
  finished := []

/-- The next step of the process is to take the lock. -/
def State.Awaits
    (state : State Process Lock Value Reading Local Request Answer)
    (process : Process) (lock : Lock) : Prop :=
  ∃ request held remaining,
    state.phase process = .locking request held (lock :: remaining)

/-- The process cannot go on before the other one gives back a lock. -/
def State.Waits
    (state : State Process Lock Value Reading Local Request Answer)
    (process other : Process) : Prop :=
  ∃ lock, state.Awaits process lock ∧ state.holder lock = some other

section Step

variable [DecidableEq Process] [DecidableEq Lock] [DecidableEq Cell]

def State.goto
    (state : State Process Lock Value Reading Local Request Answer)
    (process : Process)
    (phase : Phase Lock Value Reading Local Request Answer) :
    State Process Lock Value Reading Local Request Answer :=
  { state with phase := Function.update state.phase process phase }

variable (enter : Local → Request → Section Lock Value Reading Local Answer)

def State.advance
    (state : State Process Lock Value Reading Local Request Answer)
    (process : Process) (reading : Reading) :
    Phase Lock Value Reading Local Request Answer →
      Option (State Process Lock Value Reading Local Request Answer)
  | .idle => none
  | .locking request held [] =>
      some (state.goto process
        (.running request held []
          (enter (state.locals process) request).body))
  | .locking request held (lock :: remaining) =>
      -- a process waits as long as another one holds the lock
      match state.holder lock with
      | some other =>
          if other = process then
            some (state.goto process
              (.locking request (held ++ [lock]) remaining))
          else none
      | none =>
          some { state.goto process
              (.locking request (held ++ [lock]) remaining) with
            holder := Function.update state.holder lock (some process) }
  | .running request held readings (.call (.load cell) next) =>
      some (state.goto process
        (.running request held readings (next (state.memory cell))))
  | .running request held readings (.call (.store cell value) next) =>
      some { state.goto process (.running request held readings (next ())) with
        memory := Function.update state.memory cell value }
  | .running request held readings (.call .clock next) =>
      some (state.goto process
        (.running request held (readings ++ [reading]) (next reading)))
  | .running _ _ _ (.call .spin _) => none
  | .running request held readings (.done (answer, after)) =>
      some { state.goto process (.unlocking held.reverse) with
        locals := Function.update state.locals process after
        finished := state.finished ++ [⟨process, request, readings, answer⟩] }
  | .unlocking [] => some (state.goto process .idle)
  | .unlocking (lock :: held) =>
      some { state.goto process (.unlocking held) with
        holder := Function.update state.holder lock none }

def step (state : State Process Lock Value Reading Local Request Answer) :
    Action Process Reading Request →
      Option (State Process Lock Value Reading Local Request Answer)
  | .invoke process request =>
      match state.phase process with
      | .idle =>
          some (state.goto process
            (.locking request []
              (enter (state.locals process) request).locks))
      | _ => none
  | .advance process reading =>
      state.advance enter process reading (state.phase process)

/-- Everything a step can do. -/
inductive Move
    (state : State Process Lock Value Reading Local Request Answer) :
    State Process Lock Value Reading Local Request Answer → Prop where
  | invoke {process : Process} {request : Request}
      (hphase : state.phase process = .idle) :
      Move state (state.goto process
        (.locking request [] (enter (state.locals process) request).locks))
  | relock {process : Process} {request : Request} {lock : Lock}
      {held remaining : List Lock}
      (hphase : state.phase process =
        .locking request held (lock :: remaining))
      (hholder : state.holder lock = some process) :
      Move state (state.goto process
        (.locking request (held ++ [lock]) remaining))
  | lock {process : Process} {request : Request} {lock : Lock}
      {held remaining : List Lock}
      (hphase : state.phase process =
        .locking request held (lock :: remaining))
      (hholder : state.holder lock = none) :
      Move state { state.goto process
          (.locking request (held ++ [lock]) remaining) with
        holder := Function.update state.holder lock (some process) }
  | start {process : Process} {request : Request} {held : List Lock}
      (hphase : state.phase process = .locking request held []) :
      Move state (state.goto process
        (.running request held []
          (enter (state.locals process) request).body))
  | load {process : Process} {request : Request} {held : List Lock}
      {readings : List Reading} {cell : Cell}
      {next : Value cell → Code Value Reading (Answer × Local)}
      (hphase : state.phase process =
        .running request held readings (.call (.load cell) next)) :
      Move state (state.goto process
        (.running request held readings (next (state.memory cell))))
  | store {process : Process} {request : Request} {held : List Lock}
      {readings : List Reading} {cell : Cell} {value : Value cell}
      {next : Unit → Code Value Reading (Answer × Local)}
      (hphase : state.phase process =
        .running request held readings (.call (.store cell value) next)) :
      Move state
        { state.goto process (.running request held readings (next ())) with
          memory := Function.update state.memory cell value }
  | clock {process : Process} {request : Request} {held : List Lock}
      {readings : List Reading} {reading : Reading}
      {next : Reading → Code Value Reading (Answer × Local)}
      (hphase : state.phase process =
        .running request held readings (.call .clock next)) :
      Move state (state.goto process
        (.running request held (readings ++ [reading]) (next reading)))
  | finish {process : Process} {request : Request} {held : List Lock}
      {readings : List Reading} {answer : Answer} {after : Local}
      (hphase : state.phase process =
        .running request held readings (.done (answer, after))) :
      Move state { state.goto process (.unlocking held.reverse) with
        locals := Function.update state.locals process after
        finished := state.finished ++ [⟨process, request, readings, answer⟩] }
  | unlock {process : Process} {lock : Lock} {held : List Lock}
      (hphase : state.phase process = .unlocking (lock :: held)) :
      Move state { state.goto process (.unlocking held) with
        holder := Function.update state.holder lock none }
  | leave {process : Process} (hphase : state.phase process = .unlocking []) :
      Move state (state.goto process .idle)

variable {enter}
  {state next : State Process Lock Value Reading Local Request Answer}

theorem move_of_step
    {action : Action Process Reading Request}
    (hstep : step enter state action = some next) : Move enter state next := by
  cases action with
  | invoke process request =>
      simp only [step] at hstep
      split at hstep
      · next hphase =>
          cases hstep
          exact .invoke hphase
      · cases hstep
  | advance process reading =>
      simp only [step] at hstep
      cases hphase : state.phase process with
      | idle =>
          rw [hphase] at hstep
          cases hstep
      | locking request held remaining =>
          rw [hphase] at hstep
          cases remaining with
          | nil =>
              cases hstep
              exact .start hphase
          | cons lock remaining =>
              simp only [State.advance] at hstep
              split at hstep
              · next other hholder =>
                  split_ifs at hstep with hother
                  subst hother
                  cases hstep
                  exact .relock hphase hholder
              · next hholder =>
                  cases hstep
                  exact .lock hphase hholder
      | running request held readings code =>
          rw [hphase] at hstep
          cases code with
          | done value =>
              cases hstep
              exact .finish hphase
          | call access next =>
              cases access with
              | load cell =>
                  cases hstep
                  exact .load hphase
              | store cell value =>
                  cases hstep
                  exact .store hphase
              | clock =>
                  cases hstep
                  exact .clock hphase
              | spin => cases hstep
      | unlocking held =>
          rw [hphase] at hstep
          cases held with
          | nil =>
              cases hstep
              exact .leave hphase
          | cons lock held =>
              cases hstep
              exact .unlock hphase

end Step

/-! ## One after the other -/

section Serial

variable [DecidableEq Process] [DecidableEq Cell]

/-- The calls one after the other, each body run without interruption with the
readings that the call took and ending with the answer that it gave. -/
inductive Serial
    (enter : Local → Request → Section Lock Value Reading Local Answer)
    (memory : Memory Value) (locals : Process → Local) :
    List (Call Process Reading Request Answer) →
      Memory Value → (Process → Local) → Prop where
  | nil : Serial enter memory locals [] memory locals
  | snoc {calls : List (Call Process Reading Request Answer)}
      {call : Call Process Reading Request Answer}
      {before after : Memory Value} {present : Process → Local}
      {later : Local}
      (hserial : Serial enter memory locals calls before present)
      (hrun : run (enter (present call.process) call.request).body before
        call.readings = some ((call.answer, later), after, [])) :
      Serial enter memory locals (calls ++ [call]) after
        (Function.update present call.process later)

end Serial

end MessageBus.Locked
