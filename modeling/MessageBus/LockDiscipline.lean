import MessageBus.LockedSections

/-!
# A discipline for locks

Which lock protects a cell may change: it is read off the memory, and a body may
move cells between the locks that it holds.  If every body stays inside the
cells of its locks, then the calls do what they would do one after the other in
the order in which their bodies end, and if every call takes its locks in
increasing order, processes never wait for each other in a circle.

The proof follows the memory that the finished calls leave when they run one
after the other.  A body in progress has got as far as it would get alone on
that memory, if the cells of its own locks are taken from the actual one.
-/

namespace MessageBus.Locked

open Shared

variable {Process Lock Cell : Type} {Value : Cell → Type}
  {Reading Local Request Answer : Type}

section Discipline

variable [DecidableEq Process] [DecidableEq Cell] [Preorder Lock]

/-- `owner` is the lock of a cell in a memory.  The fixed cells are never
written, and `good` is kept true of the contents of the cells that are owned
together. -/
structure Ownership (Lock : Type) (Value : Cell → Type) where
  owner : Memory Value → Cell → Lock
  fixed : Cell → Prop
  good : (Cell → Prop) → (cell : Cell) → Value cell → Prop

/-- The cells that a process with these locks may use. -/
def Ownership.part (ownership : Ownership Lock Value) (memory : Memory Value)
    (locks : List Lock) : Part Value where
  owns cell := ownership.owner memory cell ∈ locks
  fixed := ownership.fixed
  good := ownership.good fun cell => ownership.owner memory cell ∈ locks

/-- What the sections of a program are to be checked for, one at a time and
running alone. -/
structure Discipline
    (enter : Local → Request → Section Lock Value Reading Local Answer)
    extends Ownership Lock Value where
  Valid : Memory Value → Prop
  increasing : ∀ present request,
    (enter present request).locks.Pairwise (· < ·)
  fixed_free : ∀ memory present request cell, Valid memory → fixed cell →
    owner memory cell ∉ (enter present request).locks
  closed : ∀ memory present request, Valid memory →
    (toOwnership.part memory (enter present request).locks).Closed memory
  confined : ∀ memory present request, Valid memory →
    (toOwnership.part memory (enter present request).locks).Confines
      (fun _ => True) (enter present request).body
  ends : ∀ memory present request, Valid memory →
    ∃ enough, ∀ readings : List Reading, enough ≤ readings.length →
      (run (enter present request).body memory readings).isSome
  keeps : ∀ memory present request readings value after, Valid memory →
    run (enter present request).body memory readings =
      some (value, after, []) → Valid after
  moves : ∀ memory present request after, Valid memory → Valid after →
    (∀ cell, owner memory cell ∉ (enter present request).locks →
      after cell = memory cell) →
    ∀ cell, owner after cell = owner memory cell ∨
      owner after cell ∈ (enter present request).locks ∧
        owner memory cell ∈ (enter present request).locks

variable {enter : Local → Request → Section Lock Value Reading Local Answer}

namespace Discipline

variable (discipline : Discipline enter)

/-- A body in progress: `memory` is what the calls before it have left, and
`actual` the memory that all bodies in progress work on. -/
structure InProgress (memory actual : Memory Value)
    (present : Local) (request : Request) (held : List Lock)
    (readings : List Reading)
    (code : Code Value Reading (Answer × Local)) : Prop where
  held_eq : held = (enter present request).locks
  confines : (discipline.part memory held).Confines (fun _ => True) code
  closed : (discipline.part memory held).Closed actual
  replay : ∀ later,
    run (enter present request).body memory (readings ++ later) =
      run code ((discipline.part memory held).patch memory actual) later

def PhaseOk (memory actual : Memory Value) (present : Local) :
    Phase Lock Value Reading Local Request Answer → Prop
  | .idle => True
  | .locking request held remaining =>
      held ++ remaining = (enter present request).locks
  | .running request held readings code =>
      discipline.InProgress memory actual present request held readings code
  | .unlocking held => held.Nodup

end Discipline

def Phase.Active : Phase Lock Value Reading Local Request Answer → Prop
  | .running _ _ _ _ => True
  | _ => False

/-- The state of the processes against the memory that the finished calls leave
when they run one after the other. -/
structure Serialized
    (discipline : Discipline enter) (start : Memory Value)
    (locals : Process → Local)
    (state : State Process Lock Value Reading Local Request Answer)
    (memory : Memory Value) : Prop where
  serial : Serial enter start locals state.finished memory state.locals
  valid : discipline.Valid memory
  holder_iff : ∀ lock process,
    state.holder lock = some process ↔ lock ∈ (state.phase process).held
  phases : ∀ process, discipline.PhaseOk memory state.memory
    (state.locals process) (state.phase process)
  settled : ∀ cell,
    (∀ process, (state.phase process).Active →
      discipline.owner memory cell ∉ (state.phase process).held) →
    state.memory cell = memory cell

variable {discipline : Discipline enter}

namespace Discipline.InProgress

variable {memory actual other : Memory Value} {present : Local}
  {request : Request} {held : List Lock} {readings : List Reading}
  {code : Code Value Reading (Answer × Local)}

/-- The memory of the others may change. -/
theorem congr
    (h : discipline.InProgress memory actual present request held readings
      code)
    (hagree : ∀ cell, (discipline.part memory held).Reads cell →
      other cell = actual cell) :
    discipline.InProgress memory other present request held readings code where
  held_eq := h.held_eq
  confines := h.confines
  closed := by
    intro cell hcell
    rw [hagree cell hcell]
    exact h.closed cell hcell
  replay := by
    intro later
    rw [h.replay later, Part.patch_congr fun cell hcell =>
      (hagree cell (Or.inl hcell)).symm]

/-- The calls before it may come to include others that have left its cells
alone. -/
theorem rebase
    (h : discipline.InProgress memory actual present request held readings
      code)
    (hvalid : discipline.Valid memory)
    (howns : ∀ cell, discipline.owner other cell ∈ held ↔
      discipline.owner memory cell ∈ held)
    (hagree : ∀ cell, (discipline.part memory held).Reads cell →
      other cell = memory cell) :
    discipline.InProgress other actual present request held readings code := by
  have hpart : discipline.part other held = discipline.part memory held := by
    have hsame : (fun cell => discipline.owner other cell ∈ held) =
        fun cell => discipline.owner memory cell ∈ held :=
      funext fun cell => propext (howns cell)
    simp only [Ownership.part, hsame]
  have hfixed (cell : Cell) (hcell : discipline.fixed cell) :
      ¬ (discipline.part memory held).owns cell := by
    rw [h.held_eq]
    exact discipline.fixed_free memory present request cell hvalid hcell
  have hbody := discipline.confined memory present request hvalid
  have hclosed := discipline.closed memory present request hvalid
  rw [← h.held_eq] at hbody hclosed
  constructor
  · exact h.held_eq
  · rw [hpart]
    exact h.confines
  · rw [hpart]
    exact h.closed
  · intro later
    -- both runs are over the old memory, with the rest replaced
    have hstart : other = (discipline.part memory held).patch other memory :=
      (Part.patch_eq_of_owns fun cell hcell =>
        (hagree cell (Or.inl hcell)).symm).symm
    have hmiddle : (discipline.part memory held).Closed
        ((discipline.part memory held).patch memory actual) := by
      intro cell hcell
      by_cases howned : (discipline.part memory held).owns cell
      · rw [Part.patch_of_owns howned]
        exact h.closed cell hcell
      · rw [Part.patch_of_not_owns howned]
        exact hclosed cell hcell
    rw [hpart]
    calc run (enter present request).body other (readings ++ later)
        = run (enter present request).body
            ((discipline.part memory held).patch other memory)
            (readings ++ later) := by rw [← hstart]
      _ = (run (enter present request).body memory
            (readings ++ later)).map fun (value, memory', left) =>
              (value, (discipline.part memory held).patch other memory',
                left) :=
          Part.run_patch hbody hclosed hfixed fun cell hcell =>
            hagree cell (Or.inr hcell)
      _ = run code ((discipline.part memory held).patch other
            ((discipline.part memory held).patch memory actual)) later := by
          rw [h.replay later]
          refine (Part.run_patch h.confines hmiddle hfixed ?_).symm
          intro cell hcell
          rw [Part.patch_of_not_owns (hfixed cell hcell)]
          exact hagree cell (Or.inr hcell)
      _ = run code ((discipline.part memory held).patch other actual)
            later := by rw [Part.patch_patch]

end Discipline.InProgress

namespace Discipline.PhaseOk

variable {memory actual other : Memory Value} {present : Local}
  {phase : Phase Lock Value Reading Local Request Answer}

theorem congr
    (h : discipline.PhaseOk memory actual present phase)
    (hagree : phase.Active → ∀ cell,
      (discipline.part memory phase.held).Reads cell →
      other cell = actual cell) :
    discipline.PhaseOk memory other present phase := by
  cases phase with
  | idle => exact h
  | locking request held remaining => exact h
  | running request held readings code =>
      exact InProgress.congr h (hagree trivial)
  | unlocking held => exact h

theorem rebase
    (h : discipline.PhaseOk memory actual present phase)
    (hvalid : discipline.Valid memory)
    (howns : phase.Active → ∀ cell, discipline.owner other cell ∈ phase.held ↔
      discipline.owner memory cell ∈ phase.held)
    (hagree : phase.Active → ∀ cell,
      (discipline.part memory phase.held).Reads cell →
      other cell = memory cell) :
    discipline.PhaseOk other actual present phase := by
  cases phase with
  | idle => exact h
  | locking request held remaining => exact h
  | running request held readings code =>
      exact InProgress.rebase h hvalid (howns trivial) (hagree trivial)
  | unlocking held => exact h

end Discipline.PhaseOk

namespace Serialized

variable {start : Memory Value} {locals : Process → Local}
  {state : State Process Lock Value Reading Local Request Answer}
  {memory : Memory Value} {process other : Process}
  {request : Request} {held : List Lock} {readings : List Reading}
  {code : Code Value Reading (Answer × Local)} {cell : Cell} {lock : Lock}

theorem initial (hvalid : discipline.Valid start) :
    Serialized discipline start locals (initial start locals) start where
  serial := .nil
  valid := hvalid
  holder_iff := by simp [Locked.initial, Phase.held]
  phases := fun _ => trivial
  settled := fun _ _ => rfl

theorem eq_of_held
    (h : Serialized discipline start locals state memory)
    (hprocess : lock ∈ (state.phase process).held)
    (hother : lock ∈ (state.phase other).held) : process = other := by
  rw [← h.holder_iff] at hprocess hother
  exact Option.some.inj (hprocess.symm.trans hother)

theorem inProgress
    (h : Serialized discipline start locals state memory)
    (hphase : state.phase process = .running request held readings code) :
    discipline.InProgress memory state.memory (state.locals process) request
      held readings code := by
  have hok := h.phases process
  rw [hphase] at hok
  exact hok

theorem memory_of_fixed
    (h : Serialized discipline start locals state memory)
    (hcell : discipline.fixed cell) : state.memory cell = memory cell := by
  apply h.settled
  intro other hactive
  cases hphase : state.phase other with
  | running request held readings code =>
      rw [Phase.held, (h.inProgress hphase).held_eq]
      exact discipline.fixed_free memory _ request cell h.valid hcell
  | idle => rw [hphase] at hactive; exact hactive.elim
  | locking request held remaining =>
      rw [hphase] at hactive
      exact hactive.elim
  | unlocking held => rw [hphase] at hactive; exact hactive.elim

/-- A process goes on, without touching the memory. -/
theorem goto
    (h : Serialized discipline start locals state memory)
    {phase : Phase Lock Value Reading Local Request Answer}
    (holder : Lock → Option Process)
    (hholder : ∀ lock other, holder lock = some other ↔
      lock ∈ (Function.update state.phase process phase other).held)
    (hok : discipline.PhaseOk memory state.memory (state.locals process)
      phase)
    (hactive : (state.phase process).Active →
      phase.Active ∧ phase.held = (state.phase process).held) :
    Serialized discipline start locals
      { state.goto process phase with holder := holder } memory where
  serial := h.serial
  valid := h.valid
  holder_iff := hholder
  phases :=
    (Function.forall_update_iff state.phase fun other phase =>
      discipline.PhaseOk memory state.memory (state.locals other) phase).mpr
      ⟨hok, fun other _ => h.phases other⟩
  settled := by
    intro cell hcell
    apply h.settled
    rw [State.goto, Function.forall_update_iff state.phase fun _ phase =>
      phase.Active → discipline.owner memory cell ∉ phase.held] at hcell
    intro other hother
    by_cases heq : other = process
    · subst heq
      have hsame := hactive hother
      rw [← hsame.2]
      exact hcell.1 hsame.1
    · exact hcell.2 other heq hother

theorem holder_iff_update
    (h : Serialized discipline start locals state memory)
    {phase : Phase Lock Value Reading Local Request Answer}
    (hheld : ∀ lock, lock ∈ phase.held ↔ lock ∈ (state.phase process).held)
    (lock : Lock) (other : Process) :
    state.holder lock = some other ↔
      lock ∈ (Function.update state.phase process phase other).held := by
  rw [h.holder_iff]
  by_cases heq : other = process
  · subst heq
    rw [Function.update_self, hheld]
  · rw [Function.update_of_ne heq]

theorem goto_held
    (h : Serialized discipline start locals state memory)
    {phase : Phase Lock Value Reading Local Request Answer}
    (hheld : phase.held = (state.phase process).held)
    (hok : discipline.PhaseOk memory state.memory (state.locals process)
      phase)
    (hactive : (state.phase process).Active → phase.Active) :
    Serialized discipline start locals (state.goto process phase) memory :=
  h.goto state.holder (h.holder_iff_update fun lock => by rw [hheld]) hok
    fun hprocess => ⟨hactive hprocess, hheld⟩

/-! ### Steps of a body -/

/-- What an access of a body in progress finds. -/
theorem patch_eq_of_reads
    (h : Serialized discipline start locals state memory)
    (hcell : (discipline.part memory held).Reads cell) :
    (discipline.part memory held).patch memory state.memory cell =
      state.memory cell := by
  by_cases howned : (discipline.part memory held).owns cell
  · exact Part.patch_of_owns howned
  · rw [Part.patch_of_not_owns howned]
    exact (h.memory_of_fixed (hcell.resolve_left howned)).symm

theorem load
    (h : Serialized discipline start locals state memory)
    {next : Value cell → Code Value Reading (Answer × Local)}
    (hphase : state.phase process =
      .running request held readings (.call (.load cell) next)) :
    Serialized discipline start locals (state.goto process
      (.running request held readings (next (state.memory cell))))
      memory := by
  have hbody := h.inProgress hphase
  have hreads := Part.confines_load.mp hbody.confines
  apply h.goto_held
  · rw [hphase]
    rfl
  · refine ⟨hbody.held_eq, ?_, hbody.closed, ?_⟩
    · exact hreads.2 _ (hbody.closed cell hreads.1)
    · intro later
      rw [hbody.replay later, run_load, h.patch_eq_of_reads hreads.1]
  · exact fun _ => trivial

theorem clock
    (h : Serialized discipline start locals state memory)
    {next : Reading → Code Value Reading (Answer × Local)}
    (hphase : state.phase process =
      .running request held readings (.call .clock next))
    (reading : Reading) :
    Serialized discipline start locals (state.goto process
      (.running request held (readings ++ [reading]) (next reading)))
      memory := by
  have hbody := h.inProgress hphase
  apply h.goto_held
  · rw [hphase]
    rfl
  · refine ⟨hbody.held_eq, ?_, hbody.closed, ?_⟩
    · exact Part.confines_clock.mp hbody.confines reading
    · intro later
      rw [List.append_assoc, List.singleton_append, hbody.replay,
        run_clock_cons]
  · exact fun _ => trivial

theorem not_reads_of_owns
    (h : Serialized discipline start locals state memory)
    (hphase : state.phase process = .running request held readings code)
    (hne : other ≠ process) (hcell : discipline.owner memory cell ∈ held) :
    ¬ (discipline.part memory (state.phase other).held).Reads cell := by
  rintro (howned | hfixed)
  · apply hne
    apply h.eq_of_held howned
    rw [hphase]
    exact hcell
  · rw [(h.inProgress hphase).held_eq] at hcell
    exact discipline.fixed_free memory _ request cell h.valid hfixed hcell

theorem store
    (h : Serialized discipline start locals state memory)
    {value : Value cell} {next : Unit → Code Value Reading (Answer × Local)}
    (hphase : state.phase process =
      .running request held readings (.call (.store cell value) next)) :
    Serialized discipline start locals
      { state.goto process (.running request held readings (next ())) with
        memory := Function.update state.memory cell value } memory := by
  have hbody := h.inProgress hphase
  obtain ⟨howns, hgood, hnext⟩ := Part.confines_store.mp hbody.confines
  constructor
  · exact h.serial
  · exact h.valid
  · refine h.holder_iff_update fun lock => ?_
    rw [hphase]
    exact Iff.rfl
  · refine (Function.forall_update_iff state.phase fun other phase =>
      discipline.PhaseOk memory (Function.update state.memory cell value)
        (state.locals other) phase).mpr ⟨?_, ?_⟩
    · refine ⟨hbody.held_eq, hnext, hbody.closed.update hgood, ?_⟩
      intro later
      rw [hbody.replay later, run_store, Part.update_patch howns]
    · intro other hne
      apply (h.phases other).congr
      intro _ place hplace
      apply Function.update_of_ne
      rintro rfl
      exact h.not_reads_of_owns hphase hne howns hplace
  · intro place hplace
    rw [State.goto, Function.forall_update_iff state.phase fun _ phase =>
      phase.Active → discipline.owner memory place ∉ phase.held] at hplace
    have hne : place ≠ cell := by
      rintro rfl
      exact hplace.1 trivial howns
    change Function.update state.memory cell value place = memory place
    rw [Function.update_of_ne hne]
    apply h.settled
    intro other hother
    by_cases heq : other = process
    · subst heq
      rw [hphase]
      exact hplace.1 trivial
    · exact hplace.2 other heq hother

/-- A body ends: what it has written becomes what the next calls start from. -/
theorem finish
    (h : Serialized discipline start locals state memory)
    {answer : Answer} {after : Local}
    (hphase : state.phase process =
      .running request held readings (.done (answer, after))) :
    Serialized discipline start locals
      { state.goto process (.unlocking held.reverse) with
        locals := Function.update state.locals process after
        finished := state.finished ++ [⟨process, request, readings, answer⟩] }
      ((discipline.part memory held).patch memory state.memory) := by
  have hbody := h.inProgress hphase
  have hheld : held = (enter (state.locals process) request).locks :=
    hbody.held_eq
  set final := (discipline.part memory held).patch memory state.memory
    with hfinal
  have hrun : run (enter (state.locals process) request).body memory readings =
      some ((answer, after), final, []) := by
    have hreplay := hbody.replay []
    rwa [List.append_nil, run_done] at hreplay
  have houtside (cell : Cell) (hcell : discipline.owner memory cell ∉ held) :
      final cell = memory cell :=
    Part.patch_of_not_owns hcell
  have hvalid : discipline.Valid final :=
    discipline.keeps memory _ request readings _ final h.valid hrun
  have hmoves (cell : Cell) :
      discipline.owner final cell = discipline.owner memory cell ∨
        discipline.owner final cell ∈ held ∧
          discipline.owner memory cell ∈ held := by
    rw [hheld] at houtside ⊢
    exact discipline.moves memory _ request final h.valid hvalid houtside cell
  -- cells move between the locks of this call only
  have howns (other : Process) (hne : other ≠ process) (cell : Cell) :
      discipline.owner final cell ∈ (state.phase other).held ↔
        discipline.owner memory cell ∈ (state.phase other).held := by
    have hexclusive (lock : Lock) (hlock : lock ∈ held) :
        lock ∉ (state.phase other).held := by
      intro hother
      apply hne
      apply h.eq_of_held hother
      rw [hphase]
      exact hlock
    rcases hmoves cell with hsame | ⟨hafter, hbefore⟩
    · rw [hsame]
    · exact iff_of_false (hexclusive _ hafter) (hexclusive _ hbefore)
  constructor
  · exact h.serial.snoc hrun
  · exact hvalid
  · refine h.holder_iff_update fun lock => ?_
    rw [hphase]
    exact List.mem_reverse
  · refine (Function.forall_update_iff state.phase fun other phase =>
      discipline.PhaseOk final state.memory
        (Function.update state.locals process after other) phase).mpr ⟨?_, ?_⟩
    · rw [Discipline.PhaseOk, hheld]
      exact List.nodup_reverse.mpr
        ((discipline.increasing _ request).imp fun hlt => hlt.ne)
    · intro other hne
      rw [Function.update_of_ne hne]
      apply (h.phases other).rebase h.valid
      · exact fun _ => howns other hne
      · intro _ cell hcell
        apply houtside
        intro howned
        exact h.not_reads_of_owns hphase hne howned hcell
  · intro cell hcell
    rw [State.goto, Function.forall_update_iff state.phase fun _ phase =>
      phase.Active → discipline.owner final cell ∉ phase.held] at hcell
    by_cases howned : discipline.owner memory cell ∈ held
    · exact (Part.patch_of_owns howned).symm
    · rw [houtside cell howned]
      apply h.settled
      intro other hother
      by_cases heq : other = process
      · subst heq
        rw [hphase]
        exact howned
      · rw [← howns other heq]
        exact hcell.2 other heq hother

/-! ### Steps that take and give back locks -/

theorem memory_of_held
    (h : Serialized discipline start locals state memory)
    (hcell : discipline.owner memory cell ∈ (state.phase process).held)
    (hactive : ¬ (state.phase process).Active) :
    state.memory cell = memory cell := by
  apply h.settled
  intro other hother howned
  have heq : other = process := h.eq_of_held howned hcell
  subst heq
  exact hactive hother

theorem startBody
    (h : Serialized discipline start locals state memory)
    (hphase : state.phase process = .locking request held []) :
    Serialized discipline start locals (state.goto process
      (.running request held []
        (enter (state.locals process) request).body)) memory := by
  have hheld : held = (enter (state.locals process) request).locks := by
    have hok := h.phases process
    rw [hphase] at hok
    rwa [Discipline.PhaseOk, List.append_nil] at hok
  have hclosed := discipline.closed memory (state.locals process) request
    h.valid
  have hconfined := discipline.confined memory (state.locals process) request
    h.valid
  rw [← hheld] at hclosed hconfined
  have hmemory (cell : Cell) (hcell : discipline.owner memory cell ∈ held) :
      state.memory cell = memory cell := by
    have hprocess : discipline.owner memory cell ∈
        (state.phase process).held := by
      rw [hphase]
      exact hcell
    apply h.memory_of_held hprocess
    rw [hphase]
    exact not_false
  apply h.goto_held
  · rw [hphase]
    rfl
  · refine ⟨hheld, hconfined, ?_, ?_⟩
    · rintro cell (howned | hfixed)
      · rw [hmemory cell howned]
        exact hclosed cell (Or.inl howned)
      · rw [h.memory_of_fixed hfixed]
        exact hclosed cell (Or.inr hfixed)
    · intro later
      rw [Part.patch_eq_of_owns hmemory]
      rfl
  · intro hactive
    rw [hphase] at hactive
    exact hactive.elim

theorem takeLock
    (h : Serialized discipline start locals state memory)
    [DecidableEq Lock] {remaining : List Lock}
    (hphase : state.phase process = .locking request held (lock :: remaining))
    (hholder : state.holder lock = none) :
    Serialized discipline start locals
      { state.goto process (.locking request (held ++ [lock]) remaining) with
        holder := Function.update state.holder lock (some process) }
      memory := by
  have hok := h.phases process
  rw [hphase, Discipline.PhaseOk] at hok
  apply h.goto
  · intro place other
    have hiff := h.holder_iff place other
    by_cases hplace : place = lock
    · subst hplace
      rw [Function.update_self, Option.some.injEq]
      by_cases heq : other = process
      · subst heq
        rw [Function.update_self]
        exact iff_of_true rfl (List.mem_append_right held (List.mem_singleton_self _))
      · rw [Function.update_of_ne heq, ← hiff, hholder]
        exact iff_of_false (Ne.symm heq) (by simp)
    · rw [Function.update_of_ne hplace, hiff]
      by_cases heq : other = process
      · subst heq
        rw [Function.update_self, hphase]
        simp [Phase.held, hplace]
      · rw [Function.update_of_ne heq]
  · rw [Discipline.PhaseOk, List.append_assoc]
    exact hok
  · intro hactive
    rw [hphase] at hactive
    exact hactive.elim

theorem giveBack
    (h : Serialized discipline start locals state memory)
    [DecidableEq Lock]
    (hphase : state.phase process = .unlocking (lock :: held)) :
    Serialized discipline start locals
      { state.goto process (.unlocking held) with
        holder := Function.update state.holder lock none } memory := by
  have hok := h.phases process
  rw [hphase, Discipline.PhaseOk, List.nodup_cons] at hok
  apply h.goto
  · intro place other
    have hiff := h.holder_iff place other
    by_cases hplace : place = lock
    · subst hplace
      rw [Function.update_self]
      refine iff_of_false (by simp) ?_
      by_cases heq : other = process
      · subst heq
        rw [Function.update_self]
        exact hok.1
      · rw [Function.update_of_ne heq]
        intro hother
        apply heq
        apply h.eq_of_held hother
        rw [hphase]
        exact List.mem_cons_self
    · rw [Function.update_of_ne hplace, hiff]
      by_cases heq : other = process
      · subst heq
        rw [Function.update_self, hphase]
        simp [Phase.held, hplace]
      · rw [Function.update_of_ne heq]
  · exact hok.2
  · intro hactive
    rw [hphase] at hactive
    exact hactive.elim

/-- A process never comes to a lock that it holds already. -/
theorem not_holder_self
    (h : Serialized discipline start locals state memory)
    {remaining : List Lock}
    (hphase : state.phase process =
      .locking request held (lock :: remaining)) :
    state.holder lock ≠ some process := by
  intro hholder
  have hok := h.phases process
  rw [hphase, Discipline.PhaseOk] at hok
  have hsorted := discipline.increasing (state.locals process) request
  rw [← hok, List.pairwise_append] at hsorted
  rw [h.holder_iff, hphase] at hholder
  exact lt_irrefl lock (hsorted.2.2 lock hholder lock List.mem_cons_self)

theorem move
    [DecidableEq Lock]
    {next : State Process Lock Value Reading Local Request Answer}
    (h : Serialized discipline start locals state memory)
    (hmove : Move enter state next) :
    ∃ memory, Serialized discipline start locals next memory := by
  cases hmove with
  | invoke hphase =>
      refine ⟨memory, h.goto_held ?_ ?_ ?_⟩
      · rw [hphase]
        rfl
      · rfl
      · intro hactive
        rw [hphase] at hactive
        exact hactive.elim
  | relock hphase hholder => exact (h.not_holder_self hphase hholder).elim
  | lock hphase hholder => exact ⟨memory, h.takeLock hphase hholder⟩
  | start hphase => exact ⟨memory, h.startBody hphase⟩
  | load hphase => exact ⟨memory, h.load hphase⟩
  | store hphase => exact ⟨memory, h.store hphase⟩
  | clock hphase => exact ⟨memory, h.clock hphase _⟩
  | finish hphase => exact ⟨_, h.finish hphase⟩
  | unlock hphase => exact ⟨memory, h.giveBack hphase⟩
  | leave hphase =>
      refine ⟨memory, h.goto_held ?_ trivial ?_⟩
      · rw [hphase]
        rfl
      · intro hactive
        rw [hphase] at hactive
        exact hactive.elim

/-! ### What follows in every state -/

/-- A body in progress has not run into a loop without end. -/
theorem not_spin
    (h : Serialized discipline start locals state memory)
    {next : Empty → Code Value Reading (Answer × Local)} [Inhabited Reading] :
    state.phase process ≠
      .running request held readings (.call .spin next) := by
  intro hphase
  have hbody := h.inProgress hphase
  obtain ⟨enough, hends⟩ := discipline.ends memory (state.locals process)
    request h.valid
  have hsome := hends (readings ++ List.replicate enough default) (by simp)
  rw [hbody.replay, run_spin] at hsome
  cases hsome

theorem lt_of_waits
    (h : Serialized discipline start locals state memory)
    {place : Lock} (hholder : state.holder lock = some other)
    (hother : state.Awaits other place) : lock < place := by
  obtain ⟨request, held, remaining, hphase⟩ := hother
  have hok := h.phases other
  rw [hphase, Discipline.PhaseOk] at hok
  have hsorted := discipline.increasing (state.locals other) request
  rw [← hok, List.pairwise_append] at hsorted
  rw [h.holder_iff, hphase] at hholder
  exact hsorted.2.2 lock hholder place List.mem_cons_self

theorem not_circle
    (h : Serialized discipline start locals state memory)
    (process : Process) : ¬ Relation.TransGen state.Waits process process := by
  -- along a path the awaited locks increase
  have hpath (other : Process)
      (hpath : Relation.TransGen state.Waits process other) :
      ∃ first, state.Awaits process first ∧
        ∀ last, state.Awaits other last → first < last := by
    induction hpath with
    | single hwaits =>
        obtain ⟨lock, hlock, hholder⟩ := hwaits
        exact ⟨lock, hlock, fun _ hlast => h.lt_of_waits hholder hlast⟩
    | tail _ hwaits ih =>
        obtain ⟨first, hfirst, hless⟩ := ih
        obtain ⟨lock, hlock, hholder⟩ := hwaits
        refine ⟨first, hfirst, fun last hlast => ?_⟩
        exact (hless lock hlock).trans (h.lt_of_waits hholder hlast)
  intro hcircle
  obtain ⟨first, hfirst, hless⟩ := hpath process hcircle
  exact lt_irrefl first (hless first hfirst)

end Serialized

/-- Every state of every run is that of calls made one after the other, with
some bodies in progress. -/
theorem exists_serialized
    [DecidableEq Lock] {start : Memory Value} {locals : Process → Local}
    {state : State Process Lock Value Reading Local Request Answer}
    {allowed : State Process Lock Value Reading Local Request Answer →
      Action Process Reading Request → Prop}
    (discipline : Discipline enter) (hvalid : discipline.Valid start)
    (hreach : Transition.Reaches (step enter) allowed
      (initial start locals) state) :
    ∃ memory, Serialized discipline start locals state memory := by
  refine hreach.invariant
    (fun state => ∃ memory, Serialized discipline start locals state memory)
    ⟨start, .initial hvalid⟩ ?_
  rintro before after action ⟨memory, hbefore⟩ - hstep
  exact hbefore.move (move_of_step hstep)

end Discipline

end MessageBus.Locked
