import MessageBus.AtomicCalls

/-!
# Programs over shared cells

The code of a process that works on memory it shares with others, cut at its
single accesses: a load or a store of one cell, or a reading of the clock.
`run` performs a code without interruption.

A code is confined to a part of the cells if it stays inside that part and the
fixed cells whatever it loads there.  What it loads may be limited by what is
kept true of the cells, for example that a pointer stored in the part points
into the part.  A confined code neither sees nor changes the rest of the memory,
so the rest can be replaced under it.
-/

namespace MessageBus.Shared

variable {Cell : Type} {Value : Cell → Type} {Reading α β : Type}

inductive Access (Cell : Type) (Value : Cell → Type) where
  | load (cell : Cell)
  | store (cell : Cell) (value : Value cell)
  | clock
  -- a loop that has not ended when its fuel is spent
  | spin

@[reducible] def Access.Answer (Reading : Type) : Access Cell Value → Type
  | .load cell => Value cell
  | .store _ _ => Unit
  | .clock => Reading
  | .spin => Empty

abbrev Code (Value : Cell → Type) (Reading α : Type) : Type :=
  Program (Access Cell Value) (Access.Answer Reading) α

abbrev Memory (Value : Cell → Type) : Type := (cell : Cell) → Value cell

def load (cell : Cell) : Code Value Reading (Value cell) :=
  .call (.load cell) .done

def store (cell : Cell) (value : Value cell) : Code Value Reading Unit :=
  .call (.store cell value) .done

def clock : Code Value Reading Reading := .call .clock .done

def spin : Code Value Reading α := .call .spin Empty.elim

@[simp] theorem load_bind
    (cell : Cell) (later : Value cell → Code Value Reading α) :
    (load cell >>= later) = .call (.load cell) later := rfl

@[simp] theorem store_bind
    (cell : Cell) (value : Value cell)
    (later : Unit → Code Value Reading α) :
    (store cell value >>= later) = .call (.store cell value) later := rfl

@[simp] theorem clock_bind (later : Reading → Code Value Reading α) :
    (clock >>= later) = .call .clock later := rfl

/-! ## Running alone -/

section Run

variable [DecidableEq Cell]

/-- Perform a code on a memory, with the readings of the clock given in
advance; what is left of them is handed back.  A code that runs out of readings
or spins has no result. -/
def run : Code Value Reading α → Memory Value → List Reading →
    Option (α × Memory Value × List Reading)
  | .done value, memory, readings => some (value, memory, readings)
  | .call (.load cell) next, memory, readings =>
      run (next (memory cell)) memory readings
  | .call (.store cell value) next, memory, readings =>
      run (next ()) (Function.update memory cell value) readings
  | .call .clock _, _, [] => none
  | .call .clock next, memory, reading :: readings =>
      run (next reading) memory readings
  | .call .spin _, _, _ => none

variable {memory : Memory Value} {readings : List Reading}

@[simp] theorem run_done (value : α) :
    run (.done value : Code Value Reading α) memory readings =
      some (value, memory, readings) := by
  rw [run]

@[simp] theorem run_load
    (cell : Cell) (next : Value cell → Code Value Reading α) :
    run (.call (.load cell) next : Code Value Reading α) memory readings =
      run (next (memory cell)) memory readings := by
  rw [run]

@[simp] theorem run_store
    (cell : Cell) (value : Value cell) (next : Unit → Code Value Reading α) :
    run (.call (.store cell value) next : Code Value Reading α) memory
        readings =
      run (next ()) (Function.update memory cell value) readings := by
  rw [run]

@[simp] theorem run_clock_nil (next : Reading → Code Value Reading α) :
    run (.call .clock next : Code Value Reading α) memory [] = none := by
  rw [run]

@[simp] theorem run_clock_cons
    (next : Reading → Code Value Reading α) (reading : Reading) :
    run (.call .clock next : Code Value Reading α) memory
        (reading :: readings) =
      run (next reading) memory readings := by
  rw [run]

@[simp] theorem run_spin (next : Empty → Code Value Reading α) :
    run (.call .spin next : Code Value Reading α) memory readings = none := by
  rw [run]

theorem run_bind
    (code : Code Value Reading α) (later : α → Code Value Reading β)
    (memory : Memory Value) (readings : List Reading) :
    run (code >>= later) memory readings =
      (run code memory readings).bind fun (value, memory, readings) =>
        run (later value) memory readings := by
  induction code generalizing memory readings with
  | done value => simp
  | call access next ih =>
      rw [Program.call_bind]
      cases access with
      | load cell =>
          rw [run_load, run_load]
          exact ih _ _ _
      | store cell value =>
          rw [run_store, run_store]
          exact ih _ _ _
      | clock =>
          cases readings with
          | nil => rw [run_clock_nil, run_clock_nil]; rfl
          | cons reading readings =>
              rw [run_clock_cons, run_clock_cons]
              exact ih _ _ _
      | spin => rw [run_spin, run_spin]; rfl

theorem run_bind_of_run
    {code : Code Value Reading α} {value : α} {after : Memory Value}
    {left : List Reading}
    (hrun : run code memory readings = some (value, after, left))
    (later : α → Code Value Reading β) :
    run (code >>= later) memory readings = run (later value) after left := by
  rw [run_bind, hrun]
  rfl

/-- Alone on `memory`, a code takes `count` readings of the clock and ends with
what `post` says of them, of its value and of the memory it leaves. -/
def Performs (code : Code Value Reading α) (memory : Memory Value)
    (count : ℕ) (post : List Reading → α → Memory Value → Prop) : Prop :=
  ∀ readings : List Reading,
    (readings.length < count → run code memory readings = none) ∧
      (count ≤ readings.length → ∃ value after,
        run code memory readings = some (value, after, readings.drop count) ∧
          post (readings.take count) value after)

section Performs

variable {code : Code Value Reading α} {count : ℕ}
  {post : List Reading → α → Memory Value → Prop}

theorem Performs.isSome
    (h : Performs code memory count post) (hcount : count ≤ readings.length) :
    (run code memory readings).isSome := by
  obtain ⟨value, after, hrun, -⟩ := (h readings).2 hcount
  rw [hrun]
  rfl

theorem Performs.post_of_run
    {value : α} {after : Memory Value} (h : Performs code memory count post)
    (hrun : run code memory readings = some (value, after, [])) :
    post readings value after := by
  obtain hless | hcount := lt_or_ge readings.length count
  · rw [(h readings).1 hless] at hrun
    cases hrun
  · obtain ⟨value', after', hrun', hpost⟩ := (h readings).2 hcount
    rw [hrun'] at hrun
    obtain ⟨rfl, rfl, hdrop⟩ : value' = value ∧ after' = after ∧
        readings.drop count = [] := by simpa using hrun
    rwa [List.take_of_length_le (List.drop_eq_nil_iff.mp hdrop)] at hpost

/-- A code that does not look at the clock. -/
theorem performs_of_run
    (hrun : ∀ readings, ∃ value after,
      run code memory readings = some (value, after, readings) ∧
        post [] value after) : Performs code memory 0 post := by
  intro readings
  refine ⟨fun hless => absurd hless (Nat.not_lt_zero _), fun _ => ?_⟩
  rw [List.drop_zero, List.take_zero]
  exact hrun readings

theorem Performs.with_length (h : Performs code memory count post) :
    Performs code memory count fun readings value after =>
      readings.length = count ∧ post readings value after := by
  intro readings
  refine ⟨(h readings).1, fun hcount => ?_⟩
  obtain ⟨value, after, hrun, hpost⟩ := (h readings).2 hcount
  exact ⟨value, after, hrun, List.length_take_of_le hcount, hpost⟩

theorem Performs.bind
    {later : α → Code Value Reading β}
    {finish : List Reading → β → Memory Value → Prop}
    (h : Performs code memory count post)
    (hlater : ∀ readings value after, post readings value after →
      ∃ result, (∀ left, run (later value) after left =
        some (result, after, left)) ∧ finish readings result after) :
    Performs (code >>= later) memory count finish := by
  intro readings
  rw [run_bind]
  constructor
  · intro hless
    rw [(h readings).1 hless]
    rfl
  · intro hcount
    obtain ⟨value, after, hrun, hpost⟩ := (h readings).2 hcount
    obtain ⟨result, hresult, hfinish⟩ := hlater _ value after hpost
    refine ⟨result, after, ?_, hfinish⟩
    rw [hrun]
    exact hresult _

end Performs

end Run

/-! ## Staying inside a part of the cells -/

/-- The cells that a code may use: it owns some, and others are fixed for
everyone.  `good` is kept true of the contents of both. -/
structure Part (Value : Cell → Type) where
  owns : Cell → Prop
  fixed : Cell → Prop
  good : (cell : Cell) → Value cell → Prop

namespace Part

variable {part : Part Value}

def Reads (part : Part Value) (cell : Cell) : Prop :=
  part.owns cell ∨ part.fixed cell

def Closed (part : Part Value) (memory : Memory Value) : Prop :=
  ∀ cell, part.Reads cell → part.good cell (memory cell)

/-- A code stays inside its part, and ends with a value that meets `post`. -/
def Confines (part : Part Value) (post : α → Prop) :
    Code Value Reading α → Prop
  | .done value => post value
  | .call (.load cell) next =>
      part.Reads cell ∧
        ∀ value, part.good cell value → Confines part post (next value)
  | .call (.store cell value) next =>
      part.owns cell ∧ part.good cell value ∧ Confines part post (next ())
  | .call .clock next => ∀ reading, Confines part post (next reading)
  | .call .spin _ => True

section Confines

variable {post : α → Prop} {finish : β → Prop}

@[simp] theorem confines_done {value : α} :
    part.Confines post (.done value : Code Value Reading α) ↔ post value := by
  rw [Confines]

@[simp] theorem confines_load
    {cell : Cell} {next : Value cell → Code Value Reading α} :
    part.Confines post (.call (.load cell) next : Code Value Reading α) ↔
      part.Reads cell ∧
        ∀ value, part.good cell value → part.Confines post (next value) := by
  rw [Confines]

@[simp] theorem confines_store
    {cell : Cell} {value : Value cell}
    {next : Unit → Code Value Reading α} :
    part.Confines post
        (.call (.store cell value) next : Code Value Reading α) ↔
      part.owns cell ∧ part.good cell value ∧
        part.Confines post (next ()) := by
  rw [Confines]

@[simp] theorem confines_clock {next : Reading → Code Value Reading α} :
    part.Confines post (.call .clock next : Code Value Reading α) ↔
      ∀ reading, part.Confines post (next reading) := by
  rw [Confines]

@[simp] theorem confines_spin {next : Empty → Code Value Reading α} :
    part.Confines post (.call .spin next : Code Value Reading α) := by
  rw [Confines]
  trivial

theorem confines_bind
    {code : Code Value Reading α} {later : α → Code Value Reading β} :
    part.Confines finish (code >>= later) ↔
      part.Confines (fun value => part.Confines finish (later value))
        code := by
  induction code with
  | done value => simp
  | call access next ih =>
      rw [Program.call_bind]
      cases access with
      | load cell =>
          rw [confines_load, confines_load]
          exact and_congr_right fun _ =>
            forall_congr' fun value => imp_congr_right fun _ => ih value
      | store cell value =>
          rw [confines_store, confines_store]
          exact and_congr_right fun _ => and_congr_right fun _ => ih ()
      | clock =>
          rw [confines_clock, confines_clock]
          exact forall_congr' ih
      | spin => exact iff_of_true confines_spin confines_spin

theorem Confines.mono
    {weaker : α → Prop} {code : Code Value Reading α}
    (hcode : part.Confines post code)
    (hweaker : ∀ value, post value → weaker value) :
    part.Confines weaker code := by
  induction code with
  | done value =>
      rw [confines_done] at hcode ⊢
      exact hweaker value hcode
  | call access next ih =>
      cases access with
      | load cell =>
          rw [confines_load] at hcode ⊢
          exact ⟨hcode.1, fun value hvalue => ih _ (hcode.2 value hvalue)⟩
      | store cell value =>
          rw [confines_store] at hcode ⊢
          exact ⟨hcode.1, hcode.2.1, ih _ hcode.2.2⟩
      | clock =>
          rw [confines_clock] at hcode ⊢
          exact fun reading => ih _ (hcode reading)
      | spin => exact confines_spin

end Confines

/-! ## The rest of the memory -/

open Classical in
/-- The cells of the part as in `inside`, the others as in `outside`. -/
noncomputable def patch (part : Part Value) (outside inside : Memory Value) :
    Memory Value :=
  fun cell => if part.owns cell then inside cell else outside cell

variable {outside inside other memory : Memory Value} {cell : Cell}

theorem patch_of_owns (hcell : part.owns cell) :
    part.patch outside inside cell = inside cell := if_pos hcell

theorem patch_of_not_owns (hcell : ¬ part.owns cell) :
    part.patch outside inside cell = outside cell := if_neg hcell

theorem patch_self (part : Part Value) (memory : Memory Value) :
    part.patch memory memory = memory := by
  funext cell
  simp [patch]

theorem patch_congr
    (hinside : ∀ cell, part.owns cell → inside cell = other cell) :
    part.patch outside inside = part.patch outside other := by
  funext cell
  by_cases hcell : part.owns cell
  · rw [patch_of_owns hcell, patch_of_owns hcell, hinside cell hcell]
  · rw [patch_of_not_owns hcell, patch_of_not_owns hcell]

theorem patch_patch (part : Part Value) (first second third : Memory Value) :
    part.patch first (part.patch second third) = part.patch first third :=
  patch_congr fun _ hcell => patch_of_owns hcell

theorem patch_eq_of_owns
    (hinside : ∀ cell, part.owns cell → inside cell = outside cell) :
    part.patch outside inside = outside := by
  rw [patch_congr hinside, patch_self]

section Frame

variable [DecidableEq Cell] {readings : List Reading} {post : α → Prop}
  {code : Code Value Reading α}

theorem update_patch {value : Value cell} (hcell : part.owns cell) :
    Function.update (part.patch outside inside) cell value =
      part.patch outside (Function.update inside cell value) := by
  funext other
  by_cases heq : other = cell
  · subst heq
    rw [Function.update_self, patch_of_owns hcell, Function.update_self]
  · rw [Function.update_of_ne heq]
    by_cases hother : part.owns other
    · rw [patch_of_owns hother, patch_of_owns hother,
        Function.update_of_ne heq]
    · rw [patch_of_not_owns hother, patch_of_not_owns hother]

theorem Closed.update
    {value : Value cell} (hclosed : part.Closed memory)
    (hvalue : part.good cell value) :
    part.Closed (Function.update memory cell value) := by
  intro other hother
  by_cases heq : other = cell
  · subst heq
    rwa [Function.update_self]
  · rw [Function.update_of_ne heq]
    exact hclosed other hother

/-- A confined code does the same over another memory, and leaves the rest of
it alone. -/
theorem run_patch
    (hcode : part.Confines post code) (hclosed : part.Closed memory)
    (hfixed : ∀ cell, part.fixed cell → ¬ part.owns cell)
    (hagree : ∀ cell, part.fixed cell → outside cell = memory cell) :
    run code (part.patch outside memory) readings =
      (run code memory readings).map fun (value, memory, readings) =>
        (value, part.patch outside memory, readings) := by
  induction code generalizing memory readings with
  | done value => simp
  | call access next ih =>
      cases access with
      | load cell =>
          rw [confines_load] at hcode
          have hload : part.patch outside memory cell = memory cell := by
            by_cases hcell : part.owns cell
            · exact patch_of_owns hcell
            · rw [patch_of_not_owns hcell]
              exact hagree cell (hcode.1.resolve_left hcell)
          rw [run_load, run_load, hload]
          exact ih _ (hcode.2 _ (hclosed cell hcode.1)) hclosed hagree
      | store cell value =>
          rw [confines_store] at hcode
          rw [run_store, run_store, update_patch hcode.1]
          apply ih _ hcode.2.2 (hclosed.update hcode.2.1)
          intro other hother
          have hne : other ≠ cell := by
            rintro rfl
            exact hfixed other hother hcode.1
          rw [Function.update_of_ne hne]
          exact hagree other hother
      | clock =>
          cases readings with
          | nil => rw [run_clock_nil, run_clock_nil]; rfl
          | cons reading readings =>
              rw [run_clock_cons, run_clock_cons]
              exact ih _ (confines_clock.mp hcode reading) hclosed hagree
      | spin => rw [run_spin, run_spin]; rfl

end Frame

end Part

end MessageBus.Shared
