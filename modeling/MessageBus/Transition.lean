import Mathlib.Tactic

/-!
# Runs of a partial step function

A system is a partial step function on its states.  `Reaches` collects the
states of the runs whose every action is allowed in the state it is taken in;
the invariant rule below is the induction over runs that a development needs,
and `replay` computes concrete runs.

What a process brings about by its own steps, whatever the others do in
between, is shown by a rank that only its steps lower.

`path` is an infinite run of a system whose actions can be taken in every
state.  What holds for ever is shown by induction along the path, and what
happens at last is followed from one step of a process to its next one.
-/

namespace MessageBus.Transition

variable {State Action : Type}

/-- The states of the runs from `start` all of whose actions are allowed. -/
inductive Reaches
    (step : State → Action → Option State)
    (allowed : State → Action → Prop) (start : State) : State → Prop where
  | refl : Reaches step allowed start start
  | next {before after : State} {action : Action}
      (hreach : Reaches step allowed start before)
      (hallowed : allowed before action)
      (hstep : step before action = some after) :
      Reaches step allowed start after

variable {step : State → Action → Option State}
  {allowed : State → Action → Prop} {start : State}

/-- What holds at the start and is kept by every allowed step holds in every
state of every run. -/
theorem Reaches.invariant
    (Invariant : State → Prop) (hstart : Invariant start)
    (hkeep : ∀ before after action, Invariant before →
      allowed before action → step before action = some after →
      Invariant after)
    {state : State} (hreach : Reaches step allowed start state) :
    Invariant state := by
  induction hreach with
  | refl => exact hstart
  | next _ hallowed hstep ih => exact hkeep _ _ _ ih hallowed hstep

/-- Perform a list of actions, checking each against `allowed`. -/
def replay
    (step : State → Action → Option State)
    (allowed : State → Action → Prop)
    [∀ state action, Decidable (allowed state action)] :
    State → List Action → Option State
  | state, [] => some state
  | state, action :: actions =>
      if allowed state action then
        (step state action).bind fun next => replay step allowed next actions
      else none

theorem reaches_of_replay_from
    [∀ state action, Decidable (allowed state action)]
    {before after : State} {actions : List Action}
    (hreach : Reaches step allowed start before)
    (hreplay : replay step allowed before actions = some after) :
    Reaches step allowed start after := by
  induction actions generalizing before with
  | nil =>
      simp only [replay, Option.some.injEq] at hreplay
      subst after
      exact hreach
  | cons action actions ih =>
      simp only [replay] at hreplay
      split_ifs at hreplay with hallowed
      obtain ⟨next, hstep, hrest⟩ := Option.bind_eq_some_iff.mp hreplay
      exact ih (hreach.next hallowed hstep) hrest

theorem reaches_of_replay
    [∀ state action, Decidable (allowed state action)]
    {after : State} {actions : List Action}
    (hreplay : replay step allowed start actions = some after) :
    Reaches step allowed start after :=
  reaches_of_replay_from .refl hreplay

theorem reaches_getD
    [∀ state action, Decidable (allowed state action)]
    {other : State} {actions : List Action}
    (hsome : (replay step allowed start actions).isSome = true) :
    Reaches step allowed start
      ((replay step allowed start actions).getD other) := by
  obtain ⟨after, hafter⟩ := Option.isSome_iff_exists.mp hsome
  rw [hafter, Option.getD_some]
  exact reaches_of_replay hafter

/-- A fold that may give up, as a run: `Invariant` also sees what the fold has
gone through. -/
theorem foldlM_invariant
    (Invariant : List Action → State → Prop) (hstart : Invariant [] start)
    (hkeep : ∀ past before after action, Invariant past before →
      step before action = some after → Invariant (past ++ [action]) after)
    {actions : List Action} {final : State}
    (hfold : actions.foldlM step start = some final) :
    Invariant actions final := by
  suffices hfrom : ∀ past before, Invariant past before →
      actions.foldlM step before = some final →
      Invariant (past ++ actions) final from hfrom [] start hstart hfold
  clear hfold
  induction actions with
  | nil =>
      intro past before hbefore hfold
      cases hfold
      rwa [List.append_nil]
  | cons action actions ih =>
      intro past before hbefore hfold
      rw [List.foldlM_cons] at hfold
      obtain ⟨next, hnext, hrest⟩ := Option.bind_eq_some_iff.mp hfold
      have hafter := ih _ next (hkeep past before next action hbefore hnext)
        hrest
      rwa [List.append_assoc] at hafter

/-! ## Runs that get somewhere -/

section Passes

variable [∀ state action, Decidable (allowed state action)]
  {actions : List Action} {final : State}

/-- The run of some actions passes a state with `Goal`. -/
def Passes
    (step : State → Action → Option State)
    (allowed : State → Action → Prop)
    [∀ state action, Decidable (allowed state action)]
    (start : State) (actions : List Action) (Goal : State → Prop) : Prop :=
  ∃ front state, front <+: actions ∧
    replay step allowed start front = some state ∧ Goal state

theorem Passes.cons
    {action : Action} {next : State} {Goal : State → Prop}
    (hallowed : allowed start action) (hstep : step start action = some next)
    (hpasses : Passes step allowed next actions Goal) :
    Passes step allowed start (action :: actions) Goal := by
  obtain ⟨front, state, hfront, hreplay, hgoal⟩ := hpasses
  refine ⟨action :: front, state, (List.prefix_cons_inj action).mpr hfront, ?_,
    hgoal⟩
  rw [replay, if_pos hallowed, hstep]
  exact hreplay

/-- The steps of one process bring it nearer to the goal and those of the
others do not take it away from it, so it is reached as soon as the process has
taken as many steps as its rank says, whatever the others do in between. -/
theorem passes_of_rank
    (own : Action → Bool) (Kept : State → Prop) (rank : State → ℕ)
    {Goal : State → Prop}
    (hpos : ∀ state, Kept state → 0 < rank state)
    (hown : ∀ before after action, Kept before → allowed before action →
      own action = true → step before action = some after →
      Goal after ∨ Kept after ∧ rank after < rank before)
    (hother : ∀ before after action, Kept before → allowed before action →
      own action = false → step before action = some after →
      Kept after ∧ rank after = rank before)
    (hstart : Kept start)
    (hreplay : replay step allowed start actions = some final)
    (hcount : rank start ≤ actions.countP own) :
    Passes step allowed start actions Goal := by
  induction actions generalizing start with
  | nil =>
      have hrank := hpos start hstart
      rw [List.countP_nil] at hcount
      omega
  | cons action actions ih =>
      simp only [replay] at hreplay
      split_ifs at hreplay with hallowed
      obtain ⟨next, hstep, hrest⟩ := Option.bind_eq_some_iff.mp hreplay
      cases haction : own action with
      | false =>
          obtain ⟨hkept, hrank⟩ :=
            hother start next action hstart hallowed haction hstep
          rw [List.countP_cons_of_neg (by simp [haction]), ← hrank] at hcount
          exact (ih hkept hrest hcount).cons hallowed hstep
      | true =>
          rw [List.countP_cons_of_pos haction] at hcount
          obtain hgoal | ⟨hkept, hrank⟩ :=
            hown start next action hstart hallowed haction hstep
          · have hnow : Passes step allowed next actions Goal :=
              ⟨[], next, List.nil_prefix, rfl, hgoal⟩
            exact hnow.cons hallowed hstep
          · exact (ih hkept hrest (by omega)).cons hallowed hstep

end Passes

/-! ## Infinite runs -/

/-- The states of an infinite run. -/
def path (step : State → Action → State) (start : State)
    (actions : ℕ → Action) : ℕ → State
  | 0 => start
  | n + 1 => step (path step start actions n) (actions n)

section Path

variable {total : State → Action → State} {actions : ℕ → Action}

theorem path_invariant
    (Invariant : State → Prop) (hstart : Invariant start)
    (hkeep : ∀ n, Invariant (path total start actions n) →
      Invariant (total (path total start actions n) (actions n)))
    (n : ℕ) : Invariant (path total start actions n) := by
  induction n with
  | zero => exact hstart
  | succ n ih => exact hkeep n ih

/-- What every step keeps or lets grow holds between any two states. -/
theorem path_grows
    (Grows : State → State → Prop) (hrefl : ∀ state, Grows state state)
    (htrans : ∀ first second third, Grows first second →
      Grows second third → Grows first third)
    (hstep : ∀ state action, Grows state (total state action))
    {n m : ℕ} (hle : n ≤ m) :
    Grows (path total start actions n) (path total start actions m) := by
  induction m, hle using Nat.le_induction with
  | base => exact hrefl _
  | succ m _ ih => exact htrans _ _ _ ih (hstep _ _)

/-- A process that is never left alone for ever takes another step, and finds
there what the steps of the others keep. -/
theorem exists_next_step
    (total : State → Action → State) (start : State) {own : Action → Prop}
    (hfair : ∀ n, ∃ m, n ≤ m ∧ own (actions m))
    (Kept : State → Prop)
    (hkept : ∀ state action, ¬ own action → Kept state →
      Kept (total state action))
    {n : ℕ} (hn : Kept (path total start actions n)) :
    ∃ m, n ≤ m ∧ own (actions m) ∧ Kept (path total start actions m) := by
  classical
  obtain ⟨hle, hown⟩ := Nat.find_spec (hfair n)
  refine ⟨Nat.find (hfair n), hle, hown, ?_⟩
  have hbefore (m : ℕ) (hnm : n ≤ m) (hm : m ≤ Nat.find (hfair n)) :
      Kept (path total start actions m) := by
    induction m, hnm using Nat.le_induction with
    | base => exact hn
    | succ m hnm ih =>
        apply hkept _ _ _ (ih (by omega))
        exact fun howned => Nat.find_min (hfair n) (by omega) ⟨hnm, howned⟩
  exact hbefore _ hle le_rfl

/-- Some actions, and others from then on. -/
def follow : List Action → (ℕ → Action) → ℕ → Action
  | [], tail, n => tail n
  | action :: _, _, 0 => action
  | _ :: front, tail, n + 1 => follow front tail n

theorem follow_length_add
    (front : List Action) (tail : ℕ → Action) (n : ℕ) :
    follow front tail (front.length + n) = tail n := by
  induction front with
  | nil => rw [List.length_nil, Nat.zero_add, follow]
  | cons action front ih =>
      rw [List.length_cons, Nat.add_right_comm, follow, ih]

theorem path_follow_cons
    (action : Action) (front : List Action) (tail : ℕ → Action) (n : ℕ) :
    path total start (follow (action :: front) tail) (n + 1) =
      path total (total start action) (follow front tail) n := by
  induction n with
  | zero => rfl
  | succ n ih =>
      rw [path, ih, path]
      rfl

section Replay

variable [∀ state action, Decidable (allowed state action)] {final : State}
  {front : List Action} {tail : ℕ → Action}

/-- A concrete run goes on from where it has ended. -/
theorem path_of_replay
    (hreplay : replay (fun state action => some (total state action))
      allowed start front = some final) (n : ℕ) :
    path total start (follow front tail) (front.length + n) =
      path total final tail n := by
  induction front generalizing start with
  | nil =>
      cases hreplay
      rw [List.length_nil, Nat.zero_add]
      rfl
  | cons action front ih =>
      simp only [replay] at hreplay
      split_ifs at hreplay
      rw [List.length_cons, Nat.add_right_comm, path_follow_cons]
      exact ih hreplay

/-- The actions of a concrete run are allowed, and so are those that follow if
they are so from where it has ended. -/
theorem allowed_of_replay
    (hreplay : replay (fun state action => some (total state action))
      allowed start front = some final)
    (htail : ∀ n, allowed (path total final tail n) (tail n)) (n : ℕ) :
    allowed (path total start (follow front tail) n)
      (follow front tail n) := by
  induction front generalizing start n with
  | nil =>
      cases hreplay
      exact htail n
  | cons action front ih =>
      simp only [replay] at hreplay
      split_ifs at hreplay with hallowed
      cases n with
      | zero => exact hallowed
      | succ n =>
          rw [path_follow_cons]
          exact ih hreplay n

end Replay

end Path

end MessageBus.Transition
