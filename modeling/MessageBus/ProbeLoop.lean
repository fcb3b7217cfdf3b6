import Mathlib.Tactic

/-!
# Probing

A loop that goes from one place to the next until it finds a free one.  The
places it visits are the iterates of the step from where it starts, so it ends
if and only if one of them is free.
-/

namespace MessageBus.ProbeLoop

variable {α : Type} (next : α → α) (taken : α → Bool)

/-- The loop; `none` when it has not ended within `fuel` places. -/
def probe : ℕ → α → Option α
  | 0, _ => none
  | fuel + 1, place =>
      if taken place then probe fuel (next place) else some place

variable {next : α → α} {taken : α → Bool}

theorem probe_free {fuel : ℕ} {place found : α}
    (hfound : probe next taken fuel place = some found) :
    taken found = false := by
  induction fuel generalizing place with
  | zero => cases hfound
  | succ fuel ih =>
      rw [probe] at hfound
      split_ifs at hfound with htaken
      · exact ih hfound
      · cases hfound
        exact eq_false_of_ne_true htaken

/-- In a table the loop ends at a place without an entry. -/
theorem probe_none {β : Type} {table : α → Option β} {fuel : ℕ}
    {place found : α}
    (hfound : probe next (fun place => (table place).isSome) fuel place =
      some found) :
    table found = none := by
  have hfree := probe_free hfound
  exact Option.isNone_iff_eq_none.mp (Option.isSome_eq_false_iff.mp hfree)

/-- A set of places the step does not leave. -/
theorem probe_mem {inside : α → Prop}
    (hnext : ∀ place, inside place → inside (next place))
    {fuel : ℕ} {place found : α} (hplace : inside place)
    (hfound : probe next taken fuel place = some found) : inside found := by
  induction fuel generalizing place with
  | zero => cases hfound
  | succ fuel ih =>
      rw [probe] at hfound
      split_ifs at hfound with htaken
      · exact ih (hnext place hplace) hfound
      · cases hfound
        exact hplace

theorem probe_ends_of_free {place : α} {steps : ℕ}
    (hfree : taken (next^[steps] place) = false) :
    ∃ found, probe next taken (steps + 1) place = some found := by
  induction steps generalizing place with
  | zero =>
      rw [Function.iterate_zero_apply] at hfree
      exact ⟨place, by rw [probe, hfree, if_neg Bool.false_ne_true]⟩
  | succ steps ih =>
      rw [Function.iterate_succ_apply] at hfree
      rw [probe]
      split_ifs with htaken
      · exact ih hfree
      · exact ⟨place, rfl⟩

theorem probe_eq_none {fuel : ℕ} {place : α}
    (htaken : ∀ steps, taken (next^[steps] place) = true) :
    probe next taken fuel place = none := by
  induction fuel generalizing place with
  | zero => rfl
  | succ fuel ih =>
      have hlater : ∀ steps, taken (next^[steps] (next place)) = true := by
        intro steps
        rw [← Function.iterate_succ_apply]
        exact htaken (steps + 1)
      have hplace : taken place = true := htaken 0
      rw [probe, if_pos hplace, ih hlater]

theorem probe_ends_iff (place : α) :
    (∃ fuel found, probe next taken fuel place = some found) ↔
      ∃ steps, taken (next^[steps] place) = false := by
  constructor
  · rintro ⟨fuel, found, hfound⟩
    by_contra hnone
    have htaken : ∀ steps, taken (next^[steps] place) = true := by
      intro steps
      exact Bool.eq_true_of_not_eq_false fun hfree => hnone ⟨steps, hfree⟩
    rw [probe_eq_none htaken] at hfound
    cases hfound
  · rintro ⟨steps, hfree⟩
    obtain ⟨found, hfound⟩ := probe_ends_of_free hfree
    exact ⟨steps + 1, found, hfound⟩

end MessageBus.ProbeLoop
