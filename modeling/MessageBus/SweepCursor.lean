import Mathlib.Tactic

/-!
# A cursor over a changing set of keys

A sweep visits the keys of an ordered set one at a time and starts again when
it is past the last one, while keys come and go, the one at the cursor
included.  `⊤` is the place past the last key.  A key that stays is visited
once in every round, and within a bounded number of moves of the cursor.
-/

namespace MessageBus.SweepCursor

variable {α : Type} [LinearOrder α]

/-- The first key behind a given one. -/
def behind (keys : Finset α) (key : α) : WithTop α :=
  (keys.filter fun other => key < other).min

theorem lt_behind (keys : Finset α) (key : α) :
    (key : WithTop α) < behind keys key := by
  cases hbehind : behind keys key with
  | top => exact WithTop.coe_lt_top key
  | coe other =>
      have hmem := Finset.mem_of_min hbehind
      exact WithTop.coe_lt_coe.mpr (Finset.mem_filter.mp hmem).2

theorem behind_le {keys : Finset α} {key other : α} (hother : other ∈ keys)
    (hlt : key < other) : behind keys key ≤ other :=
  Finset.min_le (Finset.mem_filter.mpr ⟨hother, hlt⟩)

structure Sweep (α : Type) where
  keys : Finset α
  cursor : WithTop α

namespace Sweep

/-- The cursor is past the last key or at one of the keys. -/
def Valid (sweep : Sweep α) : Prop :=
  ∀ key : α, sweep.cursor = key → key ∈ sweep.keys

end Sweep

/-- What is seen of a step. -/
inductive Event (α : Type) where
  /-- the cursor goes back to the first key -/
  | reset
  /-- the key at the cursor is visited -/
  | visit (key : α)
  /-- keys come and go -/
  | other
deriving DecidableEq

/-- A key goes, and a cursor there moves on. -/
def removeKey (sweep : Sweep α) (key : α) : Sweep α where
  keys := sweep.keys.erase key
  cursor := if sweep.cursor = key then behind sweep.keys key else sweep.cursor

/-- The steps of a sweep.  A key that is visited may be removed by that. -/
def Moves (before after : Sweep α) : Event α → Prop
  | .reset => before.cursor = ⊤ ∧ after = ⟨before.keys, before.keys.min⟩
  | .visit key =>
      before.cursor = key ∧
        (after = ⟨before.keys, behind before.keys key⟩ ∨
          after = removeKey before key)
  | .other =>
      (after.cursor = before.cursor ∧ before.keys ⊆ after.keys) ∨
        ∃ key, after = removeKey before key

section Step

variable {before after : Sweep α} {event : Event α} {key : α}

theorem mem_of_min_erase {keys : Finset α} {removed : α} {key : α}
    (hbehind : behind keys removed = key) : key ∈ keys.erase removed := by
  have hmem := Finset.mem_filter.mp (Finset.mem_of_min hbehind)
  exact Finset.mem_erase.mpr ⟨hmem.2.ne', hmem.1⟩

theorem removeKey_valid {sweep : Sweep α} (hvalid : sweep.Valid) (removed : α) :
    (removeKey sweep removed).Valid := by
  intro key hkey
  simp only [removeKey] at hkey ⊢
  split_ifs at hkey with hcursor
  · exact mem_of_min_erase hkey
  · refine Finset.mem_erase.mpr ⟨?_, hvalid key hkey⟩
    rintro rfl
    exact hcursor hkey

theorem Moves.valid (hmoves : Moves before after event)
    (hvalid : before.Valid) : after.Valid := by
  cases event with
  | reset =>
      obtain ⟨-, rfl⟩ := hmoves
      intro key hkey
      exact Finset.mem_of_min hkey
  | visit visited =>
      obtain ⟨-, rfl | rfl⟩ := hmoves
      · intro key hkey
        exact Finset.mem_of_mem_erase (mem_of_min_erase hkey)
      · exact removeKey_valid hvalid visited
  | other =>
      obtain ⟨hcursor, hkeys⟩ | ⟨removed, rfl⟩ := hmoves
      · intro key hkey
        exact hkeys (hvalid key (hcursor ▸ hkey))
      · exact removeKey_valid hvalid removed

/-- How a step that is not a reset moves the cursor relative to a key that
stays. -/
theorem Moves.cursor_of_mem (hmoves : Moves before after event)
    (hreset : event ≠ .reset) (hafter : key ∈ after.keys) :
    (event = .other ∧ after.cursor = before.cursor) ∨
      (event ≠ .visit key ∧ ∃ other, before.cursor = (other : α) ∧
        other ≠ key ∧ after.cursor = behind before.keys other) ∨
      event = .visit key ∧ before.cursor = key ∧
        after.cursor = behind before.keys key := by
  have hremove (removed : α) (hafter : key ∈ (removeKey before removed).keys) :
      removed ≠ key :=
    (Finset.ne_of_mem_erase hafter).symm
  cases event with
  | reset => exact absurd rfl hreset
  | visit visited =>
      obtain ⟨hcursor, hmoved⟩ := hmoves
      have hnext : after.cursor = behind before.keys visited := by
        rcases hmoved with rfl | rfl
        · rfl
        · exact if_pos hcursor
      by_cases hkey : visited = key
      · subst hkey
        exact Or.inr (Or.inr ⟨rfl, hcursor, hnext⟩)
      · have hevent : Event.visit visited ≠ Event.visit key := by
          simpa using hkey
        exact Or.inr (Or.inl ⟨hevent, visited, hcursor, hkey, hnext⟩)
  | other =>
      obtain ⟨hcursor, -⟩ | ⟨removed, rfl⟩ := hmoves
      · exact Or.inl ⟨rfl, hcursor⟩
      · by_cases hcursor : before.cursor = removed
        · exact Or.inr (Or.inl ⟨by simp, removed, hcursor,
            hremove removed hafter, if_pos hcursor⟩)
        · exact Or.inl ⟨rfl, if_neg hcursor⟩

theorem behind_le_iff {keys : Finset α} {other : α} (hkey : key ∈ keys)
    (hne : other ≠ key) : behind keys other ≤ key ↔ (other : WithTop α) ≤ key := by
  constructor
  · intro hle
    exact (lt_behind keys other).le.trans hle
  · intro hle
    exact behind_le hkey (lt_of_le_of_ne (WithTop.coe_le_coe.mp hle) hne)

end Step

/-! ## Runs -/

/-- The events and states of a run. -/
def Run : Sweep α → List (Event α × Sweep α) → Prop
  | _, [] => True
  | sweep, (event, next) :: steps => Moves sweep next event ∧ Run next steps

/-- Where a run has got to. -/
def final : Sweep α → List (Event α × Sweep α) → Sweep α
  | sweep, [] => sweep
  | _, (_, next) :: steps => final next steps

section Run

variable {sweep : Sweep α} {steps : List (Event α × Sweep α)} {key : α}

/-- How often the cursor has passed a key since the last reset. -/
def passed (cursor : WithTop α) (key : α) : ℕ :=
  if cursor ≤ key then 0 else 1

def visits (steps : List (Event α × Sweep α)) (key : α) : ℕ :=
  (steps.map Prod.fst).count (.visit key)

theorem passed_step {before after : Sweep α} {event : Event α}
    (hmoves : Moves before after event) (hreset : event ≠ .reset)
    (hbefore : key ∈ before.keys) (hafter : key ∈ after.keys) :
    passed before.cursor key + (if event = .visit key then 1 else 0) =
      passed after.cursor key := by
  unfold passed
  rcases hmoves.cursor_of_mem hreset hafter with ⟨hevent, hsame⟩ |
    ⟨hevent, other, hcursor, hne, hnext⟩ | ⟨hevent, hcursor, hnext⟩
  · rw [hevent, hsame]
    rfl
  · rw [if_neg hevent, hcursor, hnext, Nat.add_zero]
    simp only [behind_le_iff hbefore hne]
  · have hbehind := lt_behind before.keys key
    rw [if_pos hevent, hcursor, hnext, if_pos le_rfl,
      if_neg (not_le.mpr hbehind)]

/-- Between two resets the cursor passes a key by visiting it. -/
theorem passed_run (hrun : Run sweep steps)
    (hreset : ∀ step ∈ steps, step.1 ≠ .reset)
    (hkey : key ∈ sweep.keys) (hstays : ∀ step ∈ steps, key ∈ step.2.keys) :
    passed sweep.cursor key + visits steps key =
      passed (final sweep steps).cursor key := by
  induction steps generalizing sweep with
  | nil => rfl
  | cons step steps ih =>
      obtain ⟨event, next⟩ := step
      rw [List.forall_mem_cons] at hreset hstays
      have hstep := passed_step hrun.1 hreset.1 hkey hstays.1
      have hrest := ih hrun.2 hreset.2 hstays.1 hstays.2
      rw [final, ← hrest, ← hstep, visits, List.map_cons, List.count_cons]
      simp only [beq_iff_eq, visits]
      omega

/-- In a whole round, from a reset until the cursor is past the last key, a
key that stays is visited once. -/
theorem visited_once (hrun : Run sweep steps)
    (hstart : sweep.cursor = sweep.keys.min)
    (hend : (final sweep steps).cursor = ⊤)
    (hreset : ∀ step ∈ steps, step.1 ≠ .reset)
    (hkey : key ∈ sweep.keys) (hstays : ∀ step ∈ steps, key ∈ step.2.keys) :
    visits steps key = 1 := by
  have hpassed := passed_run hrun hreset hkey hstays
  have hfirst : passed sweep.cursor key = 0 :=
    if_pos (hstart ▸ Finset.min_le hkey)
  have hlast : passed (final sweep steps).cursor key = 1 := by
    rw [hend, passed, if_neg (not_le.mpr (WithTop.coe_lt_top key))]
  omega

/-! ## How long a key can wait -/

/-- A bound for the moves of the cursor before it comes to a key; `rank` counts
the places of the keys. -/
def distance (rank : WithTop α → ℕ) (cursor : WithTop α) (key : α) : ℕ :=
  if cursor ≤ key then rank key - rank cursor
  else rank ⊤ - rank cursor + 1 + rank key

def moved (steps : List (Event α × Sweep α)) : ℕ :=
  steps.countP fun step => step.1 ≠ .other

theorem distance_le {rank : WithTop α → ℕ} (hrank : StrictMono rank)
    (cursor : WithTop α) (key : α) :
    distance rank cursor key ≤ 2 * rank ⊤ := by
  have hkey := hrank (WithTop.coe_lt_top key)
  unfold distance
  split_ifs <;> omega

theorem distance_step {rank : WithTop α → ℕ} (hrank : StrictMono rank)
    {before after : Sweep α} {event : Event α}
    (hmoves : Moves before after event) (hvisit : event ≠ .visit key)
    (hbefore : key ∈ before.keys) (hafter : key ∈ after.keys) :
    distance rank after.cursor key + (if event ≠ .other then 1 else 0) ≤
      distance rank before.cursor key := by
  by_cases hreset : event = .reset
  · subst hreset
    obtain ⟨hcursor, rfl⟩ := hmoves
    have hmin := Finset.min_le hbefore
    have hmoved : Event.reset ≠ (Event.other : Event α) := by simp
    rw [hcursor, if_pos hmoved]
    unfold distance
    rw [if_pos hmin, if_neg (not_le.mpr (WithTop.coe_lt_top key))]
    omega
  · rcases hmoves.cursor_of_mem hreset hafter with ⟨hevent, hsame⟩ |
      ⟨-, other, hcursor, hne, hnext⟩ | ⟨hevent, -, -⟩
    · rw [hevent, hsame]
      simp
    · have hlt := hrank (lt_behind before.keys other)
      have htop := hrank.monotone (le_top : behind before.keys other ≤ ⊤)
      have hiff := behind_le_iff hbefore hne
      rw [hcursor, hnext]
      unfold distance
      by_cases hle : (other : WithTop α) ≤ key
      · have hkey := hrank.monotone (hiff.mpr hle)
        rw [if_pos hle, if_pos (hiff.mpr hle)]
        split_ifs <;> omega
      · rw [if_neg hle, if_neg (fun h => hle (hiff.mp h))]
        split_ifs <;> omega
    · exact absurd hevent hvisit

/-- While a key stays and is not visited, the cursor moves only so often. -/
theorem moved_le {rank : WithTop α → ℕ} (hrank : StrictMono rank)
    (hrun : Run sweep steps) (hvisit : ∀ step ∈ steps, step.1 ≠ .visit key)
    (hkey : key ∈ sweep.keys) (hstays : ∀ step ∈ steps, key ∈ step.2.keys) :
    moved steps ≤ 2 * rank ⊤ := by
  suffices hdistance : moved steps ≤ distance rank sweep.cursor key from
    hdistance.trans (distance_le hrank _ _)
  induction steps generalizing sweep with
  | nil => exact Nat.zero_le _
  | cons step steps ih =>
      obtain ⟨event, next⟩ := step
      rw [List.forall_mem_cons] at hvisit hstays
      have hstep := distance_step hrank hrun.1 hvisit.1 hkey hstays.1
      have hrest := ih hrun.2 hvisit.2 hstays.1 hstays.2
      rw [moved, List.countP_cons]
      unfold moved at hrest
      simp only [decide_eq_true_eq]
      omega

end Run

end MessageBus.SweepCursor
