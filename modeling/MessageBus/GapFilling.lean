import Mathlib.Data.Multiset.Range
import Mathlib.Tactic

/-!
# Filling the gap of a removed element

An array without order is kept dense by moving an element into the place of one
that is removed.  What the array holds afterwards is right exactly when the
element moved is the last one, or none had to be moved.
-/

namespace MessageBus.GapFilling

variable {α : Type}

/-- What the first `num` places of an array hold. -/
def contents (array : ℕ → α) (num : ℕ) : Multiset α :=
  (Multiset.range num).map array

/-- The element of another place is copied into the gap. -/
def fill (array : ℕ → α) (gap source : ℕ) : ℕ → α :=
  Function.update array gap (array source)

/-- What the first `num` places hold but for one of them. -/
def others (array : ℕ → α) (num gap : ℕ) : Multiset α :=
  ((Multiset.range num).erase gap).map array

variable {array other : ℕ → α} {num gap source place : ℕ} {element : α}

theorem contents_congr (hagree : ∀ place < num, array place = other place) :
    contents array num = contents other num :=
  Multiset.map_congr rfl fun place hplace =>
    hagree place (Multiset.mem_range.mp hplace)

theorem mem_contents :
    element ∈ contents array num ↔ ∃ place < num, array place = element := by
  simp [contents]

theorem contents_update (hgap : gap < num) :
    contents (Function.update array gap element) num =
      element ::ₘ others array num gap := by
  rw [contents, ← Multiset.cons_erase (Multiset.mem_range.mpr hgap),
    Multiset.map_cons, Function.update_self]
  congr 1
  refine Multiset.map_congr rfl fun place hplace => Function.update_of_ne ?_ _ _
  rw [(Multiset.nodup_range num).mem_erase_iff] at hplace
  exact hplace.1

theorem others_succ (hgap : gap < num) :
    others array (num + 1) gap = array num ::ₘ others array num gap := by
  rw [others, Multiset.range_succ, Multiset.erase_cons_tail _ hgap.ne',
    Multiset.map_cons, others]

theorem others_last : others array (num + 1) num = contents array num := by
  rw [others, Multiset.range_succ, Multiset.erase_cons_head, contents]

/-- Exactly when the element of the gap is gone and all others are left. -/
theorem contents_fill_iff (hgap : gap < num) :
    contents (fill array gap source) (num - 1) = others array num gap ↔
      gap = num - 1 ∨ array source = array (num - 1) := by
  obtain ⟨last, rfl⟩ := Nat.exists_eq_add_of_le' (show 1 ≤ num by omega)
  rw [Nat.add_sub_cancel]
  rcases (Nat.lt_succ_iff.mp hgap).eq_or_lt with rfl | hlt
  · rw [others_last]
    refine iff_of_true (contents_congr fun place hplace => ?_) (Or.inl rfl)
    exact Function.update_of_ne hplace.ne _ _
  · rw [fill, contents_update hlt, others_succ hlt, Multiset.cons_inj_left,
      or_iff_right hlt.ne]

end MessageBus.GapFilling
