import Mathlib.Tactic

/-!
# Lists threaded through two links in each cell

Doubly linked lists that begin at head cells and end in the null cell.  A cell is
put behind a head, or taken out of where it stands.  Many lists can share the
links; a cell that goes in or out touches no other list.
-/

namespace MessageBus.DoubleLinks

structure Links (α : Type) where
  next : α → α
  prev : α → α

namespace Links

variable {α : Type} [DecidableEq α] (links : Links α) (null : α)

def setNext (cell value : α) : Links α :=
  { links with next := Function.update links.next cell value }

def setPrev (cell value : α) : Links α :=
  { links with prev := Function.update links.prev cell value }

/-- The cell goes behind the head. -/
def push (head cell : α) : Links α :=
  let first := links.next head
  let links := ((links.setPrev cell head).setNext cell first).setNext head cell
  if first = null then links else links.setPrev first cell

/-- The cell goes out from behind `before`. -/
def unlink (before cell : α) : Links α :=
  let after := links.next cell
  let links := links.setNext before after
  if after = null then links else links.setPrev after (links.prev cell)

section

variable {links : Links α} {null head cell before other : α}

theorem push_next (hother : other ≠ cell) (hhead : other ≠ head) :
    (links.push null head cell).next other = links.next other := by
  dsimp only [push]
  split_ifs <;> simp [setNext, setPrev, hother, hhead]

theorem push_next_cell (hne : cell ≠ head) :
    (links.push null head cell).next cell = links.next head := by
  dsimp only [push]
  split_ifs <;> simp [setNext, setPrev, hne]

theorem push_next_head : (links.push null head cell).next head = cell := by
  dsimp only [push]
  split_ifs <;> simp [setNext, setPrev]

theorem push_prev (hother : other ≠ cell) (hfirst : other ≠ links.next head) :
    (links.push null head cell).prev other = links.prev other := by
  dsimp only [push]
  split_ifs <;> simp [setNext, setPrev, hother, hfirst]

theorem push_prev_cell (hfirst : cell ≠ links.next head) :
    (links.push null head cell).prev cell = head := by
  dsimp only [push]
  split_ifs <;> simp [setNext, setPrev, hfirst]

theorem push_prev_first (hnull : links.next head ≠ null) :
    (links.push null head cell).prev (links.next head) = cell := by
  simp [push, setNext, setPrev, hnull]

theorem unlink_next (hother : other ≠ before) :
    (links.unlink null before cell).next other = links.next other := by
  dsimp only [unlink]
  split_ifs <;> simp [setNext, setPrev, hother]

theorem unlink_next_before :
    (links.unlink null before cell).next before = links.next cell := by
  dsimp only [unlink]
  split_ifs <;> simp [setNext, setPrev]

theorem unlink_prev (hafter : other ≠ links.next cell) :
    (links.unlink null before cell).prev other = links.prev other := by
  dsimp only [unlink]
  split_ifs <;> simp [setNext, setPrev, hafter]

theorem unlink_prev_after (before : α) (hnull : links.next cell ≠ null) :
    (links.unlink null before cell).prev (links.next cell) = links.prev cell := by
  simp [unlink, setNext, setPrev, hnull]

end

end Links

/-! ## One list -/

variable {α ι : Type} [DecidableEq α] {links links' : Links α}
  {null head last cell : α} {cells left right : List α}

/-- The cells behind `last` are linked forth and back up to the null cell. -/
def Chain (links : Links α) (null : α) : α → List α → Prop
  | last, [] => links.next last = null
  | last, cell :: cells =>
      links.next last = cell ∧ cell ≠ null ∧ links.prev cell = last ∧
        Chain links null cell cells

namespace Chain

omit [DecidableEq α] in
theorem congr (hchain : Chain links null last cells)
    (hnext : ∀ cell ∈ last :: cells, links'.next cell = links.next cell)
    (hprev : ∀ cell ∈ cells, links'.prev cell = links.prev cell) :
    Chain links' null last cells := by
  induction cells generalizing last with
  | nil => exact (hnext last List.mem_cons_self).trans hchain
  | cons cell cells ih =>
      obtain ⟨hlast, hnull, hback, hrest⟩ := hchain
      refine ⟨(hnext last List.mem_cons_self).trans hlast, hnull,
        (hprev cell List.mem_cons_self).trans hback, ?_⟩
      exact ih hrest (fun other hother => hnext other (List.mem_cons_of_mem _ hother))
        fun other hother => hprev other (List.mem_cons_of_mem _ hother)

omit [DecidableEq α] in
theorem ne_null (hchain : Chain links null last cells) (hcell : cell ∈ cells) :
    cell ≠ null := by
  induction cells generalizing last with
  | nil => cases hcell
  | cons other cells ih =>
      obtain ⟨-, hnull, -, hrest⟩ := hchain
      rcases List.mem_cons.mp hcell with rfl | hcell
      · exact hnull
      · exact ih hrest hcell

omit [DecidableEq α] in
theorem drop (hchain : Chain links null last (left ++ cell :: right)) :
    Chain links null cell right := by
  induction left generalizing last with
  | nil => exact hchain.2.2.2
  | cons other left ih => exact ih hchain.2.2.2

omit [DecidableEq α] in
theorem prev_mem (hchain : Chain links null last (left ++ cell :: right)) :
    links.prev cell ∈ last :: left := by
  induction left generalizing last with
  | nil => exact List.mem_singleton.mpr hchain.2.2.1
  | cons other left ih => exact List.mem_cons_of_mem _ (ih hchain.2.2.2)

omit [DecidableEq α] in
theorem next_mem (hchain : Chain links null cell right) :
    links.next cell = null ∨ links.next cell ∈ right := by
  cases right with
  | nil => exact .inl hchain
  | cons other right => exact .inr (List.mem_cons.mpr (.inl hchain.1))

theorem push (hchain : Chain links null head cells) (hnull : cell ≠ null)
    (hhead : cell ≠ head) (hcell : cell ∉ cells) (hnodup : (head :: cells).Nodup) :
    Chain (links.push null head cell) null head (cell :: cells) := by
  have hfirst : cell ≠ links.next head := by
    rcases hchain.next_mem with hnext | hnext
    · rwa [hnext]
    · exact fun heq => hcell (heq ▸ hnext)
  refine ⟨Links.push_next_head, hnull, Links.push_prev_cell hfirst, ?_⟩
  cases cells with
  | nil => exact (Links.push_next_cell hhead).trans hchain
  | cons first cells =>
      obtain ⟨hnext, hfirstNull, -, hrest⟩ := hchain
      obtain ⟨hhead', hnodup⟩ := List.nodup_cons.mp hnodup
      refine ⟨(Links.push_next_cell hhead).trans hnext, hfirstNull, ?_, ?_⟩
      · rw [← hnext]
        exact Links.push_prev_first (hnext ▸ hfirstNull)
      · refine hrest.congr (fun other hother => ?_) fun other hother => ?_
        · exact Links.push_next (fun heq => hcell (heq ▸ hother))
            fun heq => hhead' (heq ▸ hother)
        · refine Links.push_prev
            (fun heq => hcell (heq ▸ List.mem_cons_of_mem _ hother)) ?_
          rw [hnext]
          exact fun heq => (List.nodup_cons.mp hnodup).1 (heq ▸ hother)

theorem unlink (hchain : Chain links null last (left ++ cell :: right))
    (hnodup : (last :: (left ++ cell :: right)).Nodup) :
    Chain (links.unlink null (links.prev cell) cell) null last (left ++ right) := by
  induction left generalizing last with
  | nil =>
      obtain ⟨-, -, hprev, hrest⟩ := hchain
      rw [hprev]
      cases right with
      | nil => exact Links.unlink_next_before.trans hrest
      | cons after right =>
          obtain ⟨hnext, hnull, -, hlater⟩ := hrest
          simp only [List.nil_append, List.nodup_cons, List.mem_cons, not_or]
            at hnodup
          obtain ⟨⟨hlastCell, hlastAfter, hlastRight⟩, -, hafter, -⟩ := hnodup
          refine ⟨Links.unlink_next_before.trans hnext, hnull, ?_, ?_⟩
          · have hback := Links.unlink_prev_after last (hnext ▸ hnull)
            rwa [hnext, hprev] at hback
          · refine hlater.congr (fun other hother => ?_) fun other hother => ?_
            · refine Links.unlink_next fun heq => ?_
              rcases List.mem_cons.mp (heq ▸ hother) with heq | hmem
              · exact hlastAfter heq
              · exact hlastRight hmem
            · refine Links.unlink_prev ?_
              rw [hnext]
              exact fun heq => hafter (heq ▸ hother)
  | cons first left ih =>
      obtain ⟨hnext, hnull, hback, hrest⟩ := hchain
      have hlast := (List.nodup_cons.mp hnodup).1
      have hrestNodup := (List.nodup_cons.mp hnodup).2
      refine ⟨?_, hnull, ?_, ih hrest hrestNodup⟩
      · refine (Links.unlink_next fun heq => hlast ?_).trans hnext
        rw [heq]
        exact List.mem_append_left (cell :: right) hrest.prev_mem
      · refine (Links.unlink_prev fun heq => ?_).trans hback
        rcases hrest.drop.next_mem with hend | hmem
        · exact hnull (heq.trans hend)
        · rw [← heq] at hmem
          exact (List.nodup_cons.mp hrestNodup).1
            (List.mem_append_right _ (List.mem_cons_of_mem _ hmem))

end Chain

/-! ## Many lists -/

variable [DecidableEq ι] {heads : ι → α} {lists : ι → List α} {i j : ι}

/-- The links hold a list behind each head, and no cell stands in two places. -/
structure Threads (links : Links α) (null : α) (heads : ι → α)
    (lists : ι → List α) : Prop where
  chain : ∀ i, Chain links null (heads i) (lists i)
  nodup : ∀ i, (lists i).Nodup
  apart : ∀ i j cell, cell ∈ lists i → cell ∈ lists j → i = j
  heads_inj : ∀ i j, heads i = heads j → i = j
  heads_notMem : ∀ i j, heads i ∉ lists j
  heads_ne_null : ∀ i, heads i ≠ null

namespace Threads

omit [DecidableEq α] [DecidableEq ι] in
theorem nodup_cons (hthreads : Threads links null heads lists) (i : ι) :
    (heads i :: lists i).Nodup :=
  List.nodup_cons.mpr ⟨hthreads.heads_notMem i i, hthreads.nodup i⟩

/-- A cell that stands in no list is put behind a head. -/
theorem push (hthreads : Threads links null heads lists) (hnull : cell ≠ null)
    (hheads : ∀ j, heads j ≠ cell) (hlists : ∀ j, cell ∉ lists j) (i : ι) :
    Threads (links.push null (heads i) cell) null heads
      (Function.update lists i (cell :: lists i)) := by
  have hmem : ∀ j other, other ∈ Function.update lists i (cell :: lists i) j →
      other = cell ∧ j = i ∨ other ∈ lists j := by
    intro j other hother
    by_cases hj : j = i
    · subst hj
      rw [Function.update_self, List.mem_cons] at hother
      exact hother.imp (⟨·, rfl⟩) id
    · rw [Function.update_of_ne hj] at hother
      exact .inr hother
  refine ⟨fun j => ?_, fun j => ?_, fun j k other hj hk => ?_, hthreads.heads_inj,
    fun j k hhead => ?_, hthreads.heads_ne_null⟩
  · by_cases hj : j = i
    · subst hj
      rw [Function.update_self]
      exact (hthreads.chain j).push hnull (hheads j).symm (hlists j)
        (hthreads.nodup_cons j)
    · rw [Function.update_of_ne hj]
      refine (hthreads.chain j).congr (fun other hother => ?_) fun other hother => ?_
      · refine Links.push_next ?_ ?_
        · rintro rfl
          rcases List.mem_cons.mp hother with heq | hmem
          · exact hheads j heq.symm
          · exact hlists j hmem
        · rintro rfl
          rcases List.mem_cons.mp hother with heq | hmem
          · exact hj (hthreads.heads_inj j i heq.symm)
          · exact hthreads.heads_notMem i j hmem
      · refine Links.push_prev (fun heq => hlists j (heq ▸ hother)) ?_
        rintro rfl
        rcases (hthreads.chain i).next_mem with hnext | hnext
        · exact (hthreads.chain j).ne_null hother hnext
        · exact hj (hthreads.apart j i _ hother hnext)
  · by_cases hj : j = i
    · subst hj
      rw [Function.update_self]
      exact List.nodup_cons.mpr ⟨hlists j, hthreads.nodup j⟩
    · rw [Function.update_of_ne hj]
      exact hthreads.nodup j
  · rcases hmem j other hj with ⟨hleft, rfl⟩ | hleft <;>
      rcases hmem k other hk with ⟨hright, rfl⟩ | hright
    · rfl
    · exact absurd (hleft ▸ hright) (hlists k)
    · exact absurd (hright ▸ hleft) (hlists j)
    · exact hthreads.apart j k _ hleft hright
  · rcases hmem k _ hhead with ⟨heq, -⟩ | hk
    · exact hheads j heq
    · exact hthreads.heads_notMem j k hk

theorem unlink (hthreads : Threads links null heads lists) (hcell : cell ∈ lists i) :
    Threads (links.unlink null (links.prev cell) cell) null heads
      (Function.update lists i ((lists i).erase cell)) := by
  have hmem : ∀ j other, other ∈ Function.update lists i ((lists i).erase cell) j →
      other ∈ lists j := by
    intro j other hother
    by_cases hj : j = i
    · subst hj
      rw [Function.update_self] at hother
      exact List.mem_of_mem_erase hother
    · rwa [Function.update_of_ne hj] at hother
  obtain ⟨left, right, hsplit⟩ := List.append_of_mem hcell
  have hnodup := hthreads.nodup i
  have hchain := hthreads.chain i
  rw [hsplit] at hnodup hchain
  have hleft : cell ∉ left := fun hleft =>
    (List.nodup_append.mp hnodup).2.2 cell hleft cell List.mem_cons_self rfl
  refine ⟨fun j => ?_, fun j => ?_,
    fun j k other hj hk => hthreads.apart j k other (hmem j _ hj) (hmem k _ hk),
    hthreads.heads_inj, fun j k hhead => hthreads.heads_notMem j k (hmem k _ hhead),
    hthreads.heads_ne_null⟩
  · by_cases hj : j = i
    · subst hj
      rw [Function.update_self, hsplit, List.erase_append_right _ hleft,
        List.erase_cons_head]
      refine hchain.unlink ?_
      rw [← hsplit]
      exact hthreads.nodup_cons j
    · rw [Function.update_of_ne hj]
      have hbefore : links.prev cell ∈ heads i :: lists i := by
        rw [hsplit]
        rcases List.mem_cons.mp hchain.prev_mem with heq | hmem
        · exact List.mem_cons.mpr (.inl heq)
        · exact List.mem_cons_of_mem _ (List.mem_append_left _ hmem)
      refine (hthreads.chain j).congr (fun other hother => ?_) fun other hother => ?_
      · refine Links.unlink_next ?_
        rintro rfl
        rcases List.mem_cons.mp hbefore with heq | hbefore <;>
          rcases List.mem_cons.mp hother with heq' | hother
        · exact hj (hthreads.heads_inj j i (heq'.symm.trans heq))
        · exact hthreads.heads_notMem i j (heq ▸ hother)
        · exact hthreads.heads_notMem j i (heq' ▸ hbefore)
        · exact hj (hthreads.apart j i _ hother hbefore)
      · refine Links.unlink_prev ?_
        rintro rfl
        rcases hchain.drop.next_mem with hnext | hnext
        · exact (hthreads.chain j).ne_null hother hnext
        · refine hj (hthreads.apart j i _ hother ?_)
          rw [hsplit]
          exact List.mem_append_right _ (List.mem_cons_of_mem _ hnext)
  · by_cases hj : j = i
    · subst hj
      rw [Function.update_self]
      exact (hthreads.nodup j).erase cell
    · rw [Function.update_of_ne hj]
      exact hthreads.nodup j

omit [DecidableEq α] in
theorem exists_mem_push {other : α} (i : ι) :
    (∃ j, other ∈ Function.update lists i (cell :: lists i) j) ↔
      other = cell ∨ ∃ j, other ∈ lists j := by
  constructor
  · rintro ⟨j, hother⟩
    by_cases hj : j = i
    · subst hj
      rw [Function.update_self, List.mem_cons] at hother
      exact hother.imp id fun hmem => ⟨j, hmem⟩
    · rw [Function.update_of_ne hj] at hother
      exact .inr ⟨j, hother⟩
  · rintro (rfl | ⟨j, hother⟩)
    · exact ⟨i, by rw [Function.update_self]; exact List.mem_cons_self⟩
    · by_cases hj : j = i
      · subst hj
        exact ⟨j, by rw [Function.update_self]; exact List.mem_cons_of_mem _ hother⟩
      · exact ⟨j, by rwa [Function.update_of_ne hj]⟩

theorem exists_mem_unlink (hthreads : Threads links null heads lists)
    (hcell : cell ∈ lists i) {other : α} :
    (∃ j, other ∈ Function.update lists i ((lists i).erase cell) j) ↔
      other ≠ cell ∧ ∃ j, other ∈ lists j := by
  constructor
  · rintro ⟨j, hother⟩
    by_cases hj : j = i
    · subst hj
      rw [Function.update_self, (hthreads.nodup j).mem_erase_iff] at hother
      exact ⟨hother.1, j, hother.2⟩
    · rw [Function.update_of_ne hj] at hother
      refine ⟨?_, j, hother⟩
      rintro rfl
      exact hj (hthreads.apart j i _ hother hcell)
  · rintro ⟨hne, j, hother⟩
    by_cases hj : j = i
    · subst hj
      refine ⟨j, ?_⟩
      rw [Function.update_self, (hthreads.nodup j).mem_erase_iff]
      exact ⟨hne, hother⟩
    · exact ⟨j, by rwa [Function.update_of_ne hj]⟩

omit [DecidableEq α] [DecidableEq ι] in
theorem first (hthreads : Threads links null heads lists)
    (hlist : lists i = cell :: cells) :
    links.next (heads i) = cell ∧ links.prev cell = heads i := by
  have hchain := hthreads.chain i
  rw [hlist] at hchain
  exact ⟨hchain.1, hchain.2.2.1⟩

omit [DecidableEq α] [DecidableEq ι] in
theorem next_eq_null_iff (hthreads : Threads links null heads lists) :
    links.next (heads i) = null ↔ lists i = [] := by
  have hchain := hthreads.chain i
  constructor
  · intro hnext
    cases hlist : lists i with
    | nil => rfl
    | cons cell cells =>
        rw [hlist] at hchain
        exact absurd (hchain.1.symm.trans hnext) hchain.2.1
  · intro hlist
    rw [hlist] at hchain
    exact hchain

omit [DecidableEq α] [DecidableEq ι] in
theorem prev_ne_null (hthreads : Threads links null heads lists)
    (hcell : cell ∈ lists i) : links.prev cell ≠ null := by
  obtain ⟨left, right, hsplit⟩ := List.append_of_mem hcell
  have hchain := hthreads.chain i
  rw [hsplit] at hchain
  rcases List.mem_cons.mp hchain.prev_mem with heq | hmem
  · exact heq ▸ hthreads.heads_ne_null i
  · exact hchain.ne_null (List.mem_append_left _ hmem)

omit [DecidableEq ι] in
/-- A cell in a list goes out; no other cell gets or loses its link back. -/
theorem unlink_prev_eq_null_iff (hthreads : Threads links null heads lists)
    (hcell : cell ∈ lists i) {other : α} :
    (links.unlink null (links.prev cell) cell).prev other = null ↔
      links.prev other = null := by
  by_cases hafter : other = links.next cell
  · by_cases hnull : links.next cell = null
    · rw [Links.unlink, if_pos hnull]
      rfl
    · obtain ⟨left, right, hsplit⟩ := List.append_of_mem hcell
      have hchain := hthreads.chain i
      rw [hsplit] at hchain
      have hmem : links.next cell ∈ lists i := by
        rw [hsplit]
        exact List.mem_append_right _
          (List.mem_cons_of_mem _ (hchain.drop.next_mem.resolve_left hnull))
      rw [hafter, Links.unlink_prev_after _ hnull]
      exact iff_of_false (hthreads.prev_ne_null hcell) (hthreads.prev_ne_null hmem)
  · rw [Links.unlink_prev hafter]

omit [DecidableEq ι] in
theorem push_prev_eq_null_iff (hthreads : Threads links null heads lists)
    (hnull : cell ≠ null) {other : α} (hother : other ≠ cell) (hne : other ≠ null) :
    (links.push null (heads i) cell).prev other = null ↔ links.prev other = null := by
  by_cases hfirst : other = links.next (heads i)
  · subst hfirst
    have hmem := (hthreads.chain i).next_mem.resolve_left hne
    rw [Links.push_prev_first hne]
    exact iff_of_false hnull (hthreads.prev_ne_null hmem)
  · rw [Links.push_prev hother hfirst]

end Threads

end MessageBus.DoubleLinks
