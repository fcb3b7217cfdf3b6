import Mathlib.Tactic

/-!
# Stores into a linear memory and the cells of a ring

A memory is a function from addresses to cells and a store is a list of
single-cell writes performed from left to right.  The cells of a ring of a
given size are visited from a starting position with the address reduced
modulo the size; a run of at most `size` consecutive cells never meets the
same address twice, which is what makes writing and reading back a run
inverse to each other wherever the run wraps.
-/

namespace MessageBus.ByteRing

variable {α : Type}

/-- Perform the single-cell writes from left to right. -/
def store (memory : ℕ → α) (writes : List (ℕ × α)) : ℕ → α :=
  writes.foldl (fun cells write => Function.update cells write.1 write.2) memory

@[simp] theorem store_nil (memory : ℕ → α) : store memory [] = memory := rfl

@[simp] theorem store_cons
    (memory : ℕ → α) (write : ℕ × α) (writes : List (ℕ × α)) :
    store memory (write :: writes) =
      store (Function.update memory write.1 write.2) writes := rfl

/-- A cell which no write touches keeps its value. -/
theorem store_of_notMem
    {memory : ℕ → α} {writes : List (ℕ × α)} {address : ℕ}
    (hout : address ∉ writes.map Prod.fst) :
    store memory writes address = memory address := by
  induction writes generalizing memory with
  | nil => rfl
  | cons write writes ih =>
      simp only [List.map_cons, List.mem_cons, not_or] at hout
      rw [store_cons, ih hout.2]
      simp [Function.update, hout.1]

/-- Writing values at distinct addresses and reading these addresses back
returns the values. -/
theorem map_store_zip
    (memory : ℕ → α) {addresses : List ℕ} {values : List α}
    (hnodup : addresses.Nodup)
    (hlength : addresses.length = values.length) :
    addresses.map (store memory (addresses.zip values)) = values := by
  induction addresses generalizing memory values with
  | nil =>
      cases values with
      | nil => rfl
      | cons value values => simp at hlength
  | cons address addresses ih =>
      cases values with
      | nil => simp at hlength
      | cons value values =>
          rw [List.nodup_cons] at hnodup
          have hlength' : addresses.length = values.length := by
            simpa using hlength
          have hout : address ∉ (addresses.zip values).map Prod.fst := by
            intro hmem
            apply hnodup.1
            rw [List.map_fst_zip hlength'.le] at hmem
            exact hmem
          simp only [List.zip_cons_cons, List.map_cons, store_cons]
          rw [store_of_notMem hout, ih _ hnodup.2 hlength']
          simp

/-- Cells which already hold the values destined for them read as these
values. -/
theorem map_eq_of_written
    {memory : ℕ → α} {addresses : List ℕ} {values : List α}
    (hlength : addresses.length = values.length)
    (hwritten : ∀ write ∈ addresses.zip values,
      memory write.1 = write.2) :
    addresses.map memory = values := by
  induction addresses generalizing values with
  | nil =>
      cases values with
      | nil => rfl
      | cons value values => simp at hlength
  | cons address addresses ih =>
      cases values with
      | nil => simp at hlength
      | cons value values =>
          have hhead : memory address = value :=
            hwritten (address, value) (by simp)
          have hrest : addresses.map memory = values :=
            ih (by simpa using hlength) fun write hwrite =>
              hwritten write (by simp [hwrite])
          rw [List.map_cons, hhead, hrest]

/-- Reading one more cell of a partly read list of cells. -/
theorem read_next
    {memory : ℕ → α} {cells rest : List ℕ} {cell : ℕ} {values got : List α}
    (hvalues : cells.map memory = values)
    (hgot : got = values.take got.length)
    (htodo : cells.drop got.length = cell :: rest) :
    got ++ [memory cell] = values.take (got ++ [memory cell]).length ∧
      cells.drop (got ++ [memory cell]).length = rest := by
  have hlt : got.length < cells.length := by
    by_contra hge
    rw [List.drop_eq_nil_of_le (by omega)] at htodo
    simp at htodo
  have hlt' : got.length < values.length := by
    rw [← hvalues, List.length_map]
    exact hlt
  rw [List.drop_eq_getElem_cons hlt, List.cons.injEq] at htodo
  have hvalue : values[got.length] = memory cell := by
    subst values
    rw [List.getElem_map, htodo.1]
  constructor
  · rw [List.length_append, List.length_singleton, List.take_add_one,
      List.getElem?_eq_getElem hlt', hvalue, ← hgot]
    rfl
  · rw [List.length_append, List.length_singleton]
    exact htodo.2

/-! ## Consecutive cells of a ring -/

/-- The addresses of `count` consecutive cells of a ring, from `start` on. -/
def ringCells (size start count : ℕ) : List ℕ :=
  (List.range count).map fun index => (start + index) % size

/-- The contents of `count` consecutive cells of a ring. -/
def ringRead (size : ℕ) (memory : ℕ → α) (start count : ℕ) : List α :=
  (ringCells size start count).map memory

@[simp] theorem ringCells_zero (size start : ℕ) :
    ringCells size start 0 = [] := rfl

@[simp] theorem ringCells_length (size start count : ℕ) :
    (ringCells size start count).length = count := by
  simp [ringCells]

@[simp] theorem ringRead_length
    (size : ℕ) (memory : ℕ → α) (start count : ℕ) :
    (ringRead size memory start count).length = count := by
  simp [ringRead]

theorem mem_ringCells {size start count address : ℕ} :
    address ∈ ringCells size start count ↔
      ∃ index < count, (start + index) % size = address := by
  simp [ringCells]

theorem ringCells_add (size start first second : ℕ) :
    ringCells size start (first + second) =
      ringCells size start first ++ ringCells size (start + first) second := by
  simp [ringCells, List.range_add, Nat.add_assoc]

theorem ringRead_add
    (size : ℕ) (memory : ℕ → α) (start first second : ℕ) :
    ringRead size memory start (first + second) =
      ringRead size memory start first ++
        ringRead size memory (start + first) second := by
  simp [ringRead, ringCells_add]

@[simp] theorem ringCells_mod (size start count : ℕ) :
    ringCells size (start % size) count = ringCells size start count := by
  simp [ringCells]

@[simp] theorem ringRead_mod
    (size : ℕ) (memory : ℕ → α) (start count : ℕ) :
    ringRead size memory (start % size) count =
      ringRead size memory start count := by
  simp [ringRead]

/-- A run which ends before the end of the ring is an interval. -/
theorem ringCells_of_le
    {size start count : ℕ} (hfit : start + count ≤ size) :
    ringCells size start count = List.range' start count := by
  rw [ringCells, List.range'_eq_map_range]
  apply List.map_congr_left
  intro index hindex
  rw [List.mem_range] at hindex
  exact Nat.mod_eq_of_lt (by omega)

/-- A run which starts past the end of the ring is an interval further down. -/
theorem ringCells_past
    {size offset count : ℕ} (hfit : offset + count ≤ size) :
    ringCells size (size + offset) count = List.range' offset count := by
  rw [← ringCells_of_le hfit]
  simp [ringCells, Nat.add_assoc]

/-- A run which crosses the end of the ring is an interval up to the end and
an interval from the beginning. -/
theorem ringCells_cross
    {size start first second : ℕ}
    (hend : start + first = size) (hfit : second ≤ size) :
    ringCells size start (first + second) =
      List.range' start first ++ List.range' 0 second := by
  rw [ringCells_add, ringCells_of_le hend.le, hend]
  have hpast : ringCells size (size + 0) second = List.range' 0 second :=
    ringCells_past (by omega)
  rw [← hpast, Nat.add_zero]

theorem ringIndex_injective
    {size start first second : ℕ}
    (hfirst : first < size) (hsecond : second < size)
    (heq : (start + first) % size = (start + second) % size) :
    first = second := by
  have hmod : first ≡ second [MOD size] := Nat.ModEq.add_left_cancel' start heq
  exact Nat.ModEq.eq_of_lt_of_lt hmod hfirst hsecond

theorem ringCells_nodup
    {size start count : ℕ} (hcount : count ≤ size) :
    (ringCells size start count).Nodup := by
  apply List.Nodup.map_on _ List.nodup_range
  intro first hfirst second hsecond heq
  rw [List.mem_range] at hfirst hsecond
  exact ringIndex_injective (by omega) (by omega) heq

/-- The run which follows another one is disjoint from it as long as both
together fit in the ring. -/
theorem ringCells_disjoint
    {size start first second : ℕ} (hfit : first + second ≤ size) :
    (ringCells size start first).Disjoint
      (ringCells size (start + first) second) := by
  have hnodup : (ringCells size start (first + second)).Nodup :=
    ringCells_nodup hfit
  rw [ringCells_add] at hnodup
  exact (List.nodup_append'.mp hnodup).2.2

theorem ringCells_lt
    {size start count address : ℕ} (hsize : 0 < size)
    (hmem : address ∈ ringCells size start count) : address < size := by
  obtain ⟨index, _, rfl⟩ := mem_ringCells.mp hmem
  exact Nat.mod_lt _ hsize

theorem ringRead_congr
    {size start count : ℕ} {memory memory' : ℕ → α}
    (hagree : ∀ address ∈ ringCells size start count,
      memory' address = memory address) :
    ringRead size memory' start count = ringRead size memory start count :=
  List.map_congr_left hagree

theorem ringRead_store
    {size : ℕ} (memory : ℕ → α) (start : ℕ) {values : List α}
    (hfit : values.length ≤ size) :
    ringRead size
        (store memory ((ringCells size start values.length).zip values))
        start values.length = values :=
  map_store_zip memory (ringCells_nodup hfit) (by simp)

end MessageBus.ByteRing
