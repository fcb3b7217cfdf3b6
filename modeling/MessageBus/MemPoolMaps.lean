import MessageBus.IndexChain
import MessageBus.MemPoolMapModel
import MessageBus.MemPoolNodes
import MessageBus.Transition

/-!
# The maps of a `CMemPool` do not disturb each other

Each live map owns the blocks of its chain, and the nodes of the pool that are in
use are exactly the blocks of the live maps.  What a caller can say about the
maps it knows from the answers it was given; a reachable pool answers every call
in agreement with that.
-/

namespace MessageBus.MemPool

open IndexChain

variable {Key Data : Type}

/-! ## One map -/

/-- The entries of a block, in the order of their places. -/
def DataBlock.entries (block : DataBlock Key Data) : List (Key × Data) :=
  (List.range block.iUsedDataNum).map fun index =>
    (block.astKey index, block.astData index)

@[simp] theorem DataBlock.entries_cleared (zeroKey : Key) (zeroData : Data) :
    (DataBlock.cleared zeroKey zeroData).entries = [] := rfl

theorem DataBlock.entries_push
    (block : DataBlock Key Data) (key : Key) (data : Data) :
    (block.push key data).entries = block.entries ++ [(key, data)] := by
  unfold DataBlock.entries DataBlock.push
  rw [List.range_succ, List.map_append]
  congr 1
  · apply List.map_congr_left
    intro index hindex
    have hne : index ≠ block.iUsedDataNum := (List.mem_range.mp hindex).ne
    simp [Function.update_of_ne hne]
  · simp

theorem DataBlock.find_entries [DecidableEq Key]
    (block : DataBlock Key Data) (key : Key) :
    (block.entries.find? fun entry => entry.1 = key) =
      (block.keyIndex key).map fun index =>
        (block.astKey index, block.astData index) := by
  rw [DataBlock.entries, List.find?_map]
  rfl

theorem DataBlock.keyIndex_isSome [DecidableEq Key]
    (block : DataBlock Key Data) (key : Key) :
    (block.keyIndex key).isSome = true ↔ key ∈ block.entries.map Prod.fst := by
  simp [DataBlock.keyIndex, DataBlock.entries]

/-- The successor of a block in its chain. -/
def nextHandle (dataBuff : ℤ → DataBlock Key Data) (block : ℤ) : ℤ :=
  (dataBuff block).iNextHandle

/-- The entries of a list of blocks. -/
def blockEntries (dataBuff : ℤ → DataBlock Key Data) (blocks : List ℕ) :
    List (Key × Data) :=
  blocks.flatMap fun block : ℕ => (dataBuff block).entries

/-- A map with these blocks and entries lies at a handle. -/
structure MapAt (dataBuff : ℤ → DataBlock Key Data) (iMapHandle : ℤ)
    (blocks : List ℕ) (entries : List (Key × Data)) : Prop where
  chain : ChainFrom (nextHandle dataBuff) (-1) iMapHandle
    (blocks.map fun block : ℕ => (block : ℤ))
  nodup : blocks.Nodup
  small : ∀ block ∈ blocks,
    (dataBuff block).iUsedDataNum ≤ mapBlockDataNum
  nonneg : 0 ≤ iMapHandle
  entries_eq : blockEntries dataBuff blocks = entries

section MapAt

variable {dataBuff dataBuff' : ℤ → DataBlock Key Data} {iMapHandle : ℤ}
  {blocks : List ℕ} {entries : List (Key × Data)}

theorem MapAt.congr
    (hmap : MapAt dataBuff iMapHandle blocks entries)
    (hagree : ∀ block ∈ blocks, dataBuff' block = dataBuff block) :
    MapAt dataBuff' iMapHandle blocks entries where
  chain := by
    apply hmap.chain.congr
    intro node hmem
    obtain ⟨block, hblock, rfl⟩ := List.mem_map.mp hmem
    simp only [nextHandle, hagree block hblock]
  nodup := hmap.nodup
  small := by
    intro block hblock
    rw [hagree block hblock]
    exact hmap.small block hblock
  nonneg := hmap.nonneg
  entries_eq := by
    rw [← hmap.entries_eq]
    exact List.flatMap_congr fun block hblock =>
      congrArg DataBlock.entries (hagree block hblock)

/-- A map has a first block, which its handle names. -/
theorem MapAt.exists_first (hmap : MapAt dataBuff iMapHandle blocks entries) :
    ∃ first rest, blocks = first :: rest ∧ iMapHandle = (first : ℤ) := by
  have hchain := hmap.chain
  have hnonneg := hmap.nonneg
  cases blocks with
  | nil =>
      have hend : iMapHandle = -1 := hchain
      omega
  | cons first rest => exact ⟨first, rest, rfl, hchain.1⟩

theorem MapAt.exists_last (hmap : MapAt dataBuff iMapHandle blocks entries) :
    ∃ before last, blocks = before ++ [last] := by
  obtain ⟨first, rest, rfl, -⟩ := hmap.exists_first
  exact ⟨_, _, (List.dropLast_append_getLast (List.cons_ne_nil _ _)).symm⟩

theorem mapAt_cleared {zeroKey : Key} {zeroData : Data} {block : ℕ}
    (hblock : dataBuff block = .cleared zeroKey zeroData) :
    MapAt dataBuff block [block] [] where
  chain := by
    have hne : (block : ℤ) ≠ -1 := by omega
    refine ⟨rfl, hne, ?_⟩
    simp [ChainFrom, nextHandle, hblock, DataBlock.cleared]
  nodup := List.nodup_singleton _
  small := by
    intro other hmem
    rw [List.mem_singleton.mp hmem, hblock]
    exact Nat.zero_le _
  nonneg := by omega
  entries_eq := by simp [blockEntries, hblock]

theorem MapAt.push
    {before : List ℕ} {last : ℕ}
    (hmap : MapAt dataBuff iMapHandle (before ++ [last]) entries)
    (hroom : (dataBuff last).iUsedDataNum < mapBlockDataNum)
    (key : Key) (data : Data) :
    MapAt (Function.update dataBuff last ((dataBuff last).push key data))
      iMapHandle (before ++ [last]) (entries ++ [(key, data)]) where
  chain := by
    apply hmap.chain.congr
    intro node _
    unfold nextHandle
    by_cases hnode : node = last
    · rw [hnode, Function.update_self]
      rfl
    · rw [Function.update_of_ne hnode]
  nodup := hmap.nodup
  small := by
    intro block hblock
    by_cases heq : block = last
    · rw [heq, Function.update_self]
      exact hroom
    · rw [Function.update_of_ne (by exact_mod_cast heq)]
      exact hmap.small block hblock
  nonneg := hmap.nonneg
  entries_eq := by
    have hbefore : blockEntries (Function.update dataBuff last
        ((dataBuff last).push key data)) before =
          blockEntries dataBuff before := by
      refine List.flatMap_congr fun block hblock => ?_
      have hne : (block : ℤ) ≠ last := by
        intro heq
        obtain rfl : block = last := by exact_mod_cast heq
        exact (List.nodup_append.mp hmap.nodup).2.2 block hblock block
          (List.mem_singleton_self _) rfl
      rw [Function.update_of_ne hne]
    have hentries := hmap.entries_eq
    unfold blockEntries at hbefore hentries ⊢
    rw [List.flatMap_append] at hentries ⊢
    rw [hbefore, ← hentries]
    simp [DataBlock.entries_push]

section Link

variable {zeroKey : Key} {zeroData : Data} {last fresh : ℕ}

theorem linkBlock_of_ne {block : ℕ} (hlast : block ≠ last)
    (hfresh : block ≠ fresh) :
    CMemPool.linkBlock zeroKey zeroData dataBuff last fresh block =
      dataBuff block := by
  rw [CMemPool.linkBlock, Function.update_of_ne (by exact_mod_cast hlast),
    Function.update_of_ne (by exact_mod_cast hfresh)]

theorem linkBlock_fresh (hne : last ≠ fresh) :
    CMemPool.linkBlock zeroKey zeroData dataBuff last fresh fresh =
      .cleared zeroKey zeroData := by
  rw [CMemPool.linkBlock, Function.update_of_ne (by exact_mod_cast hne.symm),
    Function.update_self]

theorem linkBlock_last (hne : last ≠ fresh) :
    CMemPool.linkBlock zeroKey zeroData dataBuff last fresh last =
      { dataBuff last with iNextHandle := (fresh : ℤ) } := by
  rw [CMemPool.linkBlock, Function.update_self,
    Function.update_of_ne (by exact_mod_cast hne)]

theorem MapAt.extend {before : List ℕ}
    (hmap : MapAt dataBuff iMapHandle (before ++ [last]) entries)
    (hfresh : fresh ∉ before ++ [last]) :
    MapAt (CMemPool.linkBlock zeroKey zeroData dataBuff last fresh)
      iMapHandle (before ++ [last, fresh]) entries := by
  rw [List.mem_append, List.mem_singleton, not_or] at hfresh
  have hnodup := List.nodup_append.mp hmap.nodup
  have hlast : last ∉ before := fun hmem =>
    hnodup.2.2 last hmem last (List.mem_singleton_self _) rfl
  have hlinked : CMemPool.linkBlock zeroKey zeroData dataBuff last fresh last =
      { dataBuff last with iNextHandle := (fresh : ℤ) } :=
    linkBlock_last (Ne.symm hfresh.2)
  have hcleared : CMemPool.linkBlock zeroKey zeroData dataBuff last fresh fresh =
      .cleared zeroKey zeroData :=
    linkBlock_fresh (Ne.symm hfresh.2)
  have hbefore : ∀ block ∈ before,
      CMemPool.linkBlock zeroKey zeroData dataBuff last fresh block =
        dataBuff block := by
    intro block hblock
    exact linkBlock_of_ne (fun heq => hlast (heq ▸ hblock))
      (fun heq => hfresh.1 (heq ▸ hblock))
  constructor
  · rw [List.map_append]
    have hchain := hmap.chain
    rw [List.map_append] at hchain
    apply hchain.extend
    · intro node hmem
      obtain ⟨block, hblock, rfl⟩ := List.mem_map.mp hmem
      simp only [nextHandle, hbefore block hblock]
    · rw [nextHandle, hlinked]
    · change (fresh : ℤ) ≠ -1
      omega
    · rw [nextHandle, hcleared]
      rfl
  · rw [List.nodup_append]
    refine ⟨hnodup.1, by simpa using Ne.symm hfresh.2, ?_⟩
    intro block hblock other hother heq
    subst heq
    rcases List.mem_pair.mp hother with rfl | rfl
    · exact hlast hblock
    · exact hfresh.1 hblock
  · intro block hblock
    rcases List.mem_append.mp hblock with hblock | hblock
    · rw [hbefore block hblock]
      exact hmap.small block (List.mem_append_left _ hblock)
    · rcases List.mem_pair.mp hblock with rfl | rfl
      · rw [hlinked]
        exact hmap.small block (List.mem_append_right _ (by simp))
      · rw [hcleared]
        exact Nat.zero_le _
  · exact hmap.nonneg
  · have hentries := hmap.entries_eq
    unfold blockEntries at hentries ⊢
    rw [List.flatMap_append] at hentries ⊢
    rw [← hentries]
    congr 1
    · exact List.flatMap_congr fun block hblock =>
        congrArg DataBlock.entries (hbefore block hblock)
    · simp only [List.flatMap_cons, List.flatMap_nil, hcleared,
        DataBlock.entries_cleared, hlinked, List.append_nil]
      rfl

end Link

/-! ## The loops over a chain -/

theorem findNode_eq [DecidableEq Key] (key : Key) {fuel : ℕ} {first : ℤ}
    (hchain : ChainFrom (nextHandle dataBuff) (-1) first
      (blocks.map fun block : ℕ => (block : ℤ)))
    (hfuel : blocks.length < fuel) :
    ∃ place, CMemPool.findNode dataBuff key fuel first = some place ∧
      (place.map fun (block, index) => (dataBuff block).astData index) =
        ((blockEntries dataBuff blocks).find? fun entry =>
          entry.1 = key).map Prod.snd := by
  induction blocks generalizing first fuel with
  | nil =>
      obtain ⟨fuel, rfl⟩ := Nat.exists_eq_succ_of_ne_zero (by omega : fuel ≠ 0)
      obtain rfl : first = -1 := hchain
      exact ⟨none, rfl, rfl⟩
  | cons block blocks ih =>
      obtain ⟨fuel, rfl⟩ := Nat.exists_eq_succ_of_ne_zero (by omega : fuel ≠ 0)
      obtain ⟨rfl, hne, hrest⟩ := hchain
      simp only [blockEntries, List.flatMap_cons, List.find?_append,
        DataBlock.find_entries, CMemPool.findNode, if_neg hne]
      cases hindex : (dataBuff block).keyIndex key with
      | some index => exact ⟨some (block, index), rfl, rfl⟩
      | none =>
          obtain ⟨place, hplace, hvalue⟩ :=
            ih hrest (Nat.lt_of_succ_lt_succ hfuel)
          exact ⟨place, hplace, hvalue⟩

theorem allData_eq {fuel : ℕ} {first : ℤ} (vstAllData : List Data)
    (hchain : ChainFrom (nextHandle dataBuff) (-1) first
      (blocks.map fun block : ℕ => (block : ℤ)))
    (hfuel : blocks.length < fuel) :
    CMemPool.allData dataBuff fuel first vstAllData =
      some (vstAllData ++ (blockEntries dataBuff blocks).map Prod.snd) := by
  induction blocks generalizing first fuel vstAllData with
  | nil =>
      obtain ⟨fuel, rfl⟩ := Nat.exists_eq_succ_of_ne_zero (by omega : fuel ≠ 0)
      obtain rfl : first = -1 := hchain
      simp [CMemPool.allData, blockEntries]
  | cons block blocks ih =>
      obtain ⟨fuel, rfl⟩ := Nat.exists_eq_succ_of_ne_zero (by omega : fuel ≠ 0)
      obtain ⟨rfl, hne, hrest⟩ := hchain
      have hdata : (List.range (dataBuff block).iUsedDataNum).map
          (dataBuff block).astData = (dataBuff block).entries.map Prod.snd := by
        rw [DataBlock.entries, List.map_map]
        rfl
      rw [CMemPool.allData, if_neg hne]
      refine (ih _ hrest (Nat.lt_of_succ_lt_succ hfuel)).trans ?_
      simp [blockEntries, hdata]

theorem findLast_eq [DecidableEq Key] (key : Key) {fuel : ℕ} {first : ℤ}
    (last : Option ℤ)
    (hchain : ChainFrom (nextHandle dataBuff) (-1) first
      (blocks.map fun block : ℕ => (block : ℤ)))
    (hfuel : blocks.length < fuel) :
    ∃ last', CMemPool.findLast dataBuff key fuel first last =
        some (decide (key ∈ (blockEntries dataBuff blocks).map Prod.fst),
          last') ∧
      (key ∉ (blockEntries dataBuff blocks).map Prod.fst →
        last' = (blocks.getLast?.map fun block : ℕ => (block : ℤ)).or last) := by
  induction blocks generalizing first fuel last with
  | nil =>
      obtain ⟨fuel, rfl⟩ := Nat.exists_eq_succ_of_ne_zero (by omega : fuel ≠ 0)
      obtain rfl : first = -1 := hchain
      exact ⟨last, by simp [CMemPool.findLast, blockEntries], fun _ => rfl⟩
  | cons block blocks ih =>
      obtain ⟨fuel, rfl⟩ := Nat.exists_eq_succ_of_ne_zero (by omega : fuel ≠ 0)
      obtain ⟨rfl, hne, hrest⟩ := hchain
      simp only [blockEntries, List.flatMap_cons, List.map_append,
        List.mem_append, CMemPool.findLast, if_neg hne,
        DataBlock.keyIndex_isSome]
      by_cases hmem : key ∈ (dataBuff block).entries.map Prod.fst
      · exact ⟨last, by simp [hmem], fun hnot => absurd (Or.inl hmem) hnot⟩
      · obtain ⟨last', hlast, hvalue⟩ :=
          ih (some (block : ℤ)) hrest (Nat.lt_of_succ_lt_succ hfuel)
        simp only [hmem, if_false, false_or]
        refine ⟨last', hlast, fun hnot => (hvalue hnot).trans ?_⟩
        cases blocks with
        | nil => rfl
        | cons next blocks =>
            rw [List.getLast?_cons_cons,
              List.getLast?_eq_some_getLast (List.cons_ne_nil _ _)]
            rfl

/-- The blocks of the chain go to the end of the free ring, one by one. -/
theorem releaseBlocks_eq
    {sizeofBlock : ℕ} (hsizeof : 0 < sizeofBlock) {fuel : ℕ} {first : ℤ}
    {objFMP : CFixedsizeMemPool} {used : Finset ℕ}
    (hchain : ChainFrom (nextHandle dataBuff) (-1) first
      (blocks.map fun block : ℕ => (block : ℤ)))
    (hfuel : blocks.length < fuel) (hvalid : objFMP.Valid used)
    (hnodup : blocks.Nodup) (hused : ∀ block ∈ blocks, block ∈ used) :
    ∃ objFMP', CMemPool.releaseBlocks sizeofBlock dataBuff fuel first objFMP =
        some (success, objFMP') ∧
      objFMP'.Valid (used \ blocks.toFinset) ∧
      objFMP'.freeNodes = objFMP.freeNodes ++ blocks ∧
      objFMP'.iNodeNum = objFMP.iNodeNum := by
  induction blocks generalizing first fuel objFMP used with
  | nil =>
      obtain ⟨fuel, rfl⟩ := Nat.exists_eq_succ_of_ne_zero (by omega : fuel ≠ 0)
      obtain rfl : first = -1 := hchain
      exact ⟨objFMP, rfl, by simpa using hvalid, by simp, rfl⟩
  | cons block blocks ih =>
      obtain ⟨fuel, rfl⟩ := Nat.exists_eq_succ_of_ne_zero (by omega : fuel ≠ 0)
      obtain ⟨rfl, hne, hrest⟩ := hchain
      rw [List.nodup_cons] at hnodup
      have hmem := hused block List.mem_cons_self
      have hlt := hvalid.used_lt hmem
      have hlater : ∀ later ∈ blocks, later ∈ used.erase block := by
        intro later hlater
        refine Finset.mem_erase.mpr ⟨?_, hused later (by simp [hlater])⟩
        rintro rfl
        exact hnodup.1 hlater
      obtain ⟨objFMP', hloop, hnext, hfree, hnum⟩ :=
        ih hrest (Nat.lt_of_succ_lt_succ hfuel) (hvalid.giveTail hmem)
          hnodup.2 hlater
      refine ⟨objFMP', ?_, ?_, ?_, hnum⟩
      · rw [CMemPool.releaseBlocks, if_neg hne]
        simp only [hvalid.releaseNode_eq hsizeof (by omega : block < _),
          if_pos hmem]
        exact hloop
      · have hset : used.erase block \ blocks.toFinset =
            used \ (block :: blocks).toFinset := by
          ext node
          simp only [Finset.mem_sdiff, Finset.mem_erase, List.mem_toFinset,
            List.mem_cons]
          tauto
        rwa [hset] at hnext
      · rw [hfree, hvalid.freeNodes_giveTail hmem]
        simp

end MapAt

/-! ## What the caller knows -/

/-- A call of one of the public operations. -/
inductive MapCall (Key Data : Type) where
  | newMap
  | initWithHandle (iMapHandle : ℤ)
  | insertNode (key : Key) (data : Data)
  | getNode (key : Key)
  | getAllNode (vstAllData : List Data)
  | releaseMap

/-- What a call leaves with its caller; of `GetNode` the data pointed to. -/
inductive MapAnswer (Data : Type) where
  | ret (iRetVal : ℤ)
  | node (iRetVal : ℤ) (data : Option Data)
  | all (iRetVal : ℤ) (vstAllData : List Data)
deriving DecidableEq

def CMemPool.call [DecidableEq Key] (sizeofBlock : ℕ) (zeroKey : Key)
    (zeroData : Data) (pool : CMemPool Key Data) :
    MapCall Key Data → Option (MapAnswer Data × CMemPool Key Data)
  | .newMap => do
      let (iRetVal, next) ← pool.newMap zeroKey zeroData
      return (.ret iRetVal, next)
  | .initWithHandle iMapHandle =>
      let (iRetVal, next) := pool.initWithHandle iMapHandle
      some (.ret iRetVal, next)
  | .insertNode key data => do
      let (iRetVal, next) ← pool.insertNode zeroKey zeroData key data
      return (.ret iRetVal, next)
  | .getNode key => do
      let (iRetVal, place) ← pool.getNode key
      return (.node iRetVal (place.map fun (block, index) =>
        (pool.dataBuff block).astData index), pool)
  | .getAllNode vstAllData => do
      let (iRetVal, vstAllData) ← pool.getAllNode vstAllData
      return (.all iRetVal vstAllData, pool)
  | .releaseMap => do
      let (iRetVal, next) ← pool.releaseMap sizeofBlock
      return (.ret iRetVal, next)

/-- The live maps with what was inserted into them, and the one in use. -/
structure Book (Key Data : Type) where
  maps : ℤ → Option (List (Key × Data))
  current : Option ℤ

namespace Book

/-- The entries of the map in use. -/
def entries (book : Book Key Data) : Option (List (Key × Data)) :=
  book.current.bind book.maps

/-- What a caller adds to its book after an answer. -/
def next (book : Book Key Data) :
    MapCall Key Data → MapAnswer Data → Book Key Data
  | .newMap, .ret iRetVal =>
      if 0 ≤ iRetVal then
        ⟨Function.update book.maps iRetVal (some []), some iRetVal⟩
      else book
  | .initWithHandle iMapHandle, .ret iRetVal =>
      if iRetVal = success then { book with current := some iMapHandle }
      else book
  | .insertNode key data, .ret iRetVal =>
      match book.current with
      | some iMapHandle =>
          if iRetVal = success then
            { book with
              maps := Function.update book.maps iMapHandle
                ((book.maps iMapHandle).map (· ++ [(key, data)])) }
          else book
      | none => book
  | .releaseMap, .ret iRetVal =>
      match book.current with
      | some iMapHandle =>
          if iRetVal = success then
            ⟨Function.update book.maps iMapHandle none, none⟩
          else book
      | none => book
  | _, _ => book

/-- Handles are chosen among those of live maps. -/
def Allows (book : Book Key Data) : MapCall Key Data → Prop
  | .initWithHandle iMapHandle => (book.maps iMapHandle).isSome = true
  | _ => True

/-- The answers that agree with the book. -/
def Right [DecidableEq Key] (book : Book Key Data) :
    MapCall Key Data → MapAnswer Data → Prop
  | .newMap, .ret iRetVal =>
      iRetVal = memPoolAllocateFailed ∨
        0 ≤ iRetVal ∧ book.maps iRetVal = none
  | .initWithHandle _, .ret iRetVal => iRetVal = success
  | .insertNode key _, .ret iRetVal =>
      match book.entries with
      | none => iRetVal = invalidMapHandle
      | some entries =>
          if key ∈ entries.map Prod.fst then iRetVal = nodeExist
          else iRetVal = success ∨ iRetVal = memPoolAllocateFailed
  | .getNode key, .node iRetVal data =>
      match book.entries with
      | none => iRetVal = invalidMapHandle ∧ data = none
      | some entries =>
          data = (entries.find? fun entry => entry.1 = key).map Prod.snd ∧
            iRetVal = if data.isSome then success else nodeNotExist
  | .getAllNode before, .all iRetVal vstAllData =>
      match book.entries with
      | none => iRetVal = invalidMapHandle ∧ vstAllData = before
      | some entries =>
          iRetVal = success ∧ vstAllData = entries.map Prod.snd
  | .releaseMap, .ret iRetVal =>
      match book.entries with
      | none => iRetVal = invalidMapHandle
      | some _ => iRetVal = success
  | _, _ => False

end Book

/-! ## The pool keeps the book -/

/-- The live maps lie at their handles, each in blocks of its own, and their
blocks are the nodes in use. -/
structure Kept (pool : CMemPool Key Data) (book : Book Key Data)
    (blocksOf : ℤ → List ℕ) (used : Finset ℕ) : Prop where
  inited : pool.iFMPInitFlag = 1
  valid : pool.objFMP.Valid used
  mapAt : ∀ iMapHandle entries, book.maps iMapHandle = some entries →
    MapAt pool.dataBuff iMapHandle (blocksOf iMapHandle) entries
  apart : ∀ iMapHandle other,
    (book.maps iMapHandle).isSome = true → (book.maps other).isSome = true →
    iMapHandle ≠ other →
    List.Disjoint (blocksOf iMapHandle) (blocksOf other)
  used_iff : ∀ node, node ∈ used ↔
    ∃ iMapHandle, (book.maps iMapHandle).isSome = true ∧
      node ∈ blocksOf iMapHandle
  current : match book.current with
    | none => pool.iMapHandle = -1
    | some iMapHandle =>
        pool.iMapHandle = iMapHandle ∧
          pool.headDataBlock = some iMapHandle ∧
          (book.maps iMapHandle).isSome = true

namespace Kept

variable {pool : CMemPool Key Data} {book : Book Key Data}
  {blocksOf : ℤ → List ℕ} {used : Finset ℕ} {iMapHandle : ℤ}
  {entries : List (Key × Data)}

theorem mem_used (hkept : Kept pool book blocksOf used)
    (hmap : book.maps iMapHandle = some entries) {block : ℕ}
    (hblock : block ∈ blocksOf iMapHandle) : block ∈ used :=
  (hkept.used_iff block).mpr ⟨iMapHandle, by simp [hmap], hblock⟩

/-- A chain is not longer than the pool has nodes. -/
theorem length_lt (hkept : Kept pool book blocksOf used)
    (hmap : book.maps iMapHandle = some entries) :
    (blocksOf iMapHandle).length < pool.objFMP.iNodeNum + 1 := by
  have hnodup := (hkept.mapAt iMapHandle entries hmap).nodup
  have hsubset : (blocksOf iMapHandle).toFinset ⊆ used := by
    intro block hblock
    exact hkept.mem_used hmap (List.mem_toFinset.mp hblock)
  have hcard := Finset.card_le_card hsubset
  rw [List.toFinset_card_of_nodup hnodup] at hcard
  have htotal := hkept.valid.freeNum_add_card
  omega

theorem handle_mem (hkept : Kept pool book blocksOf used)
    (hmap : book.maps iMapHandle = some entries) :
    ∃ node ∈ blocksOf iMapHandle, iMapHandle = (node : ℤ) := by
  obtain ⟨first, rest, hblocks, hhandle⟩ :=
    (hkept.mapAt iMapHandle entries hmap).exists_first
  exact ⟨first, by simp [hblocks], hhandle⟩

theorem checkHandle_of_live (hkept : Kept pool book blocksOf used)
    (hmap : book.maps iMapHandle = some entries) :
    pool.checkHandle iMapHandle = none := by
  obtain ⟨node, hnode, rfl⟩ := hkept.handle_mem hmap
  have hlt := hkept.valid.used_lt (hkept.mem_used hmap hnode)
  unfold CMemPool.checkHandle
  rw [if_neg (by simp [hkept.inited]), if_neg (by omega)]

theorem checkHandle_of_entries_none (hkept : Kept pool book blocksOf used)
    (hentries : book.entries = none) :
    pool.checkHandle pool.iMapHandle = some invalidMapHandle := by
  have hhandle : pool.iMapHandle = -1 := by
    have hcurrent := hkept.current
    unfold Book.entries at hentries
    cases hbook : book.current with
    | none => simpa [hbook] using hcurrent
    | some iMapHandle =>
        rw [hbook] at hentries hcurrent
        rw [Option.bind_some] at hentries
        simp [hentries] at hcurrent
  unfold CMemPool.checkHandle
  rw [if_neg (by simp [hkept.inited]), if_pos (by omega)]

/-- The map in use lies at the handle of the pool. -/
theorem of_entries_some (hkept : Kept pool book blocksOf used)
    (hentries : book.entries = some entries) :
    ∃ iMapHandle, book.current = some iMapHandle ∧
      book.maps iMapHandle = some entries ∧
      pool.iMapHandle = iMapHandle ∧
      pool.headDataBlock = some iMapHandle ∧
      pool.checkHandle pool.iMapHandle = none := by
  obtain ⟨iMapHandle, hbook, hmap⟩ := Option.bind_eq_some_iff.mp hentries
  have hcurrent := hkept.current
  rw [hbook] at hcurrent
  refine ⟨iMapHandle, hbook, hmap, hcurrent.1, hcurrent.2.1, ?_⟩
  rw [hcurrent.1]
  exact hkept.checkHandle_of_live hmap

theorem maps_of_free (hkept : Kept pool book blocksOf used) {node : ℕ}
    (hfree : node ∉ used) : book.maps node = none := by
  cases hmap : book.maps node with
  | none => rfl
  | some entries =>
      obtain ⟨first, hfirst, heq⟩ := hkept.handle_mem hmap
      obtain rfl : node = first := by exact_mod_cast heq
      exact absurd (hkept.mem_used hmap hfirst) hfree

/-- One map is new or changed.  It may take free nodes in addition to its own
blocks, and nothing else is written. -/
theorem write {next : CMemPool Key Data} {blocks : List ℕ}
    {used' : Finset ℕ} (hkept : Kept pool book blocksOf used)
    (hinited : next.iFMPInitFlag = 1) (hvalid : next.objFMP.Valid used')
    (hmap : MapAt next.dataBuff iMapHandle blocks entries)
    (hframe : ∀ block : ℕ, block ∉ blocks →
      next.dataBuff block = pool.dataBuff block)
    (hown : ∀ block ∈ blocks, block ∉ used ∨
      (book.maps iMapHandle).isSome = true ∧ block ∈ blocksOf iMapHandle)
    (hkeep : (book.maps iMapHandle).isSome = true →
      blocksOf iMapHandle ⊆ blocks)
    (hused : ∀ node, node ∈ used' ↔ node ∈ used ∨ node ∈ blocks)
    (hhandle : next.iMapHandle = iMapHandle)
    (hhead : next.headDataBlock = some iMapHandle) :
    Kept next ⟨Function.update book.maps iMapHandle (some entries),
      some iMapHandle⟩ (Function.update blocksOf iMapHandle blocks) used' := by
  have hlive : ∀ other, other ≠ iMapHandle →
      (book.maps other).isSome = true →
      List.Disjoint blocks (blocksOf other) := by
    intro other hne hother block hblock hmem
    rcases hown block hblock with hfree | ⟨hcurrent, hold⟩
    · exact hfree ((hkept.used_iff block).mpr ⟨other, hother, hmem⟩)
    · exact hkept.apart iMapHandle other hcurrent hother hne.symm hold hmem
  constructor
  · exact hinited
  · exact hvalid
  · intro other entries' hother
    dsimp only at hother
    by_cases hne : other = iMapHandle
    · subst hne
      rw [Function.update_self] at hother ⊢
      exact Option.some.inj hother ▸ hmap
    · rw [Function.update_of_ne hne] at hother ⊢
      apply (hkept.mapAt other entries' hother).congr
      intro block hblock
      exact hframe block fun hmem =>
        hlive other hne (by simp [hother]) hmem hblock
  · intro first second hfirst hsecond hne
    dsimp only at hfirst hsecond
    by_cases hone : first = iMapHandle
    · subst hone
      rw [Function.update_of_ne hne.symm] at hsecond ⊢
      rw [Function.update_self]
      exact hlive second hne.symm hsecond
    · rw [Function.update_of_ne hone] at hfirst ⊢
      by_cases htwo : second = iMapHandle
      · subst htwo
        rw [Function.update_self]
        exact (hlive first hone hfirst).symm
      · rw [Function.update_of_ne htwo] at hsecond ⊢
        exact hkept.apart first second hfirst hsecond hne
  · intro node
    rw [hused, hkept.used_iff]
    constructor
    · rintro (⟨other, hother, hmem⟩ | hmem)
      · by_cases hne : other = iMapHandle
        · subst hne
          exact ⟨other, by simp, by simpa using hkeep hother hmem⟩
        · exact ⟨other, by simpa [Function.update_of_ne hne] using hother,
            by simpa [Function.update_of_ne hne] using hmem⟩
      · exact ⟨iMapHandle, by simp, by simpa using hmem⟩
    · rintro ⟨other, hother, hmem⟩
      by_cases hne : other = iMapHandle
      · subst hne
        right
        simpa using hmem
      · dsimp only at hother
        rw [Function.update_of_ne hne] at hother hmem
        exact Or.inl ⟨other, hother, hmem⟩
  · exact ⟨hhandle, hhead, by simp⟩

theorem newMap (hkept : Kept pool book blocksOf used) (zeroKey : Key)
    (zeroData : Data) :
    pool.newMap zeroKey zeroData = some (memPoolAllocateFailed, pool) ∨
      ∃ (node : ℕ) (next : CMemPool Key Data),
        pool.newMap zeroKey zeroData = some ((node : ℤ), next) ∧
        book.maps node = none ∧
        Kept next ⟨Function.update book.maps node (some []), some (node : ℤ)⟩
          (Function.update blocksOf node [node]) (insert node used) := by
  have hinited : ¬ pool.iFMPInitFlag ≠ 1 := not_not.mpr hkept.inited
  have hallocate := hkept.valid.allocateNode_eq
  unfold CMemPool.newMap
  rw [if_neg hinited, hallocate]
  split_ifs with hfull
  · exact Or.inl rfl
  right
  obtain ⟨hfree, hvalid⟩ := hkept.valid.takeHead hfull
  generalize pool.objFMP.freeList pool.objFMP.iFreeHead = node at hfree hvalid ⊢
  refine ⟨node, _, rfl, hkept.maps_of_free hfree, ?_⟩
  have hnone := hkept.maps_of_free hfree
  apply hkept.write
  · exact hkept.inited
  · exact hvalid
  · exact mapAt_cleared (Function.update_self _ _ _)
  · intro block hblock
    have hne : block ≠ node := fun heq => hblock (by simp [heq])
    exact Function.update_of_ne (by exact_mod_cast hne) _ _
  · intro block hblock
    rw [List.mem_singleton.mp hblock]
    exact Or.inl hfree
  · intro hlive
    simp [hnone] at hlive
  · intro other
    rw [Finset.mem_insert, List.mem_singleton, or_comm]
  · rfl
  · rfl

section Search

variable (zeroKey : Key) (zeroData : Data)

/-- An entry goes behind the others of the last block. -/
theorem insertData_room (hkept : Kept pool book blocksOf used)
    (hmap : book.maps iMapHandle = some entries) {before : List ℕ} {last : ℕ}
    (hblocks : blocksOf iMapHandle = before ++ [last])
    (hhandle : pool.iMapHandle = iMapHandle)
    (hhead : pool.headDataBlock = some iMapHandle) (key : Key) (data : Data)
    (hfull : (pool.dataBuff last).iUsedDataNum ≠ mapBlockDataNum) :
    ∃ next blocksOf' used',
      pool.insertData zeroKey zeroData last key data = some (success, next) ∧
      Kept next ⟨Function.update book.maps iMapHandle
        (some (entries ++ [(key, data)])), some iMapHandle⟩ blocksOf' used' := by
  have hat := hkept.mapAt iMapHandle entries hmap
  have hsmall := hat.small last (by simp [hblocks])
  rw [hblocks] at hat
  unfold CMemPool.insertData
  rw [if_neg hfull]
  have hroom : (pool.dataBuff last).iUsedDataNum < mapBlockDataNum := by
    omega
  rw [CMemPool.writeEntry, if_neg (not_le.mpr hroom)]
  refine ⟨_, Function.update blocksOf iMapHandle (before ++ [last]), used,
    rfl, ?_⟩
  apply hkept.write
  · exact hkept.inited
  · exact hkept.valid
  · exact hat.push hroom key data
  · intro block hblock
    have hne : block ≠ last := fun heq => hblock (by simp [heq])
    exact Function.update_of_ne (by exact_mod_cast hne) _ _
  · intro block hblock
    exact Or.inr ⟨by simp [hmap], hblocks ▸ hblock⟩
  · intro _
    rw [hblocks]
    exact List.Subset.refl _
  · intro node
    rw [or_iff_left_of_imp]
    intro hnode
    exact hkept.mem_used hmap (hblocks ▸ hnode)
  · exact hhandle
  · exact hhead

/-- An entry goes into a new block behind the last one. -/
theorem insertData_full (hkept : Kept pool book blocksOf used)
    (hmap : book.maps iMapHandle = some entries) {before : List ℕ} {last : ℕ}
    (hblocks : blocksOf iMapHandle = before ++ [last])
    (hhandle : pool.iMapHandle = iMapHandle)
    (hhead : pool.headDataBlock = some iMapHandle) (key : Key) (data : Data)
    (hfull : (pool.dataBuff last).iUsedDataNum = mapBlockDataNum) :
    pool.insertData zeroKey zeroData last key data =
        some (memPoolAllocateFailed, pool) ∨
      ∃ next blocksOf' used',
        pool.insertData zeroKey zeroData last key data =
          some (success, next) ∧
        Kept next ⟨Function.update book.maps iMapHandle
          (some (entries ++ [(key, data)])), some iMapHandle⟩
          blocksOf' used' := by
  have hat := hkept.mapAt iMapHandle entries hmap
  rw [hblocks] at hat
  unfold CMemPool.insertData
  rw [if_pos hfull]
  rw [hkept.valid.allocateNode_eq]
  split_ifs with hempty
  · exact Or.inl rfl
  right
  obtain ⟨hfree, hvalid⟩ := hkept.valid.takeHead hempty
  generalize pool.objFMP.freeList pool.objFMP.iFreeHead = node
    at hfree hvalid ⊢
  have hfresh : node ∉ before ++ [last] := fun hmem =>
    hfree (hkept.mem_used hmap (hblocks ▸ hmem))
  have hne : last ≠ node := fun heq => hfresh (by simp [heq])
  have hlonger : MapAt (CMemPool.linkBlock zeroKey zeroData pool.dataBuff
      last node) iMapHandle ((before ++ [last]) ++ [node]) entries := by
    rw [List.append_assoc]
    exact hat.extend hfresh
  have hroom : (CMemPool.linkBlock zeroKey zeroData pool.dataBuff last node
      node).iUsedDataNum < mapBlockDataNum := by
    rw [linkBlock_fresh hne]
    exact Nat.succ_pos _
  let linked : CMemPool Key Data :=
    { pool with
      objFMP := pool.objFMP.takeHead
      dataBuff := CMemPool.linkBlock zeroKey zeroData pool.dataBuff last node }
  have hwrite : linked.writeEntry node key data = some _ :=
    if_neg (not_le.mpr hroom)
  refine ⟨{ linked with
      dataBuff := Function.update linked.dataBuff node
        ((linked.dataBuff node).push key data) },
    Function.update blocksOf iMapHandle ((before ++ [last]) ++ [node]),
    insert node used, ?_, ?_⟩
  · exact congrArg (fun result => result.bind fun pool =>
      some (success, pool)) hwrite
  · apply hkept.write
    · exact hkept.inited
    · exact hvalid
    · exact hlonger.push hroom key data
    · intro block hblock
      rw [List.mem_append, List.mem_append, List.mem_singleton,
        List.mem_singleton, not_or, not_or] at hblock
      exact (Function.update_of_ne (by exact_mod_cast hblock.2) _ _).trans
        (linkBlock_of_ne hblock.1.2 hblock.2)
    · intro block hblock
      rcases List.mem_append.mp hblock with hold | hnew
      · exact Or.inr ⟨by simp [hmap], hblocks ▸ hold⟩
      · rw [List.mem_singleton.mp hnew]
        exact Or.inl hfree
    · intro _
      rw [hblocks]
      exact List.subset_append_left _ _
    · intro other
      rw [Finset.mem_insert, List.mem_append, List.mem_singleton,
        ← hblocks]
      have hold : other ∈ blocksOf iMapHandle → other ∈ used :=
        hkept.mem_used hmap
      tauto
    · exact hhandle
    · exact hhead

theorem insertData (hkept : Kept pool book blocksOf used)
    (hmap : book.maps iMapHandle = some entries) {before : List ℕ} {last : ℕ}
    (hblocks : blocksOf iMapHandle = before ++ [last])
    (hhandle : pool.iMapHandle = iMapHandle)
    (hhead : pool.headDataBlock = some iMapHandle) (key : Key) (data : Data) :
    pool.insertData zeroKey zeroData last key data =
        some (memPoolAllocateFailed, pool) ∨
      ∃ next blocksOf' used',
        pool.insertData zeroKey zeroData last key data =
          some (success, next) ∧
        Kept next ⟨Function.update book.maps iMapHandle
          (some (entries ++ [(key, data)])), some iMapHandle⟩
          blocksOf' used' := by
  by_cases hfull : (pool.dataBuff last).iUsedDataNum = mapBlockDataNum
  · exact insertData_full zeroKey zeroData hkept hmap hblocks hhandle hhead key
      data hfull
  · exact Or.inr (insertData_room zeroKey zeroData hkept hmap hblocks hhandle
      hhead key data hfull)

variable [DecidableEq Key]

theorem insertNode_of_mem (hkept : Kept pool book blocksOf used)
    (hentries : book.entries = some entries) {key : Key} (data : Data)
    (hmem : key ∈ entries.map Prod.fst) :
    pool.insertNode zeroKey zeroData key data = some (nodeExist, pool) := by
  obtain ⟨iMapHandle, -, hmap, -, hhead, hcheck⟩ :=
    hkept.of_entries_some hentries
  have hat := hkept.mapAt iMapHandle entries hmap
  obtain ⟨last, hlast, -⟩ :=
    findLast_eq key none hat.chain (hkept.length_lt hmap)
  rw [hat.entries_eq, decide_eq_true hmem] at hlast
  simp [CMemPool.insertNode, hcheck, hhead, hlast]

/-- The search of `InsertNode` ends at the last block of the map. -/
theorem findLast_of_notMem (hkept : Kept pool book blocksOf used)
    (hmap : book.maps iMapHandle = some entries) {before : List ℕ} {last : ℕ}
    (hblocks : blocksOf iMapHandle = before ++ [last]) {key : Key}
    (hmem : key ∉ entries.map Prod.fst) :
    CMemPool.findLast pool.dataBuff key (pool.objFMP.iNodeNum + 1) iMapHandle
      none = some (false, some (last : ℤ)) := by
  have hat := hkept.mapAt iMapHandle entries hmap
  obtain ⟨last', hlast, hvalue⟩ :=
    findLast_eq key none hat.chain (hkept.length_lt hmap)
  rw [hat.entries_eq] at hlast hvalue
  rw [hlast, decide_eq_false hmem, hvalue hmem, hblocks,
    List.getLast?_append_of_ne_nil _ (List.cons_ne_nil _ _)]
  rfl

theorem insertNode_of_notMem (hkept : Kept pool book blocksOf used)
    (hentries : book.entries = some entries) {key : Key} (data : Data)
    (hmem : key ∉ entries.map Prod.fst) :
    pool.insertNode zeroKey zeroData key data =
        some (memPoolAllocateFailed, pool) ∨
      ∃ iMapHandle next blocksOf' used',
        book.current = some iMapHandle ∧
        book.maps iMapHandle = some entries ∧
        pool.insertNode zeroKey zeroData key data = some (success, next) ∧
        Kept next ⟨Function.update book.maps iMapHandle
          (some (entries ++ [(key, data)])), some iMapHandle⟩
          blocksOf' used' := by
  obtain ⟨iMapHandle, hcurrent, hmap, hhandle, hhead, hcheck⟩ :=
    hkept.of_entries_some hentries
  obtain ⟨before, last, hblocks⟩ :=
    (hkept.mapAt iMapHandle entries hmap).exists_last
  have hsearch := hkept.findLast_of_notMem hmap hblocks hmem
  have hcall : pool.insertNode zeroKey zeroData key data =
      pool.insertData zeroKey zeroData last key data := by
    simp [CMemPool.insertNode, hcheck, hhead, hsearch]
  rw [hcall]
  rcases hkept.insertData zeroKey zeroData hmap hblocks hhandle hhead key
    data with
    hfull | ⟨next, blocksOf', used', hsuccess, hnext⟩
  · exact Or.inl hfull
  · exact Or.inr ⟨iMapHandle, next, blocksOf', used', hcurrent, hmap,
      hsuccess, hnext⟩

theorem getNode (hkept : Kept pool book blocksOf used)
    (hentries : book.entries = some entries) (key : Key) :
    ∃ place, pool.getNode key =
        some (if place.isSome then success else nodeNotExist, place) ∧
      (place.map fun (block, index) => (pool.dataBuff block).astData index) =
        (entries.find? fun entry => entry.1 = key).map Prod.snd := by
  obtain ⟨iMapHandle, -, hmap, -, hhead, hcheck⟩ :=
    hkept.of_entries_some hentries
  have hat := hkept.mapAt iMapHandle entries hmap
  obtain ⟨place, hplace, hvalue⟩ :=
    findNode_eq key hat.chain (hkept.length_lt hmap)
  rw [hat.entries_eq] at hvalue
  refine ⟨place, ?_, hvalue⟩
  cases place with
  | none => simp [CMemPool.getNode, hcheck, hhead, hplace]
  | some place => simp [CMemPool.getNode, hcheck, hhead, hplace]

end Search

theorem getAllNode (hkept : Kept pool book blocksOf used)
    (hentries : book.entries = some entries) (vstAllData : List Data) :
    pool.getAllNode vstAllData = some (success, entries.map Prod.snd) := by
  obtain ⟨iMapHandle, -, hmap, -, hhead, hcheck⟩ :=
    hkept.of_entries_some hentries
  have hat := hkept.mapAt iMapHandle entries hmap
  have hdata := allData_eq [] hat.chain (hkept.length_lt hmap)
  rw [hat.entries_eq, List.nil_append] at hdata
  simp [CMemPool.getAllNode, hcheck, hhead, hdata]

theorem releaseMap (hkept : Kept pool book blocksOf used)
    (hentries : book.entries = some entries) {sizeofBlock : ℕ}
    (hsizeof : 0 < sizeofBlock) :
    ∃ iMapHandle next, book.current = some iMapHandle ∧
      book.maps iMapHandle = some entries ∧
      pool.releaseMap sizeofBlock = some (success, next) ∧
      next.dataBuff = pool.dataBuff ∧
      next.objFMP.freeNodes =
        pool.objFMP.freeNodes ++ blocksOf iMapHandle ∧
      Kept next ⟨Function.update book.maps iMapHandle none, none⟩ blocksOf
        (used \ (blocksOf iMapHandle).toFinset) := by
  obtain ⟨iMapHandle, hcurrent, hmap, hhandle, hhead, hcheck⟩ :=
    hkept.of_entries_some hentries
  have hat := hkept.mapAt iMapHandle entries hmap
  obtain ⟨objFMP, hloop, hvalid, hfree, hnum⟩ :=
    releaseBlocks_eq hsizeof hat.chain (hkept.length_lt hmap) hkept.valid
      hat.nodup fun block hblock => hkept.mem_used hmap hblock
  refine ⟨iMapHandle, { pool with objFMP, iMapHandle := -1 }, hcurrent, hmap,
    ?_, rfl, hfree, ?_⟩
  · unfold CMemPool.releaseMap
    rw [hcheck, hhead]
    simp only [Option.bind_eq_bind, Option.bind_some, hloop, ne_eq,
      not_true_eq_false, if_false]
    rfl
  constructor
  · exact hkept.inited
  · exact hvalid
  · intro other entries' hother
    dsimp only at hother
    have hne : other ≠ iMapHandle := by
      rintro rfl
      simp at hother
    rw [Function.update_of_ne hne] at hother
    exact hkept.mapAt other entries' hother
  · intro first second hfirst hsecond hne
    dsimp only at hfirst hsecond
    have hlive : ∀ other, (Function.update book.maps iMapHandle none
        other).isSome = true → (book.maps other).isSome = true := by
      intro other hother
      by_cases heq : other = iMapHandle
      · simp [heq] at hother
      · rwa [Function.update_of_ne heq] at hother
    exact hkept.apart first second (hlive first hfirst) (hlive second hsecond)
      hne
  · intro node
    rw [Finset.mem_sdiff, List.mem_toFinset, hkept.used_iff]
    constructor
    · rintro ⟨⟨other, hother, hmem⟩, hnot⟩
      have hne : other ≠ iMapHandle := by
        rintro rfl
        exact hnot hmem
      exact ⟨other, by simpa [Function.update_of_ne hne] using hother, hmem⟩
    · rintro ⟨other, hother, hmem⟩
      dsimp only at hother
      have hne : other ≠ iMapHandle := by
        rintro rfl
        simp at hother
      rw [Function.update_of_ne hne] at hother
      refine ⟨⟨other, hother, hmem⟩, ?_⟩
      intro hown
      exact hkept.apart other iMapHandle hother (by simp [hmap]) hne hmem hown
  · rfl

theorem initWithHandle (hkept : Kept pool book blocksOf used)
    (hlive : (book.maps iMapHandle).isSome = true) :
    ∃ next, pool.initWithHandle iMapHandle = (success, next) ∧
      Kept next { book with current := some iMapHandle } blocksOf used := by
  obtain ⟨entries, hmap⟩ := Option.isSome_iff_exists.mp hlive
  have hcheck := hkept.checkHandle_of_live hmap
  refine ⟨{ pool with iMapHandle, headDataBlock := some iMapHandle }, ?_, ?_⟩
  · simp [CMemPool.initWithHandle, hcheck]
  · exact
      { inited := hkept.inited
        valid := hkept.valid
        mapAt := hkept.mapAt
        apart := hkept.apart
        used_iff := hkept.used_iff
        current := ⟨rfl, rfl, hlive⟩ }

end Kept

/-! ## Runs -/

/-- The blocks of the chosen map, in the order of the chain, were added to the
free ring, and no block was written. -/
def Freed (pool next : CMemPool Key Data) : Prop :=
  ∃ blocks : List ℕ,
    ChainFrom (nextHandle pool.dataBuff) (-1) pool.iMapHandle
      (blocks.map fun block : ℕ => (block : ℤ)) ∧
    next.objFMP.freeNodes = pool.objFMP.freeNodes ++ blocks ∧
    next.dataBuff = pool.dataBuff

/-- A call is answered in agreement with the book; an insertion that fails
changes nothing, and a release frees the blocks of the map. -/
structure Served [DecidableEq Key] (book : Book Key Data)
    (pool : CMemPool Key Data) (call : MapCall Key Data)
    (answer : MapAnswer Data) (next : CMemPool Key Data) : Prop where
  right : book.Right call answer
  unchanged : ∀ key data, call = .insertNode key data →
    answer ≠ .ret success → next = pool
  freed : call = .releaseMap → answer = .ret success → Freed pool next

section Runs

variable [DecidableEq Key] {sizeofBlock : ℕ} (zeroKey : Key) (zeroData : Data)
  {pool : CMemPool Key Data} {book : Book Key Data} {blocksOf : ℤ → List ℕ}
  {used : Finset ℕ}

/-- Without a map in use the operations on it are refused. -/
theorem Kept.call_of_entries_none
    (hkept : Kept pool book blocksOf used) (hentries : book.entries = none)
    {call : MapCall Key Data} (hnew : call ≠ .newMap)
    (hchoose : ∀ iMapHandle, call ≠ .initWithHandle iMapHandle) :
    ∃ answer,
      pool.call sizeofBlock zeroKey zeroData call = some (answer, pool) ∧
      Served book pool call answer pool ∧ book.next call answer = book := by
  have hcheck := hkept.checkHandle_of_entries_none hentries
  have hfailed : invalidMapHandle ≠ success := by decide
  cases call with
  | newMap => exact absurd rfl hnew
  | initWithHandle iMapHandle => exact absurd rfl (hchoose iMapHandle)
  | insertNode key data =>
      refine ⟨.ret invalidMapHandle, ?_, ⟨?_, fun _ _ _ _ => rfl, by simp⟩, ?_⟩
      · simp [CMemPool.call, CMemPool.insertNode, hcheck]
      · simp [Book.Right, hentries]
      · unfold Book.next
        cases book.current with
        | none => rfl
        | some iMapHandle => exact if_neg hfailed
  | getNode key =>
      refine ⟨.node invalidMapHandle none, ?_, ⟨?_, by simp, by simp⟩, rfl⟩
      · simp [CMemPool.call, CMemPool.getNode, hcheck]
      · simp [Book.Right, hentries]
  | getAllNode vstAllData =>
      refine ⟨.all invalidMapHandle vstAllData, ?_, ⟨?_, by simp, by simp⟩, rfl⟩
      · simp [CMemPool.call, CMemPool.getAllNode, hcheck]
      · simp [Book.Right, hentries]
  | releaseMap =>
      refine ⟨.ret invalidMapHandle, ?_, ⟨?_, by simp, ?_⟩, ?_⟩
      · simp [CMemPool.call, CMemPool.releaseMap, hcheck]
      · simp [Book.Right, hentries]
      · simp [hfailed]
      · unfold Book.next
        cases book.current with
        | none => rfl
        | some iMapHandle => exact if_neg hfailed

theorem Kept.call_insertNode
    {entries : List (Key × Data)} (hkept : Kept pool book blocksOf used)
    (hentries : book.entries = some entries) (key : Key) (data : Data) :
    ∃ answer next blocksOf' used',
      pool.call sizeofBlock zeroKey zeroData (.insertNode key data) =
        some (answer, next) ∧
      Served book pool (.insertNode key data) answer next ∧
      Kept next (book.next (.insertNode key data) answer) blocksOf' used' := by
  have hcurrent : ∃ iMapHandle, book.current = some iMapHandle := by
    obtain ⟨iMapHandle, hbook, -⟩ := hkept.of_entries_some hentries
    exact ⟨iMapHandle, hbook⟩
  obtain ⟨iMapHandle, hbook⟩ := hcurrent
  by_cases hmem : key ∈ entries.map Prod.fst
  · refine ⟨.ret nodeExist, pool, blocksOf, used, ?_,
      ⟨?_, fun _ _ _ _ => rfl, by simp⟩, ?_⟩
    · simp [CMemPool.call,
        hkept.insertNode_of_mem zeroKey zeroData hentries data hmem]
    · simp only [Book.Right, hentries, if_pos hmem]
    · simpa [Book.next, hbook, nodeExist, success] using hkept
  rcases hkept.insertNode_of_notMem zeroKey zeroData hentries data hmem with
    hfull | ⟨iMapHandle', next, blocksOf', used', hbook', hmap, hcall, hnext⟩
  · refine ⟨.ret memPoolAllocateFailed, pool, blocksOf, used, ?_,
      ⟨?_, fun _ _ _ _ => rfl, by simp⟩, ?_⟩
    · simp [CMemPool.call, hfull]
    · simp only [Book.Right, hentries, if_neg hmem, or_true]
    · simpa [Book.next, hbook, memPoolAllocateFailed, success] using hkept
  · refine ⟨.ret success, next, blocksOf', used', ?_, ⟨?_, by simp, by simp⟩,
      ?_⟩
    · simp [CMemPool.call, hcall]
    · simp only [Book.Right, hentries, if_neg hmem, true_or]
    · simpa [Book.next, hbook', hmap] using hnext

theorem Kept.call_releaseMap
    {entries : List (Key × Data)} (hkept : Kept pool book blocksOf used)
    (hentries : book.entries = some entries) (hsizeof : 0 < sizeofBlock) :
    ∃ next used',
      pool.call sizeofBlock zeroKey zeroData .releaseMap =
        some (.ret success, next) ∧
      Served book pool .releaseMap (.ret success) next ∧
      Kept next (book.next .releaseMap (.ret success)) blocksOf used' := by
  obtain ⟨iMapHandle, next, hbook, hmap, hcall, hdata, hfree, hnext⟩ :=
    hkept.releaseMap hentries hsizeof
  have hhandle : pool.iMapHandle = iMapHandle := by
    have hcurrent := hkept.current
    rw [hbook] at hcurrent
    exact hcurrent.1
  refine ⟨next, used \ (blocksOf iMapHandle).toFinset,
    by simp [CMemPool.call, hcall], ⟨?_, by simp, ?_⟩, ?_⟩
  · simp only [Book.Right, hentries]
  · intro _ _
    refine ⟨blocksOf iMapHandle, ?_, hfree, hdata⟩
    rw [hhandle]
    exact (hkept.mapAt iMapHandle entries hmap).chain
  · have hclosed : book.next .releaseMap (.ret success) =
        ⟨Function.update book.maps iMapHandle none, none⟩ := by
      simp [Book.next, hbook]
    rw [hclosed]
    exact hnext

theorem Kept.call_of_entries_some
    {entries : List (Key × Data)} (hkept : Kept pool book blocksOf used)
    (hentries : book.entries = some entries) (hsizeof : 0 < sizeofBlock)
    {call : MapCall Key Data} (hnew : call ≠ .newMap)
    (hchoose : ∀ iMapHandle, call ≠ .initWithHandle iMapHandle) :
    ∃ answer next blocksOf' used',
      pool.call sizeofBlock zeroKey zeroData call = some (answer, next) ∧
      Served book pool call answer next ∧
      Kept next (book.next call answer) blocksOf' used' := by
  cases call with
  | newMap => exact absurd rfl hnew
  | initWithHandle iMapHandle => exact absurd rfl (hchoose iMapHandle)
  | insertNode key data =>
      exact hkept.call_insertNode zeroKey zeroData hentries key data
  | getNode key =>
      obtain ⟨place, hcall, hvalue⟩ := hkept.getNode hentries key
      refine ⟨_, pool, blocksOf, used, by rw [CMemPool.call, hcall]; rfl,
        ⟨?_, by simp, by simp⟩, hkept⟩
      simp only [Book.Right, hentries, Option.isSome_map]
      exact ⟨hvalue, trivial⟩
  | getAllNode vstAllData =>
      refine ⟨.all success (entries.map Prod.snd), pool, blocksOf, used, ?_,
        ⟨?_, by simp, by simp⟩, hkept⟩
      · simp [CMemPool.call, hkept.getAllNode hentries]
      · simp [Book.Right, hentries]
  | releaseMap =>
      obtain ⟨next, used', hcall, hserved, hnext⟩ :=
        hkept.call_releaseMap zeroKey zeroData hentries hsizeof
      exact ⟨_, next, blocksOf, used', hcall, hserved, hnext⟩

theorem Kept.call (hsizeof : 0 < sizeofBlock)
    (hkept : Kept pool book blocksOf used) {call : MapCall Key Data}
    (hallowed : book.Allows call) :
    ∃ answer next blocksOf' used',
      pool.call sizeofBlock zeroKey zeroData call = some (answer, next) ∧
      Served book pool call answer next ∧
      Kept next (book.next call answer) blocksOf' used' := by
  by_cases hnew : call = .newMap
  · subst hnew
    rcases hkept.newMap zeroKey zeroData with
      hfull | ⟨node, next, hcall, hnone, hnext⟩
    · refine ⟨.ret memPoolAllocateFailed, pool, blocksOf, used, ?_,
        ⟨Or.inl rfl, by simp, by simp⟩, hkept⟩
      simp [CMemPool.call, hfull]
    · have hbook : book.next .newMap (.ret node) =
          ⟨Function.update book.maps node (some []), some (node : ℤ)⟩ := by
        simp [Book.next]
      rw [← hbook] at hnext
      exact ⟨.ret node, next, _, _, by simp [CMemPool.call, hcall],
        ⟨Or.inr ⟨by omega, hnone⟩, by simp, by simp⟩, hnext⟩
  by_cases hchoose : ∃ iMapHandle, call = .initWithHandle iMapHandle
  · obtain ⟨iMapHandle, rfl⟩ := hchoose
    obtain ⟨next, hcall, hnext⟩ := hkept.initWithHandle hallowed
    refine ⟨.ret success, next, blocksOf, used, by simp [CMemPool.call, hcall],
      ⟨rfl, by simp, by simp⟩, ?_⟩
    simpa [Book.next] using hnext
  rw [not_exists] at hchoose
  cases hentries : book.entries with
  | none =>
      obtain ⟨answer, hcall, hserved, hbook⟩ :=
        hkept.call_of_entries_none zeroKey zeroData hentries hnew hchoose
      rw [← hbook] at hkept
      exact ⟨answer, pool, blocksOf, used, hcall, hserved, hkept⟩
  | some entries =>
      exact hkept.call_of_entries_some zeroKey zeroData hentries hsizeof hnew
        hchoose

/-- One call on the pool, and what its caller makes of the answer. -/
def step (sizeofBlock : ℕ) (state : CMemPool Key Data × Book Key Data)
    (call : MapCall Key Data) : Option (CMemPool Key Data × Book Key Data) := do
  let (answer, next) ← state.1.call sizeofBlock zeroKey zeroData call
  return (next, state.2.next call answer)

def allowed (state : CMemPool Key Data × Book Key Data)
    (call : MapCall Key Data) : Prop :=
  state.2.Allows call

instance (state : CMemPool Key Data × Book Key Data)
    (call : MapCall Key Data) : Decidable (allowed state call) :=
  match call with
  | .initWithHandle iMapHandle =>
      inferInstanceAs (Decidable ((state.2.maps iMapHandle).isSome = true))
  | .newMap | .insertNode _ _ | .getNode _ | .getAllNode _ | .releaseMap =>
      isTrue trivial

end Runs

end MessageBus.MemPool
