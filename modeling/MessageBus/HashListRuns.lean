import MessageBus.HashListRefinement

/-!
# Runs of the hash list

Every sequence of calls on a freshly cleared hash list is answered as the
finite map answers it.
-/

namespace MessageBus.HashList

open IndexChain

variable {Data : Type}

inductive Call (Data : Type) where
  | insert (key : UInt64) (data : Data)
  | insertWithRet (key : UInt64) (data : Data)
  | update (key : UInt64) (data : Data)
  | remove (key : UInt64)
  | get (key : UInt64)

/-- The return code and the `Data` handed back through a reference. -/
structure Answer (Data : Type) where
  iRetVal : ℤ
  data : Option Data
deriving DecidableEq

def Segment.call (segment : Segment Data) (fuel : ℕ) :
    Call Data → Option (Answer Data × Segment Data)
  | .insert key data =>
      (segment.insert fuel key data).map fun (iRetVal, writes) =>
        (⟨iRetVal, none⟩, segment.perform writes)
  | .insertWithRet key data =>
      (segment.insertWithRet fuel key data).map
        fun ((iRetVal, returned), writes) =>
          (⟨iRetVal, some returned⟩, segment.perform writes)
  | .update key data =>
      (segment.update fuel key data).map fun (iRetVal, writes) =>
        (⟨iRetVal, none⟩, segment.perform writes)
  | .remove key =>
      (segment.remove fuel key).map fun (iRetVal, writes) =>
        (⟨iRetVal, none⟩, segment.perform writes)
  | .get key =>
      (segment.get fuel key).map fun (iRetVal, returned) =>
        (⟨iRetVal, returned⟩, segment)

def Segment.run (segment : Segment Data) (fuel : ℕ) :
    List (Call Data) → Option (List (Answer Data) × Segment Data)
  | [] => some ([], segment)
  | call :: calls =>
      (segment.call fuel call).bind fun (answer, next) =>
        (next.run fuel calls).map fun (answers, final) =>
          (answer :: answers, final)

/-! ## The finite map -/

/-- A new entry in a finite map, with `returned` handed back. -/
def mapInsertNew
    (map : BoundedMap UInt64 Data) (key : UInt64) (data : Data)
    (returned : Option Data) : Answer Data × BoundedMap UInt64 Data :=
  if hroom : map.size < map.capacity then
    (⟨success, returned⟩, map.put key data hroom)
  else (⟨eHashListNoSpace, returned⟩, map)

/-- What a call means for a finite map with a capacity. -/
def mapCall (map : BoundedMap UInt64 Data) :
    Call Data → Answer Data × BoundedMap UInt64 Data
  | .insert key data =>
      match map.get key with
      | some _ => (⟨eHashListNodeExist, none⟩, map)
      | none => mapInsertNew map key data none
  | .insertWithRet key data =>
      match map.get key with
      | some stored => (⟨eHashListNodeExist, some stored⟩, map)
      | none => mapInsertNew map key data (some data)
  | .update key data =>
      match map.get key with
      | some _ => (⟨success, none⟩, map.modify key fun _ => data)
      | none => (⟨eHashListNoNode, none⟩, map)
  | .remove key =>
      match map.get key with
      | some _ => (⟨success, none⟩, map.erase key)
      | none => (⟨eHashListNoNode, none⟩, map)
  | .get key =>
      match map.get key with
      | some stored => (⟨success, some stored⟩, map)
      | none => (⟨eHashListNoNode, none⟩, map)

def mapRun (map : BoundedMap UInt64 Data) :
    List (Call Data) → List (Answer Data) × BoundedMap UInt64 Data
  | [] => ([], map)
  | call :: calls =>
      let (answer, next) := mapCall map call
      let (answers, final) := mapRun next calls
      (answer :: answers, final)

/-! ## One call -/

def Valid
    (segment : Segment Data) (indexNum dataNum : ℕ)
    (map : BoundedMap UInt64 Data) : Prop :=
  ∃ chains free, Represents segment indexNum dataNum map chains free

/-- A call on a valid segment: it ends, answers as the map does, and writes
nothing when it fails. -/
def Simulates
    (segment : Segment Data) (indexNum dataNum fuel : ℕ)
    (map : BoundedMap UInt64 Data) (call : Call Data) : Prop :=
  ∃ next, segment.call fuel call = some ((mapCall map call).1, next) ∧
    Valid next indexNum dataNum (mapCall map call).2 ∧
      ((mapCall map call).1.iRetVal ≠ success → next = segment)

section Calls

variable {segment : Segment Data} {indexNum dataNum fuel : ℕ}
  {map : BoundedMap UInt64 Data} {chains : ℕ → List ℤ} {free : List ℤ}

theorem insertNew_simulates
    (h : Represents segment indexNum dataNum map chains free)
    (key : UInt64) (data : Data) (returned : Option Data)
    (hget : map.get key = none) :
    (segment.insertNew key data).1 =
        (mapInsertNew map key data returned).1.iRetVal ∧
      (mapInsertNew map key data returned).1.data = returned ∧
      Valid (segment.perform (segment.insertNew key data).2) indexNum dataNum
        (mapInsertNew map key data returned).2 ∧
      ((mapInsertNew map key data returned).1.iRetVal ≠ success →
        segment.perform (segment.insertNew key data).2 = segment) := by
  unfold mapInsertNew
  by_cases hroom : map.size < map.capacity
  · rw [dif_pos hroom]
    cases free with
    | nil => exact ((h.free_eq_nil_iff.mp rfl) hroom).elim
    | cons node rest =>
        rw [h.insertNew_of_room]
        refine ⟨rfl, rfl, ⟨_, _, h.represents_insert data hget hroom⟩, ?_⟩
        intro hfail
        exact (hfail rfl).elim
  · rw [dif_neg hroom, h.insertNew_of_full hroom]
    exact ⟨rfl, rfl, ⟨chains, free, h⟩, fun _ => rfl⟩

theorem insert_simulates
    (h : Represents segment indexNum dataNum map chains free)
    (hfuel : dataNum ≤ fuel) (key : UInt64) (data : Data) :
    Simulates segment indexNum dataNum fuel map (.insert key data) := by
  unfold Simulates
  simp only [Segment.call, Segment.insert, mapCall]
  cases hget : map.get key with
  | some stored =>
      rcases h.findKey_of_get_some hfuel hget with ⟨node, -, hfind, hpos, -⟩
      simp only [hfind, Option.map_some, if_pos hpos]
      exact ⟨segment, rfl, ⟨chains, free, h⟩, fun _ => rfl⟩
  | none =>
      have hnew := insertNew_simulates h key data none hget
      simp only [h.findKey_of_get_none hfuel hget, Option.map_some,
        if_neg (lt_irrefl (0 : ℤ))]
      refine ⟨segment.perform (segment.insertNew key data).2, ?_, hnew.2.2⟩
      rw [hnew.1]
      congr 2
      exact congrArg _ hnew.2.1.symm

theorem insertWithRet_simulates
    (h : Represents segment indexNum dataNum map chains free)
    (hfuel : dataNum ≤ fuel) (key : UInt64) (data : Data) :
    Simulates segment indexNum dataNum fuel map (.insertWithRet key data) := by
  unfold Simulates
  simp only [Segment.call, Segment.insertWithRet, mapCall]
  cases hget : map.get key with
  | some stored =>
      rcases h.findKey_of_get_some hfuel hget with
        ⟨node, -, hfind, hpos, -, hdata⟩
      simp only [hfind, Option.map_some, if_pos hpos, hdata]
      exact ⟨segment, rfl, ⟨chains, free, h⟩, fun _ => rfl⟩
  | none =>
      have hnew := insertNew_simulates h key data (some data) hget
      simp only [h.findKey_of_get_none hfuel hget, Option.map_some,
        if_neg (lt_irrefl (0 : ℤ))]
      refine ⟨segment.perform (segment.insertNew key data).2, ?_, hnew.2.2⟩
      rw [hnew.1]
      congr 2
      exact congrArg _ hnew.2.1.symm

theorem update_simulates
    (h : Represents segment indexNum dataNum map chains free)
    (hfuel : dataNum ≤ fuel) (key : UInt64) (data : Data) :
    Simulates segment indexNum dataNum fuel map (.update key data) := by
  unfold Simulates
  simp only [Segment.call, Segment.update, mapCall]
  cases hget : map.get key with
  | some stored =>
      rcases h.findKey_of_get_some hfuel hget with
        ⟨node, hnode, hfind, hpos, hkey, -⟩
      simp only [hfind, Option.map_some, if_pos hpos]
      refine ⟨_, rfl, ⟨chains, free, ?_⟩, fun hfail => (hfail rfl).elim⟩
      exact h.represents_update (h.hashVal_lt key) hnode hkey
  | none =>
      simp only [h.findKey_of_get_none hfuel hget, Option.map_some,
        if_neg (lt_irrefl (0 : ℤ))]
      exact ⟨segment, rfl, ⟨chains, free, h⟩, fun _ => rfl⟩

theorem remove_simulates
    (h : Represents segment indexNum dataNum map chains free)
    (hfuel : dataNum ≤ fuel) (key : UInt64) :
    Simulates segment indexNum dataNum fuel map (.remove key) := by
  unfold Simulates
  simp only [Segment.call, mapCall]
  cases hget : map.get key with
  | some stored =>
      rcases h.exists_split_of_get_some hget with
        ⟨before, node, after, hchain, hkey, -, habsent⟩
      rw [h.remove_of_split hfuel hchain hkey habsent]
      refine ⟨_, rfl, ⟨_, _, h.represents_remove hchain hkey⟩, ?_⟩
      intro hfail
      exact (hfail rfl).elim
  | none =>
      rw [h.remove_of_get_none hfuel hget]
      exact ⟨segment, rfl, ⟨chains, free, h⟩, fun _ => rfl⟩

theorem get_simulates
    (h : Represents segment indexNum dataNum map chains free)
    (hfuel : dataNum ≤ fuel) (key : UInt64) :
    Simulates segment indexNum dataNum fuel map (.get key) := by
  unfold Simulates
  simp only [Segment.call, Segment.get, mapCall]
  cases hget : map.get key with
  | some stored =>
      rcases h.findKey_of_get_some hfuel hget with
        ⟨node, -, hfind, hpos, -, hdata⟩
      simp only [hfind, Option.map_some, if_pos hpos, hdata]
      exact ⟨segment, rfl, ⟨chains, free, h⟩, fun _ => rfl⟩
  | none =>
      simp only [h.findKey_of_get_none hfuel hget, Option.map_some,
        if_neg (lt_irrefl (0 : ℤ))]
      exact ⟨segment, rfl, ⟨chains, free, h⟩, fun _ => rfl⟩

theorem call_simulates
    (hvalid : Valid segment indexNum dataNum map) (hfuel : dataNum ≤ fuel)
    (call : Call Data) :
    Simulates segment indexNum dataNum fuel map call := by
  rcases hvalid with ⟨chains, free, h⟩
  cases call with
  | insert key data => exact insert_simulates h hfuel key data
  | insertWithRet key data => exact insertWithRet_simulates h hfuel key data
  | update key data => exact update_simulates h hfuel key data
  | remove key => exact remove_simulates h hfuel key
  | get key => exact get_simulates h hfuel key

theorem run_simulates
    (hvalid : Valid segment indexNum dataNum map) (hfuel : dataNum ≤ fuel)
    (calls : List (Call Data)) :
    ∃ final, segment.run fuel calls = some ((mapRun map calls).1, final) ∧
      Valid final indexNum dataNum (mapRun map calls).2 := by
  induction calls generalizing segment map with
  | nil => exact ⟨segment, rfl, hvalid⟩
  | cons call calls ih =>
      rcases call_simulates hvalid hfuel call with ⟨next, hcall, hnext, -⟩
      rcases ih hnext with ⟨final, hrun, hfinal⟩
      refine ⟨final, ?_, hfinal⟩
      simp only [Segment.run, hcall, Option.bind_some, hrun, Option.map_some]
      rfl

theorem verify_of_valid
    (hvalid : Valid segment indexNum dataNum map) (hfuel : dataNum ≤ fuel) :
    segment.verify fuel = some 0 := by
  rcases hvalid with ⟨chains, free, h⟩
  have hchains : ∀ bucket < segment.head.iIndexNodeNum.toNat,
      (chains bucket).length < fuel := by
    intro bucket hbucket
    rw [h.toNat_index] at hbucket
    exact (h.length_chain_lt hbucket).trans_le hfuel
  rcases verify_of_linked h.linked hchains
    (h.length_free_lt.trans_le hfuel) with ⟨code, hverify, hcode⟩
  rw [hverify, hcode.mpr h.counted]

end Calls

/-! ## The cleared segment -/

theorem chainFrom_range'
    (next : ℤ → ℤ) (first length : ℕ)
    (hnext : ∀ node, first ≤ node → node + 1 < first + (length + 1) →
      next (node : ℕ) = (node + 1 : ℕ))
    (hlast : next (first + length : ℕ) = 0) (hfirst : 1 ≤ first) :
    ChainFrom next 0 first
      ((List.range' first (length + 1)).map Nat.cast) := by
  induction length generalizing first with
  | zero =>
      refine ⟨rfl, by omega, ?_⟩
      exact hlast
  | succ length ih =>
      rw [List.range'_succ, List.map_cons]
      refine ⟨rfl, by omega, ?_⟩
      rw [hnext first (by omega) (by omega)]
      apply ih
      · intro node hlow hhigh
        exact hnext node (by omega) (by omega)
      · rw [show first + 1 + length = first + (length + 1) by omega]
        exact hlast
      · omega

section Clear

variable [Inhabited Data]

theorem clear_valid
    {segment : Segment Data} {indexNum dataNum : ℕ}
    (hindex : segment.head.iIndexNodeNum = indexNum)
    (hdata : segment.head.iTotalDataNodeNum = dataNum)
    (hindexPos : 1 ≤ indexNum) (hdataPos : 2 ≤ dataNum) :
    Valid segment.clear indexNum dataNum
      (BoundedMap.empty UInt64 Data (dataNum - 1)) := by
  have hfree : ChainFrom segment.clear.ipNextDataNode 0 1
      (nodeIndices dataNum) := by
    have hlength : dataNum - 1 = dataNum - 2 + 1 := by omega
    rw [nodeIndices, hlength, ← Nat.cast_one]
    apply chainFrom_range' segment.clear.ipNextDataNode 1 (dataNum - 2)
    · intro node hlow hhigh
      have hlast : ¬ (node : ℤ) = dataNum - 1 := by omega
      have hnode : (1 : ℤ) ≤ node ∧ (node : ℤ) < dataNum := by omega
      simp only [Segment.clear, hdata, if_neg hlast, if_pos hnode]
      push_cast
      ring
    · have hlast : ((1 + (dataNum - 2) : ℕ) : ℤ) = dataNum - 1 := by omega
      simp only [Segment.clear, hdata, if_pos hlast]
    · exact le_rfl
  have hempty : (List.range indexNum).flatMap
      (fun _ => ([] : List ℤ)) = [] := by simp
  have hrange : ∀ bucket < indexNum,
      (0 : ℤ) ≤ bucket ∧ (bucket : ℤ) < segment.head.iIndexNodeNum := by
    intro bucket hbucket
    rw [hindex]
    omega
  refine ⟨fun _ => [], nodeIndices dataNum, ?_⟩
  constructor
  · exact hindexPos
  · exact hdataPos
  · exact hindex
  · exact hdata
  · rfl
  · constructor
    · intro bucket hbucket
      change bucket < segment.head.iIndexNodeNum.toNat at hbucket
      rw [hindex, Int.toNat_natCast] at hbucket
      simp only [Segment.clear, if_pos (hrange bucket hbucket)]
    · intro bucket hbucket
      change bucket < segment.head.iIndexNodeNum.toNat at hbucket
      rw [hindex, Int.toNat_natCast] at hbucket
      change segment.clear.ipDataNodeList bucket = 0
      simp only [Segment.clear, if_pos (hrange bucket hbucket)]
    · exact hfree
    · simp
    · intro node hnode
      change node ≤ segment.head.iTotalDataNodeNum
      rw [hdata]
      exact (mem_nodeIndices.mp hnode).2.le
  · constructor
    · intro bucket hbucket
      change bucket < segment.head.iIndexNodeNum.toNat at hbucket
      rw [hindex, Int.toNat_natCast] at hbucket
      simp only [Segment.clear, if_pos (hrange bucket hbucket)]
      rfl
    · change (1 : ℤ) = 1 + (((List.range _).flatMap fun _ => []).length : ℤ)
      simp
    · change ((nodeIndices dataNum).length : ℤ) + 1 =
        segment.head.iTotalDataNodeNum
      rw [length_nodeIndices, hdata]
      omega
  · rw [hempty, List.append_nil]
  · intro bucket _
    rfl

/-- The segment after a successful `Init` followed by `Clear`. -/
def Segment.cleared (segment : Segment Data)
    (dataNodeSize iMemSize iIndexNum iDataNum : ℤ) : Segment Data :=
  (segment.init dataNodeSize iMemSize iIndexNum iDataNum).2.clear

omit [Inhabited Data] in
theorem init_of_room
    {segment : Segment Data} {dataNodeSize iMemSize iIndexNum iDataNum : ℤ}
    (hmem : toInt32 (headSize + iIndexNum * indexNodeSize +
      iDataNum * dataNodeSize) ≤ iMemSize)
    (hindex : 1 ≤ iIndexNum) (hdata : 2 ≤ iDataNum) :
    segment.init dataNodeSize iMemSize iIndexNum iDataNum =
      (success, { segment with
        head := { segment.head with
          iSize := iMemSize
          iIndexNodeNum := iIndexNum
          iTotalDataNodeNum := iDataNum } }) := by
  rw [Segment.init, if_neg (not_lt.mpr hmem), if_neg (not_lt.mpr hindex),
    if_neg (not_lt.mpr hdata)]

theorem cleared_valid
    (segment : Segment Data) {dataNodeSize iMemSize iIndexNum iDataNum : ℤ}
    (hmem : toInt32 (headSize + iIndexNum * indexNodeSize +
      iDataNum * dataNodeSize) ≤ iMemSize)
    (hindex : 1 ≤ iIndexNum) (hdata : 2 ≤ iDataNum) :
    Valid (segment.cleared dataNodeSize iMemSize iIndexNum iDataNum)
      iIndexNum.toNat iDataNum.toNat
      (BoundedMap.empty UInt64 Data (iDataNum.toNat - 1)) := by
  rw [Segment.cleared, init_of_room hmem hindex hdata]
  have hindexNonneg : 0 ≤ iIndexNum := by omega
  have hdataNonneg : 0 ≤ iDataNum := by omega
  apply clear_valid
  · exact (Int.toNat_of_nonneg hindexNonneg).symm
  · exact (Int.toNat_of_nonneg hdataNonneg).symm
  · omega
  · omega

/-! ## The refinement -/

/-- The free list and the bucket chains partition the data nodes, and a map
entry is stored at a node of the chain of its hash. -/
def Partitioned
    (segment : Segment Data) (indexNum dataNum : ℕ)
    (map : BoundedMap UInt64 Data) : Prop :=
  ∃ chains free,
    ChainFrom segment.ipNextDataNode 0 segment.head.ipFreeDataNodeList free ∧
    (∀ bucket < indexNum, ChainFrom segment.ipNextDataNode 0
      (segment.ipDataNodeList bucket) (chains bucket)) ∧
    (free ++ (List.range indexNum).flatMap chains).Perm
      (nodeIndices dataNum) ∧
    (∀ bucket < indexNum, ∀ node ∈ chains bucket,
      hashVal indexNum (segment.keyVal node) = bucket) ∧
    ∀ key value, map.get key = some value ↔
      ∃ node ∈ chains (hashVal indexNum key),
        segment.keyVal node = key ∧ segment.data node = value

omit [Inhabited Data] in
theorem partitioned_of_valid
    {segment : Segment Data} {indexNum dataNum : ℕ}
    {map : BoundedMap UInt64 Data}
    (hvalid : Valid segment indexNum dataNum map) :
    Partitioned segment indexNum dataNum map := by
  rcases hvalid with ⟨chains, free, h⟩
  refine ⟨chains, free, h.linked.free_chain, ?_, h.partition, ?_, ?_⟩
  · intro bucket hbucket
    exact h.bucket_chain hbucket
  · intro bucket hbucket node hnode
    exact h.hashVal_keyVal hbucket hnode
  · intro key value
    constructor
    · exact h.exists_node_of_get_some
    · rintro ⟨node, hnode, rfl, rfl⟩
      exact h.mem_entries (h.hashVal_lt _) hnode

/-- After `Init` and `Clear`, any sequence of calls is answered as a finite
map with room for `iDataNum - 1` entries answers it. -/
theorem cHashListNoLock_refines_map
    (segment : Segment Data)
    (dataNodeSize iMemSize iIndexNum iDataNum : ℤ)
    (hmem : toInt32 (headSize + iIndexNum * indexNodeSize +
      iDataNum * dataNodeSize) ≤ iMemSize)
    (hindex : 1 ≤ iIndexNum) (hdata : 2 ≤ iDataNum)
    (fuel : ℕ) (hfuel : iDataNum ≤ fuel) (calls : List (Call Data)) :
    let empty := BoundedMap.empty UInt64 Data (iDataNum.toNat - 1)
    let (answers, map) := mapRun empty calls
    (segment.init dataNodeSize iMemSize iIndexNum iDataNum).1 = success ∧
    ∃ final,
      (segment.cleared dataNodeSize iMemSize iIndexNum iDataNum).run
          fuel calls = some (answers, final) ∧
      Partitioned final iIndexNum.toNat iDataNum.toNat map ∧
      final.verify fuel = some 0 ∧
      ∀ call, ∃ after,
        final.call fuel call = some ((mapCall map call).1, after) ∧
        ((mapCall map call).1.iRetVal ≠ success → after = final) := by
  have hcleared := cleared_valid segment hmem hindex hdata
  have hfuel' : iDataNum.toNat ≤ fuel := by omega
  rcases run_simulates hcleared hfuel' calls with ⟨final, hrun, hvalid⟩
  constructor
  · rw [init_of_room hmem hindex hdata]
  · refine ⟨final, hrun, partitioned_of_valid hvalid,
      verify_of_valid hvalid hfuel', ?_⟩
    intro call
    rcases call_simulates hvalid hfuel' call with ⟨after, hcall, -, hfail⟩
    exact ⟨after, hcall, hfail⟩

end Clear

/-- Three keys of which two collide, in a list with room for two entries. -/
theorem cHashListNoLock_refines_map_collision :
    toInt32 (headSize + 2 * indexNodeSize + 3 * 24) ≤ 116 ∧
    ∃ final,
      ((default : Segment UInt64).cleared 24 116 2 3).run 3
        [.insert 1 10, .insert 3 30, .insert 4 40, .insertWithRet 3 31,
          .update 3 32, .remove 1, .get 3, .get 1, .insert 4 40] =
        some ([⟨0, none⟩, ⟨0, none⟩, ⟨-104, none⟩, ⟨-106, some 30⟩,
          ⟨0, none⟩, ⟨0, none⟩, ⟨0, some 32⟩, ⟨-105, none⟩, ⟨0, none⟩],
          final) ∧
      final.verify 3 = some 0 := by
  have hrefines := cHashListNoLock_refines_map (default : Segment UInt64)
    24 116 2 3 (by decide) (by decide) (by decide) 3 (by decide)
    [.insert 1 10, .insert 3 30, .insert 4 40, .insertWithRet 3 31,
      .update 3 32, .remove 1, .get 3, .get 1, .insert 4 40]
  rcases hrefines with ⟨-, final, hrun, -, hverify, -⟩
  exact ⟨by decide, final, hrun, hverify⟩

end MessageBus.HashList
