import MessageBus.HashListInvariant

/-!
# The hash list refines a finite map

The abstract value of a hash list is a `BoundedMap` from keys to data with
room for one entry less than there are data nodes.  A complete state
represents such a map; every operation returns what the map says and leads to
a state that represents the map after the operation.
-/

namespace MessageBus.HashList

open IndexChain

variable {Data : Type}

/-- The data nodes other than the null node. -/
def nodeIndices (dataNum : ℕ) : List ℤ :=
  (List.range' 1 (dataNum - 1)).map Nat.cast

structure Represents
    (segment : Segment Data) (indexNum dataNum : ℕ)
    (map : BoundedMap UInt64 Data)
    (chains : ℕ → List ℤ) (free : List ℤ) : Prop where
  index_pos : 1 ≤ indexNum
  data_pos : 2 ≤ dataNum
  index_eq : segment.head.iIndexNodeNum = indexNum
  data_eq : segment.head.iTotalDataNodeNum = dataNum
  capacity_eq : map.capacity = dataNum - 1
  linked : Linked segment chains free
  counted : Counted segment chains free
  partition : (free ++ (List.range indexNum).flatMap chains).Perm
    (nodeIndices dataNum)
  entries_eq : ∀ bucket < indexNum,
    (chains bucket).map
        (fun node => (⟨segment.keyVal node, segment.data node⟩ :
          Σ _ : UInt64, Data)) =
      map.store.entries.filter fun entry => hashVal indexNum entry.1 = bucket

theorem mem_nodeIndices {dataNum : ℕ} {node : ℤ} :
    node ∈ nodeIndices dataNum ↔ 1 ≤ node ∧ node < dataNum := by
  simp only [nodeIndices, List.mem_map, List.mem_range'_1]
  constructor
  · rintro ⟨index, hindex, rfl⟩
    omega
  · intro hnode
    exact ⟨node.toNat, by omega, by omega⟩

theorem nodup_nodeIndices (dataNum : ℕ) : (nodeIndices dataNum).Nodup :=
  List.Nodup.map Nat.cast_injective List.nodup_range'

theorem length_nodeIndices (dataNum : ℕ) :
    (nodeIndices dataNum).length = dataNum - 1 := by
  simp [nodeIndices]

/-! ## The nodes of a represented map -/

namespace Represents

variable {segment : Segment Data} {indexNum dataNum : ℕ}
  {map : BoundedMap UInt64 Data} {chains : ℕ → List ℤ} {free : List ℤ}
  {node : ℤ} {bucket other : ℕ} {key : UInt64} {value : Data}

theorem hash_eq (h : Represents segment indexNum dataNum map chains free)
    (key : UInt64) : segment.hash key = hashVal indexNum key := by
  rw [Segment.hash, h.index_eq, Int.toNat_natCast]

theorem hashVal_lt (h : Represents segment indexNum dataNum map chains free)
    (key : UInt64) : hashVal indexNum key < indexNum :=
  Nat.mod_lt _ h.index_pos

theorem toNat_index
    (h : Represents segment indexNum dataNum map chains free) :
    segment.head.iIndexNodeNum.toNat = indexNum := by
  rw [h.index_eq, Int.toNat_natCast]

theorem nodup (h : Represents segment indexNum dataNum map chains free) :
    (free ++ (List.range indexNum).flatMap chains).Nodup :=
  h.partition.nodup_iff.mpr (nodup_nodeIndices dataNum)

theorem mem_flatMap_of_mem (hbucket : bucket < indexNum)
    (hnode : node ∈ chains bucket) :
    node ∈ (List.range indexNum).flatMap chains :=
  List.mem_flatMap.mpr ⟨bucket, List.mem_range.mpr hbucket, hnode⟩

theorem bounds_of_mem
    (h : Represents segment indexNum dataNum map chains free)
    (hbucket : bucket < indexNum) (hnode : node ∈ chains bucket) :
    1 ≤ node ∧ node < dataNum := by
  apply mem_nodeIndices.mp
  apply h.partition.subset
  exact List.mem_append_right free (mem_flatMap_of_mem hbucket hnode)

theorem bounds_of_mem_free
    (h : Represents segment indexNum dataNum map chains free)
    (hnode : node ∈ free) : 1 ≤ node ∧ node < dataNum := by
  apply mem_nodeIndices.mp
  apply h.partition.subset
  exact List.mem_append_left _ hnode

theorem notMem_chain_of_mem_free
    (h : Represents segment indexNum dataNum map chains free)
    (hbucket : bucket < indexNum) (hnode : node ∈ free) :
    node ∉ chains bucket := fun hmem =>
  (List.nodup_append.mp h.nodup).2.2 node hnode node
    (mem_flatMap_of_mem hbucket hmem) rfl

theorem notMem_free_of_mem
    (h : Represents segment indexNum dataNum map chains free)
    (hbucket : bucket < indexNum) (hnode : node ∈ chains bucket) :
    node ∉ free := fun hmem =>
  h.notMem_chain_of_mem_free hbucket hmem hnode

theorem nodup_chain
    (h : Represents segment indexNum dataNum map chains free)
    (hbucket : bucket < indexNum) : (chains bucket).Nodup :=
  (List.nodup_flatMap.mp (List.nodup_append.mp h.nodup).2.1).1 bucket
    (List.mem_range.mpr hbucket)

theorem notMem_other_chain
    (h : Represents segment indexNum dataNum map chains free)
    (hbucket : bucket < indexNum) (hother : other < indexNum)
    (hne : other ≠ bucket) (hnode : node ∈ chains bucket) :
    node ∉ chains other := by
  have hsplit := (List.nodup_append.mp h.nodup).2.1
  rw [(flatMap_perm_erase hbucket chains).nodup_iff] at hsplit
  intro hmem
  have herase : other ∈ (List.range indexNum).erase bucket :=
    (List.mem_erase_of_ne hne).mpr (List.mem_range.mpr hother)
  exact (List.nodup_append.mp hsplit).2.2 node hnode node
    (List.mem_flatMap.mpr ⟨other, herase, hmem⟩) rfl

theorem length_free_add
    (h : Represents segment indexNum dataNum map chains free) :
    free.length + ((List.range indexNum).flatMap chains).length =
      dataNum - 1 := by
  rw [← List.length_append, h.partition.length_eq, length_nodeIndices]

theorem length_free_lt
    (h : Represents segment indexNum dataNum map chains free) :
    free.length < dataNum := by
  have hlength := h.length_free_add
  have hdata := h.data_pos
  omega

theorem length_chain_lt
    (h : Represents segment indexNum dataNum map chains free)
    (hbucket : bucket < indexNum) : (chains bucket).length < dataNum := by
  have hlength := h.length_free_add
  have hsplit := (flatMap_perm_erase hbucket chains).length_eq
  have hdata := h.data_pos
  rw [List.length_append] at hsplit
  omega

/-- The nodes in use are as many as the entries stored. -/
theorem length_chains
    (h : Represents segment indexNum dataNum map chains free) :
    ((List.range indexNum).flatMap chains).length = map.size := by
  have hbuckets : ((List.range indexNum).map fun bucket =>
        (chains bucket).length) =
      (List.range indexNum).map fun bucket =>
        (map.store.entries.map fun entry => hashVal indexNum entry.1).count
          bucket := by
    apply List.map_congr_left
    intro bucket hbucket
    have hlength := congrArg List.length
      (h.entries_eq bucket (List.mem_range.mp hbucket))
    rw [List.length_map] at hlength
    rw [hlength, List.count, List.countP_map, List.countP_eq_length_filter]
    congr 2
  have hmem : ∀ bucket ∈ ((map.store.entries.map fun entry =>
        hashVal indexNum entry.1 : List ℕ) : Multiset ℕ),
      bucket ∈ Finset.range indexNum := by
    intro bucket hbucket
    rcases List.mem_map.mp (Multiset.mem_coe.mp hbucket) with ⟨entry, -, rfl⟩
    exact Finset.mem_range.mpr (h.hashVal_lt entry.1)
  have hsum := Multiset.sum_count_eq_card hmem
  rw [List.length_flatMap, hbuckets, BoundedMap.size]
  simpa [Finset.sum, ← Multiset.coe_range] using hsum

/-! ## Looking up a key -/

theorem hashVal_keyVal
    (h : Represents segment indexNum dataNum map chains free)
    (hbucket : bucket < indexNum) (hnode : node ∈ chains bucket) :
    hashVal indexNum (segment.keyVal node) = bucket := by
  have hmem := List.mem_map_of_mem
    (f := fun node => (⟨segment.keyVal node, segment.data node⟩ :
      Σ _ : UInt64, Data)) hnode
  rw [h.entries_eq bucket hbucket, List.mem_filter] at hmem
  simpa using hmem.2

theorem mem_entries
    (h : Represents segment indexNum dataNum map chains free)
    (hbucket : bucket < indexNum) (hnode : node ∈ chains bucket) :
    map.get (segment.keyVal node) = some (segment.data node) := by
  rw [BoundedMap.get_eq_some_iff]
  have hmem := List.mem_map_of_mem
    (f := fun node => (⟨segment.keyVal node, segment.data node⟩ :
      Σ _ : UInt64, Data)) hnode
  rw [h.entries_eq bucket hbucket, List.mem_filter] at hmem
  exact hmem.1

theorem nodup_keyVal
    (h : Represents segment indexNum dataNum map chains free)
    (hbucket : bucket < indexNum) :
    ((chains bucket).map segment.keyVal).Nodup := by
  have hkeys : ((chains bucket).map segment.keyVal) =
      (map.store.entries.filter fun entry =>
        hashVal indexNum entry.1 = bucket).keys := by
    rw [← h.entries_eq bucket hbucket, List.keys, List.map_map]
    rfl
  rw [hkeys]
  exact List.NodupKeys.sublist List.filter_sublist map.store.nodupKeys

theorem eq_of_keyVal_eq
    {first second : ℤ}
    (h : Represents segment indexNum dataNum map chains free)
    (hbucket : bucket < indexNum) (hother : other < indexNum)
    (hfirst : first ∈ chains bucket) (hsecond : second ∈ chains other)
    (hkey : segment.keyVal first = segment.keyVal second) :
    first = second := by
  have hsame : bucket = other := by
    rw [← h.hashVal_keyVal hbucket hfirst, hkey,
      h.hashVal_keyVal hother hsecond]
  subst hsame
  exact List.inj_on_of_nodup_map (h.nodup_keyVal hbucket) hfirst hsecond hkey

theorem keyVal_ne_of_get_none
    (h : Represents segment indexNum dataNum map chains free)
    (hget : map.get key = none) (hbucket : bucket < indexNum)
    (hnode : node ∈ chains bucket) : segment.keyVal node ≠ key := by
  intro hkey
  have hsome := h.mem_entries hbucket hnode
  rw [hkey, hget] at hsome
  simp at hsome

theorem exists_node_of_get_some
    (h : Represents segment indexNum dataNum map chains free)
    (hget : map.get key = some value) :
    ∃ node ∈ chains (hashVal indexNum key),
      segment.keyVal node = key ∧ segment.data node = value := by
  have hentry := BoundedMap.get_eq_some_iff.mp hget
  have hmem : (⟨key, value⟩ : Σ _ : UInt64, Data) ∈
      map.store.entries.filter fun entry =>
        hashVal indexNum entry.1 = hashVal indexNum key :=
    List.mem_filter.mpr ⟨hentry, by simp⟩
  rw [← h.entries_eq _ (h.hashVal_lt key)] at hmem
  rcases List.mem_map.mp hmem with ⟨node, hnode, heq⟩
  simp only [Sigma.mk.injEq, heq_eq_eq] at heq
  exact ⟨node, hnode, heq⟩

end Represents

section Search

variable {segment : Segment Data} {key : UInt64} {fuel : ℕ}

theorem findLast_of_absent
    {nodes : List ℤ} {first last : ℤ}
    (hchain : ChainFrom segment.ipNextDataNode 0 first nodes)
    (habsent : ∀ node ∈ nodes, segment.keyVal node ≠ key)
    (hfuel : nodes.length < fuel) :
    segment.findLast key fuel last first =
      some (nodes.getLast?.getD last, 0) := by
  induction nodes generalizing first last fuel with
  | nil =>
      cases fuel with
      | zero => simp at hfuel
      | succ fuel =>
          have hfirst : first = 0 := hchain
          simp [Segment.findLast, hfirst]
  | cons node nodes ih =>
      cases fuel with
      | zero => simp at hfuel
      | succ fuel =>
          rcases hchain with ⟨rfl, hnode, hrest⟩
          have hkey := habsent first (by simp)
          rw [Segment.findLast, if_pos ⟨hnode, hkey⟩,
            ih hrest (fun later hlater => habsent later (by simp [hlater]))
              (by simpa using hfuel),
            List.getLast?_cons]
          rfl

theorem findLast_of_present
    {before after : List ℤ} {node first last : ℤ}
    (hchain : ChainFrom segment.ipNextDataNode 0 first
      (before ++ node :: after))
    (habsent : ∀ earlier ∈ before, segment.keyVal earlier ≠ key)
    (hkey : segment.keyVal node = key)
    (hfuel : before.length < fuel) :
    segment.findLast key fuel last first =
      some (before.getLast?.getD last, node) := by
  induction before generalizing first last fuel with
  | nil =>
      cases fuel with
      | zero => simp at hfuel
      | succ fuel =>
          rcases hchain with ⟨rfl, -, -⟩
          simp [Segment.findLast, hkey]
  | cons earlier before ih =>
      cases fuel with
      | zero => simp at hfuel
      | succ fuel =>
          rcases hchain with ⟨rfl, hnode, hrest⟩
          have hother := habsent first (by simp)
          rw [Segment.findLast, if_pos ⟨hnode, hother⟩,
            ih hrest (fun later hlater => habsent later (by simp [hlater]))
              (by simpa using hfuel),
            List.getLast?_cons]
          rfl

theorem find_eq_findLast (segment : Segment Data) (key : UInt64)
    (fuel : ℕ) (last first : ℤ) :
    segment.find key fuel first =
      (segment.findLast key fuel last first).map Prod.snd := by
  induction fuel generalizing last first with
  | zero => rfl
  | succ fuel ih =>
      rw [Segment.find, Segment.findLast]
      split
      · exact ih first (segment.ipNextDataNode first)
      · rfl

end Search

namespace Represents

variable {segment : Segment Data} {indexNum dataNum : ℕ}
  {map : BoundedMap UInt64 Data} {chains : ℕ → List ℤ}
  {free rest before after : List ℤ}
  {node last : ℤ} {bucket fuel : ℕ} {key : UInt64} {value : Data}

theorem bucket_chain
    (h : Represents segment indexNum dataNum map chains free)
    (hbucket : bucket < indexNum) :
    ChainFrom segment.ipNextDataNode 0 (segment.ipDataNodeList bucket)
      (chains bucket) :=
  h.linked.bucket_chain bucket (by rw [h.toNat_index]; exact hbucket)

theorem findKey_of_get_none
    (h : Represents segment indexNum dataNum map chains free)
    (hfuel : dataNum ≤ fuel) (hget : map.get key = none) :
    segment.findKey fuel key = some 0 := by
  have hbucket := h.hashVal_lt key
  rw [Segment.findKey, h.hash_eq, find_eq_findLast segment key fuel 0,
    findLast_of_absent (h.bucket_chain hbucket)
      (fun node hnode => h.keyVal_ne_of_get_none hget hbucket hnode)
      ((h.length_chain_lt hbucket).trans_le hfuel)]
  rfl

/-- Where a stored key is met in its chain. -/
theorem exists_split_of_get_some
    (h : Represents segment indexNum dataNum map chains free)
    (hget : map.get key = some value) :
    ∃ before node after,
      chains (hashVal indexNum key) = before ++ node :: after ∧
        segment.keyVal node = key ∧ segment.data node = value ∧
          ∀ earlier ∈ before, segment.keyVal earlier ≠ key := by
  rcases h.exists_node_of_get_some hget with ⟨node, hnode, hkey, hdata⟩
  rcases List.append_of_mem hnode with ⟨before, after, hchain⟩
  refine ⟨before, node, after, hchain, hkey, hdata, ?_⟩
  intro earlier hearlier hsame
  have hnodup := h.nodup_keyVal (h.hashVal_lt key)
  rw [hchain, List.map_append, List.map_cons] at hnodup
  exact (List.nodup_append.mp hnodup).2.2 key
    (List.mem_map.mpr ⟨earlier, hearlier, hsame⟩)
    (segment.keyVal node) (by simp) hkey.symm

theorem findLast_of_split
    (h : Represents segment indexNum dataNum map chains free)
    (hfuel : dataNum ≤ fuel)
    (hchain : chains (hashVal indexNum key) = before ++ node :: after)
    (hkey : segment.keyVal node = key)
    (habsent : ∀ earlier ∈ before, segment.keyVal earlier ≠ key) :
    segment.findLast key fuel 0
        (segment.ipDataNodeList (hashVal indexNum key)) =
      some (before.getLast?.getD 0, node) := by
  have hlist := h.bucket_chain (h.hashVal_lt key)
  have hlength := h.length_chain_lt (h.hashVal_lt key)
  rw [hchain] at hlist hlength
  apply findLast_of_present hlist habsent hkey
  simp only [List.length_append, List.length_cons] at hlength
  omega

theorem findKey_of_get_some
    (h : Represents segment indexNum dataNum map chains free)
    (hfuel : dataNum ≤ fuel) (hget : map.get key = some value) :
    ∃ node ∈ chains (hashVal indexNum key),
      segment.findKey fuel key = some node ∧ 0 < node ∧
        segment.keyVal node = key ∧ segment.data node = value := by
  rcases h.exists_split_of_get_some hget with
    ⟨before, node, after, hchain, hkey, hdata, habsent⟩
  have hmem : node ∈ chains (hashVal indexNum key) := by simp [hchain]
  have hpos := (h.bounds_of_mem (h.hashVal_lt key) hmem).1
  have hfind : segment.findKey fuel key = some node := by
    rw [Segment.findKey, h.hash_eq, find_eq_findLast segment key fuel 0,
      h.findLast_of_split hfuel hchain hkey habsent]
    rfl
  exact ⟨node, hmem, hfind, by omega, hkey, hdata⟩

/-! ## Room for a new entry -/

theorem used_eq (h : Represents segment indexNum dataNum map chains free) :
    segment.head.iUsedDataNodeNum = 1 + map.size := by
  rw [h.counted.used_num, h.toNat_index, h.length_chains]

theorem free_eq_nil_iff
    (h : Represents segment indexNum dataNum map chains free) :
    free = [] ↔ ¬ map.size < map.capacity := by
  have hlength := h.length_free_add
  rw [h.length_chains] at hlength
  rw [← List.length_eq_zero_iff, h.capacity_eq]
  omega

/-- The writes of an `Insert` that takes `node`. -/
def insertWrites (segment : Segment Data) (indexNum : ℕ)
    (node : ℤ) (key : UInt64) (value : Data) : List (Write Data) :=
  [.usedDataNodeNum (segment.head.iUsedDataNodeNum + 1),
    .freeDataNodeList (segment.ipNextDataNode node),
    .keyVal node key,
    .nextDataNode node (segment.ipDataNodeList (hashVal indexNum key)),
    .nodeData node value,
    .dataNodeList (hashVal indexNum key) node,
    .dataNodeNum (hashVal indexNum key)
      (segment.iDataNodeNum (hashVal indexNum key) + 1)]

theorem insertNew_of_full
    (h : Represents segment indexNum dataNum map chains free)
    (hfull : ¬ map.size < map.capacity) :
    segment.insertNew key value = (eHashListNoSpace, []) := by
  have hused := h.used_eq
  have hcapacity := h.capacity_eq
  have hnone : segment.head.iTotalDataNodeNum -
      segment.head.iUsedDataNodeNum ≤ 0 := by
    rw [h.data_eq, hused]
    omega
  have hfree : segment.getFreeNode = (eHashListNoSpace, []) := by
    rw [Segment.getFreeNode, if_pos (Or.inl hnone)]
  simp [Segment.insertNew, hfree, eHashListNoSpace]

theorem insertNew_of_room
    (h : Represents segment indexNum dataNum map chains (node :: rest)) :
    segment.insertNew key value =
      (success, insertWrites segment indexNum node key value) := by
  have hfirst : segment.head.ipFreeDataNodeList = node :=
    h.linked.free_chain.1
  have hnode := (h.bounds_of_mem_free (List.mem_cons_self : node ∈ _)).1
  have hlength := h.counted.total_num
  have hroom : ¬ (segment.head.iTotalDataNodeNum -
        segment.head.iUsedDataNodeNum ≤ 0 ∨ node ≤ 0) := by
    rw [List.length_cons] at hlength
    omega
  have hfree : segment.getFreeNode = (node,
      [.usedDataNodeNum (segment.head.iUsedDataNodeNum + 1),
        .freeDataNodeList (segment.ipNextDataNode node)]) := by
    rw [Segment.getFreeNode, hfirst, if_neg hroom]
  have hpos : 0 < node := by omega
  simp [Segment.insertNew, hfree, hpos, h.hash_eq, insertWrites]

/-- The memory after each write of an `Insert` is linked. -/
theorem linked_insert
    (h : Represents segment indexNum dataNum map chains (node :: rest))
    (key : UInt64) (value : Data) :
    Linked (segment.perform
      ((insertWrites segment indexNum node key value).take 1))
        chains (node :: rest) ∧
    (∀ count, 2 ≤ count → count ≤ 5 → Linked (segment.perform
      ((insertWrites segment indexNum node key value).take count))
        chains rest) ∧
    ∀ count, 6 ≤ count → Linked (segment.perform
      ((insertWrites segment indexNum node key value).take count))
        (Function.update chains (hashVal indexNum key)
          (node :: chains (hashVal indexNum key))) rest := by
  have hhash := h.hashVal_lt key
  have hmem : node ∈ node :: rest := List.mem_cons_self
  have hbounds := h.bounds_of_mem_free hmem
  have hrest : node ∉ rest :=
    (List.nodup_cons.mp (List.nodup_append.mp h.nodup).1).1
  have hchains : ∀ bucket < segment.head.iIndexNodeNum.toNat,
      node ∉ chains bucket := by
    intro bucket hbucket
    rw [h.toNat_index] at hbucket
    exact h.notMem_chain_of_mem_free hbucket hmem
  have h1 := h.linked.usedDataNodeNum (segment.head.iUsedDataNodeNum + 1)
  have h2 := h1.popFree
  have h3 := h2.keyVal node key
  have h4 := h3.nextDataNode node
    (segment.ipDataNodeList (hashVal indexNum key)) hchains hrest
  have h5 := h4.nodeData node value
  have hpush := (h.bucket_chain hhash).push (by omega)
    (h.notMem_chain_of_mem_free hhash hmem)
  have hle : ∀ later ∈ node :: chains (hashVal indexNum key),
      later ≤ segment.head.iTotalDataNodeNum := by
    intro later hlater
    rw [h.data_eq]
    rcases List.mem_cons.mp hlater with rfl | hlater
    · omega
    · have hlater := h.bounds_of_mem hhash hlater
      omega
  have h6 := h5.dataNodeList (hashVal indexNum key) hpush hle
  have h7 := h6.dataNodeNum (hashVal indexNum key)
    (segment.iDataNodeNum (hashVal indexNum key) + 1)
  refine ⟨h1, ?_, ?_⟩
  · intro count hlow hhigh
    interval_cases count
    · exact h2
    · exact h3
    · exact h4
    · exact h5
  · intro count hlow
    rcases Nat.eq_or_lt_of_le hlow with rfl | hlow
    · exact h6
    · have hlength : (insertWrites segment indexNum node key value).length ≤
          count := hlow
      rw [List.take_of_length_le hlength]
      exact h7

theorem counted_insert
    (h : Represents segment indexNum dataNum map chains (node :: rest))
    (key : UInt64) (value : Data) :
    Counted
      (segment.perform (insertWrites segment indexNum node key value))
      (Function.update chains (hashVal indexNum key)
        (node :: chains (hashVal indexNum key))) rest := by
  have hflat := flatMap_push_perm (h.hashVal_lt key) chains node
  constructor
  · intro bucket hbucket
    change Function.update segment.iDataNodeNum (hashVal indexNum key)
      (segment.iDataNodeNum (hashVal indexNum key) + 1) bucket = _
    by_cases heq : bucket = hashVal indexNum key
    · subst heq
      rw [Function.update_self, Function.update_self,
        h.counted.bucket_num _ hbucket]
      simp
    · rw [Function.update_of_ne heq,
        Function.update_of_ne (Nat.cast_injective.ne heq)]
      exact h.counted.bucket_num bucket hbucket
  · change segment.head.iUsedDataNodeNum + 1 = 1 +
      (((List.range segment.head.iIndexNodeNum.toNat).flatMap _).length : ℤ)
    rw [h.toNat_index, hflat.length_eq, h.counted.used_num, h.toNat_index]
    simp only [List.length_cons, Nat.cast_add, Nat.cast_one]
    ring
  · change (rest.length : ℤ) + (segment.head.iUsedDataNodeNum + 1) =
      segment.head.iTotalDataNodeNum
    rw [← h.counted.total_num]
    simp only [List.length_cons, Nat.cast_add, Nat.cast_one]
    ring

theorem map_chain_update_free
    (h : Represents segment indexNum dataNum map chains (node :: rest))
    (key : UInt64) (value : Data) {bucket : ℕ} (hbucket : bucket < indexNum) :
    (chains bucket).map
        (fun other => (⟨Function.update segment.keyVal node key other,
          Function.update segment.data node value other⟩ :
            Σ _ : UInt64, Data)) =
      map.store.entries.filter fun entry =>
        hashVal indexNum entry.1 = bucket := by
  rw [← h.entries_eq bucket hbucket]
  apply List.map_congr_left
  intro other hother
  have hne : other ≠ node := by
    rintro rfl
    exact h.notMem_chain_of_mem_free hbucket List.mem_cons_self hother
  rw [Function.update_of_ne hne, Function.update_of_ne hne]

theorem represents_insert
    (h : Represents segment indexNum dataNum map chains (node :: rest))
    (value : Data)
    (hget : map.get key = none) (hroom : map.size < map.capacity) :
    Represents
      (segment.perform (insertWrites segment indexNum node key value))
      indexNum dataNum (map.put key value hroom)
      (Function.update chains (hashVal indexNum key)
        (node :: chains (hashVal indexNum key))) rest := by
  have hhash := h.hashVal_lt key
  have hflat := flatMap_push_perm hhash chains node
  constructor
  · exact h.index_pos
  · exact h.data_pos
  · exact h.index_eq
  · exact h.data_eq
  · exact h.capacity_eq
  · exact (h.linked_insert key value).2.2 7 (by norm_num)
  · exact h.counted_insert key value
  · apply (hflat.append_left rest).trans
    exact (List.perm_middle).trans h.partition
  · intro bucket hbucket
    change (Function.update chains (hashVal indexNum key)
        (node :: chains (hashVal indexNum key)) bucket).map
          (fun other => (⟨Function.update segment.keyVal node key other,
            Function.update segment.data node value other⟩ :
              Σ _ : UInt64, Data)) = _
    rw [BoundedMap.entries_put hroom hget]
    by_cases heq : bucket = hashVal indexNum key
    · subst heq
      rw [Function.update_self, List.map_cons,
        h.map_chain_update_free key value hhash, Function.update_self,
        Function.update_self, List.filter_cons_of_pos (by simp)]
    · have hne : ¬ hashVal indexNum key = bucket := fun hsym => heq hsym.symm
      rw [Function.update_of_ne heq,
        h.map_chain_update_free key value hbucket,
        List.filter_cons_of_neg (by simpa using hne)]

/-! ## Updating an entry -/

theorem represents_update
    (h : Represents segment indexNum dataNum map chains free)
    (hbucket : bucket < indexNum) (hnode : node ∈ chains bucket)
    (hkey : segment.keyVal node = key) :
    Represents (segment.perform [.nodeData node value]) indexNum dataNum
      (map.modify key fun _ => value) chains free := by
  have hentry : ∀ other < indexNum, ∀ later ∈ chains other,
      (⟨segment.keyVal later, Function.update segment.data node value later⟩ :
          Σ _ : UInt64, Data) =
        if segment.keyVal later = key then ⟨segment.keyVal later, value⟩
        else ⟨segment.keyVal later, segment.data later⟩ := by
    intro other hother later hlater
    by_cases heq : later = node
    · subst heq
      rw [Function.update_self, if_pos hkey]
    · have hne : segment.keyVal later ≠ key := fun hsame =>
        heq (h.eq_of_keyVal_eq hother hbucket hlater hnode
          (hsame.trans hkey.symm))
      rw [Function.update_of_ne heq, if_neg hne]
  constructor
  · exact h.index_pos
  · exact h.data_pos
  · exact h.index_eq
  · exact h.data_eq
  · exact h.capacity_eq
  · exact h.linked.nodeData node value
  · exact ⟨h.counted.bucket_num, h.counted.used_num, h.counted.total_num⟩
  · exact h.partition
  · intro other hother
    have hchain := h.entries_eq other hother
    calc
      _ = (chains other).map (fun later =>
          if segment.keyVal later = key then
            (⟨segment.keyVal later, value⟩ : Σ _ : UInt64, Data)
          else ⟨segment.keyVal later, segment.data later⟩) :=
        List.map_congr_left (hentry other hother)
      _ = ((chains other).map (fun later =>
            (⟨segment.keyVal later, segment.data later⟩ :
              Σ _ : UInt64, Data))).map (fun entry =>
          if entry.1 = key then ⟨entry.1, value⟩ else entry) := by
        rw [List.map_map]
        rfl
      _ = _ := by
        rw [hchain]
        change _ = List.filter _ (List.map _ _)
        rw [List.filter_map]
        congr 1
        apply List.filter_congr
        intro entry _
        simp only [Function.comp_apply]
        split_ifs <;> rfl

/-! ## Removing an entry -/

/-- The write that takes a node out of its chain, `before` being the nodes in
front of it. -/
def unlinkWrite (segment : Segment Data) (bucket : ℕ)
    (before : List ℤ) (node : ℤ) : Write Data :=
  if before.getLast?.getD 0 = 0 then
    .dataNodeList bucket (segment.ipNextDataNode node)
  else .nextDataNode (before.getLast?.getD 0) (segment.ipNextDataNode node)

/-- The writes of a `Remove` that frees `node`. -/
def removeWrites (segment : Segment Data) (bucket : ℕ)
    (before : List ℤ) (node : ℤ) : List (Write Data) :=
  [unlinkWrite segment bucket before node,
    .dataNodeNum bucket (segment.iDataNodeNum bucket - 1),
    .usedDataNodeNum (segment.head.iUsedDataNodeNum - 1),
    .nextDataNode node segment.head.ipFreeDataNodeList,
    .freeDataNodeList node]

theorem remove_of_get_none
    (h : Represents segment indexNum dataNum map chains free)
    (hfuel : dataNum ≤ fuel) (hget : map.get key = none) :
    segment.remove fuel key = some (eHashListNoNode, []) := by
  have hbucket := h.hashVal_lt key
  rw [Segment.remove, h.hash_eq,
    findLast_of_absent (h.bucket_chain hbucket)
      (fun node hnode => h.keyVal_ne_of_get_none hget hbucket hnode)
      ((h.length_chain_lt hbucket).trans_le hfuel)]
  rfl

theorem remove_of_split
    (h : Represents segment indexNum dataNum map chains free)
    (hfuel : dataNum ≤ fuel)
    (hchain : chains (hashVal indexNum key) = before ++ node :: after)
    (hkey : segment.keyVal node = key)
    (habsent : ∀ earlier ∈ before, segment.keyVal earlier ≠ key) :
    segment.remove fuel key =
      some (success,
        removeWrites segment (hashVal indexNum key) before node) := by
  have hmem : node ∈ chains (hashVal indexNum key) := by simp [hchain]
  have hbounds := h.bounds_of_mem (h.hashVal_lt key) hmem
  have hrecycle : ¬ (node = 0 ∨ segment.head.iTotalDataNodeNum < node) := by
    rw [h.data_eq]
    omega
  have hpos : 0 < node := by omega
  rw [Segment.remove, h.hash_eq,
    h.findLast_of_split hfuel hchain hkey habsent]
  simp only [Option.map_some, if_pos hpos, Segment.recycleNode,
    if_neg hrecycle]
  rfl

theorem linked_unlink
    (h : Represents segment indexNum dataNum map chains free)
    (hbucket : bucket < indexNum)
    (hchain : chains bucket = before ++ node :: after) :
    Linked (Write.apply segment (unlinkWrite segment bucket before node))
      (Function.update chains bucket (before ++ after)) free := by
  have hlist := h.bucket_chain hbucket
  rcases List.eq_nil_or_concat before with rfl | ⟨front, last, rfl⟩
  · rw [hchain] at hlist
    have hafter := hlist.append
    apply h.linked.dataNodeList bucket hafter
    intro later hlater
    have hmem : later ∈ chains bucket := by simp [hchain, hlater]
    have hbounds := h.bounds_of_mem hbucket hmem
    rw [h.data_eq]
    omega
  · have hchain' : chains bucket = front ++ last :: node :: after := by
      rw [hchain]
      simp
    have hmem : last ∈ chains bucket := by simp [hchain']
    have hbounds := h.bounds_of_mem hbucket hmem
    have hne : ¬ last = 0 := by omega
    have hwrite : unlinkWrite segment bucket (front ++ [last]) node =
        .nextDataNode last (segment.ipNextDataNode node) := by
      simp [unlinkWrite, hne]
    have hnodes : front ++ [last] ++ after = front ++ last :: after := by simp
    rw [List.concat_eq_append, hwrite, hnodes]
    apply h.linked.unlink (by rw [h.toNat_index]; exact hbucket) hchain'
      (h.nodup_chain hbucket) _ (h.notMem_free_of_mem hbucket hmem)
    intro other hother hne
    rw [h.toNat_index] at hother
    exact h.notMem_other_chain hbucket hother hne hmem

theorem head_unlinkWrite (segment : Segment Data) (bucket : ℕ)
    (before : List ℤ) (node : ℤ) :
    (Write.apply segment (unlinkWrite segment bucket before node)).head =
      segment.head := by
  unfold unlinkWrite
  split_ifs <;> rfl

theorem iDataNodeNum_unlinkWrite (segment : Segment Data) (bucket : ℕ)
    (before : List ℤ) (node : ℤ) :
    (Write.apply segment
      (unlinkWrite segment bucket before node)).iDataNodeNum =
        segment.iDataNodeNum := by
  unfold unlinkWrite
  split_ifs <;> rfl

theorem entry_unlinkWrite (segment : Segment Data) (bucket : ℕ)
    (before : List ℤ) (node : ℤ) :
    (Write.apply segment
      (unlinkWrite segment bucket before node)).keyVal = segment.keyVal ∧
    (Write.apply segment
      (unlinkWrite segment bucket before node)).data = segment.data := by
  unfold unlinkWrite
  split_ifs <;> exact ⟨rfl, rfl⟩

theorem filter_keyVal_ne
    (h : Represents segment indexNum dataNum map chains free)
    (hchain : chains (hashVal indexNum key) = before ++ node :: after)
    (hkey : segment.keyVal node = key) (hbucket : bucket < indexNum) :
    ((chains bucket).filter fun later => segment.keyVal later ≠ key) =
      Function.update chains (hashVal indexNum key) (before ++ after)
        bucket := by
  by_cases heq : bucket = hashVal indexNum key
  · subst heq
    have hnodup := h.nodup_keyVal hbucket
    rw [hchain, List.map_append, List.map_cons, List.nodup_middle,
      List.nodup_cons, hkey, ← List.map_append] at hnodup
    rw [Function.update_self, hchain, List.filter_append,
      List.filter_cons_of_neg (by simpa using hkey), ← List.filter_append]
    apply List.filter_eq_self.mpr
    intro later hlater
    have hne : segment.keyVal later ≠ key := fun hsame =>
      hnodup.1 (List.mem_map.mpr ⟨later, hlater, hsame⟩)
    simpa using hne
  · rw [Function.update_of_ne heq]
    apply List.filter_eq_self.mpr
    intro later hlater
    have hne : segment.keyVal later ≠ key := by
      intro hsame
      apply heq
      rw [← h.hashVal_keyVal hbucket hlater, hsame]
    simpa using hne

/-- A node taken out of its chain is in no list any more. -/
theorem notMem_update_erased
    (h : Represents segment indexNum dataNum map chains free)
    (hbucket : bucket < indexNum)
    (hchain : chains bucket = before ++ node :: after)
    {other : ℕ} (hother : other < indexNum) :
    node ∉ Function.update chains bucket (before ++ after) other := by
  have hmem : node ∈ chains bucket := by simp [hchain]
  by_cases heq : other = bucket
  · subst heq
    rw [Function.update_self]
    have hnodup := h.nodup_chain hother
    rw [hchain, List.nodup_middle, List.nodup_cons] at hnodup
    exact hnodup.1
  · rw [Function.update_of_ne heq]
    exact h.notMem_other_chain hbucket hother heq hmem

/-- The memory after each write of a `Remove` is linked. -/
theorem linked_remove
    (h : Represents segment indexNum dataNum map chains free)
    (hbucket : bucket < indexNum)
    (hchain : chains bucket = before ++ node :: after) :
    (∀ count, 1 ≤ count → count ≤ 4 → Linked (segment.perform
      ((removeWrites segment bucket before node).take count))
        (Function.update chains bucket (before ++ after)) free) ∧
    Linked (segment.perform (removeWrites segment bucket before node))
      (Function.update chains bucket (before ++ after)) (node :: free) := by
  have hmem : node ∈ chains bucket := by simp [hchain]
  have hbounds := h.bounds_of_mem hbucket hmem
  have hhead : (Write.apply segment
      (unlinkWrite segment bucket before node)).head = segment.head :=
    head_unlinkWrite segment bucket before node
  have h1 := h.linked_unlink hbucket hchain
  have h2 := h1.dataNodeNum bucket (segment.iDataNodeNum bucket - 1)
  have h3 := h2.usedDataNodeNum (segment.head.iUsedDataNodeNum - 1)
  have h4 := h3.nextDataNode node segment.head.ipFreeDataNodeList (by
      intro other hother
      change other < (Write.apply segment
        (unlinkWrite segment bucket before node)).head.iIndexNodeNum.toNat
          at hother
      rw [hhead, h.toNat_index] at hother
      exact h.notMem_update_erased hbucket hchain hother)
    (h.notMem_free_of_mem hbucket hmem)
  have h5 := h4.pushFree node (by omega) (by
      change node ≤ (Write.apply segment
        (unlinkWrite segment bucket before node)).head.iTotalDataNodeNum
      rw [hhead, h.data_eq]
      omega) (by
      change Function.update (Write.apply segment
          (unlinkWrite segment bucket before node)).ipNextDataNode node
            segment.head.ipFreeDataNodeList node =
        (Write.apply segment
          (unlinkWrite segment bucket before node)).head.ipFreeDataNodeList
      rw [Function.update_self, hhead])
  constructor
  · intro count hlow hhigh
    interval_cases count
    · exact h1
    · exact h2
    · exact h3
    · exact h4
  · exact h5

theorem counted_remove
    (h : Represents segment indexNum dataNum map chains free)
    (hchain : chains (hashVal indexNum key) = before ++ node :: after) :
    Counted
      (segment.perform
        (removeWrites segment (hashVal indexNum key) before node))
      (Function.update chains (hashVal indexNum key) (before ++ after))
      (node :: free) := by
  have hhead : (Write.apply segment
      (unlinkWrite segment (hashVal indexNum key) before node)).head =
        segment.head := head_unlinkWrite segment _ before node
  have hnum : (Write.apply segment
      (unlinkWrite segment (hashVal indexNum key) before node)).iDataNodeNum =
        segment.iDataNodeNum := iDataNodeNum_unlinkWrite segment _ before node
  have hlength :=
    (flatMap_unlink_perm (h.hashVal_lt key) hchain).length_eq
  rw [List.length_cons] at hlength
  constructor
  · intro bucket hbucket
    change bucket < (Write.apply segment _).head.iIndexNodeNum.toNat
      at hbucket
    rw [hhead] at hbucket
    change Function.update (Write.apply segment _).iDataNodeNum
      (hashVal indexNum key : ℤ)
      (segment.iDataNodeNum (hashVal indexNum key) - 1) bucket = _
    rw [hnum]
    by_cases heq : bucket = hashVal indexNum key
    · subst heq
      rw [Function.update_self, Function.update_self,
        h.counted.bucket_num _ hbucket, hchain]
      simp only [List.length_append, List.length_cons, Nat.cast_add,
        Nat.cast_one]
      ring
    · rw [Function.update_of_ne heq,
        Function.update_of_ne (Nat.cast_injective.ne heq)]
      exact h.counted.bucket_num bucket hbucket
  · change segment.head.iUsedDataNodeNum - 1 = 1 +
      (((List.range (Write.apply segment
        _).head.iIndexNodeNum.toNat).flatMap _).length : ℤ)
    rw [hhead, h.toNat_index, h.counted.used_num, h.toNat_index, ← hlength]
    push_cast
    ring
  · change ((node :: free).length : ℤ) +
      (segment.head.iUsedDataNodeNum - 1) =
        (Write.apply segment _).head.iTotalDataNodeNum
    rw [hhead, ← h.counted.total_num]
    simp only [List.length_cons, Nat.cast_add, Nat.cast_one]
    ring

theorem represents_remove
    (h : Represents segment indexNum dataNum map chains free)
    (hchain : chains (hashVal indexNum key) = before ++ node :: after)
    (hkey : segment.keyVal node = key) :
    Represents
      (segment.perform
        (removeWrites segment (hashVal indexNum key) before node))
      indexNum dataNum (map.erase key)
      (Function.update chains (hashVal indexNum key) (before ++ after))
      (node :: free) := by
  have hhash := h.hashVal_lt key
  have hhead : (Write.apply segment
      (unlinkWrite segment (hashVal indexNum key) before node)).head =
        segment.head := head_unlinkWrite segment _ before node
  constructor
  · exact h.index_pos
  · exact h.data_pos
  · change (Write.apply segment _).head.iIndexNodeNum = _
    rw [hhead]
    exact h.index_eq
  · change (Write.apply segment _).head.iTotalDataNodeNum = _
    rw [hhead]
    exact h.data_eq
  · exact h.capacity_eq
  · exact (h.linked_remove hhash hchain).2
  · exact h.counted_remove hchain
  · apply List.Perm.trans _ h.partition
    rw [List.cons_append]
    apply List.perm_middle.symm.trans
    exact (flatMap_unlink_perm hhash hchain).append_left free
  · intro bucket hbucket
    have hentry :=
      entry_unlinkWrite segment (hashVal indexNum key) before node
    change List.map (fun later =>
      (⟨(Write.apply segment _).keyVal later,
        (Write.apply segment _).data later⟩ : Σ _ : UInt64, Data)) _ = _
    rw [hentry.1, hentry.2, ← h.filter_keyVal_ne hchain hkey hbucket,
      BoundedMap.entries_erase, List.filter_comm,
      ← h.entries_eq bucket hbucket, List.filter_map]
    rfl

end Represents

end MessageBus.HashList
