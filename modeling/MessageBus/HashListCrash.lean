import MessageBus.HashListRuns

/-!
# Interrupted updates of the hash list

A process can die between two writes of `Insert` or `Remove`.  The memory it
leaves behind is still linked, but one of the counters no longer agrees with
the chains, and `Verify` sees that.
-/

namespace MessageBus.HashList

open IndexChain

variable {Data : Type}

/-- Equality of the head, the index nodes and the links. -/
structure SameLinks (image other : Segment Data) : Prop where
  head : image.head = other.head
  iHashVal : image.iHashVal = other.iHashVal
  iDataNodeNum : image.iDataNodeNum = other.iDataNodeNum
  ipDataNodeList : image.ipDataNodeList = other.ipDataNodeList
  ipNextDataNode : image.ipNextDataNode = other.ipNextDataNode

/-- Linked memory with a wrong counter, the lists being shorter than
`bound`. -/
def Miscounted (image : Segment Data) (bound : ℕ) : Prop :=
  ∃ chains free, Linked image chains free ∧
    (∀ bucket < image.head.iIndexNodeNum.toNat,
      (chains bucket).length < bound) ∧
    free.length < bound ∧ ¬ Counted image chains free

theorem verify_of_miscounted
    {image : Segment Data} {bound fuel : ℕ}
    (himage : Miscounted image bound) (hfuel : bound ≤ fuel) :
    ∃ code, image.verify fuel = some code ∧ code ≠ 0 := by
  rcases himage with ⟨chains, free, hlinked, hchains, hfree, hcounted⟩
  have hchains' : ∀ bucket < image.head.iIndexNodeNum.toNat,
      (chains bucket).length < fuel :=
    fun bucket hbucket => (hchains bucket hbucket).trans_le hfuel
  rcases verify_of_linked hlinked hchains' (hfree.trans_le hfuel) with
    ⟨code, hverify, hcode⟩
  exact ⟨code, hverify, fun hzero => hcounted (hcode.mp hzero)⟩

/-- A miscounted image is refused by the start-up of `CConn` and of
`CUserShmApi`. -/
theorem attach_of_miscounted
    [Inhabited Data] {image : Segment Data} {bound fuel : ℕ}
    {dataNodeSize iMemSize nodeNum : ℤ}
    (himage : Miscounted image bound) (hfuel : bound ≤ fuel)
    (hmem : toInt32 (headSize + nodeNum * indexNodeSize +
      nodeNum * dataNodeSize) ≤ iMemSize)
    (hnum : 2 ≤ nodeNum)
    (hindex : image.head.iIndexNodeNum = nodeNum)
    (hdata : image.head.iTotalDataNodeNum = nodeNum) :
    (image.attach fuel true dataNodeSize iMemSize nodeNum).map Prod.fst =
      some (-1) := by
  rcases himage with ⟨chains, free, hlinked, hchains, hfree, hcounted⟩
  have hopened : Miscounted
      ({ image with
        head := { image.head with
          iSize := iMemSize
          iIndexNodeNum := nodeNum
          iTotalDataNodeNum := nodeNum } } : Segment Data) bound := by
    refine ⟨chains, free, ?_, ?_, hfree, ?_⟩
    · exact hlinked.congr hindex.symm hdata.symm rfl rfl rfl rfl
    · rw [hindex] at hchains
      exact hchains
    · intro hopened
      apply hcounted
      have hbucket := hopened.bucket_num
      have hused := hopened.used_num
      have htotal := hopened.total_num
      constructor
      · rw [hindex]
        exact hbucket
      · rw [hindex]
        exact hused
      · rw [hdata]
        exact htotal
  rcases verify_of_miscounted hopened hfuel with ⟨code, hverify, hcode⟩
  have hone : 1 ≤ nodeNum := by omega
  have hret : ¬ success ≠ 0 := by simp [success]
  simp only [Segment.attach, init_of_room hmem hone hnum, if_neg hret,
    if_true, hverify, Option.map_some, if_pos hcode]

/-! ## The images of an update -/

namespace Represents

variable {segment : Segment Data} {indexNum dataNum : ℕ}
  {map : BoundedMap UInt64 Data} {chains : ℕ → List ℤ}
  {free rest before after : List ℤ}
  {node : ℤ} {key : UInt64} {value : Data}

theorem insert_miscounted
    (h : Represents segment indexNum dataNum map chains (node :: rest))
    (hget : map.get key = none) {count : ℕ}
    (hlow : 1 ≤ count) (hhigh : count ≤ 6) :
    Miscounted (segment.perform
      ((insertWrites segment indexNum node key value).take count))
      dataNum := by
  have hlinked := h.linked_insert key value
  have hhash := h.hashVal_lt key
  have hfree := h.length_free_lt
  have hchains : ∀ bucket < segment.head.iIndexNodeNum.toNat,
      (chains bucket).length < dataNum := by
    intro bucket hbucket
    rw [h.toNat_index] at hbucket
    exact h.length_chain_lt hbucket
  have hroom : map.size < map.capacity := by
    by_contra hfull
    exact List.cons_ne_nil node rest (h.free_eq_nil_iff.mpr hfull)
  have hused := h.counted.used_num
  have hnum := h.counted.bucket_num
  -- up to the fifth write the used counter is one ahead of the chains
  have hahead : ¬ segment.head.iUsedDataNodeNum + 1 =
      1 + (((List.range segment.head.iIndexNodeNum.toNat).flatMap
        chains).length : ℤ) := by omega
  have hrest : rest.length < dataNum := by
    rw [List.length_cons] at hfree
    omega
  interval_cases count
  · exact ⟨chains, node :: rest, hlinked.1, hchains, hfree,
      fun hcounted => hahead hcounted.used_num⟩
  · exact ⟨chains, rest, hlinked.2.1 2 le_rfl (by norm_num), hchains, hrest,
      fun hcounted => hahead hcounted.used_num⟩
  · exact ⟨chains, rest, hlinked.2.1 3 (by norm_num) (by norm_num), hchains,
      hrest, fun hcounted => hahead hcounted.used_num⟩
  · exact ⟨chains, rest, hlinked.2.1 4 (by norm_num) (by norm_num), hchains,
      hrest, fun hcounted => hahead hcounted.used_num⟩
  · exact ⟨chains, rest, hlinked.2.1 5 (by norm_num) le_rfl, hchains, hrest,
      fun hcounted => hahead hcounted.used_num⟩
  · -- the node is in its chain, but the chain is not counted yet
    have hafter := h.represents_insert value hget hroom
    refine ⟨_, rest, hlinked.2.2 6 le_rfl, ?_, hrest, ?_⟩
    · intro bucket hbucket
      change bucket < segment.head.iIndexNodeNum.toNat at hbucket
      rw [h.toNat_index] at hbucket
      exact hafter.length_chain_lt hbucket
    · intro hcounted
      have hbucket : hashVal indexNum key <
          segment.head.iIndexNodeNum.toNat := by
        rw [h.toNat_index]
        exact hhash
      have hnew : segment.iDataNodeNum (hashVal indexNum key) =
          (Function.update chains (hashVal indexNum key)
            (node :: chains (hashVal indexNum key))
              (hashVal indexNum key)).length :=
        hcounted.bucket_num _ hbucket
      rw [Function.update_self, List.length_cons, hnum _ hbucket] at hnew
      omega

theorem remove_miscounted
    (h : Represents segment indexNum dataNum map chains free)
    (hchain : chains (hashVal indexNum key) = before ++ node :: after)
    (hkey : segment.keyVal node = key) {count : ℕ}
    (hlow : 1 ≤ count) (hhigh : count ≤ 4) :
    Miscounted (segment.perform
      ((removeWrites segment (hashVal indexNum key) before node).take count))
      dataNum := by
  have hhash := h.hashVal_lt key
  have hlinked := (h.linked_remove hhash hchain).1
  have hafter := h.represents_remove hchain hkey
  have hhead : (Write.apply segment
      (unlinkWrite segment (hashVal indexNum key) before node)).head =
        segment.head := head_unlinkWrite segment _ before node
  have hnum : (Write.apply segment
      (unlinkWrite segment (hashVal indexNum key) before node)).iDataNodeNum =
        segment.iDataNodeNum := iDataNodeNum_unlinkWrite segment _ before node
  have hchains : ∀ bucket < (Write.apply segment (unlinkWrite segment
      (hashVal indexNum key) before node)).head.iIndexNodeNum.toNat,
      (Function.update chains (hashVal indexNum key) (before ++ after)
        bucket).length < dataNum := by
    intro bucket hbucket
    rw [hhead, h.toNat_index] at hbucket
    exact hafter.length_chain_lt hbucket
  have htotal := h.counted.total_num
  -- after the third write a node is missing from all lists
  have hmissing : ¬ (free.length : ℤ) + (segment.head.iUsedDataNodeNum - 1) =
      (Write.apply segment (unlinkWrite segment
        (hashVal indexNum key) before node)).head.iTotalDataNodeNum := by
    rw [hhead]
    omega
  interval_cases count
  · -- the chain is one node shorter than its counter says
    refine ⟨_, free, hlinked 1 le_rfl (by norm_num), hchains,
      h.length_free_lt, ?_⟩
    intro hcounted
    have hbucket : hashVal indexNum key < (Write.apply segment (unlinkWrite
        segment (hashVal indexNum key) before
          node)).head.iIndexNodeNum.toNat := by
      rw [hhead, h.toNat_index]
      exact hhash
    have hold : (Write.apply segment (unlinkWrite segment
          (hashVal indexNum key) before node)).iDataNodeNum
            (hashVal indexNum key) =
        (Function.update chains (hashVal indexNum key) (before ++ after)
          (hashVal indexNum key)).length := hcounted.bucket_num _ hbucket
    rw [hhead] at hbucket
    rw [hnum, Function.update_self, h.counted.bucket_num _ hbucket, hchain,
      List.length_append, List.length_append, List.length_cons] at hold
    omega
  · -- the used counter still counts the node
    refine ⟨_, free, hlinked 2 (by norm_num) (by norm_num), hchains,
      h.length_free_lt, ?_⟩
    intro hcounted
    have hold : (Write.apply segment (unlinkWrite segment
          (hashVal indexNum key) before node)).head.iUsedDataNodeNum =
        1 + (((List.range (Write.apply segment (unlinkWrite segment
          (hashVal indexNum key) before
            node)).head.iIndexNodeNum.toNat).flatMap
          (Function.update chains (hashVal indexNum key)
            (before ++ after))).length : ℤ) := hcounted.used_num
    have hnew := hafter.used_eq
    rw [hhead, h.toNat_index, hafter.length_chains] at hold
    change segment.head.iUsedDataNodeNum - 1 = _ at hnew
    omega
  · exact ⟨_, free, hlinked 3 (by norm_num) (by norm_num), hchains,
      h.length_free_lt, fun hcounted => hmissing hcounted.total_num⟩
  · exact ⟨_, free, hlinked 4 (by norm_num) le_rfl, hchains,
      h.length_free_lt, fun hcounted => hmissing hcounted.total_num⟩

end Represents

section Interrupted

variable {segment : Segment Data} {indexNum dataNum fuel : ℕ}
  {map : BoundedMap UInt64 Data} {writes done rest : List (Write Data)}
  {iRetVal : ℤ} {key : UInt64} {data : Data}

theorem perform_sizes (segment : Segment Data) (writes : List (Write Data)) :
    (segment.perform writes).head.iIndexNodeNum =
        segment.head.iIndexNodeNum ∧
      (segment.perform writes).head.iTotalDataNodeNum =
        segment.head.iTotalDataNodeNum := by
  induction writes generalizing segment with
  | nil => exact ⟨rfl, rfl⟩
  | cons write writes ih =>
      have hrest := ih (Write.apply segment write)
      cases write <;> exact hrest

theorem insert_interrupted
    (hvalid : Valid segment indexNum dataNum map) (hfuel : dataNum ≤ fuel)
    (hinsert : segment.insert fuel key data = some (iRetVal, writes))
    (hwrites : writes = done ++ rest) (hrest : rest ≠ []) :
    done = [] ∨ Miscounted (segment.perform done) dataNum := by
  rcases hvalid with ⟨chains, free, h⟩
  have hlength : 0 < rest.length := List.length_pos_of_ne_nil hrest
  have hnothing : writes ≠ [] := by
    rw [hwrites]
    simp [hrest]
  cases hget : map.get key with
  | some stored =>
      rcases h.findKey_of_get_some hfuel hget with ⟨node, -, hfind, hpos, -⟩
      simp only [Segment.insert, hfind, Option.map_some, if_pos hpos,
        Option.some.injEq, Prod.mk.injEq] at hinsert
      exact (hnothing hinsert.2.symm).elim
  | none =>
      simp only [Segment.insert, h.findKey_of_get_none hfuel hget,
        Option.map_some, if_neg (lt_irrefl (0 : ℤ)),
        Option.some.injEq] at hinsert
      cases free with
      | nil =>
          have hfull := h.free_eq_nil_iff.mp rfl
          rw [h.insertNew_of_full hfull, Prod.mk.injEq] at hinsert
          exact (hnothing hinsert.2.symm).elim
      | cons node free =>
          rw [h.insertNew_of_room, Prod.mk.injEq] at hinsert
          have hseven : writes.length = 7 := by
            rw [← hinsert.2]
            rfl
          rw [hwrites, List.length_append] at hseven
          rcases Nat.eq_zero_or_pos done.length with hzero | hpos
          · left
            exact List.eq_nil_of_length_eq_zero hzero
          · right
            have hdone : done = writes.take done.length := by
              rw [hwrites, List.take_left]
            rw [hdone, ← hinsert.2]
            exact h.insert_miscounted hget hpos (by omega)

theorem remove_interrupted
    (hvalid : Valid segment indexNum dataNum map) (hfuel : dataNum ≤ fuel)
    (hremove : segment.remove fuel key = some (iRetVal, writes))
    (hwrites : writes = done ++ rest) (hrest : rest ≠ []) :
    done = [] ∨ Miscounted (segment.perform done) dataNum := by
  rcases hvalid with ⟨chains, free, h⟩
  have hlength : 0 < rest.length := List.length_pos_of_ne_nil hrest
  cases hget : map.get key with
  | none =>
      rw [h.remove_of_get_none hfuel hget, Option.some.injEq,
        Prod.mk.injEq] at hremove
      rw [← hremove.2] at hwrites
      have hnil := List.append_eq_nil_iff.mp hwrites.symm
      exact (hrest hnil.2).elim
  | some stored =>
      rcases h.exists_split_of_get_some hget with
        ⟨before, node, after, hchain, hkey, -, habsent⟩
      rw [h.remove_of_split hfuel hchain hkey habsent, Option.some.injEq,
        Prod.mk.injEq] at hremove
      have hfive : writes.length = 5 := by
        rw [← hremove.2]
        rfl
      rw [hwrites, List.length_append] at hfive
      rcases Nat.eq_zero_or_pos done.length with hzero | hpos
      · left
        exact List.eq_nil_of_length_eq_zero hzero
      · right
        have hdone : done = writes.take done.length := by
          rw [hwrites, List.take_left]
        rw [hdone, ← hremove.2]
        exact h.remove_miscounted hchain hkey hpos (by omega)

end Interrupted

/-- A process that dies within `Insert` or `Remove` leaves the links of the
state before or after the call, or memory on which `Verify` fails and with
which no process starts. -/
theorem interrupted_update_detected
    [Inhabited Data] (segment : Segment Data)
    (dataNodeSize iMemSize iIndexNum iDataNum : ℤ)
    (hmem : toInt32 (headSize + iIndexNum * indexNodeSize +
      iDataNum * dataNodeSize) ≤ iMemSize)
    (hindex : 1 ≤ iIndexNum) (hdata : 2 ≤ iDataNum)
    (fuel : ℕ) (hfuel : iDataNum ≤ fuel)
    (calls : List (Call Data)) (answers : List (Answer Data))
    (valid : Segment Data)
    (hrun : (segment.cleared dataNodeSize iMemSize iIndexNum iDataNum).run
      fuel calls = some (answers, valid))
    (iRetVal : ℤ) (writes : List (Write Data))
    (hupdate :
      (∃ key data, valid.insert fuel key data = some (iRetVal, writes)) ∨
        ∃ key, valid.remove fuel key = some (iRetVal, writes))
    (done rest : List (Write Data)) (hwrites : writes = done ++ rest)
    (hrest : rest ≠ []) :
    SameLinks (valid.perform done) valid ∨
      SameLinks (valid.perform done) (valid.perform writes) ∨
      (∃ code, (valid.perform done).verify fuel = some code ∧ code ≠ 0) ∧
        (iIndexNum = iDataNum →
          ((valid.perform done).attach fuel true dataNodeSize iMemSize
            iDataNum).map Prod.fst = some (-1)) := by
  have hfuel' : iDataNum.toNat ≤ fuel := by omega
  have hcleared := cleared_valid segment hmem hindex hdata
  rcases run_simulates hcleared hfuel' calls with ⟨final, hfinal, hvalid⟩
  have hsame : final = valid := by
    rw [hrun, Option.some.injEq, Prod.mk.injEq] at hfinal
    exact hfinal.2.symm
  subst hsame
  have hprefix :
      done = [] ∨ Miscounted (final.perform done) iDataNum.toNat := by
    rcases hupdate with ⟨key, data, hinsert⟩ | ⟨key, hremove⟩
    · exact insert_interrupted hvalid hfuel' hinsert hwrites hrest
    · exact remove_interrupted hvalid hfuel' hremove hwrites hrest
  rcases hprefix with rfl | himage
  · left
    exact ⟨rfl, rfl, rfl, rfl, rfl⟩
  · right
    right
    refine ⟨verify_of_miscounted himage hfuel', ?_⟩
    intro hnum
    subst hnum
    rcases hvalid with ⟨chains, free, h⟩
    have hsizes := perform_sizes final done
    apply attach_of_miscounted himage hfuel' hmem hdata
    · rw [hsizes.1, h.index_eq, Int.toNat_of_nonneg (by omega)]
    · rw [hsizes.2, h.data_eq, Int.toNat_of_nonneg (by omega)]

/-- An `Insert` into a list of three nodes that dies after six of its seven
writes. -/
theorem interrupted_update_detected_insert :
    toInt32 (headSize + 3 * indexNodeSize + 3 * 24) ≤ 128 ∧
    let valid := (default : Segment UInt64).cleared 24 128 3 3
    let done : List (Write UInt64) :=
      [.usedDataNodeNum 2, .freeDataNodeList 2, .keyVal 1 7,
        .nextDataNode 1 0, .nodeData 1 70, .dataNodeList 1 1]
    valid.insert 3 7 70 = some (0, done ++ [.dataNodeNum 1 1]) ∧
      (SameLinks (valid.perform done) valid ∨
        SameLinks (valid.perform done)
          (valid.perform (done ++ [.dataNodeNum 1 1])) ∨
        (∃ code, (valid.perform done).verify 3 = some code ∧ code ≠ 0) ∧
          ((3 : ℤ) = 3 → ((valid.perform done).attach 3 true 24 128
            3).map Prod.fst = some (-1))) := by
  refine ⟨by decide, rfl, ?_⟩
  exact interrupted_update_detected (default : Segment UInt64) 24 128 3 3
    (by decide) (by decide) (by decide) 3 (by decide) [] []
    ((default : Segment UInt64).cleared 24 128 3 3) rfl 0 _
    (Or.inl ⟨7, 70, rfl⟩) _ [.dataNodeNum 1 1] rfl (by simp)

end MessageBus.HashList
