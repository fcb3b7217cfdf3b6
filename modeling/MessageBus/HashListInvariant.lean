import MessageBus.BoundedMap
import MessageBus.HashListModel

/-!
# What a hash list represents

`Linked` says that the bucket chains and the free list of a segment are given
lists of nodes; it says nothing about the counters.  `Verify` on a linked
segment compares the counters with these lists and nothing else, which serves
both for complete states and for the images left by an interrupted operation.
`Represents` adds the counters, the partition of the nodes and the entries of
a finite map.
-/

namespace MessageBus.HashList

open IndexChain

variable {Data : Type}

structure Linked
    (segment : Segment Data) (chains : ℕ → List ℤ) (free : List ℤ) :
    Prop where
  hash_eq : ∀ bucket < segment.head.iIndexNodeNum.toNat,
    segment.iHashVal bucket = bucket
  bucket_chain : ∀ bucket < segment.head.iIndexNodeNum.toNat,
    ChainFrom segment.ipNextDataNode 0 (segment.ipDataNodeList bucket)
      (chains bucket)
  free_chain :
    ChainFrom segment.ipNextDataNode 0 segment.head.ipFreeDataNodeList free
  bucket_le : ∀ bucket < segment.head.iIndexNodeNum.toNat,
    ∀ node ∈ chains bucket, node ≤ segment.head.iTotalDataNodeNum
  free_le : ∀ node ∈ free, node ≤ segment.head.iTotalDataNodeNum

/-- The counters agree with the chains. -/
structure Counted
    (segment : Segment Data) (chains : ℕ → List ℤ) (free : List ℤ) :
    Prop where
  bucket_num : ∀ bucket < segment.head.iIndexNodeNum.toNat,
    segment.iDataNodeNum bucket = (chains bucket).length
  used_num : segment.head.iUsedDataNodeNum =
    1 + ((List.range segment.head.iIndexNodeNum.toNat).flatMap
      chains).length
  total_num : free.length + segment.head.iUsedDataNodeNum =
    segment.head.iTotalDataNodeNum

/-! ## Verify on a linked segment -/

section Verify

variable {segment : Segment Data} {chains : ℕ → List ℤ} {free : List ℤ}

theorem countChain_eq
    {nodes : List ℤ} {first count : ℤ} {fuel : ℕ}
    (hchain : ChainFrom segment.ipNextDataNode 0 first nodes)
    (hle : ∀ node ∈ nodes, node ≤ segment.head.iTotalDataNodeNum)
    (hfuel : nodes.length < fuel) :
    segment.countChain fuel first count = pure (count + nodes.length) := by
  induction nodes generalizing first count fuel with
  | nil =>
      obtain ⟨fuel, rfl⟩ := Nat.exists_eq_succ_of_ne_zero (by omega : fuel ≠ 0)
      have hfirst : first = 0 := hchain
      simp [Segment.countChain, hfirst]
  | cons node nodes ih =>
      obtain ⟨fuel, rfl⟩ := Nat.exists_eq_succ_of_ne_zero (by omega : fuel ≠ 0)
      obtain ⟨rfl, hnode, hrest⟩ := hchain
      have hbound : ¬ segment.head.iTotalDataNodeNum < first := by
        have := hle first (by simp)
        omega
      simp only [Segment.countChain, if_neg hnode, if_neg hbound]
      rw [ih hrest (fun later hlater => hle later (by simp [hlater]))
        (by simpa using hfuel)]
      congr 1
      simp only [List.length_cons, Nat.cast_add, Nat.cast_one]
      ring

theorem verifyIndex_eq
    {fuel : ℕ} (hlinked : Linked segment chains free)
    (hfuel : ∀ bucket < segment.head.iIndexNodeNum.toNat,
      (chains bucket).length < fuel)
    {remaining first : ℕ} (count : ℤ)
    (hend : first + remaining = segment.head.iIndexNodeNum.toNat) :
    (∀ bucket ∈ List.range' first remaining,
        segment.iDataNodeNum bucket = (chains bucket).length) ∧
      segment.verifyIndex fuel remaining first count =
        pure (count +
          ((List.range' first remaining).flatMap chains).length) ∨
    (¬ ∀ bucket ∈ List.range' first remaining,
        segment.iDataNodeNum bucket = (chains bucket).length) ∧
      segment.verifyIndex fuel remaining first count =
        throw eHashListVerifyIndexDataNum := by
  induction remaining generalizing first count with
  | zero =>
      left
      simp [Segment.verifyIndex]
  | succ remaining ih =>
      have hfirst : first < segment.head.iIndexNodeNum.toNat := by omega
      have hcount : segment.countChain fuel (segment.ipDataNodeList first) 0 =
          pure (0 + ((chains first).length : ℤ)) :=
        countChain_eq (hlinked.bucket_chain first hfirst)
          (hlinked.bucket_le first hfirst) (hfuel first hfirst)
      have hhash : ¬ segment.iHashVal first ≠ first :=
        not_not.mpr (hlinked.hash_eq first hfirst)
      simp only [Segment.verifyIndex, if_neg hhash, pure_bind, hcount,
        zero_add, List.range'_succ, List.mem_cons, forall_eq_or_imp,
        List.flatMap_cons, List.length_append]
      by_cases hnum : segment.iDataNodeNum first = (chains first).length
      · have hnum' : ¬ ((chains first).length : ℤ) ≠
            segment.iDataNodeNum first := not_not.mpr hnum.symm
        have hrest := ih (count + (chains first).length)
          (show first + 1 + remaining = _ by omega)
        push_cast at hrest ⊢
        rw [if_neg hnum', ← add_assoc]
        simp only [hnum, true_and]
        exact hrest
      · right
        have hnum' : ((chains first).length : ℤ) ≠
            segment.iDataNodeNum first := fun heq => hnum heq.symm
        refine ⟨fun hall => hnum hall.1, ?_⟩
        simp only [if_pos hnum']
        rfl

/-- `Verify` terminates on a linked segment, and it accepts exactly when the
counters agree with the chains. -/
theorem verify_of_linked
    {fuel : ℕ} (hlinked : Linked segment chains free)
    (hfuel : ∀ bucket < segment.head.iIndexNodeNum.toNat,
      (chains bucket).length < fuel)
    (hfree : free.length < fuel) :
    ∃ code, segment.verify fuel = some code ∧
      (code = 0 ↔ Counted segment chains free) := by
  have hcount : segment.countChain fuel segment.head.ipFreeDataNodeList 0 =
      pure (0 + (free.length : ℤ)) :=
    countChain_eq hlinked.free_chain hlinked.free_le hfree
  have hmem : ∀ bucket, bucket ∈ List.range'
        0 segment.head.iIndexNodeNum.toNat ↔
      bucket < segment.head.iIndexNodeNum.toNat := by
    intro bucket
    simp [List.mem_range'_1]
  unfold Segment.verify Segment.verifyAll
  rcases verifyIndex_eq hlinked hfuel 1 (Nat.zero_add _) with
    ⟨hnum, heq⟩ | ⟨hnum, heq⟩
  · rw [Nat.cast_zero] at heq
    rw [heq, hcount]
    simp only [pure_bind, zero_add]
    rw [← List.range_eq_range'] at hnum ⊢
    by_cases hused : 1 + (((List.range segment.head.iIndexNodeNum.toNat).flatMap
        chains).length : ℤ) = segment.head.iUsedDataNodeNum
    · rw [if_neg (not_not.mpr hused)]
      by_cases htotal : (free.length : ℤ) + segment.head.iUsedDataNodeNum =
          segment.head.iTotalDataNodeNum
      · rw [if_neg (not_not.mpr htotal)]
        refine ⟨0, rfl, iff_of_true rfl ?_⟩
        exact ⟨fun bucket hbucket => hnum bucket (List.mem_range.mpr hbucket),
          hused.symm, htotal⟩
      · rw [if_pos htotal]
        refine ⟨eHashListVerifyHeadTotalDataNum, rfl, iff_of_false ?_ ?_⟩
        · simp [eHashListVerifyHeadTotalDataNum]
        · intro hcounted
          exact htotal hcounted.total_num
    · rw [if_pos hused]
      refine ⟨eHashListVerifyHeadUsedDataNum, rfl, iff_of_false ?_ ?_⟩
      · simp [eHashListVerifyHeadUsedDataNum]
      · intro hcounted
        exact hused hcounted.used_num.symm
  · rw [Nat.cast_zero] at heq
    rw [heq]
    refine ⟨eHashListVerifyIndexDataNum, rfl, ?_⟩
    constructor
    · intro hcode
      simp [eHashListVerifyIndexDataNum] at hcode
    · intro hcounted
      exact (hnum fun bucket hbucket =>
        hcounted.bucket_num bucket ((hmem bucket).mp hbucket)).elim

end Verify

/-! ## Single writes on a linked segment -/

section Writes

variable {segment other : Segment Data} {chains : ℕ → List ℤ}
  {free rest before after : List ℤ} {node target last : ℤ} {bucket : ℕ}

/-- Only these fields matter to the chains. -/
theorem Linked.congr
    (hlinked : Linked segment chains free)
    (hindex : other.head.iIndexNodeNum = segment.head.iIndexNodeNum)
    (htotal : other.head.iTotalDataNodeNum = segment.head.iTotalDataNodeNum)
    (hfree : other.head.ipFreeDataNodeList = segment.head.ipFreeDataNodeList)
    (hhash : other.iHashVal = segment.iHashVal)
    (hlist : other.ipDataNodeList = segment.ipDataNodeList)
    (hnext : other.ipNextDataNode = segment.ipNextDataNode) :
    Linked other chains free := by
  constructor
  · rw [hindex, hhash]
    exact hlinked.hash_eq
  · rw [hindex, hlist, hnext]
    exact hlinked.bucket_chain
  · rw [hfree, hnext]
    exact hlinked.free_chain
  · rw [hindex, htotal]
    exact hlinked.bucket_le
  · rw [htotal]
    exact hlinked.free_le

theorem Linked.usedDataNodeNum
    (hlinked : Linked segment chains free) (value : ℤ) :
    Linked (Write.apply segment (.usedDataNodeNum value)) chains free :=
  hlinked.congr rfl rfl rfl rfl rfl rfl

theorem Linked.keyVal
    (hlinked : Linked segment chains free) (ipData : ℤ) (key : UInt64) :
    Linked (Write.apply segment (.keyVal ipData key)) chains free :=
  hlinked.congr rfl rfl rfl rfl rfl rfl

theorem Linked.nodeData
    (hlinked : Linked segment chains free) (ipData : ℤ) (value : Data) :
    Linked (Write.apply segment (.nodeData ipData value)) chains free :=
  hlinked.congr rfl rfl rfl rfl rfl rfl

theorem Linked.dataNodeNum
    (hlinked : Linked segment chains free) (iHashVal value : ℤ) :
    Linked (Write.apply segment (.dataNodeNum iHashVal value)) chains free :=
  hlinked.congr rfl rfl rfl rfl rfl rfl

/-- Taking the first node off the free list. -/
theorem Linked.popFree
    (hlinked : Linked segment chains (node :: rest)) :
    Linked
      (Write.apply segment
        (.freeDataNodeList (segment.ipNextDataNode node))) chains rest :=
  { hash_eq := hlinked.hash_eq
    bucket_chain := hlinked.bucket_chain
    free_chain := hlinked.free_chain.2.2
    bucket_le := hlinked.bucket_le
    free_le := fun later hlater => hlinked.free_le later (by simp [hlater]) }

/-- Putting an unused node in front of the free list. -/
theorem Linked.pushFree
    (hlinked : Linked segment chains free) (node : ℤ) (hnode : node ≠ 0)
    (hle : node ≤ segment.head.iTotalDataNodeNum)
    (hnext : segment.ipNextDataNode node = segment.head.ipFreeDataNodeList) :
    Linked (Write.apply segment (.freeDataNodeList node)) chains
      (node :: free) := by
  constructor
  · exact hlinked.hash_eq
  · exact hlinked.bucket_chain
  · refine ⟨rfl, hnode, ?_⟩
    change ChainFrom segment.ipNextDataNode 0 (segment.ipNextDataNode node) free
    rw [hnext]
    exact hlinked.free_chain
  · exact hlinked.bucket_le
  · intro later hlater
    rcases List.mem_cons.mp hlater with rfl | hlater
    · exact hle
    · exact hlinked.free_le later hlater

theorem Linked.nextDataNode
    (hlinked : Linked segment chains free) (node value : ℤ)
    (hchains : ∀ bucket < segment.head.iIndexNodeNum.toNat,
      node ∉ chains bucket)
    (hfree : node ∉ free) :
    Linked (Write.apply segment (.nextDataNode node value)) chains free :=
  { hash_eq := hlinked.hash_eq
    bucket_chain := fun bucket hbucket =>
      (hlinked.bucket_chain bucket hbucket).update_of_notMem
        (hchains bucket hbucket)
    free_chain := hlinked.free_chain.update_of_notMem hfree
    bucket_le := hlinked.bucket_le
    free_le := hlinked.free_le }

theorem Linked.dataNodeList
    {chain : List ℤ} (hlinked : Linked segment chains free) (bucket : ℕ)
    (hchain : ChainFrom segment.ipNextDataNode 0 node chain)
    (hle : ∀ later ∈ chain, later ≤ segment.head.iTotalDataNodeNum) :
    Linked (Write.apply segment (.dataNodeList bucket node))
      (Function.update chains bucket chain) free := by
  constructor
  · exact hlinked.hash_eq
  · intro other hother
    change ChainFrom segment.ipNextDataNode 0
      (Function.update segment.ipDataNodeList bucket node other) _
    by_cases heq : other = bucket
    · subst heq
      rw [Function.update_self, Function.update_self]
      exact hchain
    · rw [Function.update_of_ne heq,
        Function.update_of_ne (Nat.cast_injective.ne heq)]
      exact hlinked.bucket_chain other hother
  · exact hlinked.free_chain
  · intro other hother later hlater
    by_cases heq : other = bucket
    · subst heq
      rw [Function.update_self] at hlater
      exact hle later hlater
    · rw [Function.update_of_ne heq] at hlater
      exact hlinked.bucket_le other hother later hlater
  · exact hlinked.free_le

/-- Taking a node out of the middle of a bucket. -/
theorem Linked.unlink
    (hlinked : Linked segment chains free)
    (hbucket : bucket < segment.head.iIndexNodeNum.toNat)
    (hchain : chains bucket = before ++ last :: target :: after)
    (hnodup : (chains bucket).Nodup)
    (hothers : ∀ other < segment.head.iIndexNodeNum.toNat,
      other ≠ bucket → last ∉ chains other)
    (hfree : last ∉ free) :
    Linked
      (Write.apply segment
        (.nextDataNode last (segment.ipNextDataNode target)))
      (Function.update chains bucket (before ++ last :: after)) free := by
  have hlist := hlinked.bucket_chain bucket hbucket
  constructor
  · exact hlinked.hash_eq
  · intro other hother
    by_cases heq : other = bucket
    · subst heq
      rw [Function.update_self]
      rw [hchain] at hlist hnodup
      exact hlist.unlink hnodup
    · rw [Function.update_of_ne heq]
      exact (hlinked.bucket_chain other hother).update_of_notMem
        (hothers other hother heq)
  · exact hlinked.free_chain.update_of_notMem hfree
  · intro other hother later hlater
    by_cases heq : other = bucket
    · subst heq
      rw [Function.update_self] at hlater
      apply hlinked.bucket_le other hother
      rw [hchain]
      simp only [List.mem_append, List.mem_cons] at hlater ⊢
      tauto
    · rw [Function.update_of_ne heq] at hlater
      exact hlinked.bucket_le other hother later hlater
  · exact hlinked.free_le

end Writes

end MessageBus.HashList
