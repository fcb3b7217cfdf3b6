import MessageBus.HashListVerify
import MessageBus.IndexChain

/-!
# When `Verify` is sound

`Verify` is meant to find damage in the shared memory.  It is sound on a memory
exactly when the lists it follows stay among the data nodes and, in case all
counters agree, no two links lead to one node: neither a negative index, nor
the index behind the array, nor a shared node is looked for.
-/

namespace MessageBus.HashList

open IndexChain LinkWalk

variable {Data : Type} {segment : Segment Data} {first : ℤ} {nodes : List ℤ}

/-- The heads of the lists: the buckets and the free list. -/
def Segment.listHead (segment : Segment Data) :
    Option (Fin segment.head.iIndexNodeNum.toNat) → ℤ
  | none => segment.head.ipFreeDataNodeList
  | some i => segment.ipDataNodeList i

/-- The lists stay among the data nodes, are acyclic and share no node. -/
def Segment.WellLinked (segment : Segment Data) : Prop :=
  ∃ lists : Option (Fin segment.head.iIndexNodeNum.toNat) → List ℤ,
    (∀ key, ChainFrom segment.ipNextDataNode 0 (segment.listHead key)
      (lists key)) ∧
    (∀ key, ∀ node ∈ lists key,
      1 ≤ node ∧ node < segment.head.iTotalDataNodeNum) ∧
    (∀ key, (lists key).Nodup) ∧
    Pairwise fun key other => (lists key).Disjoint (lists other)

/-- `Verify` returns, reads only data nodes, and accepts only well linked
lists. -/
def Segment.VerifySound (segment : Segment Data) : Prop :=
  ∃ fuel reads code, segment.verifyReads fuel = some (reads, code) ∧
    (∀ node ∈ reads, 0 ≤ node ∧ node < segment.head.iTotalDataNodeNum) ∧
    (code = 0 → segment.WellLinked)

/-- No list `Verify` comes to leads to a negative index, to the index behind
the last data node or back to one of its own nodes. -/
def Segment.LinksInside (segment : Segment Data) : Prop :=
  ∀ start, segment.ComesTo start →
    ∀ node, Reaches segment.ipNextDataNode segment.Stops start node →
      0 ≤ node ∧ node ≠ segment.head.iTotalDataNodeNum ∧
        ¬ Returns segment.ipNextDataNode segment.Stops node

/-- No two links of the lists lead to one node. -/
def Segment.LinksApart (segment : Segment Data) : Prop :=
  Set.InjOn (target segment.ipNextDataNode segment.listHead)
    (links segment.ipNextDataNode segment.Stops segment.listHead)

theorem chainFrom_of_walk (hwalk : segment.Walk first nodes 0) :
    ChainFrom segment.ipNextDataNode 0 first nodes := by
  induction nodes generalizing first with
  | nil => exact hwalk.1
  | cons node nodes ih =>
      exact ⟨hwalk.1, fun hnull => hwalk.2.1 (Or.inl hnull), ih hwalk.2.2⟩

theorem comesTo_listHead (hcounted : segment.BucketsCounted)
    (key : Option (Fin segment.head.iIndexNodeNum.toNat)) :
    segment.ComesTo (segment.listHead key) := by
  cases key with
  | none => exact .free hcounted
  | some i =>
      have hi : (i : ℤ) < segment.head.iIndexNodeNum := by omega
      obtain ⟨nodes, hhash, -⟩ := hcounted.1 i (by omega) hi
      exact .bucket i hi
        ⟨by omega, hhash, fun j hj hlt => hcounted.1 j hj (by omega)⟩

theorem Segment.Accounted.walks (haccounted : segment.Accounted) :
    ∃ lists : Option (Fin segment.head.iIndexNodeNum.toNat) → List ℤ,
      ∀ key, segment.Walk (segment.listHead key) (lists key) 0 := by
  have hwalk : ∀ key, ∃ nodes, segment.Walk (segment.listHead key) nodes 0 := by
    rintro (_ | i)
    · obtain ⟨-, nodes, hwalk, -⟩ := haccounted
      exact ⟨nodes, hwalk⟩
    · obtain ⟨nodes, -, hwalk, -⟩ := haccounted.1.1 i (by omega) (by omega)
      exact ⟨nodes, hwalk⟩
  choose lists hlists using hwalk
  exact ⟨lists, hlists⟩

/-- A walk among the data nodes ends. -/
theorem Segment.LinksInside.walk
    (hinside : segment.LinksInside) {start : ℤ}
    (hstart : segment.ComesTo start) :
    ∃ nodes last, segment.Walk start nodes last := by
  refine exists_walkTo (Finset.Ico 0 segment.head.iTotalDataNodeNum) ?_
    fun node hreach => (hinside start hstart node hreach).2.2
  intro node hreach hgo
  obtain ⟨hnonneg, hne, -⟩ := hinside start hstart node hreach
  obtain ⟨-, hle⟩ := not_or.mp hgo
  exact Finset.mem_Ico.mpr ⟨hnonneg, (not_lt.mp hle).lt_of_ne hne⟩

/-- The soundness of `Verify` on any memory: it is sound exactly when the lists
it comes to stay inside and, if all counters agree, no two links lead to one
node. -/
theorem verify_sound_iff (htotal : 2 ≤ segment.head.iTotalDataNodeNum) :
    segment.VerifySound ↔
      segment.LinksInside ∧ (segment.Accounted → segment.LinksApart) := by
  constructor
  · rintro ⟨fuel, reads, code, hread, hreads, hlinked⟩
    have hspec := verifyReads_spec hread
    constructor
    · intro start hstart node hreach
      obtain ⟨nodes, last, hwalk, hsub⟩ := hspec.walked start hstart
      refine ⟨?_, ?_, hwalk.not_returns hreach⟩
      · rcases hwalk.reaches_iff.mp hreach with hmem | rfl
        · exact (hreads node (hsub hmem)).1
        · rcases hwalk.stop_last with hnull | hpast
          · exact hnull.ge
          · omega
      · rcases hwalk.reaches_iff.mp hreach with hmem | rfl
        · exact (hreads node (hsub hmem)).2.ne
        · rcases hwalk.stop_last with hnull | hpast
          · omega
          · exact hpast.ne'
    · intro haccounted
      obtain ⟨lists, hlists⟩ := haccounted.walks
      obtain ⟨chains, hchains, -, -, hdisjoint⟩ :=
        hlinked (hspec.zero_iff.mpr haccounted)
      have hsame : lists = chains := funext fun key =>
        (chainFrom_of_walk (hlists key)).unique (hchains key)
      exact (disjoint_iff_injOn hlists).mp (hsame ▸ hdisjoint)
  · rintro ⟨hinside, hapart⟩
    obtain ⟨fuel, reads, code, hread⟩ := verifyReads_isSome
      fun start hstart => hinside.walk hstart
    have hspec := verifyReads_spec hread
    have hnode : ∀ {start : ℤ} {nodes : List ℤ} {last node : ℤ},
        segment.ComesTo start → segment.Walk start nodes last →
        node ∈ nodes → 1 ≤ node ∧ node < segment.head.iTotalDataNodeNum := by
      intro start nodes last node hstart hwalk hmem
      obtain ⟨hreach, hgo⟩ := hwalk.mem_iff.mp hmem
      obtain ⟨hnonneg, hne, -⟩ := hinside start hstart node hreach
      obtain ⟨hnull, hle⟩ := not_or.mp hgo
      omega
    refine ⟨fuel, reads, code, hread, ?_, ?_⟩
    · intro node hmem
      obtain ⟨start, hstart, nodes, last, hwalk, hmem⟩ := hspec.met node hmem
      have hrange := hnode hstart hwalk hmem
      omega
    · intro hzero
      have haccounted := hspec.zero_iff.mp hzero
      obtain ⟨lists, hlists⟩ := haccounted.walks
      exact ⟨lists, fun key => chainFrom_of_walk (hlists key),
        fun key node hmem =>
          hnode (comesTo_listHead haccounted.1 key) (hlists key) hmem,
        fun key => (hlists key).nodup,
        (disjoint_iff_injOn hlists).mpr (hapart haccounted)⟩

/-! ## Examples -/

/-- A segment whose bucket counts one node and whose last node is free. -/
def smallSegment (iTotalDataNodeNum ipDataNodeList : ℤ) : Segment Unit where
  head :=
    { iSize := 32 + 20 * iTotalDataNodeNum
      iTotalDataNodeNum := iTotalDataNodeNum
      iUsedDataNodeNum := iTotalDataNodeNum - 1
      iIndexNodeNum := 1
      ipFreeDataNodeList := iTotalDataNodeNum - 1 }
  iHashVal := fun i => i
  iDataNodeNum := fun _ => 1
  ipDataNodeList := fun _ => ipDataNodeList
  keyVal := fun _ => 0
  ipNextDataNode := fun _ => 0
  data := fun _ => ()

/-- Node 1 is in the bucket and node 2 is free. -/
theorem verify_sound_one_used :
    2 ≤ (smallSegment 3 1).head.iTotalDataNodeNum ∧
      (smallSegment 3 1).VerifySound := by
  have hbucket : (smallSegment 3 1).Walk 1 [1] 0 :=
    ⟨rfl, by simp [Segment.Stops, smallSegment], rfl, Or.inl rfl⟩
  have hfree : (smallSegment 3 1).Walk 2 [2] 0 :=
    ⟨rfl, by simp [Segment.Stops, smallSegment], rfl, Or.inl rfl⟩
  have hends : ∀ start, (smallSegment 3 1).ComesTo start →
      start = 1 ∨ start = 2 := by
    intro start hstart
    cases hstart with
    | bucket i _ _ => exact Or.inl rfl
    | free _ => exact Or.inr rfl
  refine ⟨by decide, (verify_sound_iff (by decide)).mpr ⟨?_, fun _ => ?_⟩⟩
  · intro start hstart node hreach
    have hlist : (smallSegment 3 1).Walk start [start] 0 := by
      rcases hends start hstart with rfl | rfl
      · exact hbucket
      · exact hfree
    have hnode : node = start ∨ node = 0 := by
      simpa using hlist.reaches_iff.mp hreach
    have htotal : (smallSegment 3 1).head.iTotalDataNodeNum = 3 := rfl
    refine ⟨?_, ?_, hlist.not_returns hreach⟩
    · have hstart := hends start hstart
      omega
    · have hstart := hends start hstart
      omega
  · have hwalk : ∀ key : Option (Fin 1), (smallSegment 3 1).Walk
        ((smallSegment 3 1).listHead key) (key.elim [2] fun _ => [1]) 0 := by
      rintro (_ | i)
      · exact hfree
      · exact hbucket
    refine (disjoint_iff_injOn hwalk).mp ?_
    · rintro (_ | i) (_ | j) hne
      · exact absurd rfl hne
      · simp
      · simp
      · exact absurd (congrArg some (Subsingleton.elim i j)) hne

/-- A bucket whose first node has the index `iTotalDataNodeNum`. -/
theorem verify_unsound :
    ¬ ∀ segment : Segment Unit, 1 ≤ segment.head.iIndexNodeNum →
      2 ≤ segment.head.iTotalDataNodeNum → segment.VerifySound := by
  intro hall
  obtain ⟨fuel, reads, code, hread, hreads, -⟩ :=
    hall (smallSegment 2 2) (by decide) (by decide)
  have hstart : (smallSegment 2 2).ComesTo 2 :=
    .bucket 0 (by decide) ⟨le_rfl, rfl, fun j hj hlt => absurd hj hlt.not_ge⟩
  obtain ⟨nodes, last, hwalk, hsub⟩ :=
    (verifyReads_spec hread).walked 2 hstart
  have hmem : 2 ∈ nodes := by
    refine hwalk.mem_iff.mpr ⟨.refl, ?_⟩
    simp [Segment.Stops, smallSegment]
  exact absurd (hreads 2 (hsub hmem)).2 (by decide)

end MessageBus.HashList
