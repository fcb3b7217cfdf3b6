import MessageBus.HashListModel
import MessageBus.LinkWalk

/-!
# `Verify` on arbitrary memory

Another process may have left anything in the links and counters of a segment.
`verifyReads` is `Verify` with its counters as `int` and with the data nodes
that it reads.  A walk stops at node 0 and above `iTotalDataNodeNum`, but not
at a negative index and not at `iTotalDataNodeNum` itself, which lies behind
the array, and the counters are the only protection against lists that share
nodes.
-/

namespace MessageBus.HashList

open LinkWalk

variable {Data : Type}

/-! ## The transcription -/

/-- The inner loop of `Verify`. -/
def Segment.readChain (segment : Segment Data) :
    ℕ → ℤ → ℤ → Option (List ℤ × Except ℤ ℤ)
  | 0, _, _ => none
  | fuel + 1, ipData, iRealDataNodeNum =>
      if ipData = 0 then some ([], .ok iRealDataNodeNum)
      else if segment.head.iTotalDataNodeNum < ipData then
        some ([], .error eHashListVerifyDataPtr)
      else
        (segment.readChain fuel (segment.ipNextDataNode ipData)
          (toInt32 (iRealDataNodeNum + 1))).map
          fun read => (ipData :: read.1, read.2)

/-- The loop of `Verify` over the index nodes from `i` on. -/
def Segment.readIndex (segment : Segment Data) (fuel : ℕ) :
    ℕ → ℤ → ℤ → Option (List ℤ × Except ℤ ℤ)
  | 0, _, iRealUsedDataNodeNum => some ([], .ok iRealUsedDataNodeNum)
  | remaining + 1, i, iRealUsedDataNodeNum =>
      if segment.iHashVal i ≠ i then
        some ([], .error eHashListVerifyIndexHashVal)
      else
        match segment.readChain fuel (segment.ipDataNodeList i) 0 with
        | none => none
        | some (nodes, .error code) => some (nodes, .error code)
        | some (nodes, .ok iRealDataNodeNum) =>
            if iRealDataNodeNum ≠ segment.iDataNodeNum i then
              some (nodes, .error eHashListVerifyIndexDataNum)
            else
              (segment.readIndex fuel remaining (i + 1)
                (toInt32 (iRealUsedDataNodeNum + iRealDataNodeNum))).map
                fun read => (nodes ++ read.1, read.2)

/-- `Verify`: the data nodes read and the code returned. -/
def Segment.verifyReads (segment : Segment Data) (fuel : ℕ) :
    Option (List ℤ × ℤ) :=
  match segment.readIndex fuel segment.head.iIndexNodeNum.toNat 0 1 with
  | none => none
  | some (nodes, .error code) => some (nodes, code)
  | some (nodes, .ok iRealUsedDataNodeNum) =>
      if iRealUsedDataNodeNum ≠ segment.head.iUsedDataNodeNum then
        some (nodes, eHashListVerifyHeadUsedDataNum)
      else
        match segment.readChain fuel segment.head.ipFreeDataNodeList 0 with
        | none => none
        | some (rest, .error code) => some (nodes ++ rest, code)
        | some (rest, .ok iFreeDataNodeNum) =>
            if toInt32 (iFreeDataNodeNum + segment.head.iUsedDataNodeNum) ≠
                segment.head.iTotalDataNodeNum then
              some (nodes ++ rest, eHashListVerifyHeadTotalDataNum)
            else some (nodes ++ rest, 0)

/-! ## One list -/

/-- Where the inner loop stops. -/
def Segment.Stops (segment : Segment Data) (ipData : ℤ) : Prop :=
  ipData = 0 ∨ segment.head.iTotalDataNodeNum < ipData

/-- The inner loop from `first` reads `nodes` and stops at `last`. -/
def Segment.Walk (segment : Segment Data) : ℤ → List ℤ → ℤ → Prop :=
  WalkTo segment.ipNextDataNode segment.Stops

variable {segment : Segment Data} {fuel remaining : ℕ}
  {i first count : ℤ} {nodes reads : List ℤ} {result : Except ℤ ℤ}

theorem toInt32_add (a b : ℤ) : toInt32 (toInt32 a + b) = toInt32 (a + b) :=
  Int.bmod_add_bmod ..

/-- The outcome of the inner loop that stopped at `last` after `length` nodes. -/
def chainResult (count last : ℤ) (length : ℕ) : Except ℤ ℤ :=
  if last = 0 then .ok (toInt32 (count + length))
  else .error eHashListVerifyDataPtr

theorem chainResult_succ (count last : ℤ) (length : ℕ) :
    chainResult (toInt32 (count + 1)) last length =
      chainResult count last (length + 1) := by
  unfold chainResult
  rw [toInt32_add, Nat.cast_succ, add_assoc, add_comm 1]

theorem readChain_eq_some_iff (hcount : toInt32 count = count) :
    segment.readChain fuel first count = some (nodes, result) ↔
      ∃ last, segment.Walk first nodes last ∧ nodes.length < fuel ∧
        result = chainResult count last nodes.length := by
  induction fuel generalizing first count nodes with
  | zero => simp [Segment.readChain]
  | succ fuel ih =>
      unfold Segment.readChain
      by_cases hnull : first = 0
      · rw [if_pos hnull]
        cases nodes with
        | nil =>
            simp [Segment.Walk, WalkTo, Segment.Stops, chainResult, hnull,
              hcount, eq_comm]
        | cons node nodes =>
            have hstop : first = node → ¬ segment.Stops node → False :=
              fun heq hgo => hgo (Or.inl (heq ▸ hnull))
            simp only [Segment.Walk, WalkTo, Option.some.injEq, Prod.mk.injEq,
              reduceCtorEq, false_and, false_iff, not_exists]
            rintro last ⟨⟨heq, hgo, -⟩, -⟩
            exact hstop heq hgo
      rw [if_neg hnull]
      by_cases htotal : segment.head.iTotalDataNodeNum < first
      · rw [if_pos htotal]
        cases nodes with
        | nil =>
            simp [Segment.Walk, WalkTo, Segment.Stops, chainResult, hnull,
              htotal, eq_comm]
        | cons node nodes =>
            simp only [Segment.Walk, WalkTo, Option.some.injEq, Prod.mk.injEq,
              reduceCtorEq, false_and, false_iff, not_exists]
            rintro last ⟨⟨heq, hgo, -⟩, -⟩
            exact hgo (Or.inr (heq ▸ htotal))
      rw [if_neg htotal]
      have hgo : ¬ segment.Stops first := not_or.mpr ⟨hnull, htotal⟩
      have hnext : toInt32 (toInt32 (count + 1)) = toInt32 (count + 1) := by
        simpa using toInt32_add (count + 1) 0
      cases nodes with
      | nil =>
          simp only [Segment.Walk, WalkTo, Option.map_eq_some_iff,
            Prod.mk.injEq, reduceCtorEq, false_and, and_false, exists_false,
            false_iff, not_exists]
          rintro last ⟨⟨rfl, hstop⟩, -⟩
          exact hgo hstop
      | cons node nodes =>
          simp only [Option.map_eq_some_iff, Prod.mk.injEq, List.cons.injEq,
            Prod.exists]
          constructor
          · rintro ⟨nodes, result, hread, ⟨rfl, rfl⟩, rfl⟩
            obtain ⟨last, hwalk, hlength, rfl⟩ := (ih hnext).mp hread
            exact ⟨last, ⟨rfl, hgo, hwalk⟩, Nat.succ_lt_succ hlength,
              chainResult_succ count last _⟩
          · rintro ⟨last, ⟨rfl, -, hwalk⟩, hlength, rfl⟩
            exact ⟨nodes, _, (ih hnext).mpr
              ⟨last, hwalk, Nat.lt_of_succ_lt_succ hlength,
                (chainResult_succ count last nodes.length).symm⟩,
              ⟨rfl, rfl⟩, rfl⟩

/-! ## The loop over the buckets -/

/-- The list of bucket `i` is as the index node says. -/
def Segment.CountedAs (segment : Segment Data) (i : ℤ) (nodes : List ℤ) :
    Prop :=
  segment.iHashVal i = i ∧ segment.Walk (segment.ipDataNodeList i) nodes 0 ∧
    toInt32 nodes.length = segment.iDataNodeNum i

/-- The loop that is at bucket `i` comes to the list of bucket `later`. -/
def Segment.Visits (segment : Segment Data) (i later : ℤ) : Prop :=
  i ≤ later ∧ segment.iHashVal later = later ∧
    ∀ j, i ≤ j → j < later → ∃ nodes, segment.CountedAs j nodes

theorem visits_iff {later : ℤ} :
    segment.Visits i later ↔
      (later = i ∧ segment.iHashVal i = i) ∨
        ((∃ nodes, segment.CountedAs i nodes) ∧
          segment.Visits (i + 1) later) := by
  constructor
  · rintro ⟨hle, hhash, hcounted⟩
    rcases hle.eq_or_lt with rfl | hlt
    · exact Or.inl ⟨rfl, hhash⟩
    · exact Or.inr ⟨hcounted i le_rfl hlt, hlt, hhash,
        fun j hj => hcounted j (by omega)⟩
  · rintro (⟨rfl, hhash⟩ | ⟨hfirst, hle, hhash, hcounted⟩)
    · exact ⟨le_rfl, hhash, fun j hj hlt => absurd hj hlt.not_ge⟩
    · refine ⟨by omega, hhash, fun j hj hlt => ?_⟩
      rcases hj.eq_or_lt with rfl | hj
      · exact hfirst
      · exact hcounted j hj hlt

/-- What the loop over `remaining` buckets from `i` on has read and found. -/
structure IndexRead
    (segment : Segment Data) (remaining : ℕ) (i count : ℤ) (reads : List ℤ)
    (result : Except ℤ ℤ) : Prop where
  walked : ∀ later < i + remaining, segment.Visits i later →
    ∃ nodes last, segment.Walk (segment.ipDataNodeList later) nodes last ∧
      nodes ⊆ reads
  met : ∀ node ∈ reads, ∃ later < i + remaining, segment.Visits i later ∧
    ∃ nodes last, segment.Walk (segment.ipDataNodeList later) nodes last ∧
      node ∈ nodes
  ok_iff : ∀ used, result = .ok used ↔
    (∀ j, i ≤ j → j < i + remaining → ∃ nodes, segment.CountedAs j nodes) ∧
      used = toInt32 (count +
        ∑ j ∈ Finset.range remaining, segment.iDataNodeNum (i + j))
  error_ne : result ≠ .error 0

/-- The loop ends at bucket `i`. -/
theorem IndexRead.stop
    {code : ℤ} (hnot : ∀ nodes, ¬ segment.CountedAs i nodes) (hcode : code ≠ 0)
    (hwalk : segment.iHashVal i = i →
      ∃ last, segment.Walk (segment.ipDataNodeList i) nodes last)
    (hhash : nodes ≠ [] → segment.iHashVal i = i) :
    IndexRead segment (remaining + 1) i count nodes (.error code) where
  walked := by
    intro later _ hvisits
    rcases visits_iff.mp hvisits with ⟨rfl, hsame⟩ | ⟨⟨_, hcounted⟩, -⟩
    · obtain ⟨last, hwalk⟩ := hwalk hsame
      exact ⟨nodes, last, hwalk, List.Subset.refl nodes⟩
    · exact absurd hcounted (hnot _)
  met := by
    intro node hmem
    have hsame := hhash (List.ne_nil_of_mem hmem)
    obtain ⟨last, hwalk⟩ := hwalk hsame
    exact ⟨i, by push_cast; omega, visits_iff.mpr (Or.inl ⟨rfl, hsame⟩),
      nodes, last, hwalk, hmem⟩
  ok_iff := by
    intro used
    simp only [reduceCtorEq, false_iff, not_and]
    intro hall
    obtain ⟨nodes, hcounted⟩ := hall i le_rfl (by push_cast; omega)
    exact absurd hcounted (hnot nodes)
  error_ne := fun heq => hcode (Except.error.inj heq)

/-- The loop goes on to the next bucket. -/
theorem IndexRead.next
    (hcounted : segment.CountedAs i nodes)
    (hrest : IndexRead segment remaining (i + 1)
      (toInt32 (count + segment.iDataNodeNum i)) reads result) :
    IndexRead segment (remaining + 1) i count (nodes ++ reads) result where
  walked := by
    intro later hlt hvisits
    rcases visits_iff.mp hvisits with ⟨rfl, -⟩ | ⟨-, hvisits⟩
    · exact ⟨nodes, 0, hcounted.2.1, List.subset_append_left nodes reads⟩
    · obtain ⟨others, last, hwalk, hsub⟩ :=
        hrest.walked later (by push_cast at hlt; omega) hvisits
      exact ⟨others, last, hwalk, List.subset_append_of_subset_right nodes hsub⟩
  met := by
    intro node hmem
    rcases List.mem_append.mp hmem with hmem | hmem
    · exact ⟨i, by push_cast; omega,
        visits_iff.mpr (Or.inl ⟨rfl, hcounted.1⟩), nodes, 0, hcounted.2.1, hmem⟩
    · obtain ⟨later, hlt, hvisits, hwalk⟩ := hrest.met node hmem
      exact ⟨later, by push_cast; omega,
        visits_iff.mpr (Or.inr ⟨⟨nodes, hcounted⟩, hvisits⟩), hwalk⟩
  ok_iff := by
    intro used
    have hsum : count + ∑ j ∈ Finset.range (remaining + 1),
          segment.iDataNodeNum (i + j) =
        count + segment.iDataNodeNum i + ∑ j ∈ Finset.range remaining,
          segment.iDataNodeNum (i + 1 + j) := by
      rw [Finset.sum_range_succ', add_assoc, add_comm (segment.iDataNodeNum i)]
      simp only [Nat.cast_add, Nat.cast_one, Nat.cast_zero, add_zero,
        add_assoc, add_comm (1 : ℤ)]
    rw [hrest.ok_iff, hsum, toInt32_add]
    refine and_congr_left fun _ => ?_
    constructor
    · intro hall j hj hlt
      rcases hj.eq_or_lt with rfl | hj
      · exact ⟨nodes, hcounted⟩
      · exact hall j hj (by push_cast at hlt; omega)
    · intro hall j hj hlt
      exact hall j (by omega) (by push_cast; omega)
  error_ne := hrest.error_ne

theorem readIndex_spec
    (hcount : toInt32 count = count)
    (hread : segment.readIndex fuel remaining i count = some (reads, result)) :
    IndexRead segment remaining i count reads result := by
  induction remaining generalizing i count reads with
  | zero =>
      simp only [Segment.readIndex, Option.some.injEq, Prod.mk.injEq] at hread
      obtain ⟨rfl, rfl⟩ := hread
      exact
        { walked := fun later hlt hvisits =>
            absurd hvisits.1 (by push_cast at hlt; omega)
          met := fun node hmem => absurd hmem List.not_mem_nil
          ok_iff := by
            intro used
            simp only [Except.ok.injEq, Nat.cast_zero, add_zero,
              Finset.range_zero, Finset.sum_empty, hcount]
            constructor
            · rintro rfl
              exact ⟨fun j hj hlt => absurd hj hlt.not_ge, rfl⟩
            · rintro ⟨-, rfl⟩
              rfl
          error_ne := by simp }
  | succ remaining ih =>
      unfold Segment.readIndex at hread
      by_cases hhash : segment.iHashVal i = i
      swap
      · rw [if_pos hhash, Option.some.injEq, Prod.mk.injEq] at hread
        obtain ⟨rfl, rfl⟩ := hread
        exact .stop (fun _ hcounted => hhash hcounted.1) (by decide)
          (fun hsame => absurd hsame hhash) fun hne => absurd rfl hne
      rw [if_neg (not_not.mpr hhash)] at hread
      cases hchain : segment.readChain fuel (segment.ipDataNodeList i) 0 with
      | none => simp [hchain] at hread
      | some read =>
          obtain ⟨nodes, found⟩ := read
          rw [hchain] at hread
          obtain ⟨last, hwalk, -, rfl⟩ :=
            (readChain_eq_some_iff (by decide)).mp hchain
          by_cases hlast : last = 0
          swap
          · simp only [chainResult, if_neg hlast, Option.some.injEq,
              Prod.mk.injEq] at hread
            obtain ⟨rfl, rfl⟩ := hread
            refine .stop ?_ (by decide) (fun _ => ⟨last, hwalk⟩) fun _ => hhash
            intro others hcounted
            exact hlast (hwalk.unique hcounted.2.1).2
          subst hlast
          simp only [chainResult, if_true, zero_add] at hread
          by_cases hnum :
              toInt32 nodes.length = segment.iDataNodeNum i
          swap
          · rw [if_pos hnum, Option.some.injEq, Prod.mk.injEq] at hread
            obtain ⟨rfl, rfl⟩ := hread
            refine .stop ?_ (by decide) (fun _ => ⟨0, hwalk⟩) fun _ => hhash
            intro others hcounted
            rw [(hwalk.unique hcounted.2.1).1] at hnum
            exact hnum hcounted.2.2
          rw [if_neg (not_not.mpr hnum), Option.map_eq_some_iff] at hread
          obtain ⟨⟨rest, result⟩, hrest, heq⟩ := hread
          obtain ⟨rfl, rfl⟩ := Prod.mk.injEq _ _ _ _ ▸ heq
          rw [hnum] at hrest
          exact .next ⟨hhash, hwalk, hnum⟩
            (ih (by simpa using toInt32_add _ 0) hrest)

theorem readChain_isSome
    {last : ℤ} (hcount : toInt32 count = count)
    (hwalk : segment.Walk first nodes last) (hfuel : nodes.length < fuel) :
    segment.readChain fuel first count =
      some (nodes, chainResult count last nodes.length) :=
  (readChain_eq_some_iff hcount).mpr ⟨last, hwalk, hfuel, rfl⟩

theorem readIndex_isSome
    (hends : ∀ later < i + remaining, segment.Visits i later →
      ∃ nodes last, segment.Walk (segment.ipDataNodeList later) nodes last) :
    ∃ enough, ∀ fuel ≥ enough, ∀ count,
      (segment.readIndex fuel remaining i count).isSome := by
  induction remaining generalizing i with
  | zero => exact ⟨0, fun _ _ _ => rfl⟩
  | succ remaining ih =>
      by_cases hhash : segment.iHashVal i = i
      swap
      · refine ⟨0, fun fuel _ count => ?_⟩
        rw [Segment.readIndex, if_pos hhash]
        rfl
      obtain ⟨nodes, last, hwalk⟩ :=
        hends i (by push_cast; omega) (visits_iff.mpr (Or.inl ⟨rfl, hhash⟩))
      by_cases hcounted : segment.CountedAs i nodes
      · obtain ⟨enough, hrest⟩ := ih fun later hlt hvisits =>
          hends later (by push_cast; omega)
            (visits_iff.mpr (Or.inr ⟨⟨nodes, hcounted⟩, hvisits⟩))
        refine ⟨max enough (nodes.length + 1), fun fuel hfuel count => ?_⟩
        rw [Segment.readIndex, if_neg (not_not.mpr hhash),
          readChain_isSome (by decide) hcounted.2.1 (by omega)]
        simp only [chainResult, if_true, zero_add, hcounted.2.2, ne_eq,
          not_true_eq_false, if_false, Option.isSome_map]
        exact hrest fuel (by omega) _
      · refine ⟨nodes.length + 1, fun fuel hfuel count => ?_⟩
        rw [Segment.readIndex, if_neg (not_not.mpr hhash),
          readChain_isSome (by decide) hwalk (by omega)]
        by_cases hlast : last = 0
        · subst hlast
          have hnum : ¬ toInt32 nodes.length = segment.iDataNodeNum i :=
            fun hnum => hcounted ⟨hhash, hwalk, hnum⟩
          simp [chainResult, hnum]
        · simp [chainResult, hlast]

/-! ## The whole of `Verify` -/

/-- The buckets and the number of used nodes are as the counters say. -/
def Segment.BucketsCounted (segment : Segment Data) : Prop :=
  (∀ i, 0 ≤ i → i < segment.head.iIndexNodeNum →
      ∃ nodes, segment.CountedAs i nodes) ∧
    segment.head.iUsedDataNodeNum = toInt32 (1 +
      ∑ i ∈ Finset.range segment.head.iIndexNodeNum.toNat,
        segment.iDataNodeNum i)

/-- All counters agree with the lists. -/
def Segment.Accounted (segment : Segment Data) : Prop :=
  segment.BucketsCounted ∧
    ∃ nodes, segment.Walk segment.head.ipFreeDataNodeList nodes 0 ∧
      toInt32 (nodes.length + segment.head.iUsedDataNodeNum) =
        segment.head.iTotalDataNodeNum

/-- `Verify` follows the list that starts at `start`: the list of a bucket
when those before it are counted, the free list when all are. -/
inductive Segment.ComesTo (segment : Segment Data) : ℤ → Prop where
  | bucket (i : ℤ) (hnum : i < segment.head.iIndexNodeNum)
      (hvisits : segment.Visits 0 i) :
      segment.ComesTo (segment.ipDataNodeList i)
  | free (hcounted : segment.BucketsCounted) :
      segment.ComesTo segment.head.ipFreeDataNodeList

/-- What `Verify` has read and found. -/
structure VerifyRead
    (segment : Segment Data) (reads : List ℤ) (code : ℤ) : Prop where
  walked : ∀ start, segment.ComesTo start →
    ∃ nodes last, segment.Walk start nodes last ∧ nodes ⊆ reads
  met : ∀ node ∈ reads, ∃ start, segment.ComesTo start ∧
    ∃ nodes last, segment.Walk start nodes last ∧ node ∈ nodes
  zero_iff : code = 0 ↔ segment.Accounted

section

variable {used : ℤ}
  (hindex : IndexRead segment segment.head.iIndexNodeNum.toNat 0 1 reads
    result)

include hindex

theorem IndexRead.bucketsCounted_iff :
    segment.BucketsCounted ↔
      result = .ok segment.head.iUsedDataNodeNum := by
  rw [hindex.ok_iff, Segment.BucketsCounted]
  simp only [zero_add]
  refine and_congr_left fun _ => ?_
  constructor
  · intro hall i hi hlt
    exact hall i hi (by omega)
  · intro hall i hi hlt
    exact hall i hi (by omega)

theorem IndexRead.visits {start : ℤ} (hstart : segment.ComesTo start) :
    (segment.BucketsCounted ∧ start = segment.head.ipFreeDataNodeList) ∨
      ∃ nodes last, segment.Walk start nodes last ∧ nodes ⊆ reads := by
  cases hstart with
  | bucket i hnum hvisits =>
      have hi := hvisits.1
      exact Or.inr (hindex.walked i (by omega) hvisits)
  | free hcounted => exact Or.inl ⟨hcounted, rfl⟩

theorem IndexRead.comesTo {node : ℤ} (hmem : node ∈ reads) :
    ∃ start, segment.ComesTo start ∧
      ∃ nodes last, segment.Walk start nodes last ∧ node ∈ nodes := by
  obtain ⟨i, hlt, hvisits, hwalk⟩ := hindex.met node hmem
  have hi := hvisits.1
  exact ⟨_, .bucket i (by omega) hvisits, hwalk⟩

/-- `Verify` returns an error before it comes to the free list. -/
theorem IndexRead.refused
    {code : ℤ} (hcode : code ≠ 0)
    (hne : result ≠ .ok segment.head.iUsedDataNodeNum) :
    VerifyRead segment reads code where
  walked := by
    intro start hstart
    rcases hindex.visits hstart with ⟨hcounted, -⟩ | hwalk
    · exact absurd (hindex.bucketsCounted_iff.mp hcounted) hne
    · exact hwalk
  met := fun node hmem => hindex.comesTo hmem
  zero_iff := iff_of_false hcode fun haccounted =>
    hne (hindex.bucketsCounted_iff.mp haccounted.1)

/-- `Verify` has followed the free list. -/
theorem IndexRead.followed
    {code last : ℤ} (hok : result = .ok segment.head.iUsedDataNodeNum)
    (hwalk : segment.Walk segment.head.ipFreeDataNodeList nodes last)
    (hcode : code = 0 ↔ last = 0 ∧
      toInt32 (nodes.length + segment.head.iUsedDataNodeNum) =
        segment.head.iTotalDataNodeNum) :
    VerifyRead segment (reads ++ nodes) code where
  walked := by
    intro start hstart
    rcases hindex.visits hstart with ⟨-, rfl⟩ | ⟨others, last, hwalk, hsub⟩
    · exact ⟨nodes, last, hwalk, List.subset_append_right reads nodes⟩
    · exact ⟨others, last, hwalk, List.subset_append_of_subset_left nodes hsub⟩
  met := by
    intro node hmem
    rcases List.mem_append.mp hmem with hmem | hmem
    · exact hindex.comesTo hmem
    · exact ⟨_, .free (hindex.bucketsCounted_iff.mpr hok), nodes, last, hwalk,
        hmem⟩
  zero_iff := by
    rw [hcode]
    constructor
    · rintro ⟨rfl, htotal⟩
      exact ⟨hindex.bucketsCounted_iff.mpr hok, nodes, hwalk, htotal⟩
    · rintro ⟨-, others, hothers, htotal⟩
      obtain ⟨rfl, rfl⟩ := hwalk.unique hothers
      exact ⟨rfl, htotal⟩

end

theorem verifyReads_spec
    {code : ℤ} (hread : segment.verifyReads fuel = some (reads, code)) :
    VerifyRead segment reads code := by
  unfold Segment.verifyReads at hread
  cases hindex : segment.readIndex fuel segment.head.iIndexNodeNum.toNat 0 1 with
  | none => simp [hindex] at hread
  | some read =>
      obtain ⟨nodes, result⟩ := read
      rw [hindex] at hread
      have hspec := readIndex_spec (by decide) hindex
      cases result with
      | error found =>
          simp only [Option.some.injEq, Prod.mk.injEq] at hread
          obtain ⟨rfl, rfl⟩ := hread
          exact hspec.refused (fun hzero => hspec.error_ne (hzero ▸ rfl))
            (by simp)
      | ok used =>
          by_cases hused : used = segment.head.iUsedDataNodeNum
          swap
          · simp only [if_pos hused, Option.some.injEq, Prod.mk.injEq] at hread
            obtain ⟨rfl, rfl⟩ := hread
            exact hspec.refused (by decide) fun heq =>
              hused (Except.ok.inj heq)
          subst hused
          simp only [ne_eq, not_true_eq_false, if_false] at hread
          cases hfree : segment.readChain fuel
              segment.head.ipFreeDataNodeList 0 with
          | none => simp [hfree] at hread
          | some read =>
              obtain ⟨rest, result⟩ := read
              rw [hfree] at hread
              obtain ⟨last, hwalk, -, rfl⟩ :=
                (readChain_eq_some_iff (by decide)).mp hfree
              by_cases hlast : last = 0
              · subst hlast
                simp only [chainResult, if_true, zero_add, toInt32_add] at hread
                split at hread
                · obtain ⟨rfl, rfl⟩ := Prod.mk.inj (Option.some.inj hread)
                  refine hspec.followed rfl hwalk (iff_of_false (by decide) ?_)
                  rintro ⟨-, htotal⟩
                  contradiction
                · rename_i htotal
                  obtain ⟨rfl, rfl⟩ := Prod.mk.inj (Option.some.inj hread)
                  exact hspec.followed rfl hwalk
                    (iff_of_true rfl ⟨rfl, not_not.mp htotal⟩)
              · simp only [chainResult, if_neg hlast, Option.some.injEq,
                  Prod.mk.injEq] at hread
                obtain ⟨rfl, rfl⟩ := hread
                exact hspec.followed rfl hwalk (iff_of_false (by decide)
                  fun hzero => hlast hzero.1)

theorem verifyReads_isSome
    (hends : ∀ start, segment.ComesTo start →
      ∃ nodes last, segment.Walk start nodes last) :
    ∃ fuel reads code, segment.verifyReads fuel = some (reads, code) := by
  obtain ⟨enough, hindex⟩ : ∃ enough, ∀ fuel ≥ enough, ∀ count,
      (segment.readIndex fuel segment.head.iIndexNodeNum.toNat 0
        count).isSome := by
    refine readIndex_isSome fun later hlt hvisits => ?_
    have hi := hvisits.1
    exact hends _ (.bucket later (by omega) hvisits)
  -- the free list is followed only when the buckets are counted
  obtain ⟨fuel, hfuel, hfree⟩ : ∃ fuel ≥ enough, segment.BucketsCounted →
      ∃ read, segment.readChain fuel segment.head.ipFreeDataNodeList 0 =
        some read := by
    by_cases hcounted : segment.BucketsCounted
    · obtain ⟨nodes, last, hwalk⟩ := hends _ (.free hcounted)
      exact ⟨max enough (nodes.length + 1), by omega, fun _ =>
        ⟨_, readChain_isSome (by decide) hwalk (by omega)⟩⟩
    · exact ⟨enough, le_rfl, fun h => absurd h hcounted⟩
  obtain ⟨⟨nodes, result⟩, hread⟩ :=
    Option.isSome_iff_exists.mp (hindex fuel hfuel 1)
  have hspec := readIndex_spec (by decide) hread
  refine ⟨fuel, ?_⟩
  unfold Segment.verifyReads
  rw [hread]
  cases result with
  | error code => exact ⟨_, _, rfl⟩
  | ok used =>
      by_cases hused : used = segment.head.iUsedDataNodeNum
      · obtain ⟨⟨rest, result⟩, hread⟩ :=
          hfree (hspec.bucketsCounted_iff.mpr (congrArg Except.ok hused))
        simp only [hused, ne_eq, not_true_eq_false, if_false, hread]
        cases result with
        | error code => exact ⟨_, _, rfl⟩
        | ok iFreeDataNodeNum =>
            simp only
            split
            · exact ⟨_, _, rfl⟩
            · exact ⟨_, _, rfl⟩
      · simp only [if_pos hused]
        exact ⟨_, _, rfl⟩

end MessageBus.HashList
