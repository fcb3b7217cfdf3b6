import MessageBus.ConnModel
import MessageBus.HashListWalk

/-!
# Cleaning up the user table

`CheckValid` walks one bucket of `m_GnsInfoMap` in each call, and
`MemFullCallBack` removes the entries of users gone for too long.  One call
does to the shared-memory segment what the server's `checkValid` does to the
table; as many calls as there are buckets visit every entry.
-/

namespace MessageBus.Conn

open HashList

abbrev GnsEntry := Σ _ : UInt64, ShmGnsInfo

/-- `m_GnsInfoMap` in shared memory, with the cursor. -/
structure GnsTable where
  gnsInfoMap : Segment ShmGnsInfo
  checkConnPos : ℕ
  maxGnsNodeNum : ℕ

/-- The test of `MemFullCallBack`. -/
def isStale (now : ℕ) (_ : UInt64) (info : ShmGnsInfo) : Bool :=
  decide (info.Stale now)

/-- `MemFullCallBack`, without the lines it writes to the log. -/
def memFullCallBack (fuel now : ℕ) : CallBack ShmGnsInfo :=
  removeIf fuel (isStale now)

namespace GnsTable

/-- `CheckValid`, with the entries `MemFullCallBack` is called for. -/
def checkValid (fuel now : ℕ) (table : GnsTable) :
    Option (List GnsEntry × GnsTable) :=
  (table.gnsInfoMap.processAll fuel table.checkConnPos
    (memFullCallBack fuel now)).map fun (entries, gnsInfoMap) =>
      (entries, { table with
        gnsInfoMap := gnsInfoMap
        checkConnPos := (table.checkConnPos + 1) % table.maxGnsNodeNum })

/-- `CheckValid`, so many times. -/
def checkValidTimes (fuel now : ℕ) :
    ℕ → GnsTable → Option (List GnsEntry × GnsTable)
  | 0, table => some ([], table)
  | count + 1, table => do
      let (entries, next) ← table.checkValid fuel now
      let (later, final) ← checkValidTimes fuel now count next
      some (entries ++ later, final)

/-- The table in shared memory of a server. -/
structure Holds (table : GnsTable) (server : Server) : Prop where
  gnsInfoMap : Valid table.gnsInfoMap server.maxGnsNodeNum
    server.maxGnsNodeNum server.gnsInfoMap
  checkConnPos : table.checkConnPos = server.checkConnPos
  maxGnsNodeNum : table.maxGnsNodeNum = server.maxGnsNodeNum
  inside : server.checkConnPos < server.maxGnsNodeNum

end GnsTable

/-- `CheckValid` of a server, so many times, with the entries it looks at. -/
def Server.checkValidTimes (now : ℕ) :
    ℕ → Server → List GnsEntry × Server
  | 0, server => ([], server)
  | count + 1, server =>
      let (later, final) :=
        Server.checkValidTimes now count (server.checkValid now)
      (server.processAll server.checkConnPos ++ later, final)

/-! ## One call -/

section Step

variable {segment : Segment ShmGnsInfo} {map : BoundedMap UInt64 ShmGnsInfo}
  {table : GnsTable} {server : Server} {nodeNum fuel now pos : ℕ}

def inBucket (nodeNum : ℕ) (entries : List GnsEntry) (bucket : ℕ) :
    List GnsEntry :=
  entries.filter fun entry => hashVal nodeNum entry.1 = bucket

/-- The table without the stale entries of some buckets. -/
def withoutStale (nodeNum now : ℕ) (entries : List GnsEntry)
    (buckets : List ℕ) : List GnsEntry :=
  entries.filter fun entry =>
    ¬ (entry.2.Stale now ∧ hashVal nodeNum entry.1 ∈ buckets)

theorem entries_foldl_erase (keys : List UInt64)
    (map : BoundedMap UInt64 ShmGnsInfo) :
    (keys.foldl BoundedMap.erase map).store.entries =
      map.store.entries.filter fun entry => entry.1 ∉ keys := by
  induction keys generalizing map with
  | nil => simp
  | cons key keys ih =>
      rw [List.foldl_cons, ih, BoundedMap.entries_erase, List.filter_filter]
      apply List.filter_congr
      intro entry _
      simp [Bool.and_comm]

theorem capacity_foldl_erase (keys : List UInt64)
    (map : BoundedMap UInt64 ShmGnsInfo) :
    (keys.foldl BoundedMap.erase map).capacity = map.capacity := by
  induction keys generalizing map with
  | nil => rfl
  | cons key keys ih => exact ih (map.erase key)

theorem mem_staleKeys_iff {entry : GnsEntry}
    (hentry : entry ∈ map.store.entries) (bucket : ℕ) :
    entry.1 ∈ staleKeys (isStale now)
        (inBucket nodeNum map.store.entries bucket) ↔
      entry.2.Stale now ∧ hashVal nodeNum entry.1 = bucket := by
  simp only [staleKeys, isStale, inBucket, List.mem_map, List.mem_filter,
    decide_eq_true_iff]
  constructor
  · rintro ⟨other, ⟨⟨hother, hbucket⟩, hstale⟩, hkey⟩
    have heq : other = entry :=
      map.store.nodupKeys.eq_of_fst_eq hother hentry hkey
    subst heq
    exact ⟨hstale, hbucket⟩
  · rintro ⟨hstale, hbucket⟩
    exact ⟨entry, ⟨⟨hentry, hbucket⟩, hstale⟩, rfl⟩

theorem checkValid_spec (now : ℕ)
    (hvalid : Valid segment nodeNum nodeNum map) (hfuel : nodeNum ≤ fuel)
    (hpos : pos < nodeNum) :
    ∃ next,
      GnsTable.checkValid fuel now ⟨segment, pos, nodeNum⟩ =
        some (inBucket nodeNum map.store.entries pos,
          ⟨next, (pos + 1) % nodeNum, nodeNum⟩) ∧
      Valid next nodeNum nodeNum
        ((staleKeys (isStale now)
          (inBucket nodeNum map.store.entries pos)).foldl BoundedMap.erase
            map) := by
  obtain ⟨chains, free, h⟩ := hvalid
  obtain ⟨next, hwalk, hnext⟩ :=
    processAll_spec (isStale now) h hfuel hpos
  refine ⟨next, ?_, hnext⟩
  simp only [GnsTable.checkValid, memFullCallBack, hwalk, Option.map_some]
  rfl

theorem checkValid_entries (server : Server) (now : ℕ) :
    (server.checkValid now).gnsInfoMap.store.entries =
      withoutStale server.maxGnsNodeNum now server.gnsInfoMap.store.entries
        [server.checkConnPos] := by
  change ((staleKeys (isStale now) (inBucket server.maxGnsNodeNum
    server.gnsInfoMap.store.entries server.checkConnPos)).foldl
      BoundedMap.erase server.gnsInfoMap).store.entries = _
  rw [entries_foldl_erase]
  apply List.filter_congr
  intro entry hentry
  rw [decide_eq_decide, mem_staleKeys_iff hentry, List.mem_singleton]

@[simp] theorem checkValid_maxGnsNodeNum (server : Server) (now : ℕ) :
    (server.checkValid now).maxGnsNodeNum = server.maxGnsNodeNum :=
  congrArg (· + 1) (capacity_foldl_erase _ _)

/-- A call does to the segment what the server's `checkValid` does to the
table. -/
theorem checkValid_refines (now : ℕ)
    (hholds : table.Holds server) (hfuel : server.maxGnsNodeNum ≤ fuel) :
    ∃ next,
      table.checkValid fuel now =
        some (server.processAll server.checkConnPos, next) ∧
      next.Holds (server.checkValid now) := by
  obtain ⟨hvalid, hcursor, hnum, hinside⟩ := hholds
  cases table with
  | mk segment checkConnPos maxGnsNodeNum =>
      dsimp only at hvalid hcursor hnum
      subst hcursor hnum
      obtain ⟨next, hcall, hnext⟩ := checkValid_spec now hvalid hfuel hinside
      refine ⟨_, hcall, ?_, rfl, ?_, ?_⟩
      · rw [checkValid_maxGnsNodeNum]
        exact hnext
      · exact (checkValid_maxGnsNodeNum server now).symm
      · rw [checkValid_maxGnsNodeNum]
        exact Nat.mod_lt _ (by omega)

/-- A valid segment is the table of some server. -/
theorem exists_holds (serverID : ℤ)
    (hvalid : Valid segment nodeNum nodeNum map) (hpos : pos < nodeNum) :
    ∃ server : Server, server.serverID = serverID ∧
      server.gnsInfoMap = map ∧ server.checkConnPos = pos ∧
      server.maxGnsNodeNum = nodeNum ∧
      GnsTable.Holds ⟨segment, pos, nodeNum⟩ server := by
  let server : Server :=
    { Server.start serverID 0 with gnsInfoMap := map, checkConnPos := pos }
  have hnum : server.maxGnsNodeNum = nodeNum := by
    obtain ⟨chains, free, h⟩ := hvalid
    have hcapacity := h.capacity_eq
    change map.capacity + 1 = nodeNum
    omega
  refine ⟨server, rfl, rfl, rfl, hnum, ?_, rfl, hnum.symm, ?_⟩
  · rw [hnum]
    exact hvalid
  · rw [hnum]
    exact hpos

end Step

/-! ## Once round the buckets -/

/-- The buckets that `count` calls walk, from the cursor on. -/
def cursorBuckets (nodeNum count pos : ℕ) : List ℕ :=
  (List.range count).map fun index => (pos + index) % nodeNum

section Round

variable {segment : Segment ShmGnsInfo} {map : BoundedMap UInt64 ShmGnsInfo}
  {table : GnsTable} {server : Server} {nodeNum fuel now pos count : ℕ}

theorem cursorBuckets_succ (hpos : pos < nodeNum) :
    cursorBuckets nodeNum (count + 1) pos =
      pos :: cursorBuckets nodeNum count ((pos + 1) % nodeNum) := by
  unfold cursorBuckets
  rw [List.range_succ_eq_map, List.map_cons, List.map_map, Nat.add_zero,
    Nat.mod_eq_of_lt hpos]
  congr 1
  apply List.map_congr_left
  intro index _
  rw [Function.comp_apply, Nat.mod_add_mod]
  congr 1
  omega

theorem cursorBuckets_perm (hpos : pos < nodeNum) :
    (cursorBuckets nodeNum nodeNum pos).Perm (List.range nodeNum) := by
  have hnodup : (cursorBuckets nodeNum nodeNum pos).Nodup := by
    apply List.Nodup.map_on _ List.nodup_range
    intro first hfirst second hsecond hsame
    rw [List.mem_range] at hfirst hsecond
    exact (Nat.ModEq.add_left_cancel' pos hsame).eq_of_lt_of_lt hfirst hsecond
  have hsub : cursorBuckets nodeNum nodeNum pos ⊆ List.range nodeNum := by
    intro bucket hbucket
    obtain ⟨index, -, rfl⟩ := List.mem_map.mp hbucket
    exact List.mem_range.mpr (Nat.mod_lt _ (by omega))
  apply (List.subperm_of_subset hnodup hsub).perm_of_length_le
  simp [cursorBuckets]

theorem inBucket_withoutStale {entries : List GnsEntry} {buckets : List ℕ}
    {bucket : ℕ} (hbucket : bucket ∉ buckets) :
    inBucket nodeNum (withoutStale nodeNum now entries buckets) bucket =
      inBucket nodeNum entries bucket := by
  unfold inBucket withoutStale
  rw [List.filter_filter]
  apply List.filter_congr
  intro entry _
  by_cases hhash : hashVal nodeNum entry.1 = bucket
  · simp [hhash, hbucket]
  · simp [hhash]

/-- So many calls do to the segment what they do to the server's table. -/
theorem checkValidTimes_refines (now : ℕ)
    (hholds : table.Holds server) (hfuel : server.maxGnsNodeNum ≤ fuel)
    (count : ℕ) :
    ∃ next,
      table.checkValidTimes fuel now count =
        some ((server.checkValidTimes now count).1, next) ∧
      next.Holds (server.checkValidTimes now count).2 := by
  induction count generalizing table server with
  | zero => exact ⟨table, rfl, hholds⟩
  | succ count ih =>
      obtain ⟨middle, hcall, hmiddle⟩ := checkValid_refines now hholds hfuel
      have hroom : (server.checkValid now).maxGnsNodeNum ≤ fuel := by
        rw [checkValid_maxGnsNodeNum]
        exact hfuel
      obtain ⟨next, hlater, hnext⟩ := ih hmiddle hroom
      refine ⟨next, ?_, hnext⟩
      rw [GnsTable.checkValidTimes, hcall]
      simp only [Option.bind_eq_bind, Option.bind_some, hlater]
      rfl

/-- The calls look at the entries of the buckets from the cursor on, and only
these buckets lose their stale entries. -/
theorem checkValidTimes_spec (now : ℕ)
    (hpos : server.checkConnPos < server.maxGnsNodeNum)
    (hnodup : (cursorBuckets server.maxGnsNodeNum count
      server.checkConnPos).Nodup) :
    (server.checkValidTimes now count).1 =
        (cursorBuckets server.maxGnsNodeNum count
          server.checkConnPos).flatMap
          (inBucket server.maxGnsNodeNum server.gnsInfoMap.store.entries) ∧
      (server.checkValidTimes now count).2.checkConnPos =
        (server.checkConnPos + count) % server.maxGnsNodeNum ∧
      (server.checkValidTimes now count).2.maxGnsNodeNum =
        server.maxGnsNodeNum ∧
      (server.checkValidTimes now count).2.gnsInfoMap.store.entries =
        withoutStale server.maxGnsNodeNum now
          server.gnsInfoMap.store.entries
          (cursorBuckets server.maxGnsNodeNum count server.checkConnPos) := by
  induction count generalizing server with
  | zero =>
      refine ⟨rfl, ?_, rfl, ?_⟩
      · rw [Nat.add_zero, Nat.mod_eq_of_lt hpos]
        rfl
      · simp [Server.checkValidTimes, withoutStale, cursorBuckets]
  | succ count ih =>
      rw [cursorBuckets_succ hpos] at hnodup ⊢
      obtain ⟨hfresh, hrest⟩ := List.nodup_cons.mp hnodup
      have hnext : (server.checkValid now).checkConnPos <
          (server.checkValid now).maxGnsNodeNum := by
        rw [checkValid_maxGnsNodeNum]
        exact Nat.mod_lt _ (by omega)
      have hlater := ih hnext
      rw [checkValid_maxGnsNodeNum, checkValid_entries] at hlater
      obtain ⟨hvisited, hcursor, hnum, hentries⟩ := hlater hrest
      refine ⟨?_, ?_, hnum, ?_⟩
      · have hsame : (cursorBuckets server.maxGnsNodeNum count
            ((server.checkConnPos + 1) % server.maxGnsNodeNum)).flatMap
              (inBucket server.maxGnsNodeNum
                (withoutStale server.maxGnsNodeNum now
                  server.gnsInfoMap.store.entries [server.checkConnPos])) =
            (cursorBuckets server.maxGnsNodeNum count
              ((server.checkConnPos + 1) % server.maxGnsNodeNum)).flatMap
              (inBucket server.maxGnsNodeNum
                server.gnsInfoMap.store.entries) := by
          apply List.flatMap_congr
          intro bucket hbucket
          apply inBucket_withoutStale
          rintro hmem
          rw [List.mem_singleton] at hmem
          exact hfresh (hmem ▸ hbucket)
        rw [List.flatMap_cons, ← hsame]
        exact congrArg (server.processAll server.checkConnPos ++ ·) hvisited
      · refine hcursor.trans ?_
        have hcount : server.checkConnPos + 1 + count =
            server.checkConnPos + (count + 1) := by omega
        change ((server.checkConnPos + 1) % server.maxGnsNodeNum + count) %
          server.maxGnsNodeNum = _
        rw [Nat.mod_add_mod, hcount]
      · refine hentries.trans ?_
        unfold withoutStale
        rw [List.filter_filter]
        apply List.filter_congr
        intro entry _
        simp only [List.mem_cons, List.not_mem_nil, or_false]
        grind [Server.checkValid]

/-- The buckets divide up the table. -/
theorem flatMap_inBucket_perm (map : BoundedMap UInt64 ShmGnsInfo)
    (hpos : 0 < nodeNum) :
    ((List.range nodeNum).flatMap (inBucket nodeNum map.store.entries)).Perm
      map.store.entries := by
  have hnodup := map.store.nodupKeys.nodup
  have hbuckets : ((List.range nodeNum).flatMap
      (inBucket nodeNum map.store.entries)).Nodup := by
    rw [List.nodup_flatMap]
    constructor
    · intro bucket _
      exact hnodup.filter _
    · apply List.Pairwise.imp_of_mem _ List.nodup_range
      intro first second _ _ hne entry hfirst hsecond
      simp only [inBucket, List.mem_filter, decide_eq_true_iff]
        at hfirst hsecond
      exact hne (hfirst.2.symm.trans hsecond.2)
  rw [List.perm_ext_iff_of_nodup hbuckets hnodup]
  intro entry
  simp only [List.mem_flatMap, inBucket, List.mem_filter, decide_eq_true_iff]
  constructor
  · rintro ⟨bucket, -, hentry, -⟩
    exact hentry
  · intro hentry
    exact ⟨hashVal nodeNum entry.1,
      List.mem_range.mpr (Nat.mod_lt _ hpos), hentry, rfl⟩

theorem stale_iff {info : ShmGnsInfo} (hnow : connInvalidTime ≤ now)
    (htime : now < 2 ^ 63) :
    info.Stale now ↔ info.status = .unactive ∧
      info.lastActiveTime < now - connInvalidTime := by
  have hsub : (now + 2 ^ 64 - connInvalidTime) % 2 ^ 64 =
      now - connInvalidTime := by
    unfold connInvalidTime at hnow ⊢
    omega
  rw [ShmGnsInfo.Stale, hsub]

/-- As many calls of `CheckValid` as there are buckets, from any position of
the cursor: `MemFullCallBack` is called once for each entry, and the entries of
users gone for longer than `CONN_INVALID_TIME` are no longer there. -/
theorem check_valid_round_exact
    (hvalid : Valid segment nodeNum nodeNum map) (hfuel : nodeNum ≤ fuel)
    (hpos : pos < nodeNum) (hnow : connInvalidTime ≤ now)
    (htime : now < 2 ^ 63) :
    ∃ visited next after,
      GnsTable.checkValidTimes fuel now nodeNum ⟨segment, pos, nodeNum⟩ =
        some (visited, ⟨next, pos, nodeNum⟩) ∧
      visited.Perm map.store.entries ∧
      Valid next nodeNum nodeNum after ∧
      after.store.entries = map.store.entries.filter fun entry =>
        ¬ (entry.2.status = .unactive ∧
          entry.2.lastActiveTime < now - connInvalidTime) := by
  obtain ⟨server, -, rfl, rfl, rfl, hholds⟩ := exists_holds 0 hvalid hpos
  have hbuckets := cursorBuckets_perm hpos
  obtain ⟨⟨next, cursor, nodeNum⟩, hrun, hafter⟩ :=
    checkValidTimes_refines now hholds hfuel server.maxGnsNodeNum
  obtain ⟨hvisited, hcursor, hnum, hentries⟩ :=
    checkValidTimes_spec now hpos (hbuckets.nodup_iff.mpr List.nodup_range)
  obtain rfl : cursor = server.checkConnPos := by
    refine hafter.checkConnPos.trans (hcursor.trans ?_)
    rw [Nat.add_mod_right, Nat.mod_eq_of_lt hpos]
  obtain rfl : nodeNum = server.maxGnsNodeNum := hafter.maxGnsNodeNum.trans hnum
  refine ⟨_, next, _, hrun, ?_, hnum ▸ hafter.gnsInfoMap, ?_⟩
  · rw [hvisited]
    exact (hbuckets.flatMap_right _).trans
      (flatMap_inBucket_perm server.gnsInfoMap (by omega))
  · rw [hentries]
    apply List.filter_congr
    intro entry _
    have hbucket : hashVal server.maxGnsNodeNum entry.1 ∈ cursorBuckets
        server.maxGnsNodeNum server.maxGnsNodeNum server.checkConnPos :=
      hbuckets.mem_iff.mpr (List.mem_range.mpr (Nat.mod_lt _ (by omega)))
    rw [decide_eq_decide, stale_iff hnow htime, and_iff_left hbucket]

end Round

/-- `tagShmGnsInfo()`: everything zero. -/
instance : Inhabited ShmGnsInfo := ⟨⟨0, 0, 0, .active, 0⟩⟩

/-- Three users of whom two share a bucket, the first of them gone for more
than a day. -/
theorem check_valid_round_exact_chain :
    ∃ (segment : Segment ShmGnsInfo) (map : BoundedMap UInt64 ShmGnsInfo)
      (visited : List GnsEntry) (next : Segment ShmGnsInfo)
      (after : BoundedMap UInt64 ShmGnsInfo),
      map.store.entries =
        [⟨2, 2, 7, 502, .unactive, 150000⟩, ⟨5, 5, 7, 501, .active, 100⟩,
          ⟨1, 1, 7, 500, .unactive, 100⟩] ∧
      GnsTable.checkValidTimes 4 200000 4 ⟨segment, 1, 4⟩ =
        some (visited, ⟨next, 1, 4⟩) ∧
      visited.Perm map.store.entries ∧
      Valid next 4 4 after ∧
      after.store.entries =
        [⟨2, 2, 7, 502, .unactive, 150000⟩, ⟨5, 5, 7, 501, .active, 100⟩] := by
  have hcleared := cleared_valid (default : Segment ShmGnsInfo)
    (show toInt32 (headSize + 4 * indexNodeSize + 4 * 40) ≤ 228 by decide)
    (by decide) (by decide)
  obtain ⟨segment, -, hvalid⟩ := run_simulates hcleared (le_refl 4)
    [.insert 1 ⟨1, 7, 500, .unactive, 100⟩, .insert 5 ⟨5, 7, 501, .active, 100⟩,
      .insert 2 ⟨2, 7, 502, .unactive, 150000⟩]
  obtain ⟨visited, next, after, hrun, hvisited, hafter, hentries⟩ :=
    check_valid_round_exact hvalid (le_refl 4) (show 1 < 4 by decide)
      (show connInvalidTime ≤ 200000 by decide) (by decide)
  exact ⟨segment, _, visited, next, after, by decide, hrun, hvisited, hafter,
    hentries.trans (by decide)⟩

end MessageBus.Conn
