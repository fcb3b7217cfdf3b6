import MessageBus.GapFilling

/-!
# The table of connections of `CSafeTcpClient`

A transcription of what `mmlib/safe_tcp_client/safe_tcp_client.cpp` does with the
table of connections in shared memory.  A connection that is deleted leaves a
gap, into which another is copied: from behind the last one.
-/

namespace MessageBus.SafeTcpClient

open GapFilling

def stcpMaxConnStatus : ℕ := 2000
def stcpMaxConnStatusKeepTime : ℤ := 10 * 3600
def stcpConnStatusEFull : UInt16 := 5

structure STcpConnStatus where
  uiIPAddr : UInt32
  ushPort : UInt16
  ushStatus : UInt16
  uiTimeOut : UInt32
  tLastRetryTime : ℤ
  uiRetryTimes : UInt32
  uiConnErrNum : UInt32
  uiRecvErrNum : UInt32
  uiSendErrNum : UInt32
  uiLastReqNum : UInt32
deriving DecidableEq

/-- `STcpConnStatusHeader` with the memory behind it, which goes on behind the
connections that the table may have. -/
structure STcpConnStatusHeader where
  uiConnStatusNum : ℕ
  uiStatusFullNum : UInt32
  tLastCheckTime : ℤ
  astSTcpConnStatus : ℕ → STcpConnStatus

def STcpConnStatus.address (status : STcpConnStatus) : UInt32 × UInt16 :=
  (status.uiIPAddr, status.ushPort)

/-- No request since the last check. -/
def STcpConnStatus.reset (status : STcpConnStatus) : STcpConnStatus :=
  { status with uiLastReqNum := 0 }

namespace STcpConnStatusHeader

variable (table : STcpConnStatusHeader)

/-- A number of connections that is too large is cut. -/
def clamp : STcpConnStatusHeader :=
  if stcpMaxConnStatus < table.uiConnStatusNum then
    { table with uiConnStatusNum := stcpMaxConnStatus }
  else table

/-- The loop that looks for an address. -/
def findAddress (address : UInt32 × UInt16) : Option ℕ :=
  (List.range table.uiConnStatusNum).find? fun i =>
    (table.astSTcpConnStatus i).address = address

def getSTcpConnStatus (uiIPAddr : UInt32) (ushPort : UInt16) :
    Option ℕ × STcpConnStatusHeader :=
  (table.clamp.findAddress (uiIPAddr, ushPort), table.clamp)

/-- A connection as it is added. -/
def newConnStatus (iTimeOut uiIPAddr : UInt32) (ushPort : UInt16) :
    STcpConnStatus where
  uiIPAddr := uiIPAddr
  ushPort := ushPort
  ushStatus := 0
  uiTimeOut := iTimeOut
  tLastRetryTime := 0
  uiRetryTimes := 0
  uiConnErrNum := 0
  uiRecvErrNum := 0
  uiSendErrNum := 0
  -- against being deleted
  uiLastReqNum := 1

def append (status : STcpConnStatus) : STcpConnStatusHeader :=
  { table with
    uiConnStatusNum := table.uiConnStatusNum + 1
    astSTcpConnStatus :=
      Function.update table.astSTcpConnStatus table.uiConnStatusNum status }

/-- `AddSTcpConnStatus` with `m_iTimeOut`; without a place it gives
`m_stFullConnStatus`. -/
def addSTcpConnStatus (iTimeOut uiIPAddr : UInt32) (ushPort : UInt16)
    (stFullConnStatus : STcpConnStatus) :
    (ℕ ⊕ STcpConnStatus) × STcpConnStatusHeader :=
  match table.getSTcpConnStatus uiIPAddr ushPort with
  | (some i, table) => (.inl i, table)
  | (none, table) =>
      if stcpMaxConnStatus ≤ table.uiConnStatusNum then
        (.inr { stFullConnStatus with
            uiIPAddr := uiIPAddr
            ushPort := ushPort
            ushStatus := stcpConnStatusEFull },
          { table with uiStatusFullNum := table.uiStatusFullNum + 1 })
      else
        (.inl table.uiConnStatusNum,
          table.append (newConnStatus iTimeOut uiIPAddr ushPort))

/-- A connection is overwritten with what stands behind the last one. -/
def overwrite (i : ℕ) : STcpConnStatusHeader :=
  { table with
    uiConnStatusNum := table.uiConnStatusNum - 1
    astSTcpConnStatus :=
      fill table.astSTcpConnStatus i table.uiConnStatusNum }

def delConnStatusInternal (uiIPAddr : UInt32) (ushPort : UInt16) :
    STcpConnStatusHeader :=
  match table.clamp.findAddress (uiIPAddr, ushPort) with
  | none => table.clamp
  | some i => table.clamp.overwrite i

def resetReqNum (i : ℕ) : STcpConnStatusHeader :=
  { table with
    astSTcpConnStatus := Function.update table.astSTcpConnStatus i
      (table.astSTcpConnStatus i).reset }

/-- The loop that cleans up, and the places that it reads, each with the number
of connections at that time. -/
def cleanUpLoop (table : STcpConnStatusHeader) (i : ℕ) :
    STcpConnStatusHeader × List (ℕ × ℕ) :=
  if i < table.uiConnStatusNum then
    if (table.astSTcpConnStatus i).uiLastReqNum = 0 then
      let (after, reads) := cleanUpLoop (table.overwrite i) (i + 1)
      (after, (i, table.uiConnStatusNum) ::
        (table.uiConnStatusNum, table.uiConnStatusNum) :: reads)
    else
      let (after, reads) := cleanUpLoop (table.resetReqNum i) (i + 1)
      (after, (i, table.uiConnStatusNum) :: reads)
  else (table, [])
termination_by table.uiConnStatusNum - i
decreasing_by
  · simp only [overwrite]
    omega
  · simp only [resetReqNum]
    omega

/-- It is time to clean up. -/
def Due (tTimeNow : ℤ) : Prop :=
  tTimeNow + 600 < table.tLastCheckTime ∨
    table.tLastCheckTime < tTimeNow - stcpMaxConnStatusKeepTime

instance (tTimeNow : ℤ) : Decidable (table.Due tTimeNow) :=
  inferInstanceAs (Decidable (_ ∨ _))

def checkedAt (tTimeNow : ℤ) : STcpConnStatusHeader :=
  { table with tLastCheckTime := tTimeNow }

/-- The part of `GetConnection` that cleans up. -/
def cleanUp (tTimeNow : ℤ) : STcpConnStatusHeader × List (ℕ × ℕ) :=
  if table.Due tTimeNow then (table.checkedAt tTimeNow).clamp.cleanUpLoop 0
  else (table, [])

end STcpConnStatusHeader

/-! ## What the calls should do -/

namespace STcpConnStatusHeader

variable (table : STcpConnStatusHeader)

/-- The connections of the table, in any order. -/
def entries : Multiset STcpConnStatus :=
  contents table.astSTcpConnStatus table.uiConnStatusNum

/-- A table within its size, with one connection for each address. -/
structure Distinct : Prop where
  num_le : table.uiConnStatusNum ≤ stcpMaxConnStatus
  address_inj : ∀ i < table.uiConnStatusNum, ∀ j < table.uiConnStatusNum,
    (table.astSTcpConnStatus i).address =
      (table.astSTcpConnStatus j).address → i = j

def DeletesExactly (uiIPAddr : UInt32) (ushPort : UInt16) : Prop :=
  (table.delConnStatusInternal uiIPAddr ushPort).entries =
    table.entries.filter fun status => status.address ≠ (uiIPAddr, ushPort)

structure CleansExactly (tTimeNow : ℤ) : Prop where
  entries_eq : (table.cleanUp tTimeNow).1.entries =
    (table.entries.filter fun status => status.uiLastReqNum ≠ 0).map
      STcpConnStatus.reset
  reads_lt : ∀ read ∈ (table.cleanUp tTimeNow).2, read.1 < read.2

section Tables

variable {table : STcpConnStatusHeader} {address : UInt32 × UInt16} {i : ℕ}

theorem clamp_eq (hnum : table.uiConnStatusNum ≤ stcpMaxConnStatus) :
    table.clamp = table :=
  if_neg hnum.not_gt

theorem findAddress_eq_some (hfind : table.findAddress address = some i) :
    i < table.uiConnStatusNum ∧
      (table.astSTcpConnStatus i).address = address := by
  have hfound := List.find?_some hfind
  exact ⟨List.mem_range.mp (List.mem_of_find?_eq_some hfind),
    of_decide_eq_true hfound⟩

theorem findAddress_eq_none (hfind : table.findAddress address = none)
    (hi : i < table.uiConnStatusNum) :
    (table.astSTcpConnStatus i).address ≠ address := by
  simpa using List.find?_eq_none.mp hfind i (List.mem_range.mpr hi)

theorem Distinct.filter_eq (hdistinct : table.Distinct)
    (hi : i < table.uiConnStatusNum) :
    (table.entries.filter fun status =>
        status.address ≠ (table.astSTcpConnStatus i).address) =
      others table.astSTcpConnStatus table.uiConnStatusNum i := by
  rw [entries, contents, others, Multiset.filter_map,
    (Multiset.nodup_range _).erase_eq_filter]
  congr 1
  refine Multiset.filter_congr fun j hj => not_congr ?_
  constructor
  · exact hdistinct.address_inj j (Multiset.mem_range.mp hj) i hi
  · rintro rfl
    rfl

/-! ## New connections -/

theorem Distinct.append (hdistinct : table.Distinct)
    (hnum : table.uiConnStatusNum < stcpMaxConnStatus) {status : STcpConnStatus}
    (hother : ∀ i < table.uiConnStatusNum,
      (table.astSTcpConnStatus i).address ≠ status.address) :
    (table.append status).Distinct := by
  refine ⟨hnum, fun i hi j hj => ?_⟩
  simp only [STcpConnStatusHeader.append]
  rcases (Nat.lt_succ_iff.mp hi).eq_or_lt with rfl | hi <;>
    rcases (Nat.lt_succ_iff.mp hj).eq_or_lt with rfl | hj
  · exact fun _ => rfl
  · rw [Function.update_self, Function.update_of_ne hj.ne]
    exact fun heq => absurd heq.symm (hother j hj)
  · rw [Function.update_self, Function.update_of_ne hi.ne]
    exact fun heq => absurd heq (hother i hi)
  · rw [Function.update_of_ne hi.ne, Function.update_of_ne hj.ne]
    exact hdistinct.address_inj i hi j hj

theorem Distinct.addSTcpConnStatus (hdistinct : table.Distinct)
    (iTimeOut uiIPAddr : UInt32) (ushPort : UInt16)
    (stFullConnStatus : STcpConnStatus) :
    (table.addSTcpConnStatus iTimeOut uiIPAddr ushPort
      stFullConnStatus).2.Distinct := by
  unfold STcpConnStatusHeader.addSTcpConnStatus getSTcpConnStatus
  rw [clamp_eq hdistinct.num_le]
  cases hfind : table.findAddress (uiIPAddr, ushPort) with
  | some i => exact hdistinct
  | none =>
      simp only
      split_ifs with hfull
      · exact ⟨hdistinct.num_le, hdistinct.address_inj⟩
      · exact hdistinct.append (Nat.lt_of_not_le hfull)
          fun i hi => findAddress_eq_none hfind hi

/-! ## Deletion -/

theorem deletesExactly_iff (hdistinct : table.Distinct)
    (uiIPAddr : UInt32) (ushPort : UInt16) :
    table.DeletesExactly uiIPAddr ushPort ↔
      ∀ i < table.uiConnStatusNum,
        (table.astSTcpConnStatus i).address = (uiIPAddr, ushPort) →
          i = table.uiConnStatusNum - 1 ∨
            table.astSTcpConnStatus table.uiConnStatusNum =
              table.astSTcpConnStatus (table.uiConnStatusNum - 1) := by
  unfold DeletesExactly delConnStatusInternal
  rw [clamp_eq hdistinct.num_le]
  cases hfind : table.findAddress (uiIPAddr, ushPort) with
  | none =>
      have hother := fun i => findAddress_eq_none (i := i) hfind
      refine iff_of_true ?_ fun i hi haddress => absurd haddress (hother i hi)
      refine (Multiset.filter_eq_self.mpr fun status hstatus => ?_).symm
      obtain ⟨i, hi, rfl⟩ := mem_contents.mp hstatus
      exact hother i hi
  | some i =>
      obtain ⟨hi, haddress⟩ := findAddress_eq_some hfind
      rw [← haddress, hdistinct.filter_eq hi]
      refine (contents_fill_iff hi).trans ?_
      constructor
      · intro hfill j hj heq
        rwa [hdistinct.address_inj j hj i hi heq]
      · exact fun hall => hall i hi rfl

/-! ## Cleaning up -/

theorem resetReqNum_of_ne {j : ℕ} (hne : j ≠ i) :
    (table.resetReqNum i).astSTcpConnStatus j = table.astSTcpConnStatus j :=
  Function.update_of_ne hne _ _

/-- Without an idle connection the loop resets those from its place on. -/
theorem cleanUpLoop_of_busy
    (hbusy : ∀ j < table.uiConnStatusNum, i ≤ j →
      (table.astSTcpConnStatus j).uiLastReqNum ≠ 0) :
    (table.cleanUpLoop i).1.uiConnStatusNum = table.uiConnStatusNum ∧
      (∀ j < table.uiConnStatusNum,
        (table.cleanUpLoop i).1.astSTcpConnStatus j =
          if i ≤ j then (table.astSTcpConnStatus j).reset
          else table.astSTcpConnStatus j) ∧
      ∀ read ∈ (table.cleanUpLoop i).2, read.1 < read.2 := by
  fun_induction cleanUpLoop table i with
  | case1 table i hi hidle after reads hloop ih =>
      exact absurd hidle (hbusy i hi le_rfl)
  | case2 table i hi hnot after reads hloop ih =>
      rw [hloop] at ih
      obtain ⟨hnum, hreset, hreads⟩ := ih fun j hj hle => by
        rw [resetReqNum_of_ne (by omega)]
        exact hbusy j hj (by omega)
      refine ⟨hnum, fun j hj => ?_, ?_⟩
      · rw [hreset j hj]
        rcases lt_trichotomy i j with hlt | rfl | hgt
        · rw [if_pos (Nat.succ_le_of_lt hlt), if_pos hlt.le,
            resetReqNum_of_ne hlt.ne']
        · rw [if_neg (by omega), if_pos le_rfl]
          exact Function.update_self _ _ _
        · rw [if_neg (by omega), if_neg (by omega), resetReqNum_of_ne hgt.ne]
      · rintro read hread
        rcases List.mem_cons.mp hread with rfl | hread
        · exact hi
        · exact hreads read hread
  | case3 table i hend =>
      refine ⟨rfl, fun j hj => ?_, by simp⟩
      rw [if_neg (by omega)]

theorem cleanUpLoop_of_idle {j : ℕ}
    (hj : j < table.uiConnStatusNum) (hle : i ≤ j)
    (hidle : (table.astSTcpConnStatus j).uiLastReqNum = 0) :
    ∃ read ∈ (table.cleanUpLoop i).2, read.2 ≤ read.1 := by
  fun_induction cleanUpLoop table i with
  | case1 table i hi hfirst after reads hloop ih =>
      exact ⟨(table.uiConnStatusNum, table.uiConnStatusNum), by simp, le_rfl⟩
  | case2 table i hi hnot after reads hloop ih =>
      have hne : j ≠ i := by
        rintro rfl
        exact hnot hidle
      rw [hloop] at ih
      obtain ⟨read, hread, hbehind⟩ := ih hj (by omega)
        (by rwa [resetReqNum_of_ne hne])
      exact ⟨read, List.mem_cons_of_mem _ hread, hbehind⟩
  | case3 table i hend => omega

theorem cleansExactly_iff (hnum : table.uiConnStatusNum ≤ stcpMaxConnStatus)
    {tTimeNow : ℤ} (hdue : table.Due tTimeNow) :
    table.CleansExactly tTimeNow ↔
      ∀ i < table.uiConnStatusNum,
        (table.astSTcpConnStatus i).uiLastReqNum ≠ 0 := by
  have hcleanUp : table.cleanUp tTimeNow =
      (table.checkedAt tTimeNow).cleanUpLoop 0 := by
    rw [cleanUp, if_pos hdue, clamp_eq]
    exact hnum
  constructor
  · rintro ⟨-, hreads⟩ i hi hidle
    rw [hcleanUp] at hreads
    obtain ⟨read, hread, hbehind⟩ :=
      cleanUpLoop_of_idle
        (show i < (table.checkedAt tTimeNow).uiConnStatusNum from hi)
        (Nat.zero_le i) hidle
    exact (hreads read hread).not_ge hbehind
  · intro hbusy
    obtain ⟨hsame, hreset, hreads⟩ := cleanUpLoop_of_busy
      (show ∀ j < (table.checkedAt tTimeNow).uiConnStatusNum, 0 ≤ j → _ from
        fun j hj _ => hbusy j hj)
    refine ⟨?_, by rwa [hcleanUp]⟩
    have hall : (table.entries.filter fun status =>
        status.uiLastReqNum ≠ 0) = table.entries := by
      refine Multiset.filter_eq_self.mpr fun status hstatus => ?_
      obtain ⟨i, hi, rfl⟩ := mem_contents.mp hstatus
      exact hbusy i hi
    rw [hall, hcleanUp, entries, hsame, entries, contents, contents,
      Multiset.map_map]
    refine Multiset.map_congr rfl fun j hj => ?_
    rw [hreset j (Multiset.mem_range.mp hj), if_pos (Nat.zero_le j)]
    rfl

end Tables

end STcpConnStatusHeader

open STcpConnStatusHeader

/-- A deletion is exact when it finds no connection or the last one, or when what
stands behind the table is a copy of the last one; the cleaning up is exact when
it has nothing to delete. -/
theorem deletions_exact_iff
    (table : STcpConnStatusHeader) (hdistinct : table.Distinct) :
    (∀ (uiIPAddr : UInt32) (ushPort : UInt16),
      table.DeletesExactly uiIPAddr ushPort ↔
        ∀ i < table.uiConnStatusNum,
          (table.astSTcpConnStatus i).address = (uiIPAddr, ushPort) →
            i = table.uiConnStatusNum - 1 ∨
              table.astSTcpConnStatus table.uiConnStatusNum =
                table.astSTcpConnStatus (table.uiConnStatusNum - 1)) ∧
    ∀ tTimeNow, table.Due tTimeNow →
      (table.CleansExactly tTimeNow ↔
        ∀ i < table.uiConnStatusNum,
          (table.astSTcpConnStatus i).uiLastReqNum ≠ 0) :=
  ⟨deletesExactly_iff hdistinct,
    fun _ hdue => cleansExactly_iff hdistinct.num_le hdue⟩

/-! ## Two connections in new memory -/

def noConnStatus : STcpConnStatus :=
  { newConnStatus 0 0 0 with uiLastReqNum := 0 }

def emptyTable : STcpConnStatusHeader where
  uiConnStatusNum := 0
  uiStatusFullNum := 0
  tLastCheckTime := 0
  astSTcpConnStatus := fun _ => noConnStatus

def twoConns : STcpConnStatusHeader :=
  ((emptyTable.addSTcpConnStatus 5000 1 80 noConnStatus).2.addSTcpConnStatus
    5000 2 80 noConnStatus).2

theorem distinct_twoConns : twoConns.Distinct := by
  have hempty : emptyTable.Distinct :=
    ⟨Nat.zero_le _, fun i hi => absurd hi (Nat.not_lt_zero i)⟩
  exact (hempty.addSTcpConnStatus _ _ _ _).addSTcpConnStatus _ _ _ _

theorem deletions_exact_two :
    twoConns.DeletesExactly 2 80 ∧ twoConns.CleansExactly 1700000000 := by
  obtain ⟨hdelete, hclean⟩ := deletions_exact_iff twoConns distinct_twoConns
  exact ⟨(hdelete 2 80).mpr (show ∀ i < 2, _ by decide),
    (hclean 1700000000 (by decide)).mpr (show ∀ i < 2, _ by decide)⟩

/-- The first of two is deleted, and the second is lost. -/
theorem deletion_loses_last :
    ¬ ∀ (table : STcpConnStatusHeader), table.Distinct →
      (∀ (uiIPAddr : UInt32) (ushPort : UInt16),
        table.DeletesExactly uiIPAddr ushPort) ∧
      ∀ tTimeNow, table.Due tTimeNow → table.CleansExactly tTimeNow := by
  intro hall
  have hexact := (hall twoConns distinct_twoConns).1 1 80
  rcases (deletesExactly_iff distinct_twoConns 1 80).mp hexact 0 (by decide)
    rfl with hlast | hcopy
  · exact absurd hlast (by decide)
  · exact absurd hcopy (by decide)

end MessageBus.SafeTcpClient
