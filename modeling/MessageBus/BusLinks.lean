import MessageBus.BusTables
import MessageBus.ConnPositions

/-!
# The table of cluster links

`ConnectCluster`, `RecvHelloMessage` and `AcceptConn` of `bus/bus.cpp`, and the
runs of the calls that change `m_PosConnMap` or the links of
`m_mapClusterInfo`.  Positions are handed out by `ConnectCluster` up to
`CLUSTER_SOCK_CPOS_MAX`, but `ReleaseConn` takes only the positions below it for
links of clusters.
-/

namespace MessageBus.Bus

open Send ProbeLoop
open Positions (nextPosition nextPosition_inside nextPosition_of_lt Bounds)

namespace CBus

/-! ## Positions -/

/-- The search for a free position; the loop ends only if there is one. -/
def searchPos (posConnMap : PosConnMap) (next : UInt32 → UInt32) :
    ℕ → UInt32 → Option UInt32 :=
  probe next fun curConnPos => (posConnMap curConnPos).isSome

/-- `CurConnPos++` in the range of the cluster links. -/
def nextClusterPos : UInt32 → UInt32 :=
  nextPosition
    (fun pos => decide (pos < clusterSockCposMin ∨ clusterSockCposMax < pos))
    clusterSockCposMin

/-- `CurConnPos++` in the range of the accepted connections. -/
def nextClientPos : UInt32 → UInt32 :=
  nextPosition (fun pos => decide (pos < clientSockCposMin)) clientSockCposMin

/-- Enough rounds to meet every position of the range of the cluster links. -/
def clusterRounds : ℕ := 100000

/-! ## Connections -/

/-- What becomes of the calls with which a connection begins. -/
inductive ConnectResult where
  | socketFailed
  | connectFailed
  | getsocknameFailed
  | epollFailed
  | connected (socketID : ℤ) (results : List WriteResult)

/-- A new `CConnInfo`. -/
def newConn (socketID : ℤ) (results : List WriteResult) : CConnInfo :=
  ⟨socketID, [], ⟨[], results⟩, false⟩

/-- `ConnectCluster`; `none` if its search for a position does not end. -/
def connectCluster (bus : CBus) (clusterID : UInt32)
    (result : ConnectResult) : Option CBus :=
  if clusterID = bus.clusterID then some bus
  else
    match bus.findCluster clusterID with
    | none => some bus
    | some info =>
        let dropped := bus.dropLink info
        match result with
        | .socketFailed => some dropped
        | .connectFailed => some dropped
        | .getsocknameFailed => some dropped
        | .epollFailed =>
            let cnt := nextClusterPos dropped.clusterPosCnt
            (searchPos dropped.posConnMap nextClusterPos clusterRounds
              cnt).map fun _ => { dropped with clusterPosCnt := cnt }
        | .connected socketID results =>
            let cnt := nextClusterPos dropped.clusterPosCnt
            (searchPos dropped.posConnMap nextClusterPos clusterRounds
              cnt).map fun curConnPos =>
                { dropped with
                  clusterPosCnt := cnt
                  posConnMap := Function.update dropped.posConnMap curConnPos
                    (some (newConn socketID results))
                }.setLink clusterID socketID curConnPos

/-- `RecvHelloMessage` for a cluster that says hello. -/
def recvHelloMessage (bus : CBus) (clusterID : UInt32)
    (result : ConnectResult) : Option CBus :=
  match bus.findCluster clusterID with
  | none => some bus
  | some info =>
      if clusterID ≠ bus.clusterID ∧
          (info.socketID = -1 ∨ info.connPos = 0) then
        bus.connectCluster clusterID result
      else some bus

/-- `AcceptConn`; when a call after `accept` fails, nothing is left of the new
socket but the counter. -/
def acceptConn (bus : CBus) (rounds : ℕ) (result : ConnectResult) :
    Option CBus :=
  let cnt := nextClientPos bus.connPosCnt
  match result with
  | .socketFailed => some bus
  | .connected newSockID results =>
      (searchPos bus.posConnMap nextClientPos rounds cnt).map
        fun curConnPos =>
          { bus with
            connPosCnt := cnt
            posConnMap := Function.update bus.posConnMap curConnPos
              (some (newConn newSockID results)) }
  | _ =>
      (searchPos bus.posConnMap nextClientPos rounds cnt).map
        fun _ => { bus with connPosCnt := cnt }

/-- The `EPOLLOUT` branch of `Run` for a connection. -/
def pollOut (bus : CBus) (curConnPos : UInt32) : CBus :=
  match bus.posConnMap curConnPos with
  | none => bus
  | some conn =>
      match conn.pollOut with
      | some kept =>
          { bus with
            posConnMap :=
              Function.update bus.posConnMap curConnPos (some kept) }
      | none => bus.releaseConn curConnPos

/-! ## Runs -/

/-- The calls that change `m_PosConnMap` or `m_mapClusterInfo`.  `ForwardMsg`
and `ProcessPkg` are made of these and of changes to the servers. -/
inductive LinkAction where
  | hello (clusterID : UInt32) (result : ConnectResult)
  | accept (rounds : ℕ) (result : ConnectResult)
  | release (curConnPos : UInt32)
  | send (clusterID : UInt32) (pSendBuff : List UInt8)
  | pollOut (curConnPos : UInt32)
  | servers (mapSvrInfo : UInt32 → Option ServerInfo)

def linkStep (bus : CBus) : LinkAction → Option CBus
  | .hello clusterID result => bus.recvHelloMessage clusterID result
  | .accept rounds result => bus.acceptConn rounds result
  | .release curConnPos =>
      (bus.posConnMap curConnPos).map fun _ => bus.releaseConn curConnPos
  | .send clusterID pSendBuff =>
      (bus.findCluster clusterID).map fun info =>
        (bus.send2Cluster info pSendBuff).2
  | .pollOut curConnPos => some (bus.pollOut curConnPos)
  | .servers mapSvrInfo => some { bus with mapSvrInfo := mapSvrInfo }

/-- The position for which an action calls `ReleaseConn`. -/
def released (bus : CBus) : LinkAction → Option UInt32
  | .release curConnPos => some curConnPos
  | .send clusterID pSendBuff =>
      match bus.findCluster clusterID with
      | none => none
      | some info =>
          if info.socketID = -1 ∨ info.connPos = 0 then none
          else
            match bus.posConnMap info.connPos with
            | none => none
            | some conn =>
                if (conn.sendOrKeep pSendBuff).2.isNone then
                  some info.connPos
                else none
  | .pollOut curConnPos =>
      match bus.posConnMap curConnPos with
      | none => none
      | some conn =>
          if conn.pollOut.isNone then some curConnPos else none
  | _ => none

/-- `ReleaseConn` is not called for the last position of the range. -/
def KeepsLast (bus : CBus) (action : LinkAction) : Prop :=
  bus.released action ≠ some clusterSockCposMax

instance (bus : CBus) (action : LinkAction) :
    Decidable (KeepsLast bus action) :=
  inferInstanceAs (Decidable (¬ _ = _))

/-- The process with its two listening sockets, which `Init` leaves at the
positions 100 and 150. -/
def listening (bus : CBus) (tcp udp : CConnInfo) : CBus :=
  { bus with
    posConnMap := Function.update
      (Function.update bus.posConnMap 100 (some tcp)) 150 (some udp) }

/-! ## The invariant -/

/-- The positions for links of clusters. -/
def ClusterRange (pos : UInt32) : Prop :=
  clusterSockCposMin < pos ∧ pos ≤ clusterSockCposMax

instance (pos : UInt32) : Decidable (ClusterRange pos) :=
  inferInstanceAs (Decidable (_ ∧ _))

/-- The links of the clusters and the table of connections agree. -/
structure LinkTable (bus : CBus) : Prop where
  keys : (bus.mapClusterInfo.map ClusterInfo.clusterID).Nodup
  none_zero : bus.posConnMap 0 = none
  linked : ∀ info ∈ bus.mapClusterInfo, info.connPos ≠ 0 →
    ClusterRange info.connPos ∧ info.clusterID ≠ bus.clusterID ∧
      ∃ conn, bus.posConnMap info.connPos = some conn ∧
        conn.sockID = info.socketID
  distinct : ∀ info ∈ bus.mapClusterInfo, ∀ other ∈ bus.mapClusterInfo,
    info.connPos = other.connPos → info.connPos ≠ 0 → info = other
  counter : bus.clusterPosCnt = 0 ∨ ClusterRange bus.clusterPosCnt

section Table

variable {bus : CBus} {info : ClusterInfo} {clusterID curConnPos : UInt32}
  {conn : CConnInfo}

theorem mem_of_findCluster
    (hfind : bus.findCluster clusterID = some info) :
    info ∈ bus.mapClusterInfo ∧ info.clusterID = clusterID := by
  refine ⟨List.mem_of_find?_eq_some hfind, ?_⟩
  simpa using List.find?_some hfind

theorem LinkTable.eq_of_clusterID
    (h : bus.LinkTable) {other : ClusterInfo}
    (hinfo : info ∈ bus.mapClusterInfo) (hother : other ∈ bus.mapClusterInfo)
    (heq : info.clusterID = other.clusterID) : info = other :=
  List.inj_on_of_nodup_map h.keys hinfo hother heq

/-- The entry of a connection may change, as long as it keeps its socket. -/
theorem LinkTable.update_some
    (h : bus.LinkTable) (hpos : bus.posConnMap curConnPos = some conn)
    {kept : CConnInfo} (hsock : kept.sockID = conn.sockID) :
    { bus with
      posConnMap := Function.update bus.posConnMap curConnPos
        (some kept) }.LinkTable := by
  have hzero : (0 : UInt32) ≠ curConnPos := by
    rintro rfl
    rw [h.none_zero] at hpos
    cases hpos
  refine ⟨h.keys, ?_, ?_, h.distinct, h.counter⟩
  · dsimp only
    rw [Function.update_of_ne hzero]
    exact h.none_zero
  · intro info hinfo hne
    obtain ⟨hrange, hother, found, hfound, hsame⟩ :=
      h.linked info hinfo hne
    refine ⟨hrange, hother, ?_⟩
    by_cases heq : info.connPos = curConnPos
    · refine ⟨kept, ?_, ?_⟩
      · simp [heq]
      · rw [heq, hpos, Option.some.injEq] at hfound
        rw [hsock, hfound, hsame]
    · refine ⟨found, ?_, hsame⟩
      dsimp only
      rwa [Function.update_of_ne heq]

theorem LinkTable.update_free
    (h : bus.LinkTable) (hfree : bus.posConnMap curConnPos = none)
    (hzero : curConnPos ≠ 0) :
    { bus with
      posConnMap := Function.update bus.posConnMap curConnPos
        (some conn) }.LinkTable := by
  refine ⟨h.keys, ?_, ?_, h.distinct, h.counter⟩
  · dsimp only
    rw [Function.update_of_ne hzero.symm]
    exact h.none_zero
  · intro info hinfo hne
    obtain ⟨hrange, hother, found, hfound, hsame⟩ :=
      h.linked info hinfo hne
    refine ⟨hrange, hother, found, ?_, hsame⟩
    have heq : info.connPos ≠ curConnPos := by
      intro heq
      rw [heq, hfree] at hfound
      cases hfound
    dsimp only
    rwa [Function.update_of_ne heq]

/-- An entry that is not the link of a cluster goes. -/
theorem LinkTable.update_none
    (h : bus.LinkTable)
    (hunlinked : ∀ info ∈ bus.mapClusterInfo, info.connPos ≠ 0 →
      info.connPos ≠ curConnPos) :
    { bus with
      posConnMap := Function.update bus.posConnMap curConnPos none
    }.LinkTable := by
  refine ⟨h.keys, ?_, ?_, h.distinct, h.counter⟩
  · dsimp only
    rw [Function.update_apply]
    split_ifs
    · rfl
    · exact h.none_zero
  · intro info hinfo hne
    obtain ⟨hrange, hother, found, hfound, hsame⟩ :=
      h.linked info hinfo hne
    refine ⟨hrange, hother, found, ?_, hsame⟩
    dsimp only
    rwa [Function.update_of_ne (hunlinked info hinfo hne)]

theorem mem_setLink {socketID : ℤ} {connPos : UInt32} :
    info ∈ (bus.setLink clusterID socketID connPos).mapClusterInfo ↔
      ∃ old ∈ bus.mapClusterInfo,
        (old.clusterID = clusterID ∧ info = ⟨clusterID, socketID, connPos⟩) ∨
          (old.clusterID ≠ clusterID ∧ info = old) := by
  simp only [setLink, List.mem_map]
  apply exists_congr
  intro old
  apply and_congr_right
  intro _
  by_cases heq : old.clusterID = clusterID
  · subst heq
    simp [eq_comm]
  · simp [heq, eq_comm]

theorem setLink_keys (bus : CBus) (clusterID : UInt32) (socketID : ℤ)
    (connPos : UInt32) :
    (bus.setLink clusterID socketID connPos).mapClusterInfo.map
        ClusterInfo.clusterID =
      bus.mapClusterInfo.map ClusterInfo.clusterID := by
  simp only [setLink, List.map_map]
  apply List.map_congr_left
  intro info _
  dsimp only [Function.comp_apply]
  split_ifs
  · rfl
  · rfl

theorem LinkTable.findCluster_eq
    (h : bus.LinkTable) (hinfo : info ∈ bus.mapClusterInfo) :
    bus.findCluster info.clusterID = some info := by
  cases hfind : bus.findCluster info.clusterID with
  | none =>
      have hnone := List.find?_eq_none.mp hfind info hinfo
      simp at hnone
  | some found =>
      obtain ⟨hmem, heq⟩ := mem_of_findCluster hfind
      rw [h.eq_of_clusterID hmem hinfo heq]

theorem dropLink_clusterID (bus : CBus) (info : ClusterInfo) :
    (bus.dropLink info).clusterID = bus.clusterID := by
  unfold dropLink
  split_ifs
  · rfl
  · rfl

theorem mem_dropLink (hinfo : info ∈ bus.mapClusterInfo) :
    ⟨info.clusterID, -1, 0⟩ ∈ (bus.dropLink info).mapClusterInfo := by
  unfold dropLink
  split_ifs with hlink
  · exact mem_setLink.mpr ⟨info, hinfo, .inl ⟨rfl, rfl⟩⟩
  · rw [not_or, not_not, not_not] at hlink
    obtain ⟨hsock, hpos⟩ := hlink
    rwa [← hsock, ← hpos]

theorem LinkTable.dropLink
    (h : bus.LinkTable) (hinfo : info ∈ bus.mapClusterInfo) :
    (bus.dropLink info).LinkTable := by
  unfold CBus.dropLink
  split_ifs with hlink
  · -- another cluster that is left with a link has it at another position
    have hkept (other : ClusterInfo) (hother : other ∈ bus.mapClusterInfo)
        (hid : other.clusterID ≠ info.clusterID) (hne : other.connPos ≠ 0) :
        other.connPos ≠ info.connPos := by
      intro heq
      exact hid (congrArg _ (h.distinct other hother info hinfo heq hne))
    refine ⟨?_, ?_, ?_, ?_, h.counter⟩
    · rw [setLink_keys]
      exact h.keys
    · change Function.update bus.posConnMap info.connPos none 0 = none
      rw [Function.update_apply]
      split_ifs
      · rfl
      · exact h.none_zero
    · intro link hmem hne
      obtain ⟨old, hold, ⟨_, rfl⟩ | ⟨hid, rfl⟩⟩ := mem_setLink.mp hmem
      · exact absurd rfl hne
      · obtain ⟨hrange, hother, found, hfound, hsame⟩ :=
          h.linked link hold hne
        refine ⟨hrange, hother, found, ?_, hsame⟩
        change Function.update bus.posConnMap info.connPos none
          link.connPos = some found
        rwa [Function.update_of_ne (hkept link hold hid hne)]
    · intro link hmem other hother heq hne
      obtain ⟨old, hold, ⟨_, rfl⟩ | ⟨_, rfl⟩⟩ := mem_setLink.mp hmem
      · exact absurd rfl hne
      · obtain ⟨old', hold', ⟨_, rfl⟩ | ⟨_, rfl⟩⟩ := mem_setLink.mp hother
        · exact absurd heq hne
        · exact h.distinct link hold other hold' heq hne
  · exact h

/-- `ReleaseConn` on the link of a cluster drops the link, except at the last
position of the range. -/
theorem LinkTable.releaseConn_eq
    (h : bus.LinkTable) (hinfo : info ∈ bus.mapClusterInfo)
    (hne : info.connPos ≠ 0) (hlast : info.connPos ≠ clusterSockCposMax) :
    bus.releaseConn info.connPos = bus.dropLink info := by
  obtain ⟨⟨hmin, hmax⟩, hother, _⟩ := h.linked info hinfo hne
  have hrange : clusterSockCposMin < info.connPos ∧
      info.connPos < clusterSockCposMax :=
    ⟨hmin, UInt32.lt_of_le_of_ne hmax hlast⟩
  have hfind : (bus.mapClusterInfo.find? fun other =>
      other.connPos = info.connPos) = some info := by
    cases hfind : bus.mapClusterInfo.find? fun other =>
        other.connPos = info.connPos with
    | none =>
        have hnone := List.find?_eq_none.mp hfind info hinfo
        simp at hnone
    | some found =>
        have heq : found.connPos = info.connPos := by
          simpa using List.find?_some hfind
        have hmem := List.mem_of_find?_eq_some hfind
        rw [h.distinct found hmem info hinfo heq (by rwa [heq])]
  have hcluster : ({ bus with
      posConnMap := Function.update bus.posConnMap info.connPos none
      } : CBus).findCluster info.clusterID = some info := h.findCluster_eq hinfo
  simp only [releaseConn, if_pos hrange, hfind, disconnetCluster,
    if_neg hother, hcluster, CBus.dropLink]
  rw [if_pos (Or.inr hne), if_pos (Or.inr hne), Function.update_idem]

/-- `ReleaseConn` keeps the table at every position but the last. -/
theorem LinkTable.releaseConn
    (h : bus.LinkTable) (hlast : curConnPos ≠ clusterSockCposMax) :
    (bus.releaseConn curConnPos).LinkTable := by
  by_cases hlinked : ∃ info ∈ bus.mapClusterInfo,
      info.connPos ≠ 0 ∧ info.connPos = curConnPos
  · obtain ⟨info, hinfo, hne, rfl⟩ := hlinked
    rw [h.releaseConn_eq hinfo hne hlast]
    exact h.dropLink hinfo
  · have hunlinked (info : ClusterInfo) (hinfo : info ∈ bus.mapClusterInfo)
        (hne : info.connPos ≠ 0) : info.connPos ≠ curConnPos :=
      fun heq => hlinked ⟨info, hinfo, hne, heq⟩
    have herased := h.update_none hunlinked
    unfold CBus.releaseConn
    dsimp only
    split_ifs with hrange
    · have hnone : (bus.mapClusterInfo.find? fun info =>
          info.connPos = curConnPos) = none := by
        apply List.find?_eq_none.mpr
        intro info hinfo heq
        have heq := of_decide_eq_true heq
        apply hunlinked info hinfo _ heq
        rw [heq]
        rintro rfl
        exact absurd hrange.1 (by decide)
      rw [hnone]
      exact herased
    · exact herased

/-! ### The search for a position -/

theorem searchPos_cases
    {posConnMap : PosConnMap} {next : UInt32 → UInt32} {start pos : UInt32}
    {rounds : ℕ} (InRange : UInt32 → Prop)
    (hnext : ∀ pos, InRange pos → InRange (next pos)) (hstart : InRange start)
    (hsearch : searchPos posConnMap next rounds start = some pos) :
    posConnMap pos = none ∧ InRange pos := by
  constructor
  · exact probe_none hsearch
  · exact probe_mem hnext hstart hsearch

theorem bounds_cluster :
    Bounds
      (fun pos => decide (pos < clusterSockCposMin ∨ clusterSockCposMax < pos))
      clusterSockCposMin clusterSockCposMax :=
  ⟨by decide, by decide, fun _ => decide_eq_true_iff⟩

theorem nextClusterPos_range {pos : UInt32}
    (hpos : pos = 0 ∨ ClusterRange pos) :
    ClusterRange (nextClusterPos pos) := by
  obtain rfl | ⟨hmin, hmax⟩ := hpos
  · decide
  · exact nextPosition_inside bounds_cluster (UInt32.le_of_lt hmin) hmax

theorem nextClientPos_range (pos : UInt32) :
    clientSockCposMin ≤ nextClientPos pos := by
  rw [nextClientPos, nextPosition]
  split_ifs with hout
  · decide
  · exact UInt32.not_lt.mp (decide_eq_true_iff.not.mp hout)

/-! ### The calls -/

/-- A cluster gets a link at a free position. -/
theorem LinkTable.setLink
    (h : bus.LinkTable) (hother : clusterID ≠ bus.clusterID)
    (hfree : bus.posConnMap curConnPos = none)
    (hrange : ClusterRange curConnPos) :
    ({ bus with
      posConnMap := Function.update bus.posConnMap curConnPos (some conn)
      } : CBus).setLink clusterID conn.sockID curConnPos |>.LinkTable := by
  have hzero : curConnPos ≠ 0 := by
    rintro rfl
    exact absurd hrange.1 (by decide)
  have hnew : ({ bus with
      posConnMap := Function.update bus.posConnMap curConnPos (some conn)
      } : CBus).LinkTable := h.update_free hfree hzero
  have hfresh (other : ClusterInfo) (hmem : other ∈ bus.mapClusterInfo)
      (hne : other.connPos ≠ 0) : other.connPos ≠ curConnPos := by
    intro heq
    obtain ⟨_, _, found, hfound, _⟩ := h.linked other hmem hne
    rw [heq, hfree] at hfound
    cases hfound
  refine ⟨?_, hnew.none_zero, ?_, ?_, h.counter⟩
  · rw [setLink_keys]
    exact h.keys
  · intro link hmem hne
    obtain ⟨old, hold, ⟨_, rfl⟩ | ⟨_, rfl⟩⟩ := mem_setLink.mp hmem
    · refine ⟨hrange, hother, conn, ?_, rfl⟩
      exact Function.update_self ..
    · exact hnew.linked link hold hne
  · intro link hmem other hmem' heq hne
    obtain ⟨old, hold, ⟨_, rfl⟩ | ⟨_, rfl⟩⟩ := mem_setLink.mp hmem
    · obtain ⟨old', hold', ⟨_, rfl⟩ | ⟨_, rfl⟩⟩ := mem_setLink.mp hmem'
      · rfl
      · exact absurd heq.symm (hfresh other hold' (by rwa [← heq]))
    · obtain ⟨old', hold', ⟨_, rfl⟩ | ⟨_, rfl⟩⟩ := mem_setLink.mp hmem'
      · exact absurd heq (hfresh link hold hne)
      · exact h.distinct link hold other hold' heq hne

theorem LinkTable.with_counter
    (h : bus.LinkTable) {cnt : UInt32} (hcnt : ClusterRange cnt) :
    { bus with clusterPosCnt := cnt }.LinkTable :=
  ⟨h.keys, h.none_zero, h.linked, h.distinct, .inr hcnt⟩

theorem LinkTable.connectCluster
    (h : bus.LinkTable) {result : ConnectResult} {after : CBus}
    (hconnect : bus.connectCluster clusterID result = some after) :
    after.LinkTable := by
  unfold CBus.connectCluster at hconnect
  split_ifs at hconnect with hown
  · cases hconnect
    exact h
  · cases hfind : bus.findCluster clusterID with
    | none =>
        rw [hfind] at hconnect
        cases hconnect
        exact h
    | some info =>
        rw [hfind] at hconnect
        obtain ⟨hinfo, rfl⟩ := mem_of_findCluster hfind
        have hdropped := h.dropLink hinfo
        have hcnt := nextClusterPos_range hdropped.counter
        cases result with
        | socketFailed =>
            cases hconnect
            exact hdropped
        | connectFailed =>
            cases hconnect
            exact hdropped
        | getsocknameFailed =>
            cases hconnect
            exact hdropped
        | epollFailed =>
            obtain ⟨_, _, rfl⟩ := Option.map_eq_some_iff.mp hconnect
            exact hdropped.with_counter hcnt
        | connected socketID results =>
            obtain ⟨pos, hsearch, rfl⟩ := Option.map_eq_some_iff.mp hconnect
            obtain ⟨hfree, hrange⟩ := searchPos_cases ClusterRange
              (fun pos hpos => nextClusterPos_range (.inr hpos)) hcnt hsearch
            refine (hdropped.with_counter hcnt).setLink ?_ hfree hrange
            dsimp only
            rwa [dropLink_clusterID]

theorem LinkTable.recvHelloMessage
    (h : bus.LinkTable) {result : ConnectResult} {after : CBus}
    (hhello : bus.recvHelloMessage clusterID result = some after) :
    after.LinkTable := by
  unfold CBus.recvHelloMessage at hhello
  cases hfind : bus.findCluster clusterID with
  | none =>
      rw [hfind] at hhello
      cases hhello
      exact h
  | some info =>
      rw [hfind] at hhello
      dsimp only at hhello
      split_ifs at hhello with hlink
      · exact h.connectCluster hhello
      · cases hhello
        exact h

theorem LinkTable.acceptConn
    (h : bus.LinkTable) {rounds : ℕ} {result : ConnectResult} {after : CBus}
    (haccept : bus.acceptConn rounds result = some after) :
    after.LinkTable := by
  have hcounted (cnt : UInt32) : { bus with connPosCnt := cnt }.LinkTable :=
    ⟨h.keys, h.none_zero, h.linked, h.distinct, h.counter⟩
  unfold CBus.acceptConn at haccept
  cases result with
  | socketFailed =>
      cases haccept
      exact h
  | connected newSockID results =>
      obtain ⟨pos, hsearch, rfl⟩ := Option.map_eq_some_iff.mp haccept
      obtain ⟨hfree, hrange⟩ := searchPos_cases (clientSockCposMin ≤ ·)
        (fun pos _ => nextClientPos_range pos) (nextClientPos_range _) hsearch
      apply (hcounted (nextClientPos bus.connPosCnt)).update_free hfree
      rintro rfl
      exact absurd hrange (by decide)
  | connectFailed | getsocknameFailed | epollFailed =>
      obtain ⟨_, _, rfl⟩ := Option.map_eq_some_iff.mp haccept
      exact hcounted _

/-! ### Connections keep their sockets -/

theorem sockID_sendNew (conn : CConnInfo) (pBuff : List UInt8) :
    (conn.sendNew pBuff).2.sockID = conn.sockID := by
  unfold CConnInfo.sendNew
  cases hwrite : conn.socket.write pBuff with
  | mk result socket =>
      cases result with
      | wrote | again | failed => rfl

theorem sockID_send (conn : CConnInfo) (pBuff : List UInt8) :
    (conn.send pBuff).2.sockID = conn.sockID := by
  unfold CConnInfo.send
  split_ifs
  · cases hwrite : conn.socket.write conn.remainSendData with
    | mk result socket =>
        cases result with
        | wrote count =>
            dsimp only
            split_ifs
            · rfl
            · exact sockID_sendNew _ pBuff
        | again | failed => rfl
  · exact sockID_sendNew conn pBuff

theorem sockID_addSendData (conn : CConnInfo) (pBuff : List UInt8) :
    (conn.addSendData pBuff).2.sockID = conn.sockID := by
  unfold CConnInfo.addSendData
  split_ifs <;> rfl

theorem sockID_sendRemainData (conn : CConnInfo) :
    conn.sendRemainData.2.sockID = conn.sockID := by
  unfold CConnInfo.sendRemainData
  split_ifs
  · cases hwrite : conn.socket.write conn.remainSendData with
    | mk result socket =>
        cases result with
        | wrote count =>
            dsimp only
            split_ifs <;> rfl
        | again | failed => rfl
  · rfl

theorem sockID_sendOrKeep {pSendBuff : List UInt8} {kept : CConnInfo}
    (hsend : (conn.sendOrKeep pSendBuff).2 = some kept) :
    kept.sockID = conn.sockID := by
  unfold CConnInfo.sendOrKeep at hsend
  dsimp only at hsend
  split_ifs at hsend
  · cases hsend
    exact (sockID_addSendData _ _).trans (sockID_send conn pSendBuff)
  · cases hsend
    exact sockID_send conn pSendBuff

theorem sockID_pollOut {kept : CConnInfo}
    (hpoll : conn.pollOut = some kept) : kept.sockID = conn.sockID := by
  unfold CConnInfo.pollOut at hpoll
  dsimp only at hpoll
  split_ifs at hpoll <;> cases hpoll <;> exact sockID_sendRemainData conn

/-! ### A step -/

theorem LinkTable.send2Cluster
    (h : bus.LinkTable) {pSendBuff : List UInt8}
    (hkeeps : ¬ (info.socketID = -1 ∨ info.connPos = 0) →
      ∀ conn, bus.posConnMap info.connPos = some conn →
      (conn.sendOrKeep pSendBuff).2 = none →
      info.connPos ≠ clusterSockCposMax) :
    (bus.send2Cluster info pSendBuff).2.LinkTable := by
  unfold CBus.send2Cluster
  split_ifs with hactive
  · exact h
  · cases hpos : bus.posConnMap info.connPos with
    | none => exact h
    | some conn =>
        cases hsend : conn.sendOrKeep pSendBuff with
        | mk ret kept =>
            cases kept with
            | none =>
                simp only [hsend]
                exact h.releaseConn
                  (hkeeps hactive conn hpos (by rw [hsend]))
            | some kept =>
                have hsock : kept.sockID = conn.sockID :=
                  sockID_sendOrKeep (by rw [hsend])
                simp only [hsend]
                exact h.update_some hpos hsock

theorem LinkTable.pollOut
    (h : bus.LinkTable)
    (hkeeps : ∀ conn, bus.posConnMap curConnPos = some conn →
      conn.pollOut = none → curConnPos ≠ clusterSockCposMax) :
    (bus.pollOut curConnPos).LinkTable := by
  unfold CBus.pollOut
  cases hpos : bus.posConnMap curConnPos with
  | none => exact h
  | some conn =>
      cases hpoll : conn.pollOut with
      | none =>
          simp only [hpoll]
          exact h.releaseConn (hkeeps conn hpos hpoll)
      | some kept =>
          simp only [hpoll]
          exact h.update_some hpos (sockID_pollOut hpoll)

theorem LinkTable.linkStep
    (h : bus.LinkTable) {action : LinkAction} {after : CBus}
    (hkeeps : KeepsLast bus action)
    (hstep : bus.linkStep action = some after) : after.LinkTable := by
  cases action with
  | hello clusterID result => exact h.recvHelloMessage hstep
  | accept rounds result => exact h.acceptConn hstep
  | release curConnPos =>
      obtain ⟨_, _, rfl⟩ := Option.map_eq_some_iff.mp hstep
      apply h.releaseConn
      rintro rfl
      exact hkeeps rfl
  | send clusterID pSendBuff =>
      obtain ⟨info, hfind, rfl⟩ := Option.map_eq_some_iff.mp hstep
      apply h.send2Cluster
      intro hactive conn hpos hnone hlast
      apply hkeeps
      simp only [released, hfind, if_neg hactive, hpos, hnone,
        Option.isNone_none, if_true]
      rw [hlast]
  | pollOut curConnPos =>
      cases hstep
      apply h.pollOut
      rintro conn hpos hnone rfl
      apply hkeeps
      simp only [released, hpos, hnone, Option.isNone_none, if_true]
  | servers mapSvrInfo =>
      cases hstep
      exact ⟨h.keys, h.none_zero, h.linked, h.distinct, h.counter⟩

theorem Tables.linkTable
    {ini : Ini} {attach : UInt32 → Option ShmQueue.CShmQueue} {own : UInt32}
    {clusters : List UInt32} {entries : List (UInt32 × UInt32)}
    (h : Tables ini attach own clusters entries bus) (tcp udp : CConnInfo) :
    (bus.listening tcp udp).LinkTable := by
  refine ⟨h.keys_nodup, ?_, ?_, ?_, .inl h.clusterPosCnt_eq⟩
  · have htcp : (0 : UInt32) ≠ 100 := by decide
    have hudp : (0 : UInt32) ≠ 150 := by decide
    simp only [listening, Function.update_of_ne hudp,
      Function.update_of_ne htcp, h.posConnMap_eq]
  · intro info hinfo hne
    exact absurd (h.unlinked info hinfo).2 hne
  · intro info hinfo other hother heq hne
    exact absurd (h.unlinked info hinfo).2 hne

/-- A cluster has a connection in the table under its socket. -/
def Linked (bus : CBus) (info : ClusterInfo) : Prop :=
  ∃ conn, bus.posConnMap info.connPos = some conn ∧
    conn.sockID = info.socketID

theorem LinkTable.connPos_ne_zero_iff
    (h : bus.LinkTable) (hinfo : info ∈ bus.mapClusterInfo) :
    info.connPos ≠ 0 ↔ bus.Linked info := by
  constructor
  · intro hne
    exact (h.linked info hinfo hne).2.2
  · rintro ⟨conn, hconn, _⟩ hzero
    rw [hzero, h.none_zero] at hconn
    cases hconn

theorem LinkTable.hello_connects
    (h : bus.LinkTable) (hinfo : info ∈ bus.mapClusterInfo)
    (hclosed : ¬ bus.Linked info) (result : ConnectResult) :
    bus.recvHelloMessage info.clusterID result =
      bus.connectCluster info.clusterID result := by
  have hzero : info.connPos = 0 := by
    by_contra hne
    exact hclosed ((h.connPos_ne_zero_iff hinfo).mp hne)
  unfold CBus.recvHelloMessage
  rw [h.findCluster_eq hinfo]
  dsimp only
  by_cases hown : info.clusterID = bus.clusterID
  · rw [if_neg (fun hlink => hlink.1 hown), CBus.connectCluster, if_pos hown]
  · rw [if_pos ⟨hown, .inr hzero⟩]

end Table

/-! ## Every run -/

/-- In every run that does not release the last position, the links and the
table of connections agree, no two clusters share a position, a cluster whose
connection is released is left without a link, and a cluster without a link
that says hello is connected again. -/
theorem links_consistent
    {ini : Ini} {attach : UInt32 → Option ShmQueue.CShmQueue}
    {clusterID : UInt32} {tcp udp : CConnInfo} {start bus : CBus}
    (hinit : init ini attach clusterID = some start)
    (hreach : Transition.Reaches linkStep KeepsLast
      (start.listening tcp udp) bus) :
    (∀ info ∈ bus.mapClusterInfo, info.connPos ≠ 0 ↔ bus.Linked info) ∧
      (∀ info ∈ bus.mapClusterInfo, ∀ other ∈ bus.mapClusterInfo,
        info.connPos ≠ 0 → info.connPos = other.connPos → info = other) ∧
      (∀ info ∈ bus.mapClusterInfo, info.connPos ≠ 0 →
        KeepsLast bus (.release info.connPos) →
        (bus.releaseConn info.connPos).findCluster info.clusterID =
          some ⟨info.clusterID, -1, 0⟩) ∧
      ∀ info ∈ bus.mapClusterInfo, ¬ bus.Linked info →
        ∀ result, bus.recvHelloMessage info.clusterID result =
          bus.connectCluster info.clusterID result := by
  have h : bus.LinkTable :=
    hreach.invariant LinkTable ((init_tables hinit).linkTable tcp udp)
      fun before after action hbefore hkeeps hstep =>
        hbefore.linkStep hkeeps hstep
  refine ⟨fun info hinfo => h.connPos_ne_zero_iff hinfo, ?_, ?_,
    fun info hinfo => h.hello_connects hinfo⟩
  · intro info hinfo other hother hne heq
    exact h.distinct info hinfo other hother heq hne
  · intro info hinfo hne hkeeps
    have hlast : info.connPos ≠ clusterSockCposMax := by
      intro hlast
      exact hkeeps (congrArg some hlast)
    rw [h.releaseConn_eq hinfo hne hlast]
    exact (h.dropLink hinfo).findCluster_eq (mem_dropLink hinfo)

/-! ## The last position -/

/-- Two clusters without servers. -/
def twoClusters : Ini :=
  ⟨[(1, []), (2, [])], fun _ => ⟨0, 0, 0, 0, 0⟩⟩

theorem links_consistent_reconnect :
    ∃ start bus, init twoClusters (fun _ => none) 1 = some start ∧
      Transition.Reaches linkStep KeepsLast
        (start.listening (newConn 3 []) (newConn 4 [])) bus ∧
      bus.mapClusterInfo = [⟨1, -1, 0⟩, ⟨2, 6, 200002⟩] ∧
      ∀ info ∈ bus.mapClusterInfo, info.connPos ≠ 0 ↔ bus.Linked info := by
  obtain ⟨start, hinit, hlistening⟩ := Option.map_eq_some_iff.mp
    (show ((init twoClusters (fun _ => none) 1).map fun start =>
      (Transition.replay linkStep KeepsLast
        (start.listening (newConn 3 []) (newConn 4 []))
        [.hello 2 (.connected 5 []), .release 200001,
          .hello 2 (.connected 6 [])]).map CBus.mapClusterInfo) =
      some (some [⟨1, -1, 0⟩, ⟨2, 6, 200002⟩]) by decide)
  obtain ⟨bus, hreplay, hclusters⟩ := Option.map_eq_some_iff.mp hlistening
  have hreach := Transition.reaches_of_replay hreplay
  exact ⟨start, bus, hinit, hreach, hclusters,
    (links_consistent hinit hreach).1⟩

/-- The process of cluster 1 when its counter of positions has reached `cnt`
and cluster 2 is not connected. -/
def unlinkedAt (cnt : UInt32) : CBus :=
  { clusterID := 1
    connPosCnt := 0
    clusterPosCnt := cnt
    posConnMap := Function.update
      (Function.update (fun _ => none) 100 (some (newConn 3 [])))
      150 (some (newConn 4 []))
    mapClusterInfo := [⟨1, -1, 0⟩, ⟨2, -1, 0⟩]
    mapSvrInfo := fun _ => none
    mapGrpInfo := fun _ => none }

/-- The same process when cluster 2 has been connected at the counter. -/
def linkedAt (cnt : UInt32) : CBus :=
  { unlinkedAt cnt with
    posConnMap := Function.update (unlinkedAt cnt).posConnMap cnt
      (some (newConn 5 []))
    mapClusterInfo := [⟨1, -1, 0⟩, ⟨2, 5, cnt⟩] }

theorem unlinkedAt_free {pos cnt : UInt32} (hpos : ClusterRange pos) :
    (unlinkedAt cnt).posConnMap pos = none := by
  have htcp : pos ≠ 100 := by
    rintro rfl
    exact absurd hpos.1 (by decide)
  have hudp : pos ≠ 150 := by
    rintro rfl
    exact absurd hpos.1 (by decide)
  simp only [unlinkedAt, Function.update_of_ne hudp,
    Function.update_of_ne htcp]

theorem searchPos_of_free
    {posConnMap : PosConnMap} {next : UInt32 → UInt32} {start : UInt32}
    {rounds : ℕ} (hfree : posConnMap start = none) (hrounds : rounds ≠ 0) :
    searchPos posConnMap next rounds start = some start := by
  obtain ⟨rounds, rfl⟩ := Nat.exists_eq_succ_of_ne_zero hrounds
  have htaken : ¬ (posConnMap start).isSome = true := by simp [hfree]
  rw [searchPos, probe, if_neg htaken]

theorem linkStep_hello_unlinkedAt {cnt : UInt32}
    (hcnt : ClusterRange (nextClusterPos cnt)) :
    linkStep (unlinkedAt cnt) (.hello 2 (.connected 5 [])) =
      some (linkedAt (nextClusterPos cnt)) := by
  have hsearch : searchPos (unlinkedAt cnt).posConnMap nextClusterPos
      clusterRounds (nextClusterPos cnt) = some (nextClusterPos cnt) :=
    searchPos_of_free (unlinkedAt_free hcnt) (by decide)
  change (searchPos (unlinkedAt cnt).posConnMap nextClusterPos
    clusterRounds (nextClusterPos cnt)).map _ = _
  rw [hsearch]
  rfl

theorem releaseConn_linkedAt {cnt : UInt32} (hcnt : ClusterRange cnt) :
    (linkedAt cnt).releaseConn cnt =
      if cnt < clusterSockCposMax then unlinkedAt cnt
      else { linkedAt cnt with posConnMap := (unlinkedAt cnt).posConnMap } := by
  have hfree : (unlinkedAt cnt).posConnMap cnt = none := unlinkedAt_free hcnt
  have herase : Function.update (Function.update (unlinkedAt cnt).posConnMap
      cnt (some (newConn 5 []))) cnt none = (unlinkedAt cnt).posConnMap := by
    rw [Function.update_idem, ← hfree, Function.update_eq_self]
  have hzero : (0 : UInt32) ≠ cnt := by
    rintro rfl
    exact absurd hcnt.1 (by decide)
  split_ifs with hlast
  · have hfind : (linkedAt cnt).mapClusterInfo.find?
        (fun info => info.connPos = cnt) = some ⟨2, 5, cnt⟩ := by
      simp [linkedAt, hzero]
    simp only [releaseConn, if_pos (And.intro hcnt.1 hlast), hfind]
    simp [disconnetCluster, findCluster, linkedAt, dropLink, setLink,
      unlinkedAt]
    exact hfree.symm
  · simp only [releaseConn, hlast, and_false, if_false]
    simp only [linkedAt, herase]

theorem clusterRange_ofNat {n : ℕ} (hmin : 200000 < n) (hmax : n < 299999) :
    ClusterRange (UInt32.ofNat n) ∧ UInt32.ofNat n < clusterSockCposMax := by
  have hmod : n % 2 ^ 32 = n := Nat.mod_eq_of_lt (by omega)
  simp only [ClusterRange, clusterSockCposMin, clusterSockCposMax,
    UInt32.lt_iff_toNat_lt, UInt32.le_iff_toNat_le, UInt32.toNat_ofNat',
    UInt32.toNat_ofNat, hmod]
  omega

theorem nextClusterPos_ofNat {n : ℕ} (hmin : 200000 < n) (hmax : n < 299999) :
    nextClusterPos (UInt32.ofNat n) = UInt32.ofNat (n + 1) := by
  have hrange := clusterRange_ofNat hmin hmax
  rw [nextClusterPos, nextPosition_of_lt bounds_cluster
    (UInt32.le_of_lt hrange.1.1) hrange.2]
  exact (UInt32.ofNat_add n 1).symm

/-- Every connection of cluster 2 that is closed takes the counter one position
further. -/
theorem reaches_unlinkedAt {start : CBus}
    (hstart : start.listening (newConn 3 []) (newConn 4 []) = unlinkedAt 0)
    (n : ℕ) (hn : n < 99998) :
    Transition.Reaches linkStep (fun _ _ => True)
      (start.listening (newConn 3 []) (newConn 4 []))
      (unlinkedAt (UInt32.ofNat (200001 + n))) := by
  -- a round of the run from any counter before the last position
  have hround (cnt : UInt32) (hcnt : ClusterRange (nextClusterPos cnt))
      (hlast : nextClusterPos cnt < clusterSockCposMax)
      (hreach : Transition.Reaches linkStep (fun _ _ => True)
        (start.listening (newConn 3 []) (newConn 4 [])) (unlinkedAt cnt)) :
      Transition.Reaches linkStep (fun _ _ => True)
        (start.listening (newConn 3 []) (newConn 4 []))
        (unlinkedAt (nextClusterPos cnt)) := by
    have hentry : (linkedAt (nextClusterPos cnt)).posConnMap
        (nextClusterPos cnt) = some (newConn 5 []) := by
      simp [linkedAt]
    have hrelease : linkStep (linkedAt (nextClusterPos cnt))
        (.release (nextClusterPos cnt)) =
        some (unlinkedAt (nextClusterPos cnt)) := by
      rw [linkStep, hentry, Option.map_some, releaseConn_linkedAt hcnt,
        if_pos hlast]
    exact (hreach.next trivial (linkStep_hello_unlinkedAt hcnt)).next
      trivial hrelease
  induction n with
  | zero =>
      refine hround 0 (by decide) (by decide) ?_
      rw [hstart]
      exact .refl
  | succ n ih =>
      have hnext : nextClusterPos (UInt32.ofNat (200001 + n)) =
          UInt32.ofNat (200001 + (n + 1)) :=
        nextClusterPos_ofNat (by omega) (by omega)
      obtain ⟨hrange, hlast⟩ := clusterRange_ofNat
        (show 200000 < 200001 + (n + 1) by omega) (by omega)
      rw [← hnext] at hrange hlast ⊢
      exact hround _ hrange hlast (ih (by omega))

/-- After 99999 connections of one cluster the link at position 299999 is
closed, and the cluster is never connected again. -/
theorem last_position_lost :
    ∃ start bus info, init twoClusters (fun _ => none) 1 = some start ∧
      Transition.Reaches linkStep (fun _ _ => True)
        (start.listening (newConn 3 []) (newConn 4 [])) bus ∧
      info ∈ bus.mapClusterInfo ∧ info.clusterID = 2 ∧ info.connPos ≠ 0 ∧
      ¬ bus.Linked info ∧
      (∀ result, bus.recvHelloMessage 2 result = some bus) ∧
      bus.connectCluster 2 .socketFailed ≠ some bus := by
  have hinit : init twoClusters (fun _ => none) 1 =
      some { unlinkedAt 0 with posConnMap := fun _ => none } := rfl
  have hstart : ({ unlinkedAt 0 with posConnMap := fun _ => none } :
      CBus).listening (newConn 3 []) (newConn 4 []) = unlinkedAt 0 := rfl
  have hhello : linkStep (unlinkedAt (UInt32.ofNat (200001 + 99997)))
      (.hello 2 (.connected 5 [])) = some (linkedAt 299999) :=
    linkStep_hello_unlinkedAt (by decide)
  have hconnected :=
    (reaches_unlinkedAt hstart 99997 (by decide)).next trivial hhello
  have hreleased : linkStep (linkedAt 299999) (.release 299999) =
      some { linkedAt 299999 with
        posConnMap := (unlinkedAt 299999).posConnMap } :=
    congrArg some (releaseConn_linkedAt (by decide))
  refine ⟨_, _, ⟨2, 5, 299999⟩, hinit, hconnected.next trivial hreleased, ?_,
    rfl, by decide, ?_, fun _ => rfl, ?_⟩
  · decide
  · rintro ⟨conn, hconn, _⟩
    cases hconn
  · intro hsame
    have hclusters := congrArg (Option.map CBus.mapClusterInfo) hsame
    exact absurd hclusters (by decide)

end CBus

end MessageBus.Bus
