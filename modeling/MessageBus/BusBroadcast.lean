import MessageBus.BusTables
import MessageBus.Handout

/-!
# Broadcasts of the bus

The two loops of `CBus::ForwardMsg` hand out copies: to the members of a group,
through a local queue or a link, and to the other clusters when a server has
changed its state.  Both loops return at the first copy that is refused.
-/

namespace MessageBus.Bus

open ShmQueue
open Send
open Handout

/-- Where a copy goes. -/
inductive Target where
  | queue (serverID : UInt32)
  | link (connPos : UInt32)
  | nowhere
deriving DecidableEq

/-- What stands behind a target. -/
inductive Outlet where
  /-- Nothing takes the copy and nothing is reported. -/
  | silent
  /-- An unknown server, or a position without a connection. -/
  | broken
  | queue (pQueue : CShmQueue)
  | link (conn : CConnInfo)

/-- A copy is given to an outlet; `none` if it is refused. -/
def Outlet.take : Outlet → List UInt8 → Option Outlet
  | .silent, _ => some .silent
  | .broken, _ => none
  | .queue pQueue, copy =>
      if (pQueue.inQueue copy).1 = 0 then
        some (.queue (pQueue.inQueue copy).2)
      else none
  | .link conn, copy => (conn.sendOrKeep copy).2.map .link

/-- A ring that holds messages, or a connection that carries a stream. -/
def Outlet.Fine : Outlet → Prop
  | .queue pQueue => ∃ messages, pQueue.Holds messages
  | .link conn => ∃ stream, conn.Carries stream
  | _ => True

/-- The bytes that have gone through an outlet and are not taken out. -/
def Outlet.size : Outlet → ℕ
  | .queue pQueue =>
      usedSpace pQueue.queueDataSize pQueue.uiHead pQueue.uiTail
  | .link conn => (conn.socket.written ++ conn.remainSendData).length
  | _ => 0

theorem Outlet.grows :
    Grows Outlet.take Outlet.Fine (fun copy => copy ≠ [] ∧ copy.length < 2 ^ 31)
      (fun outlet => outlet = .silent) Outlet.size := by
  refine ⟨?_, ?_⟩
  · rintro outlet copy rfl
    rfl
  · intro outlet copy next hfine ⟨hne, hlen⟩ hbusy htake
    have hpos : 0 < copy.length := List.length_pos_iff.mpr hne
    cases outlet with
    | silent => exact absurd rfl hbusy
    | broken => cases htake
    | queue pQueue =>
        obtain ⟨messages, hholds⟩ := hfine
        simp only [Outlet.take] at htake
        split_ifs at htake with hret
        cases htake
        have hroom := (inQueue_success_iff hholds (by omega)).mp hret
        have hafter := (inQueue_of_room hholds hroom.1 hroom.2).2.1
        refine ⟨⟨_, hafter⟩, by simp, ?_⟩
        simp only [Outlet.size]
        rw [hholds.usedSpace_eq, hafter.usedSpace_eq, usedBytes_append,
          usedBytes_cons]
        omega
    | link conn =>
        obtain ⟨stream, hcarries⟩ := hfine
        obtain ⟨kept, hkept, rfl⟩ := Option.map_eq_some_iff.mp htake
        have hafter := (hcarries.sendOrKeep
          (Prod.ext rfl hkept : conn.sendOrKeep copy = (_, some kept))).2
        refine ⟨⟨_, hafter⟩, by simp, ?_⟩
        simp only [Outlet.size]
        rw [hcarries.stream_eq, hafter.stream_eq, List.length_append]
        omega

namespace CBus

/-- The target of what `Send2Cluster` sends to a cluster. -/
def linkTarget (bus : CBus) (clusterID : UInt32) : Target :=
  match bus.findCluster clusterID with
  | none => .nowhere
  | some info =>
      if info.socketID = -1 ∨ info.connPos = 0 then .nowhere
      else .link info.connPos

/-- The target of a copy for a server. -/
def target (bus : CBus) (dstID : UInt32) : Target :=
  match bus.mapSvrInfo dstID with
  | none => .queue dstID
  | some info =>
      if info.clusterID = bus.clusterID then .queue dstID
      else bus.linkTarget info.clusterID

def outlet (bus : CBus) : Target → Outlet
  | .queue serverID =>
      match bus.mapSvrInfo serverID with
      | none => .broken
      | some info =>
          match info.pQueue with
          | none => .silent
          | some pQueue => .queue pQueue
  | .link connPos =>
      match bus.posConnMap connPos with
      | none => .broken
      | some conn => .link conn
  | .nowhere => .silent

/-- The packet that `ForwardMsg` makes of a packet for one destination. -/
def copyFor (now : UInt64) (pkg : List UInt8) (dstID : UInt32) : List UInt8 :=
  (copyHeader now (BusHeader.read pkg) dstID).writeTo pkg

/-- The copies that `ForwardMsg` has to hand out for a broadcast, in its order:
one for every member of a group, or one for every other cluster when a server
has changed its state. -/
def broadcast (parsers : Parsers) (now : UInt64) (bus : CBus)
    (pkg : List UInt8) : Option (List (Target × List UInt8)) :=
  let header := BusHeader.read pkg
  let pkgLen := asInt header.pkgLen
  if BusHeader.getHeaderLen ≤ pkg.length ∧ (pkg.length : ℤ) = pkgLen ∧
      pkgLen ≤ Receive.xyPkgMaxLen then
    if header.cmdID = cmdStateChange then
      if header.sendType = toSrv then
        (parsers.stateChangeMsg (pkg.drop BusHeader.getHeaderLen)).bind
          fun change => (bus.mapSvrInfo change.1.toUInt32).map fun _ =>
            ((bus.mapClusterInfo.map ClusterInfo.clusterID).filter
              fun clusterID => clusterID ≠ bus.clusterID).map
                fun clusterID => (bus.linkTarget clusterID, pkg)
      else none
    else if header.sendType = toGrpAllnome ∨ header.sendType = toGrpAll then
      (bus.mapGrpInfo header.dstID).map fun members =>
        (members.filter fun member =>
          ¬ (member = header.srcID ∧ header.sendType = toGrpAllnome)).map
            fun member => (bus.target member, copyFor now pkg member)
    else none
  else none

/-- The process without some destinations in its lists. -/
def without (bus : CBus) (gone : Target → Prop) [DecidablePred gone] : CBus :=
  { bus with
    mapGrpInfo := fun groupID => (bus.mapGrpInfo groupID).map fun members =>
      members.filter fun member => ¬ gone (bus.target member)
    mapClusterInfo := bus.mapClusterInfo.filter fun info =>
      ¬ gone (bus.linkTarget info.clusterID) }

/-! ## One copy -/

/-- The keys of `m_mapClusterInfo` are distinct, as those of any map. -/
def DistinctKeys (bus : CBus) : Prop :=
  (bus.mapClusterInfo.map ClusterInfo.clusterID).Nodup

/-- The tables by which copies find their targets are the same. -/
structure SameTables (bus next : CBus) : Prop where
  clusterID_eq : next.clusterID = bus.clusterID
  clusters_eq : next.mapClusterInfo = bus.mapClusterInfo
  servers_eq : ∀ serverID,
    (next.mapSvrInfo serverID).map ServerInfo.clusterID =
      (bus.mapSvrInfo serverID).map ServerInfo.clusterID

section Copy

variable {bus next : CBus} {info : ClusterInfo} {dstID clusterID : UInt32}
  {copy : List UInt8} {ret : ℤ}

theorem SameTables.refl (bus : CBus) : SameTables bus bus :=
  ⟨rfl, rfl, fun _ => rfl⟩

theorem SameTables.linkTarget_eq (h : SameTables bus next) :
    next.linkTarget = bus.linkTarget := by
  funext clusterID
  unfold linkTarget findCluster
  rw [h.clusters_eq]

theorem SameTables.target_eq (h : SameTables bus next) :
    next.target = bus.target := by
  funext dstID
  have hserver := h.servers_eq dstID
  unfold target
  rw [h.clusterID_eq, h.linkTarget_eq]
  cases hnext : next.mapSvrInfo dstID with
  | none =>
      rw [hnext, Option.map_none, eq_comm, Option.map_eq_none_iff] at hserver
      rw [hserver]
  | some info =>
      rw [hnext, Option.map_some, eq_comm] at hserver
      obtain ⟨old, hold, heq⟩ := Option.map_eq_some_iff.mp hserver
      rw [hold]
      dsimp only
      rw [heq]

theorem SameTables.distinctKeys (h : SameTables bus next)
    (hkeys : bus.DistinctKeys) : next.DistinctKeys := by
  rw [DistinctKeys, h.clusters_eq]
  exact hkeys

theorem SameTables.trans {last : CBus} (h : SameTables bus next)
    (hlast : SameTables next last) : SameTables bus last :=
  ⟨hlast.clusterID_eq.trans h.clusterID_eq,
    hlast.clusters_eq.trans h.clusters_eq,
    fun serverID => (hlast.servers_eq serverID).trans (h.servers_eq serverID)⟩

/-- A connection is given up exactly when the copy is refused. -/
theorem sendOrKeep_ret (conn : CConnInfo) (copy : List UInt8) :
    (conn.sendOrKeep copy).1 = 0 ↔ (conn.sendOrKeep copy).2 ≠ none := by
  unfold CConnInfo.sendOrKeep
  dsimp only
  split_ifs <;> simp

theorem outlet_update_link {connPos : UInt32} (conn : CConnInfo) :
    ({ bus with
      posConnMap := Function.update bus.posConnMap connPos (some conn)
      } : CBus).outlet =
      Function.update bus.outlet (.link connPos) (.link conn) := by
  funext target
  cases target with
  | queue serverID =>
      rw [Function.update_of_ne (by simp)]
      rfl
  | link other =>
      by_cases heq : other = connPos
      · subst heq
        simp [outlet]
      · rw [Function.update_of_ne (by simpa using heq)]
        simp only [outlet]
        rw [Function.update_of_ne heq]
  | nowhere =>
      rw [Function.update_of_ne (by simp)]
      rfl

theorem dropLink_frame (bus : CBus) (info : ClusterInfo) :
    (bus.dropLink info).mapSvrInfo = bus.mapSvrInfo ∧
      ∀ other, other ≠ info.connPos →
        (bus.dropLink info).posConnMap other = bus.posConnMap other := by
  unfold dropLink
  split_ifs
  · refine ⟨rfl, ?_⟩
    intro other hother
    exact Function.update_of_ne hother _ _
  · exact ⟨rfl, fun _ _ => rfl⟩

/-- `ReleaseConn` takes away one connection. -/
theorem releaseConn_frame (hkeys : bus.DistinctKeys) (curConnPos : UInt32) :
    (bus.releaseConn curConnPos).mapSvrInfo = bus.mapSvrInfo ∧
      ∀ other, other ≠ curConnPos →
        (bus.releaseConn curConnPos).posConnMap other =
          bus.posConnMap other := by
  have herased (other : UInt32) (hother : other ≠ curConnPos) :
      Function.update bus.posConnMap curConnPos none other =
        bus.posConnMap other := Function.update_of_ne hother _ _
  unfold releaseConn
  dsimp only
  split_ifs
  · cases hfind : bus.mapClusterInfo.find?
        fun info => info.connPos = curConnPos with
    | none => exact ⟨rfl, herased⟩
    | some info =>
        have hinfo := List.mem_of_find?_eq_some hfind
        have hpos : info.connPos = curConnPos := by
          simpa using List.find?_some hfind
        simp only [disconnetCluster]
        split_ifs
        · exact ⟨rfl, herased⟩
        · cases hcluster : ({ bus with
              posConnMap := Function.update bus.posConnMap curConnPos none
              } : CBus).findCluster info.clusterID with
          | none => exact ⟨rfl, herased⟩
          | some found =>
              have hfound := List.mem_of_find?_eq_some hcluster
              have hsame : found.clusterID = info.clusterID := by
                simpa using List.find?_some hcluster
              have heq : found = info :=
                List.inj_on_of_nodup_map hkeys hfound hinfo hsame
              subst heq
              obtain ⟨hservers, hothers⟩ := dropLink_frame ({ bus with
                posConnMap := Function.update bus.posConnMap curConnPos none
                } : CBus) found
              refine ⟨hservers, ?_⟩
              intro other hother
              exact (hothers other (by rwa [hpos])).trans
                (herased other hother)
  · exact ⟨rfl, herased⟩

theorem send2Cluster_cases
    (hkeys : bus.DistinctKeys)
    (hfind : bus.findCluster clusterID = some info)
    (hsend : bus.send2Cluster info copy = (ret, next)) :
    (ret = 0 ∧ SameTables bus next ∧
      ∃ outlet, (bus.outlet (bus.linkTarget clusterID)).take copy =
          some outlet ∧
        next.outlet =
          Function.update bus.outlet (bus.linkTarget clusterID) outlet) ∨
      (ret ≠ 0 ∧
        (bus.outlet (bus.linkTarget clusterID)).take copy = none ∧
        ∀ other, other ≠ bus.linkTarget clusterID →
          next.outlet other = bus.outlet other) := by
  have htarget : bus.linkTarget clusterID =
      if info.socketID = -1 ∨ info.connPos = 0 then .nowhere
      else .link info.connPos := by
    rw [linkTarget, hfind]
  unfold send2Cluster at hsend
  rw [htarget]
  split_ifs at hsend ⊢ with hactive
  · left
    obtain ⟨rfl, rfl⟩ := Prod.mk.inj hsend
    refine ⟨rfl, .refl _, .silent, rfl, ?_⟩
    exact (Function.update_eq_self Target.nowhere bus.outlet).symm
  · cases hpos : bus.posConnMap info.connPos with
    | none =>
        right
        rw [hpos] at hsend
        obtain ⟨rfl, rfl⟩ := Prod.mk.inj hsend
        refine ⟨by decide, ?_, fun _ _ => rfl⟩
        simp [outlet, hpos, Outlet.take]
    | some conn =>
        rw [hpos] at hsend
        have hret := sendOrKeep_ret conn copy
        cases hkeep : conn.sendOrKeep copy with
        | mk ret' kept =>
            rw [hkeep] at hret
            simp only [hkeep] at hsend
            cases kept with
            | some kept =>
                left
                obtain ⟨rfl, rfl⟩ := Prod.mk.inj hsend
                refine ⟨hret.mpr (by simp), ⟨rfl, rfl, fun _ => rfl⟩,
                  .link kept, ?_, outlet_update_link kept⟩
                simp [outlet, hpos, Outlet.take, hkeep]
            | none =>
                right
                obtain ⟨rfl, rfl⟩ := Prod.mk.inj hsend
                obtain ⟨hservers, hothers⟩ :=
                  releaseConn_frame hkeys info.connPos
                refine ⟨fun hzero => hret.mp hzero rfl, ?_, ?_⟩
                · simp [outlet, hpos, Outlet.take, hkeep]
                · intro other hother
                  cases other with
                  | queue serverID => simp only [outlet, hservers]
                  | link connPos =>
                      have hne : connPos ≠ info.connPos := by
                        rintro rfl
                        exact hother rfl
                      simp only [outlet, hothers connPos hne]
                  | nowhere => rfl

theorem outlet_setQueue {server : ServerInfo}
    (hserver : bus.mapSvrInfo dstID = some server) (pQueue : CShmQueue) :
    (bus.setQueue dstID server pQueue).outlet =
      Function.update bus.outlet (.queue dstID) (.queue pQueue) := by
  funext target
  cases target with
  | queue serverID =>
      by_cases heq : serverID = dstID
      · subst heq
        simp [outlet, setQueue]
      · rw [Function.update_of_ne (by simpa using heq)]
        simp only [outlet, setQueue]
        rw [Function.update_of_ne heq]
  | link connPos =>
      rw [Function.update_of_ne (by simp)]
      rfl
  | nowhere =>
      rw [Function.update_of_ne (by simp)]
      rfl

theorem sameTables_update {server changed : ServerInfo}
    (hserver : bus.mapSvrInfo dstID = some server)
    (hcluster : changed.clusterID = server.clusterID) :
    SameTables bus { bus with
      mapSvrInfo := Function.update bus.mapSvrInfo dstID (some changed) } := by
  refine ⟨rfl, rfl, ?_⟩
  intro serverID
  dsimp only
  by_cases heq : serverID = dstID
  · subst heq
    rw [Function.update_self, hserver, Option.map_some, Option.map_some,
      hcluster]
  · rw [Function.update_of_ne heq]

/-- A round of the delivery loop gives the copy to the outlet of the
destination. -/
theorem deliverOne_cases
    (hkeys : bus.DistinctKeys) {left : Option ℤ}
    (hdeliver : bus.deliverOne dstID copy = (left, next)) :
    (left = none ∧ SameTables bus next ∧
      ∃ outlet, (bus.outlet (bus.target dstID)).take copy = some outlet ∧
        next.outlet =
          Function.update bus.outlet (bus.target dstID) outlet) ∨
      (left = some (-1) ∧
        (bus.outlet (bus.target dstID)).take copy = none ∧
        ∀ other, other ≠ bus.target dstID →
          next.outlet other = bus.outlet other) := by
  unfold deliverOne at hdeliver
  unfold target
  cases hserver : bus.mapSvrInfo dstID with
  | none =>
      right
      rw [hserver] at hdeliver
      obtain ⟨rfl, rfl⟩ := Prod.mk.inj hdeliver
      refine ⟨rfl, ?_, fun _ _ => rfl⟩
      simp [outlet, hserver, Outlet.take]
  | some server =>
      simp only [hserver] at hdeliver ⊢
      split_ifs at hdeliver ⊢ with hown
      · cases hqueue : server.pQueue with
        | none =>
            left
            rw [hqueue] at hdeliver
            obtain ⟨rfl, rfl⟩ := Prod.mk.inj hdeliver
            refine ⟨rfl, .refl _, .silent, ?_, ?_⟩
            · simp [outlet, hserver, hqueue, Outlet.take]
            · have hsilent : bus.outlet (.queue dstID) = .silent := by
                simp [outlet, hserver, hqueue]
              rw [← hsilent, Function.update_eq_self]
        | some pQueue =>
            simp only [hqueue] at hdeliver
            have hbefore : bus.outlet (.queue dstID) = .queue pQueue := by
              simp [outlet, hserver, hqueue]
            have hafter :=
              outlet_setQueue hserver (pQueue.inQueue copy).2
            rw [hbefore]
            by_cases hret : (pQueue.inQueue copy).1 = 0
            · left
              rw [if_neg (by rw [hret]; decide), if_neg (by simpa using hret)]
                at hdeliver
              obtain ⟨rfl, rfl⟩ := Prod.mk.inj hdeliver
              refine ⟨rfl, sameTables_update hserver rfl, _, ?_, hafter⟩
              simp [Outlet.take, hret]
            · right
              rw [if_pos hret, ite_self] at hdeliver
              obtain ⟨rfl, rfl⟩ := Prod.mk.inj hdeliver
              refine ⟨rfl, ?_, ?_⟩
              · simp [Outlet.take, hret]
              · intro other hother
                rw [hafter, Function.update_of_ne hother]
      · cases hfind : bus.findCluster server.clusterID with
        | none =>
            left
            rw [hfind] at hdeliver
            obtain ⟨rfl, rfl⟩ := Prod.mk.inj hdeliver
            have hnowhere : bus.linkTarget server.clusterID = .nowhere := by
              rw [linkTarget, hfind]
            rw [hnowhere]
            refine ⟨rfl, .refl _, .silent, rfl, ?_⟩
            exact (Function.update_eq_self Target.nowhere bus.outlet).symm
        | some cluster =>
            simp only [hfind] at hdeliver
            cases hsend : bus.send2Cluster cluster copy with
            | mk ret sent =>
                rw [hsend] at hdeliver
                obtain ⟨hret, hcases⟩ | ⟨hret, hcases⟩ :=
                  send2Cluster_cases hkeys hfind hsend
                · left
                  rw [if_neg (by simpa using hret)] at hdeliver
                  obtain ⟨rfl, rfl⟩ := Prod.mk.inj hdeliver
                  exact ⟨rfl, hcases⟩
                · right
                  rw [if_pos hret] at hdeliver
                  obtain ⟨rfl, rfl⟩ := Prod.mk.inj hdeliver
                  exact ⟨rfl, hcases⟩

end Copy

/-! ## The loops -/

section Loops

variable {bus : CBus} {target : Target}

theorem copyFor_copy (now : UInt64) (pkg : List UInt8)
    (dstID other : UInt32) :
    copyFor now (copyFor now pkg dstID) other = copyFor now pkg other := by
  have hheader : copyHeader now (copyHeader now (BusHeader.read pkg) dstID)
      other = copyHeader now (BusHeader.read pkg) other := by
    unfold copyHeader
    simp only [BusHeader.mk.injEq, true_and, and_true]
    split_ifs <;> rfl
  have hwrite (header written : BusHeader) :
      header.writeTo (written.writeTo pkg) = header.writeTo pkg := by
    rw [BusHeader.writeTo, BusHeader.drop_writeTo, BusHeader.writeTo]
  unfold copyFor
  rw [BusHeader.read_writeTo, hheader, hwrite]

theorem deliverAll_cons (bus : CBus) (now : UInt64) (pkg : List UInt8)
    (dstID : UInt32) (dsts : List UInt32) :
    deliverAll now bus (BusHeader.read pkg) pkg (dstID :: dsts) =
      match bus.deliverOne dstID (copyFor now pkg dstID) with
      | (some ret, next) => (ret, next)
      | (none, next) =>
          deliverAll now next (BusHeader.read (copyFor now pkg dstID))
            (copyFor now pkg dstID) dsts := by
  rewrite [deliverAll, copyFor, BusHeader.read_writeTo]
  rfl

/-- The delivery loop hands out the copies of the packet. -/
theorem deliverAll_handOut
    (hkeys : bus.DistinctKeys) (now : UInt64) (pkg : List UInt8)
    (dsts : List UInt32)
    (hkept : ¬ Fails Outlet.take bus.outlet
      (dsts.map fun dstID => (bus.target dstID, copyFor now pkg dstID))
      target) :
    (deliverAll now bus (BusHeader.read pkg) pkg dsts).2.outlet target =
      handOut Outlet.take bus.outlet
        (dsts.map fun dstID => (bus.target dstID, copyFor now pkg dstID))
        target := by
  induction dsts generalizing bus pkg with
  | nil => rfl
  | cons dstID dsts ih =>
      rw [List.map_cons] at hkept ⊢
      rw [deliverAll_cons]
      cases hdeliver : bus.deliverOne dstID (copyFor now pkg dstID) with
      | mk left next =>
          obtain ⟨rfl, hsame, outlet, htake, hnext⟩ |
            ⟨rfl, htake, hothers⟩ := deliverOne_cases hkeys hdeliver
          · have hcopies : (dsts.map fun dstID =>
                (bus.target dstID, copyFor now pkg dstID)) =
                dsts.map fun other => (next.target other,
                  copyFor now (copyFor now pkg dstID) other) := by
              simp only [copyFor_copy, hsame.target_eq]
            rw [handOut_cons_of_take htake, ← hnext, hcopies]
            apply ih (hsame.distinctKeys hkeys)
            rwa [← hcopies, hnext, ← fails_cons_of_take htake]
          · rw [handOut_cons_of_refused htake]
            apply hothers
            rintro rfl
            exact hkept (fails_cons_of_refused htake _)

theorem deliverAll_success
    (hkeys : bus.DistinctKeys) (now : UInt64) (pkg : List UInt8)
    (dsts : List UInt32)
    (hnone : ∀ target, ¬ Fails Outlet.take bus.outlet
      (dsts.map fun dstID => (bus.target dstID, copyFor now pkg dstID))
      target) :
    (deliverAll now bus (BusHeader.read pkg) pkg dsts).1 = 0 ∧
      SameTables bus
        (deliverAll now bus (BusHeader.read pkg) pkg dsts).2 := by
  induction dsts generalizing bus pkg with
  | nil => exact ⟨rfl, .refl bus⟩
  | cons dstID dsts ih =>
      rw [List.map_cons] at hnone
      rw [deliverAll_cons]
      cases hdeliver : bus.deliverOne dstID (copyFor now pkg dstID) with
      | mk left next =>
          obtain ⟨rfl, hsame, outlet, htake, hnext⟩ |
            ⟨rfl, htake, hothers⟩ := deliverOne_cases hkeys hdeliver
          · have hlater := ih (hsame.distinctKeys hkeys)
              (copyFor now pkg dstID) ?_
            · exact ⟨hlater.1, hsame.trans hlater.2⟩
            · intro target hfails
              apply hnone target
              rw [fails_cons_of_take htake, ← hnext]
              simpa only [copyFor_copy, hsame.target_eq] using hfails
          · exact absurd (fails_cons_of_refused htake _) (hnone _)

/-- The loop that forwards a change of state hands out the packet. -/
theorem stateChangeAll_handOut
    (hkeys : bus.DistinctKeys) (pkg : List UInt8) (clusters : List UInt32)
    (hkept : ¬ Fails Outlet.take bus.outlet
      ((clusters.filter fun clusterID => clusterID ≠ bus.clusterID).map
        fun clusterID => (bus.linkTarget clusterID, pkg)) target) :
    (stateChangeAll bus pkg clusters).2.outlet target =
      handOut Outlet.take bus.outlet
        ((clusters.filter fun clusterID => clusterID ≠ bus.clusterID).map
          fun clusterID => (bus.linkTarget clusterID, pkg)) target := by
  induction clusters generalizing bus with
  | nil => rfl
  | cons clusterID clusters ih =>
      by_cases hown : clusterID = bus.clusterID
      · rw [List.filter_cons_of_neg (by simp [hown])] at hkept ⊢
        rw [stateChangeAll, ← ih hkeys hkept]
        cases hfind : bus.findCluster clusterID with
        | none => rfl
        | some info =>
            have hid : info.clusterID = clusterID := by
              simpa using List.find?_some hfind
            dsimp only
            rw [if_pos (hid.trans hown)]
      · rw [List.filter_cons_of_pos (by simp [hown]), List.map_cons] at hkept ⊢
        rw [stateChangeAll]
        cases hfind : bus.findCluster clusterID with
        | none =>
            have hnowhere : bus.linkTarget clusterID = .nowhere := by
              rw [linkTarget, hfind]
            have htake : (bus.outlet (bus.linkTarget clusterID)).take pkg =
                some .silent := by
              rw [hnowhere]
              rfl
            have hsame : Function.update bus.outlet
                (bus.linkTarget clusterID) .silent = bus.outlet := by
              rw [hnowhere]
              exact Function.update_eq_self Target.nowhere bus.outlet
            rw [handOut_cons_of_take htake, hsame]
            apply ih hkeys
            rwa [fails_cons_of_take htake, hsame] at hkept
        | some info =>
            have hid : info.clusterID = clusterID := by
              simpa using List.find?_some hfind
            dsimp only
            rw [if_neg (by rwa [hid])]
            cases hsend : bus.send2Cluster info pkg with
            | mk ret next =>
                dsimp only
                obtain ⟨hret, hsame, outlet, htake, hnext⟩ |
                  ⟨hret, htake, hothers⟩ :=
                  send2Cluster_cases hkeys hfind hsend
                · rw [if_neg (by simpa using hret), handOut_cons_of_take htake,
                    ← hnext]
                  rw [fails_cons_of_take htake, ← hnext] at hkept
                  rw [← hsame.linkTarget_eq, ← hsame.clusterID_eq] at hkept ⊢
                  exact ih (hsame.distinctKeys hkeys) hkept
                · rw [if_pos hret, handOut_cons_of_refused htake]
                  apply hothers
                  rintro rfl
                  exact hkept (fails_cons_of_refused htake _)

end Loops

/-! ## `ForwardMsg` -/

section Forward

variable {parsers : Parsers} {now : UInt64} {bus : CBus}
  {pkg : List UInt8} {list : List (Target × List UInt8)} {target : Target}

theorem outlet_setStatus {server : ServerInfo} {serverID : UInt32}
    (hserver : bus.mapSvrInfo serverID = some server) (status : Int32) :
    (bus.setStatus serverID server status).outlet = bus.outlet := by
  funext target
  cases target with
  | queue other =>
      simp only [outlet, setStatus]
      by_cases heq : other = serverID
      · subst heq
        rw [Function.update_self, hserver]
      · rw [Function.update_of_ne heq]
  | link connPos => rfl
  | nowhere => rfl

/-- `ForwardMsg` hands out the copies of a broadcast. -/
theorem forwardMsg_handOut
    (hkeys : bus.DistinctKeys) (rand : ℕ → ℕ)
    (hbroadcast : bus.broadcast parsers now pkg = some list)
    (hkept : ¬ Fails Outlet.take bus.outlet list target) :
    (bus.forwardMsg parsers rand now pkg).2.outlet target =
      handOut Outlet.take bus.outlet list target := by
  unfold broadcast at hbroadcast
  dsimp only at hbroadcast
  split_ifs at hbroadcast with hpkg hstate hsend hgroup
  · -- a server has changed its state
    obtain ⟨change, hparse, hchange⟩ := Option.bind_eq_some_iff.mp hbroadcast
    obtain ⟨server, hserver, rfl⟩ := Option.map_eq_some_iff.mp hchange
    have hsame : SameTables bus
        (bus.setStatus change.1.toUInt32 server change.2) :=
      sameTables_update hserver rfl
    have houtlet := outlet_setStatus hserver change.2
    have hforward : bus.forwardMsg parsers rand now pkg =
        stateChangeAll (bus.setStatus change.1.toUInt32 server change.2) pkg
          (bus.mapClusterInfo.map ClusterInfo.clusterID) := by
      unfold forwardMsg
      rw [if_neg (by omega)]
      dsimp only
      rw [if_neg (by simpa using hpkg.2.1), if_neg (by omega), if_pos hstate,
        if_neg (by simpa using hsend), hparse]
      dsimp only
      rw [hserver]
    rw [hforward]
    rw [← hsame.linkTarget_eq, ← hsame.clusterID_eq, ← houtlet] at hkept ⊢
    have hkeys' : (bus.setStatus change.1.toUInt32 server
        change.2).DistinctKeys := hkeys
    exact stateChangeAll_handOut hkeys' pkg _ hkept
  · -- a message for a group
    obtain ⟨members, hmembers, rfl⟩ := Option.map_eq_some_iff.mp hbroadcast
    have hrandom : ¬ ((BusHeader.read pkg).sendType = toGrpRnd ∨
        (BusHeader.read pkg).sendType = toGrpRndnome) := by
      rintro (heq | heq) <;> rw [heq] at hgroup <;> exact absurd hgroup (by decide)
    have hforward : bus.forwardMsg parsers rand now pkg =
        deliverAll now bus (BusHeader.read pkg) pkg (members.filter
          fun member => ¬ (member = (BusHeader.read pkg).srcID ∧
            (BusHeader.read pkg).sendType = toGrpAllnome)) := by
      unfold forwardMsg destinations
      rw [if_neg (by omega)]
      dsimp only
      rw [if_neg (by simpa using hpkg.2.1), if_neg (by omega), if_neg hstate,
        if_neg hrandom, if_pos hgroup, hmembers]
    rw [hforward]
    exact deliverAll_handOut hkeys now pkg _ hkept

section Without

variable {gone : Target → Prop} [DecidablePred gone]

theorem without_findCluster {clusterID : UInt32}
    (hkept : ¬ gone (bus.linkTarget clusterID)) :
    (bus.without gone).findCluster clusterID = bus.findCluster clusterID := by
  unfold findCluster without
  rw [List.find?_filter]
  congr 1
  funext info
  by_cases heq : info.clusterID = clusterID
  · simp [heq, hkept]
  · simp [heq]

theorem without_linkTarget {clusterID : UInt32}
    (hkept : ¬ gone (bus.linkTarget clusterID)) :
    (bus.without gone).linkTarget clusterID = bus.linkTarget clusterID := by
  rw [linkTarget, without_findCluster hkept, linkTarget]

theorem without_target {dstID : UInt32} (hkept : ¬ gone (bus.target dstID)) :
    (bus.without gone).target dstID = bus.target dstID := by
  have hservers : (bus.without gone).mapSvrInfo = bus.mapSvrInfo := rfl
  have hown : (bus.without gone).clusterID = bus.clusterID := rfl
  unfold target at hkept ⊢
  rw [hservers, hown]
  cases hserver : bus.mapSvrInfo dstID with
  | none => rfl
  | some server =>
      rw [hserver] at hkept
      dsimp only at hkept ⊢
      split_ifs at hkept ⊢
      · rfl
      · exact without_linkTarget hkept

theorem without_outlet : (bus.without gone).outlet = bus.outlet := by
  funext target
  cases target <;> rfl

theorem without_distinctKeys (hkeys : bus.DistinctKeys) :
    (bus.without gone).DistinctKeys :=
  hkeys.sublist ((List.filter_sublist).map _)

theorem map_filter_congr {Source Image : Type} {p : Source → Prop}
    {q : Image → Prop} [DecidablePred p] [DecidablePred q]
    {f g : Source → Image} (hp : ∀ source, p source ↔ q (f source))
    (hg : ∀ source, p source → g source = f source) (sources : List Source) :
    (sources.filter p).map g = (sources.map f).filter q := by
  rw [List.filter_map]
  have hfilter : sources.filter p =
      sources.filter ((fun image => decide (q image)) ∘ f) := by
    apply List.filter_congr
    intro source _
    simp [hp source]
  rw [← hfilter]
  apply List.map_congr_left
  intro source hsource
  exact hg source (of_decide_eq_true (List.mem_filter.mp hsource).2)

/-- Without some destinations the copies for the others are left. -/
theorem without_broadcast
    (hbroadcast : bus.broadcast parsers now pkg = some list) :
    (bus.without gone).broadcast parsers now pkg =
      some (list.filter fun entry => ¬ gone entry.1) := by
  unfold broadcast at hbroadcast ⊢
  dsimp only at hbroadcast ⊢
  have hservers : (bus.without gone).mapSvrInfo = bus.mapSvrInfo := rfl
  have hown : (bus.without gone).clusterID = bus.clusterID := rfl
  split_ifs at hbroadcast ⊢ with hpkg hstate hsend hgroup
  · obtain ⟨change, hparse, hchange⟩ := Option.bind_eq_some_iff.mp hbroadcast
    obtain ⟨server, hserver, rfl⟩ := Option.map_eq_some_iff.mp hchange
    have hclusters : (bus.without gone).mapClusterInfo.map
        ClusterInfo.clusterID =
        (bus.mapClusterInfo.map ClusterInfo.clusterID).filter
          fun clusterID => ¬ gone (bus.linkTarget clusterID) := by
      unfold without
      apply map_filter_congr
      · exact fun _ => .rfl
      · exact fun _ _ => rfl
    rw [hparse, Option.bind_some, hservers, hserver, Option.map_some, hown,
      hclusters, List.filter_comm]
    congr 1
    apply map_filter_congr
    · exact fun _ => .rfl
    · intro clusterID hkept
      rw [without_linkTarget hkept]
  · obtain ⟨members, hmembers, rfl⟩ := Option.map_eq_some_iff.mp hbroadcast
    have hgroups : (bus.without gone).mapGrpInfo (BusHeader.read pkg).dstID =
        some (members.filter fun member => ¬ gone (bus.target member)) := by
      simp [without, hmembers]
    rw [hgroups, Option.map_some, List.filter_comm]
    congr 1
    apply map_filter_congr
    · exact fun _ => .rfl
    · intro member hkept
      rw [without_target hkept]

end Without

/-! ## Isolation -/

/-- What the processes of the bus keep up: distinct keys, and rings and
connections that carry messages. -/
structure Sound (bus : CBus) : Prop where
  keys : bus.DistinctKeys
  queues : ∀ serverID server pQueue,
    bus.mapSvrInfo serverID = some server → server.pQueue = some pQueue →
    ∃ messages, pQueue.Holds messages
  links : ∀ connPos conn, bus.posConnMap connPos = some conn →
    ∃ stream, conn.Carries stream

theorem Sound.fine (h : bus.Sound) (target : Target) :
    (bus.outlet target).Fine := by
  cases target with
  | queue serverID =>
      cases hserver : bus.mapSvrInfo serverID with
      | none => simp [outlet, hserver, Outlet.Fine]
      | some server =>
          cases hqueue : server.pQueue with
          | none => simp [outlet, hserver, hqueue, Outlet.Fine]
          | some pQueue =>
              simp only [outlet, hserver, hqueue]
              exact h.queues serverID server pQueue hserver hqueue
  | link connPos =>
      cases hconn : bus.posConnMap connPos with
      | none => simp [outlet, hconn, Outlet.Fine]
      | some conn =>
          simp only [outlet, hconn]
          exact h.links connPos conn hconn
  | nowhere => trivial

theorem good_of_length {copy : List UInt8} {pkgLen : ℤ}
    (hpkg : BusHeader.getHeaderLen ≤ pkg.length ∧ (pkg.length : ℤ) = pkgLen ∧
      pkgLen ≤ Receive.xyPkgMaxLen) (hcopy : copy.length = pkg.length) :
    copy ≠ [] ∧ copy.length < 2 ^ 31 := by
  obtain ⟨hmin, hlen, hmax⟩ := hpkg
  unfold BusHeader.getHeaderLen at hmin
  unfold Receive.xyPkgMaxLen at hmax
  refine ⟨?_, by omega⟩
  rintro rfl
  rw [List.length_nil] at hcopy
  omega

theorem broadcast_good
    (hbroadcast : bus.broadcast parsers now pkg = some list) :
    ∀ entry ∈ list, entry.2 ≠ [] ∧ entry.2.length < 2 ^ 31 := by
  unfold broadcast at hbroadcast
  dsimp only at hbroadcast
  split_ifs at hbroadcast with hpkg hstate hsend hgroup
  · have hgood := good_of_length hpkg rfl
    obtain ⟨change, _, hchange⟩ := Option.bind_eq_some_iff.mp hbroadcast
    obtain ⟨_, _, rfl⟩ := Option.map_eq_some_iff.mp hchange
    intro entry hentry
    obtain ⟨_, _, rfl⟩ := List.mem_map.mp hentry
    exact hgood
  · obtain ⟨members, _, rfl⟩ := Option.map_eq_some_iff.mp hbroadcast
    intro entry hentry
    obtain ⟨member, _, rfl⟩ := List.mem_map.mp hentry
    exact good_of_length hpkg (BusHeader.writeTo_length _ hpkg.1)

/-- A broadcast reaches every destination that can be reached, as if the failing
ones were not in the lists, exactly if no destination that takes its copies
stands behind one that refuses its copy. -/
theorem broadcast_isolated_iff
    (h : bus.Sound) (rand : ℕ → ℕ)
    (hbroadcast : bus.broadcast parsers now pkg = some list) :
    (∀ entry ∈ list, ¬ Fails Outlet.take bus.outlet list entry.1 →
        feed Outlet.take (bus.outlet entry.1) (copiesFor entry.1 list) =
            some ((bus.forwardMsg parsers rand now pkg).2.outlet entry.1) ∧
          (bus.forwardMsg parsers rand now pkg).2.outlet entry.1 =
            ((bus.without (Fails Outlet.take bus.outlet list)).forwardMsg
              parsers rand now pkg).2.outlet entry.1) ↔
      ∀ before entry after, list = before ++ entry :: after →
        Refused Outlet.take bus.outlet before entry → ∀ later ∈ after,
        Fails Outlet.take bus.outlet list later.1 ∨
          bus.outlet later.1 = .silent := by
  rw [← Outlet.grows.served_iff h.fine (broadcast_good hbroadcast)]
  apply forall₂_congr
  intro entry hentry
  apply forall_congr'
  intro hkept
  have hfull := forwardMsg_handOut h.keys rand hbroadcast hkept
  -- the run without the failing destinations serves all the others
  have houtlet : (bus.without (Fails Outlet.take bus.outlet list)).outlet =
      bus.outlet := without_outlet
  have hnot : ¬ Fails Outlet.take
      (bus.without (Fails Outlet.take bus.outlet list)).outlet
      (kept Outlet.take bus.outlet list) entry.1 := by
    rw [houtlet, Fails, copiesFor_kept hkept]
    exact hkept
  have hwithout := forwardMsg_handOut (without_distinctKeys h.keys) rand
    (without_broadcast hbroadcast) hnot
  rw [houtlet] at hwithout
  rw [hfull, hwithout]
  constructor
  · exact And.left
  · intro hserved
    refine ⟨hserved, ?_⟩
    have hrest := feed_eq_handOut_kept hkept
    rw [hserved] at hrest
    exact Option.some.inj hrest

theorem Tables.sound
    {ini : Ini} {attach : UInt32 → Option CShmQueue} {own : UInt32}
    {clusters : List UInt32} {entries : List (UInt32 × UInt32)}
    (h : Tables ini attach own clusters entries bus)
    (hattach : ∀ serverID pQueue, attach serverID = some pQueue →
      ∃ messages, pQueue.Holds messages) : bus.Sound := by
  refine ⟨h.keys_nodup, ?_, ?_⟩
  · intro serverID server pQueue hserver hqueue
    by_cases hmem : serverID ∈ entries.map Prod.snd
    · obtain ⟨entry, hentry, rfl⟩ := List.mem_map.mp hmem
      rw [h.present entry hentry, Option.some.injEq] at hserver
      subst hserver
      dsimp only at hqueue
      split_ifs at hqueue
      exact hattach entry.2 pQueue hqueue
    · rw [h.absent serverID hmem] at hserver
      cases hserver
  · intro connPos conn hconn
    rw [h.posConnMap_eq] at hconn
    cases hconn

end Forward

/-! ## A group of two servers -/

/-- One cluster, whose servers 11 and 12 are the members of group 5. -/
def oneGroup : Ini :=
  ⟨[(1, [11, 12])], fun serverID => ⟨1, serverID, 5, 1, 1⟩⟩

/-- Empty queues, the one of server 11 of a given size. -/
def emptyQueues (size : ℕ) (serverID : UInt32) : Option CShmQueue :=
  some ⟨if serverID = 11 then size else 128, 0, 0, fun _ => 0⟩

/-- A packet of 26 bytes that server 13 sends to group 5. -/
def groupPacket : List UInt8 := (BusHeader.mk 26 100 13 5 1 toGrpAll 0).write

theorem broadcast_isolated_iff_two :
    ∃ bus, init oneGroup (emptyQueues 128) 1 = some bus ∧
      ∃ list, bus.broadcast ⟨fun _ => none, fun _ => none, fun _ => none⟩ 0
          groupPacket = some list ∧
        list.map Prod.fst = [.queue 11, .queue 12] ∧
        ∀ entry ∈ list,
          feed Outlet.take (bus.outlet entry.1) (copiesFor entry.1 list) =
            some ((bus.forwardMsg ⟨fun _ => none, fun _ => none,
              fun _ => none⟩ (fun _ => 0) 0 groupPacket).2.outlet
              entry.1) := by
  obtain ⟨bus, hinit, hlist⟩ := Option.map_eq_some_iff.mp
    (show ((init oneGroup (emptyQueues 128) 1).map fun bus =>
      (bus.broadcast ⟨fun _ => none, fun _ => none, fun _ => none⟩ 0
        groupPacket).map fun list => (list.map Prod.fst,
          decide (∀ entry ∈ list,
            ¬ Fails Outlet.take bus.outlet list entry.1))) =
      some (some ([.queue 11, .queue 12], true)) by decide)
  obtain ⟨list, hbroadcast, hfacts⟩ := Option.map_eq_some_iff.mp hlist
  obtain ⟨htargets, hfails⟩ := Prod.mk.inj hfacts
  have hnone := of_decide_eq_true hfails
  have hsound := (init_tables hinit).sound (by
    intro serverID pQueue hqueue
    cases hqueue
    refine ⟨[], holds_of_empty ?_ ?_ rfl⟩ <;> dsimp only <;> split_ifs <;>
      decide)
  refine ⟨bus, hinit, list, hbroadcast, htargets, ?_⟩
  intro entry hentry
  refine ((broadcast_isolated_iff hsound _ hbroadcast).mpr ?_ entry hentry
    (hnone entry hentry)).1
  intro before refused after hsplit hrefused
  refine absurd ?_ (hnone refused (by rw [hsplit]; simp))
  rw [hsplit]
  exact hrefused.fails after

/-- The queue of server 11 is too small for the packet, and server 12, whose
queue is empty, does not get it either. -/
theorem broadcast_not_isolated :
    ∃ bus, init oneGroup (emptyQueues 16) 1 = some bus ∧
      ∃ list, bus.broadcast ⟨fun _ => none, fun _ => none, fun _ => none⟩ 0
          groupPacket = some list ∧
        ∃ entry ∈ list, ¬ Fails Outlet.take bus.outlet list entry.1 ∧
          (bus.forwardMsg ⟨fun _ => none, fun _ => none, fun _ => none⟩
              (fun _ => 0) 0 groupPacket).2.outlet entry.1 ≠
            ((bus.without (Fails Outlet.take bus.outlet list)).forwardMsg
              ⟨fun _ => none, fun _ => none, fun _ => none⟩
              (fun _ => 0) 0 groupPacket).2.outlet entry.1 := by
  obtain ⟨bus, hinit, hlist⟩ := Option.map_eq_some_iff.mp
    (show ((init oneGroup (emptyQueues 16) 1).map fun bus =>
      (bus.broadcast ⟨fun _ => none, fun _ => none, fun _ => none⟩ 0
        groupPacket).map fun list => decide (∃ entry ∈ list,
          ¬ Fails Outlet.take bus.outlet list entry.1 ∧
          ((bus.forwardMsg ⟨fun _ => none, fun _ => none, fun _ => none⟩
              (fun _ => 0) 0 groupPacket).2.outlet entry.1).size ≠
            (((bus.without (Fails Outlet.take bus.outlet list)).forwardMsg
              ⟨fun _ => none, fun _ => none, fun _ => none⟩
              (fun _ => 0) 0 groupPacket).2.outlet entry.1).size)) =
      some (some true) by decide)
  obtain ⟨list, hbroadcast, hfacts⟩ := Option.map_eq_some_iff.mp hlist
  obtain ⟨entry, hentry, hkept, hsize⟩ := of_decide_eq_true hfacts
  exact ⟨bus, hinit, list, hbroadcast, entry, hentry, hkept,
    fun heq => hsize (congrArg Outlet.size heq)⟩

end CBus

end MessageBus.Bus
