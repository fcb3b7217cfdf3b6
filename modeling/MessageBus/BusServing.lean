import MessageBus.BusRouting
import MessageBus.Merging

/-!
# The calls of a bus process

What the calls of one bus process do to its links and to the messages in the
queues of its servers, whatever becomes of the sockets: one lemma for each of
`RecvHelloMessage`, `ReleaseConn`, `Send2Cluster`, `SendRemainData`, `InQueue`,
`ForwardMsg` and `ProcessPkg`.
-/

namespace MessageBus.Bus

open ShmQueue
open Send
open Receive
open Framing
open Handout
open Merging

namespace CBus

/-! ## The bytes of a connection -/

/-- The connection that `Send2Cluster` leaves; `none` once it has been
released. -/
def keep (conn : CConnInfo) (packet : List UInt8) : Option CConnInfo :=
  (conn.sendOrKeep packet).2

/-- What a connection has written after `Send2Cluster` for some packets, up to
the one for which it has been released. -/
def lastWritten : CConnInfo → List (List UInt8) → List UInt8
  | conn, [] => conn.socket.written
  | conn, packet :: later =>
      match keep conn packet with
      | some kept => lastWritten kept later
      | none => (conn.send packet).2.socket.written

section Written

variable {conn kept : CConnInfo} {stream packet : List UInt8}
  {packets : List (List UInt8)}

theorem write_take (socket : Socket) (data : List UInt8) :
    ∃ count, (socket.write data).2.written =
      socket.written ++ data.take count := by
  obtain ⟨count, -, -, -, hwritten⟩ | ⟨-, hwritten⟩ := socket.write_cases data
  · exact ⟨count, hwritten⟩
  · exact ⟨0, by simpa using hwritten⟩

theorem sendNew_socket (conn : CConnInfo) (pBuff : List UInt8) :
    (conn.sendNew pBuff).2.socket = (conn.socket.write pBuff).2 := by
  unfold CConnInfo.sendNew
  cases hwrite : conn.socket.write pBuff with
  | mk result socket =>
      cases result with
      | wrote | again | failed => rfl

/-- `Send` writes the stream of the connection and then the new data. -/
theorem written_send (hcarries : conn.Carries stream) (packet : List UInt8) :
    (conn.send packet).2.socket.written <+: stream ++ packet := by
  have hstream := hcarries.stream_eq
  have hnew (socket : Socket) (count : ℕ) (hwritten : socket.written =
      stream ++ packet.take count) : socket.written <+: stream ++ packet := by
    rw [hwritten]
    exact (List.prefix_append_right_inj _).mpr (List.take_prefix _ _)
  unfold CConnInfo.send
  split_ifs with hremain
  · have hcases := conn.socket.write_cases conn.remainSendData
    cases hwrite : conn.socket.write conn.remainSendData with
    | mk result socket =>
        rw [hwrite] at hcases
        have hold (count : ℕ) (hwritten : socket.written =
            conn.socket.written ++ conn.remainSendData.take count) :
            socket.written <+: stream ++ packet := by
          rw [hwritten, ← hstream, List.append_assoc]
          apply (List.prefix_append_right_inj _).mpr
          exact (List.take_prefix _ _).trans (List.prefix_append _ _)
        obtain ⟨count, -, -, hresult, hwritten⟩ |
          ⟨hagain | hfailed, hwritten⟩ := hcases
        · dsimp only at hresult hwritten
          subst hresult
          dsimp only
          split_ifs with hpart
          · exact hold count hwritten
          · rw [sendNew_socket]
            obtain ⟨more, hmore⟩ := write_take socket packet
            apply hnew _ more
            rw [hmore, hwritten, List.take_of_length_le (by omega), hstream]
        · dsimp only at hagain hwritten
          subst hagain
          exact hold 0 (by simpa using hwritten)
        · dsimp only at hfailed hwritten
          subst hfailed
          exact hold 0 (by simpa using hwritten)
  · rw [sendNew_socket]
    obtain ⟨count, hwritten⟩ := write_take conn.socket packet
    apply hnew _ count
    rw [hwritten, ← hstream, not_not.mp hremain, List.append_nil]

theorem written_sendRemainData (hcarries : conn.Carries stream) :
    conn.sendRemainData.2.socket.written <+: stream := by
  have hstream := hcarries.stream_eq
  unfold CConnInfo.sendRemainData
  split_ifs with hremain
  · obtain ⟨count, hwritten⟩ := write_take conn.socket conn.remainSendData
    have hprefix : (conn.socket.write conn.remainSendData).2.written <+:
        stream := by
      rw [hwritten, ← hstream]
      exact (List.prefix_append_right_inj _).mpr (List.take_prefix _ _)
    cases hwrite : conn.socket.write conn.remainSendData with
    | mk result socket =>
        rw [hwrite] at hprefix
        cases result with
        | wrote taken =>
            dsimp only
            split_ifs <;> exact hprefix
        | again | failed => exact hprefix
  · rw [← hstream]
    exact List.prefix_append _ _

theorem carries_keep (hcarries : conn.Carries stream)
    (hkeep : keep conn packet = some kept) :
    kept.Carries (stream ++ packet) :=
  (hcarries.sendOrKeep (Prod.ext rfl hkeep)).2

theorem carries_feed (hcarries : conn.Carries stream)
    (hfeed : feed keep conn packets = some kept) :
    kept.Carries (stream ++ packets.flatten) := by
  induction packets generalizing conn stream with
  | nil =>
      cases hfeed
      simpa using hcarries
  | cons packet packets ih =>
      rw [feed_cons] at hfeed
      obtain ⟨next, hnext, hrest⟩ := Option.bind_eq_some_iff.mp hfeed
      have hlater := ih (carries_keep hcarries hnext) hrest
      rwa [List.append_assoc] at hlater

/-- Whatever becomes of the connection, it has written a part of its stream. -/
theorem lastWritten_front (hcarries : conn.Carries stream)
    (packets : List (List UInt8)) :
    lastWritten conn packets <+: stream ++ packets.flatten := by
  induction packets generalizing conn stream with
  | nil =>
      rw [lastWritten, ← hcarries.stream_eq, List.append_assoc]
      exact List.prefix_append _ _
  | cons packet packets ih =>
      rw [lastWritten, List.flatten_cons, ← List.append_assoc]
      cases hkeep : keep conn packet with
      | some kept => exact ih (carries_keep hcarries hkeep)
      | none =>
          exact (written_send hcarries packet).trans (List.prefix_append _ _)

/-- Packets behind the one for which the connection is released change
nothing. -/
theorem lastWritten_append (hlost : feed keep conn packets = none)
    (later : List (List UInt8)) :
    lastWritten conn (packets ++ later) = lastWritten conn packets := by
  induction packets generalizing conn with
  | nil => cases hlost
  | cons packet packets ih =>
      rw [feed_cons] at hlost
      rw [List.cons_append, lastWritten, lastWritten]
      cases hkeep : keep conn packet with
      | some kept =>
          rw [hkeep, Option.bind_some] at hlost
          exact ih hlost
      | none => rfl

end Written

/-! ## A process -/

/-- The messages that wait for every local server of a process. -/
structure Serving (ini : Ini) (own : UInt32) (bus : CBus)
    (contents : UInt32 → List (List UInt8)) : Prop where
  routes : Routes ini own bus
  table : bus.LinkTable
  sockets : ∀ info ∈ bus.mapClusterInfo, info.connPos ≠ 0 →
    info.socketID ≠ -1
  queues : ∀ serverID, (own, serverID) ∈ ini.servers →
    QueueHolds bus serverID (contents serverID)

/-- No link is at the last position, which `ReleaseConn` does not take for the
link of a cluster. -/
def AvoidsLast (bus : CBus) : Prop :=
  ∀ info ∈ bus.mapClusterInfo, info.connPos ≠ clusterSockCposMax

/-- The links have been given some packets, until they were lost. -/
def Sends (bus next : CBus) (sent : UInt32 → List (List UInt8)) : Prop :=
  ∀ cluster, next.linkConn cluster =
    (bus.linkConn cluster).bind fun conn => feed keep conn (sent cluster)

/-- The process that a call leaves, and the packets that the call has given to
the links. -/
structure Called (ini : Ini) (own : UInt32) (bus next : CBus)
    (sent contents : UInt32 → List (List UInt8)) : Prop where
  serving : Serving ini own next contents
  last : AvoidsLast next
  sends : Sends bus next sent

section Serving

variable {ini : Ini} {own other serverID : UInt32} {bus next last : CBus}
  {contents later sent more : UInt32 → List (List UInt8)}
  {packet : List UInt8} {info : ClusterInfo}

theorem Sends.refl (bus : CBus) : Sends bus bus fun _ => [] := by
  intro cluster
  cases bus.linkConn cluster with
  | none => rfl
  | some conn => rfl

theorem Sends.trans (h : Sends bus next sent) (hmore : Sends next last more) :
    Sends bus last fun cluster => sent cluster ++ more cluster := by
  intro cluster
  rw [hmore cluster, h cluster]
  cases bus.linkConn cluster with
  | none => rfl
  | some conn =>
      rw [Option.bind_some, Option.bind_some, feed_append]

/-- Packets for a link that is not there are for nobody. -/
theorem Sends.congr (h : Sends bus next sent)
    (hsent : ∀ cluster, bus.linkConn cluster ≠ none →
      more cluster = sent cluster) : Sends bus next more := by
  intro cluster
  rw [h cluster]
  cases hconn : bus.linkConn cluster with
  | none => rfl
  | some conn => rw [hsent cluster (by simp [hconn])]

theorem Called.trans (h : Called ini own bus next sent contents)
    (hmore : Called ini own next last more later) :
    Called ini own bus last (fun cluster => sent cluster ++ more cluster)
      later :=
  ⟨hmore.serving, hmore.last, h.sends.trans hmore.sends⟩

theorem Serving.called (h : Serving ini own bus contents)
    (hlast : AvoidsLast bus) : Called ini own bus bus (fun _ => []) contents :=
  ⟨h, hlast, Sends.refl bus⟩

theorem Serving.congr (h : Serving ini own bus contents)
    (hqueues : ∀ serverID, (own, serverID) ∈ ini.servers →
      later serverID = contents serverID) : Serving ini own bus later := by
  refine ⟨h.routes, h.table, h.sockets, ?_⟩
  intro serverID hserver
  rw [hqueues serverID hserver]
  exact h.queues serverID hserver

theorem Called.congr (h : Called ini own bus next sent contents)
    (hsent : ∀ cluster, bus.linkConn cluster ≠ none →
      more cluster = sent cluster)
    (hqueues : ∀ serverID, (own, serverID) ∈ ini.servers →
      later serverID = contents serverID) :
    Called ini own bus next more later :=
  ⟨h.serving.congr hqueues, h.last, h.sends.congr hsent⟩

/-- A process has no link to itself. -/
theorem Serving.linkConn_own (h : Serving ini own bus contents) :
    bus.linkConn own = none := by
  rw [linkConn]
  cases hfind : bus.findCluster own with
  | none => rfl
  | some info =>
      obtain ⟨hinfo, hid⟩ := mem_of_findCluster hfind
      have hpos : info.connPos = 0 := by
        by_contra hne
        apply (h.table.linked info hinfo hne).2.1
        rw [hid, h.routes.own]
      rw [Option.bind_some, hpos]
      exact h.table.none_zero

/-- What is said about the tables does not depend on the links. -/
theorem Serving.relink (h : Serving ini own bus contents)
    (hid : next.clusterID = bus.clusterID)
    (hkeys : next.mapClusterInfo.map ClusterInfo.clusterID =
      bus.mapClusterInfo.map ClusterInfo.clusterID)
    (hservers : next.mapSvrInfo = bus.mapSvrInfo)
    (hgroups : next.mapGrpInfo = bus.mapGrpInfo) (htable : next.LinkTable)
    (hsockets : ∀ info ∈ next.mapClusterInfo, info.connPos ≠ 0 →
      info.socketID ≠ -1) : Serving ini own next contents := by
  have hroutes := h.routes
  refine ⟨⟨hid.trans hroutes.own, ?_, ?_, hroutes.servers_nodup,
    hroutes.known, ?_, ?_, ?_, ?_⟩, htable, hsockets, ?_⟩
  · rw [hkeys]
    exact hroutes.keys
  · rw [DistinctKeys, hkeys]
    exact hroutes.keys_nodup
  · rw [hservers]
    exact hroutes.server
  · rw [hservers]
    exact hroutes.absent
  · rw [hgroups]
    exact hroutes.groups
  · rw [hgroups]
    exact hroutes.groups_ne
  · intro serverID hserver
    unfold QueueHolds queueOf
    rw [hservers]
    exact h.queues serverID hserver

/-! ## Links -/

theorem LinkTable.linkConn_eq (h : bus.LinkTable)
    (hinfo : info ∈ bus.mapClusterInfo) :
    bus.linkConn info.clusterID = bus.posConnMap info.connPos := by
  rw [linkConn, h.findCluster_eq hinfo, Option.bind_some]

theorem LinkTable.linkConn_update (h : bus.LinkTable)
    (hinfo : info ∈ bus.mapClusterInfo) (hpos : info.connPos ≠ 0)
    (entry : Option CConnInfo) (cluster : UInt32) :
    ({ bus with
      posConnMap := Function.update bus.posConnMap info.connPos entry } :
        CBus).linkConn cluster =
      if cluster = info.clusterID then entry else bus.linkConn cluster := by
  have hsame : ({ bus with
      posConnMap := Function.update bus.posConnMap info.connPos entry } :
        CBus).findCluster cluster = bus.findCluster cluster := rfl
  rw [linkConn, linkConn, hsame]
  by_cases heq : cluster = info.clusterID
  · rw [if_pos heq, heq, h.findCluster_eq hinfo, Option.bind_some]
    exact Function.update_self ..
  · rw [if_neg heq]
    cases hfind : bus.findCluster cluster with
    | none => rfl
    | some found =>
        obtain ⟨hfound, hid⟩ := mem_of_findCluster hfind
        rw [Option.bind_some, Option.bind_some]
        apply Function.update_of_ne
        intro hsamePos
        apply heq
        rw [← hid, h.distinct found hfound info hinfo hsamePos
          (by rwa [hsamePos])]

theorem findCluster_setLink (bus : CBus) (clusterID : UInt32) (socketID : ℤ)
    (connPos cluster : UInt32) :
    (bus.setLink clusterID socketID connPos).findCluster cluster =
      (bus.findCluster cluster).map fun info =>
        if info.clusterID = clusterID then
          { info with
            socketID := socketID
            connPos := connPos }
        else info := by
  unfold findCluster setLink
  rw [List.find?_map]
  congr 2
  funext info
  dsimp only [Function.comp_apply]
  split_ifs
  · rfl
  · rfl

theorem linkConn_setLink (socketID : ℤ) (connPos : UInt32)
    (hfind : bus.findCluster info.clusterID = some info) (cluster : UInt32) :
    (bus.setLink info.clusterID socketID connPos).linkConn cluster =
      if cluster = info.clusterID then bus.posConnMap connPos
      else bus.linkConn cluster := by
  rw [linkConn, findCluster_setLink, linkConn]
  by_cases heq : cluster = info.clusterID
  · rw [if_pos heq, heq, hfind, Option.map_some, if_pos rfl]
    rfl
  · rw [if_neg heq]
    cases hother : bus.findCluster cluster with
    | none => rfl
    | some found =>
        have hid : found.clusterID ≠ info.clusterID := by
          rwa [(mem_of_findCluster hother).2]
        rw [Option.map_some, if_neg hid]
        rfl

theorem setLink_sockets {socketID : ℤ} {connPos : UInt32}
    (hsockets : ∀ info ∈ bus.mapClusterInfo, info.connPos ≠ 0 →
      info.socketID ≠ -1)
    (hnew : connPos ≠ 0 → socketID ≠ -1) (clusterID : UInt32) :
    ∀ info ∈ (bus.setLink clusterID socketID connPos).mapClusterInfo,
      info.connPos ≠ 0 → info.socketID ≠ -1 := by
  intro info hinfo
  obtain ⟨old, hold, ⟨_, rfl⟩ | ⟨_, rfl⟩⟩ := mem_setLink.mp hinfo
  · exact hnew
  · exact hsockets info hold

/-- A connection that has changed, at the position of a link. -/
theorem Serving.updateLink (h : Serving ini own bus contents)
    (hlast : AvoidsLast bus) {conn kept : CConnInfo}
    (hinfo : info ∈ bus.mapClusterInfo) (hpos : info.connPos ≠ 0)
    (hconn : bus.posConnMap info.connPos = some conn)
    (hsock : kept.sockID = conn.sockID)
    (hsent : feed keep conn (sent info.clusterID) = some kept)
    (hothers : ∀ cluster, cluster ≠ info.clusterID → sent cluster = []) :
    Called ini own bus { bus with
      posConnMap := Function.update bus.posConnMap info.connPos (some kept) }
      sent contents := by
  refine ⟨h.relink rfl rfl rfl rfl (h.table.update_some hconn hsock) h.sockets,
    hlast, ?_⟩
  intro cluster
  rw [h.table.linkConn_update hinfo hpos]
  split_ifs with heq
  · rw [heq, h.table.linkConn_eq hinfo, hconn, Option.bind_some, hsent]
  · rw [hothers cluster heq]
    exact Sends.refl bus cluster

/-- `ReleaseConn` for a link. -/
theorem Serving.releaseConn (h : Serving ini own bus contents)
    (hlast : AvoidsLast bus) (hinfo : info ∈ bus.mapClusterInfo)
    (hpos : info.connPos ≠ 0) :
    Serving ini own (bus.releaseConn info.connPos) contents ∧
      AvoidsLast (bus.releaseConn info.connPos) ∧
      ∀ cluster, (bus.releaseConn info.connPos).linkConn cluster =
        if cluster = info.clusterID then none else bus.linkConn cluster := by
  have hdropped := h.table.dropLink hinfo
  rw [h.table.releaseConn_eq hinfo hpos (hlast info hinfo)]
  have hdrop : bus.dropLink info = ({ bus with
      posConnMap := Function.update bus.posConnMap info.connPos none } :
        CBus).setLink info.clusterID (-1) 0 := by
    unfold CBus.dropLink
    rw [if_pos (.inr hpos)]
  have hfind : ({ bus with
      posConnMap := Function.update bus.posConnMap info.connPos none } :
        CBus).findCluster info.clusterID = some info :=
    h.table.findCluster_eq hinfo
  rw [hdrop] at hdropped ⊢
  refine ⟨h.relink rfl (setLink_keys _ _ _ _) rfl rfl hdropped ?_, ?_, ?_⟩
  · apply setLink_sockets h.sockets
    intro hzero
    exact absurd rfl hzero
  · intro link hlink
    obtain ⟨old, hold, ⟨_, rfl⟩ | ⟨_, rfl⟩⟩ := mem_setLink.mp hlink
    · exact (by decide : (0 : UInt32) ≠ clusterSockCposMax)
    · exact hlast link hold
  · intro cluster
    rw [linkConn_setLink _ _ hfind]
    split_ifs with heq
    · exact hdropped.none_zero
    · rw [h.table.linkConn_update hinfo hpos, if_neg heq]

/-- A link for which `Send2Cluster` calls `ReleaseConn`. -/
theorem Serving.loseLink (h : Serving ini own bus contents)
    (hlast : AvoidsLast bus) {conn : CConnInfo}
    (hinfo : info ∈ bus.mapClusterInfo) (hpos : info.connPos ≠ 0)
    (hconn : bus.posConnMap info.connPos = some conn)
    (hsent : feed keep conn (sent info.clusterID) = none)
    (hothers : ∀ cluster, cluster ≠ info.clusterID → sent cluster = []) :
    Called ini own bus (bus.releaseConn info.connPos) sent contents := by
  obtain ⟨hserving, havoids, hlinks⟩ := h.releaseConn hlast hinfo hpos
  refine ⟨hserving, havoids, ?_⟩
  intro cluster
  rw [hlinks]
  split_ifs with heq
  · rw [heq, h.table.linkConn_eq hinfo, hconn, Option.bind_some, hsent]
  · rw [hothers cluster heq]
    exact Sends.refl bus cluster

/-- The entry of another cluster, and its connection. -/
theorem Serving.link (h : Serving ini own bus contents)
    (hother : other ∈ ini.clusters) :
    ∃ info ∈ bus.mapClusterInfo, info.clusterID = other ∧
      bus.findCluster other = some info ∧
      (info.connPos = 0 ∧ bus.linkConn other = none ∨
        info.connPos ≠ 0 ∧ info.socketID ≠ -1 ∧
          ∃ conn, bus.posConnMap info.connPos = some conn ∧
            bus.linkConn other = some conn) := by
  obtain ⟨info, hinfo, rfl⟩ := List.mem_map.mp ((h.routes.keys other).mpr hother)
  refine ⟨info, hinfo, rfl, h.table.findCluster_eq hinfo, ?_⟩
  rw [h.table.linkConn_eq hinfo]
  by_cases hpos : info.connPos = 0
  · left
    rw [hpos]
    exact ⟨rfl, h.table.none_zero⟩
  · right
    obtain ⟨_, _, conn, hconn, _⟩ := h.table.linked info hinfo hpos
    exact ⟨hpos, h.sockets info hinfo hpos, conn, hconn, hconn⟩

/-- `Send2Cluster` gives the packet to the link, which may be lost with it. -/
theorem Serving.send2Cluster (h : Serving ini own bus contents)
    (hlast : AvoidsLast bus) (hother : other ∈ ini.clusters)
    (packet : List UInt8) :
    ∃ info, bus.findCluster other = some info ∧
      Called ini own bus (bus.send2Cluster info packet).2
        (fun cluster => if cluster = other then [packet] else []) contents := by
  obtain ⟨info, hinfo, rfl, hfind, ⟨hpos, hnone⟩ |
    ⟨hpos, hsock, conn, hconn, _⟩⟩ := h.link hother
  · refine ⟨info, hfind, ?_⟩
    unfold CBus.send2Cluster
    rw [if_pos (.inr hpos)]
    apply (h.called hlast).congr _ fun _ _ => rfl
    intro cluster hcluster
    rw [if_neg]
    rintro rfl
    exact hcluster hnone
  · refine ⟨info, hfind, ?_⟩
    have hone : feed keep conn ((fun cluster =>
        if cluster = info.clusterID then [packet] else []) info.clusterID) =
        (conn.sendOrKeep packet).2 := by
      dsimp only
      rw [if_pos rfl, feed_cons]
      cases hkeep : keep conn packet with
      | none => exact hkeep.symm
      | some kept => exact hkeep.symm
    unfold CBus.send2Cluster
    rw [if_neg (by simp [hsock, hpos]), hconn]
    dsimp only
    cases hkeep : conn.sendOrKeep packet with
    | mk ret kept =>
        rw [hkeep] at hone
        cases kept with
        | none =>
            exact h.loseLink hlast hinfo hpos hconn hone
              fun cluster hne => if_neg hne
        | some kept =>
            exact h.updateLink hlast hinfo hpos hconn
              (sockID_sendOrKeep (by rw [hkeep])) hone
              fun cluster hne => if_neg hne

/-- The `EPOLLOUT` branch of `Run` for a link. -/
theorem Serving.pollOut (h : Serving ini own bus contents)
    (hlast : AvoidsLast bus) (hother : other ∈ ini.clusters) :
    ∃ info, bus.findCluster other = some info ∧
      Serving ini own (bus.pollOut info.connPos) contents ∧
      ∀ cluster, (bus.pollOut info.connPos).linkConn cluster =
        if cluster = other then
          (bus.linkConn other).bind CConnInfo.pollOut
        else bus.linkConn cluster := by
  obtain ⟨info, hinfo, rfl, hfind, ⟨hpos, hnone⟩ |
    ⟨hpos, _, conn, hconn, hlink⟩⟩ := h.link hother
  · refine ⟨info, hfind, ?_⟩
    unfold CBus.pollOut
    rw [hpos, h.table.none_zero, hnone]
    refine ⟨h, ?_⟩
    intro cluster
    split_ifs with heq
    · rw [heq, hnone]
      rfl
    · rfl
  · refine ⟨info, hfind, ?_⟩
    unfold CBus.pollOut
    rw [hconn, hlink, Option.bind_some]
    dsimp only
    cases hkeep : conn.pollOut with
    | none =>
        obtain ⟨hserving, _, hlinks⟩ := h.releaseConn hlast hinfo hpos
        exact ⟨hserving, hlinks⟩
    | some kept =>
        exact ⟨h.relink rfl rfl rfl rfl
          (h.table.update_some hconn (sockID_pollOut hkeep)) h.sockets,
          h.table.linkConn_update hinfo hpos (some kept)⟩

/-- A socket that has been opened has a number of its own. -/
def ConnectResult.Opens : ConnectResult → Prop
  | .connected socketID _ => socketID ≠ -1
  | _ => True

instance (result : ConnectResult) : Decidable result.Opens :=
  match result with
  | .connected socketID _ => inferInstanceAs (Decidable (socketID ≠ -1))
  | .socketFailed => .isTrue trivial
  | .connectFailed => .isTrue trivial
  | .getsocknameFailed => .isTrue trivial
  | .epollFailed => .isTrue trivial

/-- The entry of a cluster without a link is cleared. -/
theorem Serving.dropLink (h : Serving ini own bus contents)
    (hinfo : info ∈ bus.mapClusterInfo) (hpos : info.connPos = 0) :
    Serving ini own (bus.dropLink info) contents ∧
      ∀ cluster, (bus.dropLink info).linkConn cluster =
        bus.linkConn cluster := by
  have htable := h.table.dropLink hinfo
  have hidle : Function.update bus.posConnMap info.connPos none =
      bus.posConnMap := by
    rw [hpos, ← h.table.none_zero, Function.update_eq_self]
  unfold CBus.dropLink at htable ⊢
  rw [hidle] at htable ⊢
  split_ifs at htable ⊢
  · refine ⟨h.relink rfl (setLink_keys _ _ _ _) rfl rfl htable ?_, ?_⟩
    · apply setLink_sockets h.sockets
      intro hzero
      exact absurd rfl hzero
    · intro cluster
      rw [linkConn_setLink (-1) 0 (h.table.findCluster_eq hinfo)]
      split_ifs with heq
      · rw [heq, h.table.linkConn_eq hinfo, hpos]
      · rfl
  · exact ⟨h, fun _ => rfl⟩

/-- A new connection becomes the link of a cluster. -/
theorem Serving.openLink (h : Serving ini own bus contents)
    (hinfo : info ∈ bus.mapClusterInfo) {cnt pos : UInt32} {socketID : ℤ}
    {conn : CConnInfo} (hfree : bus.posConnMap pos = none)
    (hrange : ClusterRange pos) (hsocket : socketID ≠ -1)
    (hafter : next = ({ bus with
      clusterPosCnt := cnt
      posConnMap := Function.update bus.posConnMap pos (some conn) } :
        CBus).setLink info.clusterID socketID pos)
    (htable : next.LinkTable) :
    Serving ini own next contents ∧
      ∀ cluster, next.linkConn cluster =
        if cluster = info.clusterID then some conn
        else bus.linkConn cluster := by
  subst hafter
  have hfind : ({ bus with
      clusterPosCnt := cnt
      posConnMap := Function.update bus.posConnMap pos (some conn) } :
        CBus).findCluster info.clusterID = some info :=
    h.table.findCluster_eq hinfo
  refine ⟨h.relink rfl (setLink_keys _ _ _ _) rfl rfl htable
    (setLink_sockets h.sockets (fun _ => hsocket) _), ?_⟩
  intro cluster
  rw [linkConn_setLink _ _ hfind]
  split_ifs
  · exact Function.update_self ..
  · have hsame : ({ bus with
        clusterPosCnt := cnt
        posConnMap := Function.update bus.posConnMap pos (some conn) } :
          CBus).findCluster cluster = bus.findCluster cluster := rfl
    rw [linkConn, linkConn, hsame]
    cases hcluster : bus.findCluster cluster with
    | none => rfl
    | some found =>
        rw [Option.bind_some, Option.bind_some]
        apply Function.update_of_ne
        rintro rfl
        by_cases hzero : found.connPos = 0
        · rw [hzero] at hrange
          exact absurd hrange.1 (by decide)
        · obtain ⟨_, _, old, hold, _⟩ := h.table.linked found
            (mem_of_findCluster hcluster).1 hzero
          rw [hfree] at hold
          cases hold

/-- `RecvHelloMessage` opens a link that is not there, or does nothing. -/
theorem Serving.recvHelloMessage (h : Serving ini own bus contents)
    {result : ConnectResult} (hopens : result.Opens)
    (hhello : bus.recvHelloMessage other result = some next) :
    Serving ini own next contents ∧
      ((∀ cluster, next.linkConn cluster = bus.linkConn cluster) ∨
        bus.linkConn other = none ∧ other ∈ ini.clusters ∧ other ≠ own ∧
          ∃ socketID results, ∀ cluster, next.linkConn cluster =
            if cluster = other then some (newConn socketID results)
            else bus.linkConn cluster) := by
  have hafter := h.table.recvHelloMessage hhello
  unfold CBus.recvHelloMessage connectCluster at hhello
  cases hfind : bus.findCluster other with
  | none =>
      rw [hfind] at hhello
      cases hhello
      exact ⟨h, .inl fun _ => rfl⟩
  | some info =>
      obtain ⟨hinfo, rfl⟩ := mem_of_findCluster hfind
      rw [hfind] at hhello
      dsimp only at hhello
      split_ifs at hhello with hlink hown
      · cases hhello
        exact ⟨h, .inl fun _ => rfl⟩
      · have hpos : info.connPos = 0 := by
          by_contra hne
          exact hlink.2.elim (h.sockets info hinfo hne) hne
        obtain ⟨hdropped, hsame⟩ := h.dropLink hinfo hpos
        have hcounted (cnt : UInt32) (htable : ({ bus.dropLink info with
            clusterPosCnt := cnt } : CBus).LinkTable) :
            Serving ini own { bus.dropLink info with clusterPosCnt := cnt }
              contents :=
          hdropped.relink rfl rfl rfl rfl htable hdropped.sockets
        cases result with
        | socketFailed | connectFailed | getsocknameFailed =>
            cases hhello
            exact ⟨hdropped, .inl hsame⟩
        | epollFailed =>
            obtain ⟨_, _, rfl⟩ := Option.map_eq_some_iff.mp hhello
            exact ⟨hcounted _ hafter, .inl hsame⟩
        | connected socketID results =>
            obtain ⟨pos, hsearch, hset⟩ := Option.map_eq_some_iff.mp hhello
            obtain ⟨hfree, hrange⟩ := searchPos_cases ClusterRange
              (fun pos hpos => nextClusterPos_range (.inr hpos))
              (nextClusterPos_range hdropped.table.counter) hsearch
            have hsocket : socketID ≠ -1 := hopens
            have hcleared := mem_dropLink hinfo
            obtain ⟨hserving, hlinks⟩ := hdropped.openLink hcleared hfree
              hrange hsocket hset.symm hafter
            refine ⟨hserving, .inr ⟨?_, ?_, ?_, socketID, results, ?_⟩⟩
            · rw [h.table.linkConn_eq hinfo, hpos, h.table.none_zero]
            · exact (h.routes.keys _).mp (List.mem_map_of_mem hinfo)
            · rw [← h.routes.own]
              exact hlink.1
            · intro cluster
              rw [hlinks cluster]
              split_ifs
              · rfl
              · exact hsame cluster
      · cases hhello
        exact ⟨h, .inl fun _ => rfl⟩

/-! ## The servers -/

/-- A server keeps its cluster; its queue and its state may change. -/
theorem Serving.updateServer (h : Serving ini own bus contents)
    (hlast : AvoidsLast bus) {server changed : ServerInfo}
    {messages : List (List UInt8)}
    (hserver : bus.mapSvrInfo serverID = some server)
    (hcluster : changed.clusterID = server.clusterID)
    (hqueue : (own, serverID) ∈ ini.servers →
      ∃ pQueue, changed.pQueue = some pQueue ∧ pQueue.Holds messages) :
    Called ini own bus { bus with
      mapSvrInfo := Function.update bus.mapSvrInfo serverID (some changed) }
      (fun _ => []) (Function.update contents serverID messages) := by
  have hroutes := h.routes
  refine ⟨⟨⟨hroutes.own, hroutes.keys, hroutes.keys_nodup,
    hroutes.servers_nodup, hroutes.known, ?_, ?_, hroutes.groups,
    hroutes.groups_ne⟩, ⟨h.table.keys, h.table.none_zero, h.table.linked,
      h.table.distinct, h.table.counter⟩, h.sockets, ?_⟩, hlast,
    Sends.refl bus⟩
  · intro entry hentry
    obtain ⟨found, hfound, hid⟩ := hroutes.server entry hentry
    dsimp only
    by_cases heq : entry.2 = serverID
    · rw [heq, hserver, Option.some.injEq] at hfound
      rw [heq, Function.update_self]
      exact ⟨changed, rfl, by rw [hcluster, hfound, hid]⟩
    · rw [Function.update_of_ne heq]
      exact ⟨found, hfound, hid⟩
  · intro absent habsent
    have hnone := hroutes.absent absent habsent
    have hne : absent ≠ serverID := by
      rintro rfl
      rw [hserver] at hnone
      cases hnone
    dsimp only
    rw [Function.update_of_ne hne]
    exact hnone
  · intro local_ hlocal
    unfold QueueHolds queueOf
    dsimp only
    by_cases heq : local_ = serverID
    · subst heq
      rw [Function.update_self, Function.update_self, Option.bind_some]
      exact hqueue hlocal
    · rw [Function.update_of_ne heq, Function.update_of_ne heq]
      exact h.queues local_ hlocal

theorem Serving.localServer (h : Serving ini own bus contents)
    (hlocal : (own, serverID) ∈ ini.servers) :
    ∃ server pQueue, bus.mapSvrInfo serverID = some server ∧
      server.clusterID = bus.clusterID ∧ server.pQueue = some pQueue ∧
      bus.queueOf serverID = some pQueue ∧
      pQueue.Holds (contents serverID) := by
  obtain ⟨server, hserver, hcluster⟩ := h.routes.server _ hlocal
  obtain ⟨pQueue, hqueue, hholds⟩ := h.queues serverID hlocal
  refine ⟨server, pQueue, hserver, hcluster.trans h.routes.own.symm, ?_,
    hqueue, hholds⟩
  simpa [queueOf, hserver] using hqueue

/-- A message that a local queue takes stands behind the others; a message that
it does not take leaves no trace. -/
theorem Serving.inQueue (h : Serving ini own bus contents)
    (hlast : AvoidsLast bus) {server : ServerInfo} {pQueue : CShmQueue}
    (hserver : bus.mapSvrInfo serverID = some server)
    (hholds : pQueue.Holds (contents serverID))
    (hlen : packet.length + 4 < 2 ^ 32) :
    Called ini own bus
      (bus.setQueue serverID server (pQueue.inQueue packet).2) (fun _ => [])
      (Function.update contents serverID (contents serverID ++
        if (pQueue.inQueue packet).1 = success then [packet] else [])) := by
  have hcluster : ({ server with
      pQueue := some (pQueue.inQueue packet).2 } : ServerInfo).clusterID =
        server.clusterID := rfl
  apply h.updateServer hlast hserver hcluster
  intro _
  refine ⟨_, rfl, ?_⟩
  split_ifs with hret
  · have hroom := (inQueue_success_iff hholds hlen).mp hret
    exact (inQueue_of_room hholds hroom.1 hroom.2).2.1
  · rw [inQueue_of_failure hholds hlen hret, List.append_nil]
    exact hholds

theorem Serving.setStatus (h : Serving ini own bus contents)
    (hlast : AvoidsLast bus) {server : ServerInfo}
    (hserver : bus.mapSvrInfo serverID = some server) (status : Int32) :
    Called ini own bus (bus.setStatus serverID server status) (fun _ => [])
      contents := by
  have hcluster : ({ server with status := status } : ServerInfo).clusterID =
      server.clusterID := rfl
  rw [← Function.update_eq_self serverID contents]
  apply h.updateServer hlast hserver hcluster
  intro hlocal
  obtain ⟨found, pQueue, hfound, _, hqueue, _, hholds⟩ := h.localServer hlocal
  rw [hserver, Option.some.injEq] at hfound
  exact ⟨pQueue, by rw [← hqueue, hfound], hholds⟩

/-! ## `ForwardMsg` -/

/-- The copies for one server. -/
def copiesAt (now : UInt64) (pkg : List UInt8) (dsts : List UInt32)
    (serverID : UInt32) : List (List UInt8) :=
  (dsts.filter fun dstID => dstID = serverID).map (copyFor now pkg)

section Deliver

variable {now : UInt64} {pkg : List UInt8} {dstID : UInt32}
  {dsts : List UInt32}

theorem copiesTo_cons (ini : Ini) (now : UInt64) (pkg : List UInt8)
    (dstID : UInt32) (dsts : List UInt32) (other : UInt32) :
    copiesTo ini now pkg (dstID :: dsts) other =
      (if (other, dstID) ∈ ini.servers then [copyFor now pkg dstID] else []) ++
        copiesTo ini now pkg dsts other := by
  unfold copiesTo
  rw [List.filter_cons]
  by_cases hmem : (other, dstID) ∈ ini.servers
  · simp [hmem]
  · simp [hmem]

theorem copiesAt_cons (now : UInt64) (pkg : List UInt8) (dstID : UInt32)
    (dsts : List UInt32) (serverID : UInt32) :
    copiesAt now pkg (dstID :: dsts) serverID =
      (if dstID = serverID then [copyFor now pkg dstID] else []) ++
        copiesAt now pkg dsts serverID := by
  unfold copiesAt
  rw [List.filter_cons]
  by_cases heq : dstID = serverID
  · simp [heq]
  · simp [heq]

/-- One round of the delivery loop gives its copy to the queue or to the link
of the server.  A link may be lost with it, and a queue may refuse it, which
ends the loop. -/
theorem Serving.deliverOne (h : Serving ini own bus contents)
    (hlast : AvoidsLast bus) (hserver : dstID ∈ ini.servers.map Prod.snd)
    (hlen : packet.length + 4 < 2 ^ 32) :
    Called ini own bus (bus.deliverOne dstID packet).2
        (fun other => if (other, dstID) ∈ ini.servers then [packet] else [])
        (fun serverID => contents serverID ++
          if dstID = serverID then [packet] else []) ∨
      (bus.deliverOne dstID packet).1 ≠ none ∧
        Called ini own bus (bus.deliverOne dstID packet).2
          (fun other => if (other, dstID) ∈ ini.servers then [packet] else [])
          contents := by
  obtain ⟨⟨clusterID, server⟩, hentry, rfl⟩ := List.mem_map.mp hserver
  dsimp only
  unfold CBus.deliverOne
  by_cases hlocal : clusterID = own
  · subst hlocal
    have hsent (cluster : UInt32) (hcluster : bus.linkConn cluster ≠ none) :
        (if (cluster, server) ∈ ini.servers then [packet] else []) = [] := by
      rw [if_neg]
      intro hmem
      have hsame := h.routes.cluster_unique hmem hentry
      subst hsame
      exact hcluster h.linkConn_own
    obtain ⟨info, pQueue, hinfo, hcluster, hqueue, _, hholds⟩ :=
      h.localServer hentry
    have hnext := h.inQueue hlast hinfo hholds hlen
    rw [hinfo]
    dsimp only
    rw [if_pos hcluster, hqueue]
    dsimp only
    by_cases hret : (pQueue.inQueue packet).1 = success
    · rw [if_pos hret] at hnext
      rw [hret, if_neg (by decide), if_neg (by decide)]
      left
      apply hnext.congr hsent
      intro serverID _
      rw [Function.update_apply]
      by_cases heq : serverID = server
      · rw [if_pos heq.symm, if_pos heq, heq]
      · rw [if_neg (Ne.symm heq), if_neg heq, List.append_nil]
    · rw [if_neg hret, List.append_nil, Function.update_eq_self] at hnext
      have hfail : (pQueue.inQueue packet).1 ≠ 0 := hret
      rw [if_pos hfail, ite_self]
      right
      exact ⟨by simp, hnext.congr hsent fun _ _ => rfl⟩
  · obtain ⟨info, hinfo, hcluster⟩ := h.routes.server _ hentry
    dsimp only at hinfo hcluster
    obtain ⟨cluster, hfind, hsend⟩ :=
      h.send2Cluster hlast (h.routes.known _ hentry) packet
    have hremote : info.clusterID ≠ bus.clusterID := by
      rwa [hcluster, h.routes.own]
    dsimp only at hfind hsend
    rw [hinfo]
    dsimp only
    rw [if_neg hremote, hcluster, hfind]
    dsimp only
    have hleaves : (if (bus.send2Cluster cluster packet).1 ≠ 0 then
        (some (-1), (bus.send2Cluster cluster packet).2)
        else (none, (bus.send2Cluster cluster packet).2)).2 =
          (bus.send2Cluster cluster packet).2 := by
      split_ifs <;> rfl
    left
    rw [hleaves]
    apply hsend.congr
    · intro other _
      by_cases heq : other = clusterID
      · subst heq
        rw [if_pos hentry, if_pos rfl]
      · rw [if_neg heq, if_neg]
        intro hmem
        exact heq (h.routes.cluster_unique hmem hentry)
    · intro serverID hserverID
      rw [if_neg, List.append_nil]
      rintro rfl
      exact hlocal (h.routes.cluster_unique hentry hserverID)

theorem deliverOne_ret {left : ℤ}
    (hdeliver : bus.deliverOne dstID packet = (some left, next)) :
    left ≠ 0 := by
  unfold CBus.deliverOne at hdeliver
  cases hserver : bus.mapSvrInfo dstID with
  | none =>
      rw [hserver] at hdeliver
      cases hdeliver
      decide
  | some server =>
      rw [hserver] at hdeliver
      dsimp only at hdeliver
      split_ifs at hdeliver
      · cases hqueue : server.pQueue with
        | none =>
            rw [hqueue] at hdeliver
            cases hdeliver
        | some pQueue =>
            rw [hqueue] at hdeliver
            dsimp only at hdeliver
            split_ifs at hdeliver <;> cases hdeliver <;> decide
      · cases hfind : bus.findCluster server.clusterID with
        | none =>
            rw [hfind] at hdeliver
            cases hdeliver
        | some cluster =>
            rw [hfind] at hdeliver
            dsimp only at hdeliver
            split_ifs at hdeliver
            · cases hdeliver
              decide
            · cases hdeliver

/-- The delivery loop attempts the first of the destinations, and all of them
if it returns 0; a queue may refuse the last copy attempted. -/
theorem Serving.deliverAll (h : Serving ini own bus contents)
    (hlast : AvoidsLast bus)
    (hdsts : ∀ dstID ∈ dsts, dstID ∈ ini.servers.map Prod.snd)
    (hpkg : WellFormed pkg) :
    ∃ served attempted, served <+: attempted ∧ attempted <+: dsts ∧
      ((deliverAll now bus (BusHeader.read pkg) pkg dsts).1 = 0 →
        served = dsts) ∧
      Called ini own bus
        (CBus.deliverAll now bus (BusHeader.read pkg) pkg dsts).2
        (fun other => copiesTo ini now pkg attempted other)
        (fun serverID =>
          contents serverID ++ copiesAt now pkg served serverID) := by
  induction dsts generalizing bus pkg contents with
  | nil =>
      refine ⟨[], [], List.prefix_rfl, List.prefix_rfl, fun _ => rfl, ?_⟩
      simpa [copiesTo, copiesAt, CBus.deliverAll] using h.called hlast
  | cons dstID dsts ih =>
      have hlen : (copyFor now pkg dstID).length + 4 < 2 ^ 32 := by
        rw [copyFor_length hpkg]
        have hmax := hpkg.le_max
        unfold xyPkgMaxLen at hmax
        omega
      have hcopies : copyFor now (copyFor now pkg dstID) = copyFor now pkg :=
        funext fun other => copyFor_copy now pkg dstID other
      have hone := h.deliverOne hlast (hdsts dstID List.mem_cons_self) hlen
      have hfirst : [dstID] <+: dstID :: dsts :=
        List.cons_prefix_cons.mpr ⟨rfl, List.nil_prefix⟩
      rw [deliverAll_cons]
      cases hdeliver : bus.deliverOne dstID (copyFor now pkg dstID) with
      | mk left next =>
          rw [hdeliver] at hone
          cases left with
          | none =>
              obtain hcalled | ⟨habsurd, _⟩ := hone
              · obtain ⟨served, attempted, hserved, hattempted, hall, hlater⟩ :=
                  ih hcalled.serving hcalled.last
                    (fun other hother =>
                      hdsts other (List.mem_cons_of_mem _ hother))
                    (wellFormed_copyFor hpkg now dstID)
                refine ⟨dstID :: served, dstID :: attempted,
                  List.cons_prefix_cons.mpr ⟨rfl, hserved⟩,
                  List.cons_prefix_cons.mpr ⟨rfl, hattempted⟩, ?_,
                  (hcalled.trans hlater).congr ?_ ?_⟩
                · intro hret
                  rw [hall hret]
                · intro other _
                  rw [copiesTo_cons, copiesTo, copiesTo, hcopies]
                · intro serverID _
                  rw [copiesAt_cons, List.append_assoc, copiesAt, copiesAt,
                    hcopies]
              · exact absurd rfl habsurd
          | some ret =>
              have hret := deliverOne_ret hdeliver
              obtain hcalled | ⟨_, hcalled⟩ := hone
              · refine ⟨[dstID], [dstID], List.prefix_rfl, hfirst, ?_,
                  hcalled.congr ?_ ?_⟩
                · intro hzero
                  exact absurd hzero hret
                · intro other _
                  rw [copiesTo_cons, copiesTo, List.filter_nil, List.map_nil,
                    List.append_nil]
                · intro serverID _
                  rw [copiesAt_cons, copiesAt, List.filter_nil, List.map_nil,
                    List.append_nil]
              · refine ⟨[], [dstID], List.nil_prefix, hfirst, ?_,
                  hcalled.congr ?_ ?_⟩
                · intro hzero
                  exact absurd hzero hret
                · intro other _
                  rw [copiesTo_cons, copiesTo, List.filter_nil, List.map_nil,
                    List.append_nil]
                · intro serverID _
                  rw [copiesAt, List.filter_nil, List.map_nil, List.append_nil]

/-- A change of state goes to the first of the clusters. -/
theorem Serving.stateChangeAll {clusters : List UInt32}
    (h : Serving ini own bus contents) (hlast : AvoidsLast bus)
    (hnodup : clusters.Nodup)
    (hclusters : ∀ other ∈ clusters, other ∈ ini.clusters) :
    ∃ control : UInt32 → List (List UInt8),
      (∀ other, control other = [] ∨ other ∈ clusters ∧
        control other = [pkg]) ∧
      Called ini own bus (stateChangeAll bus pkg clusters).2 control
        contents := by
  induction clusters generalizing bus with
  | nil =>
      refine ⟨fun _ => [], fun _ => .inl rfl, ?_⟩
      simpa [CBus.stateChangeAll] using h.called hlast
  | cons other clusters ih =>
      obtain ⟨hfresh, hrest⟩ := List.nodup_cons.mp hnodup
      have hlater (later : UInt32) (hmem : later ∈ clusters) :
          later ∈ ini.clusters :=
        hclusters later (List.mem_cons_of_mem _ hmem)
      have hskip : ∃ control : UInt32 → List (List UInt8),
          (∀ cluster, control cluster = [] ∨ cluster ∈ other :: clusters ∧
            control cluster = [pkg]) ∧
          Called ini own bus (CBus.stateChangeAll bus pkg clusters).2 control
            contents := by
        obtain ⟨control, hcontrol, hcalled⟩ := ih h hlast hrest hlater
        refine ⟨control, ?_, hcalled⟩
        intro cluster
        exact (hcontrol cluster).imp_right fun hsent =>
          ⟨List.mem_cons_of_mem _ hsent.1, hsent.2⟩
      obtain ⟨info, hfind, hsend⟩ :=
        h.send2Cluster hlast (hclusters other List.mem_cons_self) pkg
      rw [CBus.stateChangeAll, hfind]
      dsimp only
      split_ifs with hown hret
      · exact hskip
      · refine ⟨_, ?_, hsend⟩
        intro cluster
        split_ifs with heq
        · exact .inr ⟨by rw [heq]; exact List.mem_cons_self, rfl⟩
        · exact .inl rfl
      · obtain ⟨control, hcontrol, hcalled⟩ :=
          ih hsend.serving hsend.last hrest hlater
        refine ⟨_, ?_, hsend.trans hcalled⟩
        intro cluster
        split_ifs with heq
        · right
          obtain hnone | ⟨hmem, _⟩ := hcontrol cluster
          · rw [hnone, heq]
            exact ⟨List.mem_cons_self, rfl⟩
          · rw [heq] at hmem
            exact absurd hmem hfresh
        · exact (hcontrol cluster).imp_right fun hsent =>
            ⟨List.mem_cons_of_mem _ hsent.1, hsent.2⟩

instance (packet : List UInt8) : Decidable (WellFormed packet) :=
  decidable_of_iff (BusHeader.getHeaderLen ≤ packet.length ∧
    packet.length ≤ xyPkgMaxLen ∧
    (BusHeader.read packet).pkgLen.toNat = packet.length)
    ⟨fun h => ⟨h.1, h.2.1, h.2.2⟩, fun h => ⟨h.1, h.2, h.3⟩⟩

/-- The servers that a packet is forwarded to. -/
def wanted (ini : Ini) (rand : ℕ → ℕ) (pkg : List UInt8) : List UInt32 :=
  if WellFormed pkg ∧ (BusHeader.read pkg).cmdID ≠ cmdStateChange then
    ini.addressed rand (BusHeader.read pkg)
  else []

/-- Heartbeats and changes of state are for the bus itself. -/
def Control (packet : List UInt8) : Prop :=
  (BusHeader.read packet).cmdID = cmdHeartbeat ∨
    (BusHeader.read packet).cmdID = cmdStateChange

instance (packet : List UInt8) : Decidable (Control packet) :=
  inferInstanceAs (Decidable (_ ∨ _))

theorem forwardMsg_of_not_wellFormed (hpkg : ¬ WellFormed pkg)
    (parsers : Parsers) (rand : ℕ → ℕ) (now : UInt64) (bus : CBus) :
    bus.forwardMsg parsers rand now pkg = (-1, bus) := by
  unfold forwardMsg
  split_ifs with hshort
  · rfl
  · dsimp only
    split_ifs with hlen hmax
    · rfl
    · rfl
    all_goals
      exfalso
      apply hpkg
      refine ⟨by omega, by omega, ?_⟩
      have hvalue := (BusHeader.read pkg).pkgLen.toNat_lt
      unfold asInt at hlen
      split_ifs at hlen <;> omega

/-- The packets for a link in one call of `ForwardMsg`. -/
def offered (ini : Ini) (now : UInt64) (pkg : List UInt8)
    (dsts : List UInt32) (other : UInt32) : List (List UInt8) :=
  if (BusHeader.read pkg).cmdID = cmdStateChange then [pkg]
  else copiesTo ini now pkg dsts other

/-- A change of state that is well formed goes to the other clusters, or
nowhere. -/
theorem Serving.forwardState (h : Serving ini own bus contents)
    (hlast : AvoidsLast bus) {rand : ℕ → ℕ} (parsers : Parsers)
    (hpkg : WellFormed pkg)
    (hstate : (BusHeader.read pkg).cmdID = cmdStateChange) :
    ∃ control : UInt32 → List (List UInt8),
      (∀ other, control other = [] ∨ control other = [pkg] ∧
        (BusHeader.read pkg).sendType = toSrv) ∧
      Called ini own bus (bus.forwardMsg parsers rand now pkg).2 control
        contents := by
  have hsilent : ∃ control : UInt32 → List (List UInt8),
      (∀ other, control other = [] ∨ control other = [pkg] ∧
        (BusHeader.read pkg).sendType = toSrv) ∧
      Called ini own bus bus control contents :=
    ⟨fun _ => [], fun _ => .inl rfl, h.called hlast⟩
  have hmin := hpkg.header_le
  have hmax := hpkg.le_max
  unfold CBus.forwardMsg
  rw [if_neg (by omega)]
  dsimp only
  rewrite [hpkg.goodLen.asInt_eq, hpkg.pkgLen_eq, if_neg (by simp),
    if_neg (by omega), if_pos hstate]
  split_ifs with hsend
  · exact hsilent
  · cases hparse : parsers.stateChangeMsg
        (pkg.drop BusHeader.getHeaderLen) with
    | none => exact hsilent
    | some change =>
        dsimp only
        cases hserver : bus.mapSvrInfo change.1.toUInt32 with
        | none => exact hsilent
        | some server =>
            dsimp only
            have hset := h.setStatus hlast hserver change.2
            obtain ⟨control, hcontrol, hcalled⟩ :=
              hset.serving.stateChangeAll hset.last h.table.keys
                fun other hother => (h.routes.keys other).mp hother
            refine ⟨control, ?_, (hset.trans hcalled).congr ?_
              fun _ _ => rfl⟩
            · intro other
              exact (hcontrol other).imp_right fun hsent =>
                ⟨hsent.2, not_not.mp hsend⟩
            · intro other _
              rw [List.nil_append]

/-- `ForwardMsg` serves the first of the servers wanted, and gives the links the
first of the packets for them; all of them if it returns 0. -/
theorem Serving.forwardMsg (h : Serving ini own bus contents)
    (hlast : AvoidsLast bus) {rand : ℕ → ℕ}
    (hrand : ∀ size, 0 < size → rand size < size) (parsers : Parsers)
    (now : UInt64) (pkg : List UInt8) :
    ∃ served, ∃ sent : UInt32 → List (List UInt8),
      served <+: wanted ini rand pkg ∧
      (∀ other, sent other <+: offered ini now pkg (wanted ini rand pkg)
        other) ∧
      ((bus.forwardMsg parsers rand now pkg).1 = 0 ∨
          wanted ini rand pkg = [] →
        served = wanted ini rand pkg ∧
          ((BusHeader.read pkg).cmdID ≠ cmdStateChange → ∀ other,
            sent other = offered ini now pkg (wanted ini rand pkg) other)) ∧
      (∀ other, ∀ packet ∈ sent other, WellFormed packet ∧
        (BusHeader.read packet).sendType = toSrv) ∧
      Called ini own bus (bus.forwardMsg parsers rand now pkg).2 sent
        (fun serverID =>
          contents serverID ++ copiesAt now pkg served serverID) := by
  by_cases hpkg : WellFormed pkg
  · by_cases hstate : (BusHeader.read pkg).cmdID = cmdStateChange
    · have hwanted : wanted ini rand pkg = [] :=
        if_neg fun hboth => hboth.2 hstate
      obtain ⟨control, hcontrol, hcalled⟩ :=
        h.forwardState hlast parsers hpkg hstate
      rw [hwanted]
      refine ⟨[], control, List.prefix_rfl, ?_, ?_, ?_, hcalled.congr
        (fun _ _ => rfl) ?_⟩
      · intro other
        rw [offered, if_pos hstate]
        obtain hnone | ⟨hsent, _⟩ := hcontrol other
        · rw [hnone]
          exact List.nil_prefix
        · rw [hsent]
      · intro _
        exact ⟨rfl, fun habsurd => absurd hstate habsurd⟩
      · intro other packet hpacket
        obtain hnone | ⟨hsent, hsend⟩ := hcontrol other
        · rw [hnone] at hpacket
          cases hpacket
        · rw [hsent, List.mem_singleton] at hpacket
          rw [hpacket]
          exact ⟨hpkg, hsend⟩
      · intro serverID _
        rw [copiesAt, List.filter_nil, List.map_nil, List.append_nil]
    · have hwanted : wanted ini rand pkg =
          ini.addressed rand (BusHeader.read pkg) := if_pos ⟨hpkg, hstate⟩
      obtain ⟨hafter, hret, _⟩ :=
        h.routes.forwardMsg_eq parsers rand now hpkg hstate
      have hknown : (ini.addressed rand (BusHeader.read pkg)).Sublist
          (ini.servers.map Prod.snd) := Ini.addressed_sublist hrand _
      obtain ⟨served, attempted, hserved, hattempted, hall, hcalled⟩ :=
        h.deliverAll hlast (fun dstID hdst => hknown.subset hdst) hpkg
      rw [hwanted, hafter]
      refine ⟨served, _, hserved.trans hattempted, ?_, ?_, ?_, hcalled⟩
      · intro other
        rw [offered, if_neg hstate]
        exact (hattempted.filter _).map _
      · intro hzero
        have hwhole : served = ini.addressed rand (BusHeader.read pkg) := by
          obtain hzero | hnil := hzero
          · by_cases hnil : ini.addressed rand (BusHeader.read pkg) = []
            · have hempty := hserved.trans hattempted
              rw [hnil, List.prefix_nil] at hempty
              rw [hempty, hnil]
            · rw [hret hnil] at hzero
              exact hall hzero
          · have hempty := hserved.trans hattempted
            rw [hnil, List.prefix_nil] at hempty
            rw [hempty, hnil]
        refine ⟨hwhole, fun _ other => ?_⟩
        rw [hwhole] at hserved
        rw [offered, if_neg hstate, hattempted.eq_of_length
          (le_antisymm hattempted.length_le hserved.length_le)]
      · intro other packet hpacket
        obtain ⟨dstID, _, rfl⟩ := List.mem_map.mp hpacket
        exact ⟨wellFormed_copyFor hpkg now dstID,
          by rw [read_copyFor]; rfl⟩
  · have hwanted : wanted ini rand pkg = [] := if_neg fun hboth => hpkg hboth.1
    rw [hwanted, forwardMsg_of_not_wellFormed hpkg]
    refine ⟨[], fun _ => [], List.prefix_rfl, fun _ => List.nil_prefix, ?_,
      by simp, (h.called hlast).congr (fun _ _ => rfl) ?_⟩
    · intro _
      refine ⟨rfl, fun hstate other => ?_⟩
      rw [offered, if_neg hstate, copiesTo, List.filter_nil, List.map_nil]
    · intro serverID _
      rw [copiesAt, List.filter_nil, List.map_nil, List.append_nil]

end Deliver

/-! ## `ProcessPkg` -/

/-- The queue takes what `ProcessPkg` gives it. -/
def accepted (bus : CBus) (run : PkgRun) : Bool :=
  run.queued.all fun message =>
    (bus.queueOf (BusHeader.read message).dstID).all fun pQueue =>
      (pQueue.inQueue message).1 = success

/-- `ProcessPkg` with a note whether every message has found room. -/
def checked (parsers : Parsers) (state : CBus × Bool) (buff : List UInt8) :
    (CBus × Bool) × ℤ :=
  let run := processPkg parsers state.1 buff
  ((run.bus, state.2 && state.1.accepted run), run.ret)

theorem checked_ret (parsers : Parsers) (state : CBus × Bool)
    (buff : List UInt8) : (checked parsers state buff).2 = procLen buff :=
  processPkg_ret parsers state.1 buff

/-- A packet that the bus of the cluster hands on to one server. -/
def TransferFor (serverID : UInt32) (packet : List UInt8) : Prop :=
  ¬ Control packet ∧ (BusHeader.read packet).dstID = serverID

instance (serverID : UInt32) (packet : List UInt8) :
    Decidable (TransferFor serverID packet) :=
  inferInstanceAs (Decidable (_ ∧ _))

section Process

variable {packets : List (List UInt8)}

/-- A packet for a local server goes into its queue, if the queue has room for
it; all other packets leave the queues alone. -/
theorem Serving.processPkg (h : Serving ini own bus contents)
    (hlast : AvoidsLast bus) (parsers : Parsers) (hpacket : WellFormed packet)
    (hsend : (BusHeader.read packet).sendType = toSrv) :
    ∃ fresh : UInt32 → List (List UInt8),
      Called ini own bus (processPkg parsers bus packet).bus (fun _ => [])
        (fun serverID => contents serverID ++ fresh serverID) ∧
      ∀ serverID, (own, serverID) ∈ ini.servers →
        Follows (bus.accepted (CBus.processPkg parsers bus packet) = true)
          (fresh serverID)
          (if TransferFor serverID packet then [packet] else []) := by
  have hlen : packet.length + 4 < 2 ^ 32 := by
    have hmax := hpacket.le_max
    unfold xyPkgMaxLen at hmax
    omega
  have hsilent (after : CBus)
      (hafter : Called ini own bus after (fun _ => []) contents)
      (exact : Prop)
      (hnone : ∀ serverID, (own, serverID) ∈ ini.servers →
        ¬ TransferFor serverID packet) :
      ∃ fresh : UInt32 → List (List UInt8),
        Called ini own bus after (fun _ => [])
          (fun serverID => contents serverID ++ fresh serverID) ∧
        ∀ serverID, (own, serverID) ∈ ini.servers → Follows exact
          (fresh serverID)
          (if TransferFor serverID packet then [packet] else []) := by
    refine ⟨fun _ => [], by simpa using hafter, ?_⟩
    intro serverID hlocal
    rw [if_neg (hnone serverID hlocal)]
    exact Follows.refl exact []
  have hrefl := h.called hlast
  rw [processPkg_of_complete hpacket.header_le hpacket.goodLen
    hpacket.pkgLen_eq.le, hpacket.pkgLen_eq, List.take_length]
  unfold processCopy
  dsimp only
  rw [if_neg (not_not.mpr hsend)]
  split_ifs with hheartbeat hstate
  · exact hsilent _ hrefl _ fun serverID _ htransfer => htransfer.1 (.inl hheartbeat)
  · have hcontrol (serverID : UInt32) :
        (own, serverID) ∈ ini.servers → ¬ TransferFor serverID packet :=
      fun _ htransfer => htransfer.1 (.inr hstate)
    cases hparse : parsers.stateChangeMsg
        (packet.drop BusHeader.getHeaderLen) with
    | none => exact hsilent _ hrefl _ hcontrol
    | some change =>
        dsimp only
        cases hserver : bus.mapSvrInfo change.1.toUInt32 with
        | none => exact hsilent _ hrefl _ hcontrol
        | some info => exact hsilent _ (h.setStatus hlast hserver change.2) _ hcontrol
  · by_cases hlocal : (own, (BusHeader.read packet).dstID) ∈ ini.servers
    · obtain ⟨info, pQueue, hserver, hcluster, hqueue, hopen, hholds⟩ :=
        h.localServer hlocal
      rw [hserver]
      dsimp only
      rw [if_pos hcluster, hqueue]
      dsimp only
      refine ⟨fun serverID =>
        if (BusHeader.read packet).dstID = serverID ∧
            (pQueue.inQueue packet).1 = success then [packet] else [],
        (h.inQueue hlast hserver hholds hlen).congr (fun _ _ => rfl) ?_, ?_⟩
      · intro serverID _
        rw [Function.update_apply]
        by_cases heq : serverID = (BusHeader.read packet).dstID
        · simp [heq]
        · simp [heq, Ne.symm heq]
      · intro serverID _
        have htransfer : TransferFor serverID packet ↔
            (BusHeader.read packet).dstID = serverID :=
          and_iff_right (not_or.mpr ⟨hheartbeat, hstate⟩)
        have hexact : bus.accepted ⟨some (asInt (BusHeader.read packet).pkgLen),
            none, some packet, bus.setQueue (BusHeader.read packet).dstID info
              (pQueue.inQueue packet).2, asInt (BusHeader.read packet).pkgLen⟩ =
            true ↔ (pQueue.inQueue packet).1 = success := by
          simp [accepted, hopen]
        dsimp only
        by_cases heq : (BusHeader.read packet).dstID = serverID
        · rw [if_pos (htransfer.mpr heq)]
          by_cases hret : (pQueue.inQueue packet).1 = success
          · rw [if_pos ⟨heq, hret⟩]
            exact Follows.refl _ _
          · rw [if_neg fun hboth => hret hboth.2]
            exact Follows.nil (fun hok => hret (hexact.mp hok)) _
        · rw [if_neg (fun hboth => heq hboth.1),
            if_neg (fun hboth => heq (htransfer.mp hboth))]
          exact Follows.refl _ _
    · have hnone (serverID : UInt32) (hmem : (own, serverID) ∈ ini.servers) :
          ¬ TransferFor serverID packet := by
        rintro ⟨_, rfl⟩
        exact hlocal hmem
      cases hserver : bus.mapSvrInfo (BusHeader.read packet).dstID with
      | none => exact hsilent _ hrefl _ hnone
      | some info =>
          have hremote : info.clusterID ≠ bus.clusterID := by
            intro hcluster
            by_cases hknown : (BusHeader.read packet).dstID ∈
                ini.servers.map Prod.snd
            · obtain ⟨⟨clusterID, _⟩, hentry, heq⟩ := List.mem_map.mp hknown
              obtain ⟨found, hfound, hid⟩ := h.routes.server _ hentry
              dsimp only at heq hfound hid
              rw [heq, hserver, Option.some.injEq] at hfound
              rw [← hfound, hcluster, h.routes.own] at hid
              rw [← hid, heq] at hentry
              exact hlocal hentry
            · rw [h.routes.absent _ hknown] at hserver
              cases hserver
          dsimp only
          rw [if_neg hremote]
          exact hsilent _ hrefl _ hnone

/-- The packets of a link, one after the other. -/
theorem Serving.processAll (h : Serving ini own bus contents)
    (hlast : AvoidsLast bus) (parsers : Parsers)
    (hpackets : ∀ packet ∈ packets, WellFormed packet ∧
      (BusHeader.read packet).sendType = toSrv) (room : Bool) :
    ∃ fresh : UInt32 → List (List UInt8),
      Called ini own bus
        (processAll (checked parsers) (bus, room) packets).1 (fun _ => [])
        (fun serverID => contents serverID ++ fresh serverID) ∧
      ((Receive.processAll (checked parsers) (bus, room) packets).2 = true →
        room = true) ∧
      ∀ serverID, (own, serverID) ∈ ini.servers →
        Follows
          ((Receive.processAll (checked parsers) (bus, room) packets).2 = true)
          (fresh serverID)
          (packets.filter fun packet => TransferFor serverID packet) := by
  induction packets generalizing bus contents room with
  | nil =>
      refine ⟨fun _ => [],
        by simpa [Receive.processAll] using h.called hlast, id, ?_⟩
      intro serverID _
      exact Follows.refl _ []
  | cons packet packets ih =>
      obtain ⟨hpacket, hsend⟩ := hpackets packet List.mem_cons_self
      obtain ⟨first, hfirst, hone⟩ :=
        h.processPkg hlast parsers hpacket hsend
      obtain ⟨rest, hrest, hroom, hfollows⟩ := ih hfirst.serving hfirst.last
        (fun later hlater => hpackets later (List.mem_cons_of_mem _ hlater))
        (room && bus.accepted (CBus.processPkg parsers bus packet))
      refine ⟨fun serverID => first serverID ++ rest serverID, ?_, ?_, ?_⟩
      · apply (hfirst.trans hrest).congr
        · intro _ _
          rfl
        · intro serverID _
          rw [List.append_assoc]
      · intro hall
        exact (Bool.and_eq_true_iff.mp (hroom hall)).1
      · intro serverID hlocal
        have happend := ((hone serverID hlocal).weaken fun hall =>
          (Bool.and_eq_true_iff.mp (hroom hall)).2).append
          (hfollows serverID hlocal)
        have hfilter : ((packet :: packets).filter
            fun packet => TransferFor serverID packet) =
            (if TransferFor serverID packet then [packet] else []) ++
              packets.filter fun packet => TransferFor serverID packet := by
          rw [List.filter_cons]
          split_ifs with hpos hneg hneg
          · rfl
          · exact absurd (of_decide_eq_true hpos) hneg
          · exact absurd (decide_eq_true hneg) hpos
          · rfl
        rw [hfilter]
        exact happend

end Process

end Serving

/-! ## What has arrived -/

theorem processPkg_of_takes {parsers : Parsers} {bus : CBus}
    {buff : List UInt8} (hnot : ¬ BadHeader buff)
    (htakes : Takes procLen buff) :
    processPkg parsers bus buff =
      processPkg parsers bus (buff.take (procLen buff).toNat) := by
  obtain ⟨hheader, hgood, hlen⟩ := goodLen_of_takes hnot htakes
  have hle := htakes.toNat_le
  rw [hlen] at hle ⊢
  have hmin := hgood.1
  have hfront : (buff.take (BusHeader.read buff).pkgLen.toNat).length =
      (BusHeader.read buff).pkgLen.toNat := by
    rw [List.length_take]
    omega
  have hread : BusHeader.read
      (buff.take (BusHeader.read buff).pkgLen.toNat) =
        BusHeader.read buff := by
    conv_rhs =>
      rw [← List.take_append_drop (BusHeader.read buff).pkgLen.toNat buff]
    exact (BusHeader.read_append (by omega) _).symm
  rw [processPkg_of_complete hheader hgood hle,
    processPkg_of_complete (by omega) (by rw [hread]; exact hgood)
      (by rw [hread]; omega), hread, List.take_take, min_self]

/-- The calls of `ProcessPkg` on a framed buffer work on its packets. -/
theorem processAll_visits (parsers : Parsers) {buffer : List UInt8}
    (hframed : Framed buffer) (state : CBus × Bool) :
    processAll (checked parsers) state (visits procLen buffer) =
      processAll (checked parsers) state (split procLen buffer).packets := by
  have hgood := (framed_iff_visits buffer).mp hframed
  apply visits_foldl
  · intro state buff hbuff htakes
    rw [checked, checked, processPkg_of_takes (hgood buff hbuff) htakes]
  · intro state buff hbuff htakes
    rw [checked, processPkg_bus_of_not_takes (hgood buff hbuff) htakes]
    simp [accepted]

end CBus

end MessageBus.Bus
