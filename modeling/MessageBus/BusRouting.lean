import MessageBus.BusBroadcast
import MessageBus.BusLinks
import MessageBus.BusReceive

/-!
# Routing over all clusters

A packet that a server gives to the bus of its cluster reaches the servers it
addresses, wherever they are: `ForwardMsg` puts copies into the local queues and
on the links, and `ProcessPkg` of the other clusters takes them from there.
-/

namespace MessageBus.Bus

open ShmQueue
open Send
open Receive
open Handout
open CBus

/-! ## Who is addressed -/

namespace Ini

/-- The identifiers of the clusters. -/
def clusters (ini : Ini) : List UInt32 := ini.clusterList.map Prod.fst

/-- The members of a group, in the order of the file. -/
def members (ini : Ini) (groupID : UInt32) : List UInt32 :=
  (ini.servers.map Prod.snd).filter fun serverID =>
    (ini.server serverID).groupID = groupID

/-- The server whose index is drawn. -/
def draw (rand : ℕ → ℕ) (servers : List UInt32) : List UInt32 :=
  if servers = [] then [] else [servers.getD (rand servers.length) 0]

/-- The servers to which a packet has to be delivered. -/
def addressed (ini : Ini) (rand : ℕ → ℕ) (header : BusHeader) :
    List UInt32 :=
  if header.sendType = toGrpAll then ini.members header.dstID
  else if header.sendType = toGrpAllnome then
    (ini.members header.dstID).filter fun member => member ≠ header.srcID
  else if header.sendType = toGrpRnd then
    draw rand (ini.members header.dstID)
  else if header.sendType = toGrpRndnome then
    draw rand ((ini.members header.dstID).filter
      fun member => member ≠ header.srcID)
  else (ini.servers.map Prod.snd).filter fun serverID =>
    serverID = header.dstID

/-- The destinations that the send type of a packet asks for. -/
structure Addresses (ini : Ini) (header : BusHeader) (dsts : List UInt32) :
    Prop where
  srv : header.sendType = toSrv → ∀ dst, dst ∈ dsts ↔
    dst ∈ ini.servers.map Prod.snd ∧ dst = header.dstID
  grpAll : header.sendType = toGrpAll → ∀ dst, dst ∈ dsts ↔
    dst ∈ ini.members header.dstID
  grpAllnome : header.sendType = toGrpAllnome → ∀ dst, dst ∈ dsts ↔
    dst ∈ ini.members header.dstID ∧ dst ≠ header.srcID
  grpRnd : header.sendType = toGrpRnd →
    ini.members header.dstID = [] ∧ dsts = [] ∨
      ∃ dst ∈ ini.members header.dstID, dsts = [dst]
  grpRndnome : header.sendType = toGrpRndnome →
    (∀ dst ∈ ini.members header.dstID, dst = header.srcID) ∧ dsts = [] ∨
      ∃ dst ∈ ini.members header.dstID, dst ≠ header.srcID ∧ dsts = [dst]

variable {ini : Ini} {rand : ℕ → ℕ} {header : BusHeader}

theorem draw_cases (hrand : ∀ size, 0 < size → rand size < size)
    (servers : List UInt32) :
    servers = [] ∧ draw rand servers = [] ∨
      ∃ server ∈ servers, draw rand servers = [server] := by
  by_cases hempty : servers = []
  · left
    exact ⟨hempty, if_pos hempty⟩
  · right
    have hlt := hrand servers.length (List.length_pos_iff.mpr hempty)
    refine ⟨servers.getD (rand servers.length) 0, ?_, if_neg hempty⟩
    rw [List.getD_eq_getElem?_getD, List.getElem?_eq_getElem hlt,
      Option.getD_some]
    exact List.getElem_mem hlt

theorem addresses_addressed (hrand : ∀ size, 0 < size → rand size < size)
    (header : BusHeader) :
    ini.Addresses header (ini.addressed rand header) := by
  refine ⟨?_, ?_, ?_, ?_, ?_⟩
  · intro hsend dst
    rw [addressed, hsend, if_neg (by decide), if_neg (by decide),
      if_neg (by decide), if_neg (by decide), List.mem_filter,
      decide_eq_true_iff]
  · intro hsend dst
    rw [addressed, hsend, if_pos rfl]
  · intro hsend dst
    rw [addressed, hsend, if_neg (by decide), if_pos rfl, List.mem_filter,
      decide_eq_true_iff]
  · intro hsend
    rw [addressed, hsend, if_neg (by decide), if_neg (by decide), if_pos rfl]
    exact draw_cases hrand _
  · intro hsend
    rw [addressed, hsend, if_neg (by decide), if_neg (by decide),
      if_neg (by decide), if_pos rfl]
    obtain ⟨hnil, hdraw⟩ | ⟨dst, hdst, hdraw⟩ := draw_cases hrand
      ((ini.members header.dstID).filter fun member => member ≠ header.srcID)
    · left
      refine ⟨?_, hdraw⟩
      intro dst hdst
      simpa using List.filter_eq_nil_iff.mp hnil dst hdst
    · right
      obtain ⟨hmember, hne⟩ := List.mem_filter.mp hdst
      exact ⟨dst, hmember, of_decide_eq_true hne, hdraw⟩

theorem addressed_random (ini : Ini) (rand : ℕ → ℕ)
    (hsend : header.sendType = toGrpRnd ∨ header.sendType = toGrpRndnome) :
    ini.addressed rand header = draw rand
      (if header.sendType = toGrpRndnome then
        (ini.members header.dstID).filter fun member => member ≠ header.srcID
      else ini.members header.dstID) := by
  unfold addressed
  obtain hsend | hsend := hsend
  · rw [hsend, if_neg (by decide), if_neg (by decide), if_pos rfl,
      if_neg (by decide)]
  · rw [hsend, if_neg (by decide), if_neg (by decide), if_neg (by decide),
      if_pos rfl, if_pos rfl]

theorem addressed_all (ini : Ini) (rand : ℕ → ℕ)
    (hsend : header.sendType = toGrpAllnome ∨ header.sendType = toGrpAll) :
    ini.addressed rand header =
      if header.sendType = toGrpAllnome then
        (ini.members header.dstID).filter fun member => member ≠ header.srcID
      else ini.members header.dstID := by
  unfold addressed
  obtain hsend | hsend := hsend
  · rw [hsend, if_neg (by decide), if_pos rfl, if_pos rfl]
  · rw [hsend, if_pos rfl, if_neg (by decide)]

theorem addressed_single (ini : Ini) (rand : ℕ → ℕ)
    (hrandom : ¬ (header.sendType = toGrpRnd ∨
      header.sendType = toGrpRndnome))
    (hall : ¬ (header.sendType = toGrpAllnome ∨
      header.sendType = toGrpAll)) :
    ini.addressed rand header =
      (ini.servers.map Prod.snd).filter fun serverID =>
        serverID = header.dstID := by
  rw [not_or] at hrandom hall
  rw [addressed, if_neg hall.2, if_neg hall.1, if_neg hrandom.1,
    if_neg hrandom.2]

theorem addressed_sublist (hrand : ∀ size, 0 < size → rand size < size)
    (header : BusHeader) :
    (ini.addressed rand header).Sublist (ini.servers.map Prod.snd) := by
  have hdraw (servers : List UInt32) : (draw rand servers).Sublist servers := by
    obtain ⟨_, hnil⟩ | ⟨server, hserver, hone⟩ := draw_cases hrand servers
    · rw [hnil]
      exact List.nil_sublist _
    · rw [hone]
      exact List.singleton_sublist.mpr hserver
  have hmembers := List.filter_sublist (l := ini.servers.map Prod.snd)
    (p := fun serverID => (ini.server serverID).groupID = header.dstID)
  unfold addressed
  split_ifs
  · exact hmembers
  · exact List.filter_sublist.trans hmembers
  · exact (hdraw _).trans hmembers
  · exact (hdraw _).trans (List.filter_sublist.trans hmembers)
  · exact List.filter_sublist

end Ini

namespace CBus

/-! ## The processes of the clusters -/

/-- What `Init` says of a server. -/
def shape (server : ServerInfo) : UInt32 × UInt32 × Bool :=
  (server.clusterID, server.groupID, server.pQueue.isSome)

/-- The process of a cluster whose maps come from the ini file; its links, the
states of the servers and the contents of the queues are what they have
become. -/
def Configured (ini : Ini) (clusterID : UInt32) (bus : CBus) : Prop :=
  ∃ attach start, init ini attach clusterID = some start ∧
    bus.clusterID = start.clusterID ∧
    bus.mapGrpInfo = start.mapGrpInfo ∧
    bus.mapClusterInfo.map ClusterInfo.clusterID =
      start.mapClusterInfo.map ClusterInfo.clusterID ∧
    ∀ serverID, (bus.mapSvrInfo serverID).map shape =
      (start.mapSvrInfo serverID).map shape

/-- What the maps of a process say. -/
structure Routes (ini : Ini) (clusterID : UInt32) (bus : CBus) : Prop where
  own : bus.clusterID = clusterID
  keys : ∀ other, other ∈ bus.mapClusterInfo.map ClusterInfo.clusterID ↔
    other ∈ ini.clusters
  keys_nodup : bus.DistinctKeys
  servers_nodup : (ini.servers.map Prod.snd).Nodup
  known : ∀ entry ∈ ini.servers, entry.1 ∈ ini.clusters
  server : ∀ entry ∈ ini.servers, ∃ server,
    bus.mapSvrInfo entry.2 = some server ∧ server.clusterID = entry.1
  absent : ∀ serverID, serverID ∉ ini.servers.map Prod.snd →
    bus.mapSvrInfo serverID = none
  groups : ∀ groupID, (bus.mapGrpInfo groupID).getD [] = ini.members groupID
  groups_ne : ∀ groupID, bus.mapGrpInfo groupID ≠ some []

theorem Configured.routes {ini : Ini} {clusterID : UInt32} {bus : CBus}
    (h : Configured ini clusterID bus) : Routes ini clusterID bus := by
  obtain ⟨attach, start, hinit, hown, hgroups, hclusters, hservers⟩ := h
  have htables := init_tables hinit
  refine ⟨hown.trans htables.own, ?_, ?_, htables.servers_nodup,
    htables.known, ?_, ?_, ?_, ?_⟩
  · intro other
    rw [hclusters]
    exact htables.keys.mem_iff
  · rw [DistinctKeys, hclusters]
    exact htables.keys_nodup
  · intro entry hentry
    have hserver := hservers entry.2
    rw [htables.present entry hentry, Option.map_some] at hserver
    obtain ⟨server, hfound, hshape⟩ := Option.map_eq_some_iff.mp hserver
    exact ⟨server, hfound, congrArg Prod.fst hshape⟩
  · intro serverID habsent
    have hserver := hservers serverID
    rw [htables.absent serverID habsent, Option.map_none] at hserver
    exact Option.map_eq_none_iff.mp hserver
  · intro groupID
    rw [hgroups]
    exact htables.groups groupID
  · intro groupID
    rw [hgroups]
    exact htables.groups_ne groupID

section Routes

variable {ini : Ini} {own : UInt32} {bus : CBus} {rand : ℕ → ℕ}
  {now : UInt64} {pkg : List UInt8} {header : BusHeader}

theorem Routes.mapGrpInfo_eq (h : Routes ini own bus) (groupID : UInt32) :
    bus.mapGrpInfo groupID =
      if ini.members groupID = [] then none
      else some (ini.members groupID) := by
  have hgroup := h.groups groupID
  cases hmembers : bus.mapGrpInfo groupID with
  | none =>
      rw [hmembers, Option.getD_none] at hgroup
      rw [if_pos hgroup.symm]
  | some members =>
      rw [hmembers, Option.getD_some] at hgroup
      have hne := h.groups_ne groupID
      rw [hmembers, hgroup] at hne
      rw [if_neg (fun hnil => hne (by rw [hnil])), hgroup]

theorem filter_eq_of_nodup {servers : List UInt32} {dstID : UInt32}
    (hnodup : servers.Nodup) (hmem : dstID ∈ servers) :
    (servers.filter fun serverID => serverID = dstID) = [dstID] := by
  rw [List.filter_eq, List.count_eq_one_of_mem hnodup hmem,
    List.replicate_one]

theorem filter_nome (members : List UInt32) (srcID : UInt32)
    (sendType nome : UInt8) :
    (members.filter fun member => ¬ (member = srcID ∧ sendType = nome)) =
      if sendType = nome then members.filter fun member => member ≠ srcID
      else members := by
  split_ifs with hnome
  · simp [hnome]
  · simp [hnome]

/-- The destinations of `ForwardMsg` are the servers addressed, if there are
any. -/
theorem Routes.destinations_cases (h : Routes ini own bus) (rand : ℕ → ℕ)
    (header : BusHeader) :
    (bus.destinations rand header = some (ini.addressed rand header) ∧
        (header.sendType = toGrpRnd ∨ header.sendType = toGrpRndnome →
          ini.addressed rand header ≠ [])) ∨
      (bus.destinations rand header = none ∧
        ini.addressed rand header = []) ∨
      (bus.destinations rand header = some [header.dstID] ∧
        bus.mapSvrInfo header.dstID = none ∧
        ini.addressed rand header = [] ∧
        header.sendType ≠ toGrpRnd ∧ header.sendType ≠ toGrpRndnome) := by
  unfold destinations
  rw [h.mapGrpInfo_eq]
  by_cases hrandom : header.sendType = toGrpRnd ∨
      header.sendType = toGrpRndnome
  · rw [if_pos hrandom, ini.addressed_random rand hrandom]
    by_cases hnone : ini.members header.dstID = []
    · right
      left
      simp [hnone, Ini.draw]
    · rw [if_neg hnone]
      dsimp only
      rw [filter_nome]
      generalize (if header.sendType = toGrpRndnome then
        (ini.members header.dstID).filter fun member => member ≠ header.srcID
        else ini.members header.dstID) = servers
      by_cases hempty : servers = []
      · right
        left
        simp [hempty, Ini.draw]
      · left
        simp [hempty, Ini.draw]
  · rw [if_neg hrandom]
    have hnot (servers : List UInt32) :
        header.sendType = toGrpRnd ∨ header.sendType = toGrpRndnome →
          servers ≠ [] := fun hsend => absurd hsend hrandom
    by_cases hall : header.sendType = toGrpAllnome ∨
        header.sendType = toGrpAll
    · rw [if_pos hall, ini.addressed_all rand hall]
      by_cases hnone : ini.members header.dstID = []
      · right
        left
        simp [hnone]
      · left
        refine ⟨?_, hnot _⟩
        rw [if_neg hnone]
        dsimp only
        rw [filter_nome]
    · rw [if_neg hall, ini.addressed_single rand hrandom hall]
      by_cases hknown : header.dstID ∈ ini.servers.map Prod.snd
      · left
        rw [filter_eq_of_nodup h.servers_nodup hknown]
        exact ⟨rfl, hnot _⟩
      · right
        right
        refine ⟨rfl, h.absent _ hknown, ?_, fun heq => hrandom (.inl heq),
          fun heq => hrandom (.inr heq)⟩
        rw [List.filter_eq_nil_iff]
        intro serverID hserver heq
        rw [of_decide_eq_true heq] at hserver
        exact hknown hserver

/-- `ForwardMsg` runs its delivery loop over the servers addressed. -/
theorem Routes.forwardMsg_eq (h : Routes ini own bus) (parsers : Parsers)
    (rand : ℕ → ℕ) (now : UInt64) (hpkg : WellFormed pkg)
    (hstate : (BusHeader.read pkg).cmdID ≠ cmdStateChange) :
    (bus.forwardMsg parsers rand now pkg).2 =
        (deliverAll now bus (BusHeader.read pkg) pkg
          (ini.addressed rand (BusHeader.read pkg))).2 ∧
      (ini.addressed rand (BusHeader.read pkg) ≠ [] →
        (bus.forwardMsg parsers rand now pkg).1 =
          (deliverAll now bus (BusHeader.read pkg) pkg
            (ini.addressed rand (BusHeader.read pkg))).1) ∧
      (ini.addressed rand (BusHeader.read pkg) = [] →
        (BusHeader.read pkg).sendType = toGrpRnd ∨
          (BusHeader.read pkg).sendType = toGrpRndnome →
        (bus.forwardMsg parsers rand now pkg).1 = -1) := by
  have hmin := hpkg.header_le
  have hmax := hpkg.le_max
  have hforward : bus.forwardMsg parsers rand now pkg =
      (bus.destinations rand (BusHeader.read pkg)).elim (-1, bus)
        (deliverAll now bus (BusHeader.read pkg) pkg) := by
    unfold forwardMsg
    rw [if_neg (by omega)]
    dsimp only
    rewrite [hpkg.goodLen.asInt_eq, hpkg.pkgLen_eq, if_neg (by simp),
      if_neg (by omega), if_neg hstate]
    cases bus.destinations rand (BusHeader.read pkg) <;> rfl
  rw [hforward]
  obtain ⟨hsome, hrandom⟩ | ⟨hnone, hnil⟩ | ⟨hsome, habsent, hnil, hrandom⟩ :=
    h.destinations_cases rand (BusHeader.read pkg)
  · rw [hsome]
    exact ⟨rfl, fun _ => rfl, fun hnil hsend => absurd hnil (hrandom hsend)⟩
  · rw [hnone, hnil]
    exact ⟨rfl, fun hne => absurd rfl hne, fun _ _ => rfl⟩
  · rw [hsome, hnil]
    refine ⟨?_, fun hne => absurd rfl hne, ?_⟩
    · simp [deliverAll, deliverOne, habsent]
    · rintro - (hsend | hsend)
      · exact absurd hsend hrandom.1
      · exact absurd hsend hrandom.2

/-! ## The cluster that forwards -/

/-- The queue of a server that the process has opened. -/
def queueOf (bus : CBus) (serverID : UInt32) : Option CShmQueue :=
  (bus.mapSvrInfo serverID).bind ServerInfo.pQueue

/-- The queue of a server holds some messages. -/
def QueueHolds (bus : CBus) (serverID : UInt32)
    (messages : List (List UInt8)) : Prop :=
  ∃ pQueue, bus.queueOf serverID = some pQueue ∧ pQueue.Holds messages

/-- The queue of a server holds some messages and has room for one more. -/
def HasRoom (bus : CBus) (serverID : UInt32) (messages : List (List UInt8))
    (size : ℕ) : Prop :=
  ∃ pQueue, bus.queueOf serverID = some pQueue ∧ pQueue.Holds messages ∧
    size + 4 ≤ pQueue.queueDataSize - 1 - usedBytes messages

/-- The connection of the link to a cluster. -/
def linkConn (bus : CBus) (clusterID : UInt32) : Option CConnInfo :=
  (bus.findCluster clusterID).bind fun info => bus.posConnMap info.connPos

/-- Every other cluster is connected, and what has been sent to it so far is a
given stream. -/
structure LinksUp (bus : CBus) (streams : UInt32 → List UInt8) : Prop where
  table : bus.LinkTable
  up : ∀ info ∈ bus.mapClusterInfo, info.clusterID ≠ bus.clusterID →
    info.socketID ≠ -1 ∧ info.connPos ≠ 0 ∧
      ∃ conn, bus.posConnMap info.connPos = some conn ∧
        conn.Carries (streams info.clusterID)

/-- The copies for the servers of one cluster. -/
def copiesTo (ini : Ini) (now : UInt64) (pkg : List UInt8)
    (dsts : List UInt32) (clusterID : UInt32) : List (List UInt8) :=
  (dsts.filter fun dstID => (clusterID, dstID) ∈ ini.servers).map
    (copyFor now pkg)

variable {serverID clusterID : UInt32} {dsts : List UInt32}
  {streams : UInt32 → List UInt8} {messages : List (List UInt8)}

theorem Routes.cluster_unique (h : Routes ini own bus) {other : UInt32}
    (hserver : (clusterID, serverID) ∈ ini.servers)
    (hother : (other, serverID) ∈ ini.servers) : clusterID = other :=
  congrArg Prod.fst
    (List.inj_on_of_nodup_map h.servers_nodup hserver hother rfl)

theorem Routes.target_local (h : Routes ini own bus)
    (hserver : (own, serverID) ∈ ini.servers) :
    bus.target serverID = .queue serverID := by
  obtain ⟨server, hfound, hcluster⟩ := h.server _ hserver
  unfold target
  rw [hfound]
  dsimp only
  rw [if_pos (hcluster.trans h.own.symm)]

theorem Routes.target_remote (h : Routes ini own bus)
    (hserver : (clusterID, serverID) ∈ ini.servers)
    (hother : clusterID ≠ own) :
    bus.target serverID = bus.linkTarget clusterID := by
  obtain ⟨server, hfound, hcluster⟩ := h.server _ hserver
  unfold target
  rw [hfound]
  dsimp only at hcluster ⊢
  rw [hcluster, h.own, if_neg hother]

/-- The link to another cluster. -/
theorem Routes.linkTarget_eq (h : Routes ini own bus)
    (hlinks : LinksUp bus streams) (hcluster : clusterID ∈ ini.clusters)
    (hother : clusterID ≠ own) :
    ∃ info ∈ bus.mapClusterInfo, info.clusterID = clusterID ∧
      bus.findCluster clusterID = some info ∧ info.connPos ≠ 0 ∧
      bus.linkTarget clusterID = .link info.connPos ∧
      ∃ conn, bus.posConnMap info.connPos = some conn ∧
        conn.Carries (streams clusterID) := by
  obtain ⟨info, hinfo, rfl⟩ := List.mem_map.mp ((h.keys clusterID).mpr hcluster)
  rw [← h.own] at hother
  obtain ⟨hsock, hpos, hconn⟩ := hlinks.up info hinfo hother
  have hfind := hlinks.table.findCluster_eq hinfo
  refine ⟨info, hinfo, rfl, hfind, hpos, ?_, hconn⟩
  rw [linkTarget, hfind]
  dsimp only
  rw [if_neg (by simp [hsock, hpos])]

theorem Routes.linkTarget_inj (h : Routes ini own bus)
    (hlinks : LinksUp bus streams) {other : UInt32}
    (hcluster : clusterID ∈ ini.clusters) (hne : clusterID ≠ own)
    (hother : other ∈ ini.clusters) (hother' : other ≠ own)
    (heq : bus.linkTarget clusterID = bus.linkTarget other) :
    clusterID = other := by
  obtain ⟨info, hinfo, rfl, _, hpos, htarget, _⟩ :=
    h.linkTarget_eq hlinks hcluster hne
  obtain ⟨info', hinfo', rfl, _, _, htarget', _⟩ :=
    h.linkTarget_eq hlinks hother hother'
  rw [htarget, htarget', Target.link.injEq] at heq
  rw [hlinks.table.distinct info hinfo info' hinfo' heq hpos]

/-- A local server gets one copy if it is addressed, and none otherwise. -/
theorem Routes.copiesFor_local (h : Routes ini own bus)
    (hlinks : LinksUp bus streams)
    (hdsts : dsts.Sublist (ini.servers.map Prod.snd))
    (hserver : (own, serverID) ∈ ini.servers) :
    copiesFor (.queue serverID)
        (dsts.map fun dstID => (bus.target dstID, copyFor now pkg dstID)) =
      if serverID ∈ dsts then [copyFor now pkg serverID] else [] := by
  have hfilter : (dsts.filter fun dstID =>
      bus.target dstID = .queue serverID) =
      dsts.filter fun dstID => dstID = serverID := by
    apply List.filter_congr
    intro dstID hdst
    obtain ⟨entry, hentry, rfl⟩ := List.mem_map.mp (hdsts.subset hdst)
    by_cases hlocal : entry.1 = own
    · have hmem : (own, entry.2) ∈ ini.servers := by rwa [← hlocal]
      rw [h.target_local hmem]
      simp
    · obtain ⟨_, _, _, _, _, htarget, _⟩ :=
        h.linkTarget_eq hlinks (h.known entry hentry) hlocal
      have hne : entry.2 ≠ serverID := by
        intro heq
        rw [← heq] at hserver
        exact hlocal (h.cluster_unique hentry hserver)
      rw [h.target_remote hentry hlocal, htarget]
      simp [hne]
  rw [copiesFor_map, hfilter]
  have hnodup := h.servers_nodup.sublist hdsts
  split_ifs with hmem
  · rw [filter_eq_of_nodup hnodup hmem, List.map_singleton]
  · rw [List.map_eq_nil_iff, List.filter_eq_nil_iff]
    intro dstID hdst heq
    rw [of_decide_eq_true heq] at hdst
    exact hmem hdst

/-- The link to another cluster gets the copies for its servers. -/
theorem Routes.copiesFor_link (h : Routes ini own bus)
    (hlinks : LinksUp bus streams)
    (hdsts : dsts.Sublist (ini.servers.map Prod.snd))
    (hcluster : clusterID ∈ ini.clusters) (hother : clusterID ≠ own) :
    copiesFor (bus.linkTarget clusterID)
        (dsts.map fun dstID => (bus.target dstID, copyFor now pkg dstID)) =
      copiesTo ini now pkg dsts clusterID := by
  rw [copiesFor_map, copiesTo]
  congr 1
  apply List.filter_congr
  intro dstID hdst
  obtain ⟨entry, hentry, rfl⟩ := List.mem_map.mp (hdsts.subset hdst)
  rw [decide_eq_decide]
  by_cases hlocal : entry.1 = own
  · have hmem : (own, entry.2) ∈ ini.servers := by rwa [← hlocal]
    obtain ⟨_, _, _, _, _, htarget, _⟩ :=
      h.linkTarget_eq hlinks hcluster hother
    rw [h.target_local hmem, htarget]
    constructor
    · intro heq
      cases heq
    · intro hserver
      exact absurd (h.cluster_unique hserver hmem) hother
  · rw [h.target_remote hentry hlocal]
    constructor
    · intro heq
      have hsame := h.linkTarget_inj hlinks (h.known entry hentry) hlocal
        hcluster hother heq
      rw [← hsame]
      exact hentry
    · intro hserver
      rw [h.cluster_unique hserver hentry]

theorem outlet_of_queueOf {pQueue : CShmQueue}
    (hqueue : bus.queueOf serverID = some pQueue) :
    bus.outlet (.queue serverID) = .queue pQueue := by
  obtain ⟨server, hserver, hfound⟩ := Option.bind_eq_some_iff.mp hqueue
  simp only [outlet, hserver, hfound]

theorem queueOf_of_outlet {pQueue : CShmQueue}
    (houtlet : bus.outlet (.queue serverID) = .queue pQueue) :
    bus.queueOf serverID = some pQueue := by
  unfold outlet at houtlet
  cases hserver : bus.mapSvrInfo serverID with
  | none => simp [hserver] at houtlet
  | some server =>
      cases hqueue : server.pQueue with
      | none => simp [hserver, hqueue] at houtlet
      | some found =>
          simp only [hserver, hqueue, Outlet.queue.injEq] at houtlet
          simp [queueOf, hserver, hqueue, houtlet]

theorem posConnMap_of_outlet {connPos : UInt32} {conn : CConnInfo}
    (houtlet : bus.outlet (.link connPos) = .link conn) :
    bus.posConnMap connPos = some conn := by
  unfold outlet at houtlet
  cases hconn : bus.posConnMap connPos with
  | none => simp [hconn] at houtlet
  | some found =>
      simp only [hconn, Outlet.link.injEq] at houtlet
      rw [houtlet]

theorem HasRoom.take {copy : List UInt8} {size : ℕ}
    (h : HasRoom bus serverID messages size) (hcopy : copy.length = size)
    (hpos : 0 < size) :
    ∃ pQueue, (bus.outlet (.queue serverID)).take copy =
        some (.queue pQueue) ∧
      pQueue.Holds (messages ++ [copy]) := by
  obtain ⟨pQueue, hqueue, hholds, hroom⟩ := h
  rw [← hcopy] at hroom hpos
  obtain ⟨hret, hafter, _⟩ := inQueue_of_room hholds hpos hroom
  have hzero : (pQueue.inQueue copy).1 = 0 := hret
  refine ⟨(pQueue.inQueue copy).2, ?_, hafter⟩
  rw [outlet_of_queueOf hqueue, Outlet.take, if_pos hzero]

/-- A link that takes copies continues its stream with them. -/
theorem feed_link {conn : CConnInfo} {stream : List UInt8}
    {copies : List (List UInt8)} {outlet : Outlet}
    (hcarries : conn.Carries stream)
    (hfeed : feed Outlet.take (.link conn) copies = some outlet) :
    ∃ next, outlet = .link next ∧ next.Carries (stream ++ copies.flatten) := by
  induction copies generalizing conn stream with
  | nil =>
      cases hfeed
      refine ⟨conn, rfl, ?_⟩
      rwa [List.flatten_nil, List.append_nil]
  | cons copy copies ih =>
      rw [feed_cons] at hfeed
      obtain ⟨middle, htake, hrest⟩ := Option.bind_eq_some_iff.mp hfeed
      obtain ⟨kept, hkept, rfl⟩ := Option.map_eq_some_iff.mp htake
      have hsend : conn.sendOrKeep copy =
          ((conn.sendOrKeep copy).1, some kept) := Prod.ext rfl hkept
      obtain ⟨next, hnext, hstream⟩ := ih (hcarries.sendOrKeep hsend).2 hrest
      rw [List.append_assoc, ← List.flatten_cons] at hstream
      exact ⟨next, hnext, hstream⟩

theorem copyFor_length (hpkg : WellFormed pkg) (dstID : UInt32) :
    (copyFor now pkg dstID).length = pkg.length :=
  BusHeader.writeTo_length _ hpkg.header_le

/-- The clusters are set up from the same ini file, the links of one cluster are
up and take the copies of a packet, and every queue has room for it. -/
structure Ready (ini : Ini) (bus : UInt32 → CBus) (own : UInt32)
    (now : UInt64) (pkg : List UInt8) (dsts : List UInt32)
    (streams : UInt32 → List UInt8)
    (queues : UInt32 → List (List UInt8)) : Prop where
  configured : ∀ clusterID ∈ ini.clusters,
    Configured ini clusterID (bus clusterID)
  own_mem : own ∈ ini.clusters
  links : LinksUp (bus own) streams
  taken : ∀ clusterID ∈ ini.clusters, clusterID ≠ own → ∀ conn,
    (bus own).linkConn clusterID = some conn →
    feed Outlet.take (.link conn) (copiesTo ini now pkg dsts clusterID) ≠ none
  room : ∀ entry ∈ ini.servers,
    HasRoom (bus entry.1) entry.2 (queues entry.2) pkg.length

section Sent

variable {process : UInt32 → CBus} {queues : UInt32 → List (List UInt8)}

/-- With room in the queues and links that are up nobody fails. -/
theorem Ready.not_fails
    (h : Ready ini process own now pkg dsts streams queues)
    (hdsts : dsts.Sublist (ini.servers.map Prod.snd))
    (hpkg : WellFormed pkg) (target : Target) :
    ¬ Fails Outlet.take (process own).outlet
      (dsts.map fun dstID =>
        ((process own).target dstID, copyFor now pkg dstID)) target := by
  have hroutes := (h.configured own h.own_mem).routes
  intro hfails
  obtain ⟨copy, hcopy⟩ := hfails.exists_mem
  obtain ⟨dstID, hdst, heq⟩ := List.mem_map.mp hcopy
  obtain ⟨rfl, rfl⟩ := Prod.mk.inj heq
  obtain ⟨entry, hentry, rfl⟩ := List.mem_map.mp (hdsts.subset hdst)
  by_cases hlocal : entry.1 = own
  · have hmem : (own, entry.2) ∈ ini.servers := by rwa [← hlocal]
    obtain ⟨pQueue, htake, _⟩ := (h.room _ hmem).take
      (copyFor_length hpkg entry.2) hpkg.length_pos
    rw [hroutes.target_local hmem, Fails,
      hroutes.copiesFor_local h.links hdsts hmem, if_pos hdst, feed_cons,
      htake] at hfails
    cases hfails
  · have hcluster := hroutes.known entry hentry
    obtain ⟨info, _, _, hfind, _, htarget, conn, hconn, _⟩ :=
      hroutes.linkTarget_eq h.links hcluster hlocal
    have houtlet : (process own).outlet (.link info.connPos) =
        .link conn := by
      simp only [outlet, hconn]
    have hlink : (process own).linkConn entry.1 = some conn := by
      rw [linkConn, hfind, Option.bind_some, hconn]
    rw [hroutes.target_remote hentry hlocal, Fails,
      hroutes.copiesFor_link h.links hdsts hcluster hlocal, htarget, houtlet]
      at hfails
    exact h.taken entry.1 hcluster hlocal conn hlink hfails

/-- What `ForwardMsg` leaves at its own cluster. -/
theorem Ready.sent
    (h : Ready ini process own now pkg dsts streams queues)
    (hdsts : dsts.Sublist (ini.servers.map Prod.snd))
    (hpkg : WellFormed pkg) {after : CBus}
    (hafter : after = (deliverAll now (process own) (BusHeader.read pkg) pkg
      dsts).2) :
    (∀ serverID, (own, serverID) ∈ ini.servers →
      QueueHolds after serverID (queues serverID ++
        if serverID ∈ dsts then [copyFor now pkg serverID] else [])) ∧
      ∀ clusterID ∈ ini.clusters, clusterID ≠ own →
        ∃ conn, after.linkConn clusterID = some conn ∧
          conn.Carries (streams clusterID ++
            (copiesTo ini now pkg dsts clusterID).flatten) := by
  have hroutes := (h.configured own h.own_mem).routes
  have hnone := h.not_fails hdsts hpkg
  have houtlet (target : Target) :
      feed Outlet.take ((process own).outlet target)
        (copiesFor target (dsts.map fun dstID =>
          ((process own).target dstID, copyFor now pkg dstID))) =
        some (after.outlet target) := by
    rw [hafter, deliverAll_handOut hroutes.keys_nodup now pkg dsts
      (hnone target)]
    exact feed_eq_handOut hnone target
  constructor
  · intro serverID hserver
    have hfed := houtlet (.queue serverID)
    rw [hroutes.copiesFor_local h.links hdsts hserver] at hfed
    split_ifs at hfed ⊢ with hmem
    · obtain ⟨pQueue, htake, hholds⟩ := (h.room _ hserver).take
        (copyFor_length hpkg serverID) hpkg.length_pos
      rw [feed_cons, htake] at hfed
      exact ⟨pQueue, queueOf_of_outlet (Option.some.inj hfed).symm, hholds⟩
    · obtain ⟨pQueue, hqueue, hholds, _⟩ := h.room _ hserver
      rw [outlet_of_queueOf hqueue] at hfed
      rw [List.append_nil]
      exact ⟨pQueue, queueOf_of_outlet (Option.some.inj hfed).symm, hholds⟩
  · intro clusterID hcluster hother
    obtain ⟨info, _, _, hfind, _, htarget, conn, hconn, hcarries⟩ :=
      hroutes.linkTarget_eq h.links hcluster hother
    have hfed := houtlet (.link info.connPos)
    have hbefore : (process own).outlet (.link info.connPos) =
        .link conn := by
      simp only [outlet, hconn]
    rw [← htarget, hroutes.copiesFor_link h.links hdsts hcluster hother,
      htarget, hbefore] at hfed
    obtain ⟨next, hnext, hstream⟩ := feed_link hcarries hfed
    have hsame := (deliverAll_success hroutes.keys_nodup now pkg dsts
      hnone).2
    rw [← hafter] at hsame
    refine ⟨next, ?_, hstream⟩
    have hfound : after.findCluster clusterID = some info := by
      rw [findCluster, hsame.clusters_eq]
      exact hfind
    rw [linkConn, hfound, Option.bind_some, posConnMap_of_outlet hnext]

end Sent

/-! ## The clusters that receive -/

section Received

variable {queues : UInt32 → List (List UInt8)}

theorem read_copyFor (now : UInt64) (pkg : List UInt8) (dstID : UInt32) :
    BusHeader.read (copyFor now pkg dstID) =
      copyHeader now (BusHeader.read pkg) dstID :=
  BusHeader.read_writeTo _ _

theorem wellFormed_copyFor (hpkg : WellFormed pkg) (now : UInt64)
    (dstID : UInt32) : WellFormed (copyFor now pkg dstID) := by
  have hlength : (copyFor now pkg dstID).length = pkg.length :=
    copyFor_length hpkg dstID
  refine ⟨?_, ?_, ?_⟩
  · rw [hlength]
    exact hpkg.header_le
  · rw [hlength]
    exact hpkg.le_max
  · rw [hlength, read_copyFor]
    exact hpkg.pkgLen_eq

/-- `ProcessPkg` puts a packet for one server into the queue of the server. -/
theorem processPkg_packet (parsers : Parsers) {packet : List UInt8} {server : ServerInfo}
    {pQueue : CShmQueue} (hpacket : WellFormed packet)
    (hsend : (BusHeader.read packet).sendType = toSrv)
    (hheartbeat : (BusHeader.read packet).cmdID ≠ cmdHeartbeat)
    (hstate : (BusHeader.read packet).cmdID ≠ cmdStateChange)
    (hserver : bus.mapSvrInfo (BusHeader.read packet).dstID = some server)
    (hlocal : server.clusterID = bus.clusterID)
    (hqueue : server.pQueue = some pQueue) :
    (processPkg parsers bus packet).bus =
      bus.setQueue (BusHeader.read packet).dstID server
        (pQueue.inQueue packet).2 := by
  rw [processPkg_of_complete hpacket.header_le hpacket.goodLen
    hpacket.pkgLen_eq.le, hpacket.pkgLen_eq, List.take_length]
  unfold processCopy
  dsimp only
  rw [if_neg (not_not.mpr hsend), if_neg hheartbeat, if_neg hstate, hserver]
  dsimp only
  rw [if_pos hlocal, hqueue]

theorem queueOf_setQueue {server : ServerInfo} (pQueue : CShmQueue)
    (dstID : UInt32) :
    (bus.setQueue dstID server pQueue).queueOf =
      Function.update bus.queueOf dstID (some pQueue) := by
  funext serverID
  by_cases heq : serverID = dstID
  · subst heq
    simp [queueOf, setQueue]
  · rw [Function.update_of_ne heq]
    simp only [queueOf, setQueue]
    rw [Function.update_of_ne heq]

/-- Every server for which a copy comes gets it, and nobody else gets one;
nothing is sent on. -/
theorem processPkg_copies
    (parsers : Parsers) (now : UInt64) (Local : UInt32 → Prop)
    (hpkg : WellFormed pkg)
    (hheartbeat : (BusHeader.read pkg).cmdID ≠ cmdHeartbeat)
    (hstate : (BusHeader.read pkg).cmdID ≠ cmdStateChange)
    (hserves : ∀ serverID, Local serverID → ∃ server,
      bus.mapSvrInfo serverID = some server ∧
        server.clusterID = bus.clusterID)
    (hholds : ∀ serverID, Local serverID →
      QueueHolds bus serverID (queues serverID))
    (hnodup : dsts.Nodup) (hlocal : ∀ dstID ∈ dsts, Local dstID)
    (hroom : ∀ dstID ∈ dsts, HasRoom bus dstID (queues dstID) pkg.length) :
    ((dsts.map (copyFor now pkg)).foldl
        (fun bus packet => (processPkg parsers bus packet).bus)
        bus).posConnMap = bus.posConnMap ∧
      ∀ serverID, Local serverID →
        QueueHolds ((dsts.map (copyFor now pkg)).foldl
          (fun bus packet => (processPkg parsers bus packet).bus) bus)
          serverID (queues serverID ++
            if serverID ∈ dsts then [copyFor now pkg serverID] else []) := by
  induction dsts generalizing bus queues with
  | nil =>
      refine ⟨rfl, ?_⟩
      intro serverID hserver
      rw [if_neg (List.not_mem_nil), List.append_nil]
      exact hholds serverID hserver
  | cons dstID dsts ih =>
      obtain ⟨hfresh, hnodup⟩ := List.nodup_cons.mp hnodup
      obtain ⟨server, hserver, hcluster⟩ :=
        hserves dstID (hlocal dstID List.mem_cons_self)
      obtain ⟨pQueue, hqueue, hmessages, hspace⟩ :=
        hroom dstID List.mem_cons_self
      have hserverQueue : server.pQueue = some pQueue := by
        simpa [queueOf, hserver] using hqueue
      have hheader := read_copyFor now pkg dstID
      have hstep := processPkg_packet parsers
        (wellFormed_copyFor hpkg now dstID) (by rw [hheader]; rfl)
        (by rw [hheader]; exact hheartbeat) (by rw [hheader]; exact hstate)
        (by rw [hheader]; exact hserver) hcluster hserverQueue
      rw [hheader] at hstep
      change _ = bus.setQueue dstID _ _ at hstep
      rw [List.map_cons, List.foldl_cons, hstep]
      have hlength : (copyFor now pkg dstID).length = pkg.length :=
        copyFor_length hpkg dstID
      have hafter := (inQueue_of_room hmessages
        (by rw [hlength]; exact hpkg.length_pos)
        (by rw [hlength]; exact hspace)).2.1
      set next := bus.setQueue dstID server
        (pQueue.inQueue (copyFor now pkg dstID)).2 with hnext
      have hqueues (other : UInt32) (hne : other ≠ dstID) :
          next.queueOf other = bus.queueOf other := by
        rw [hnext, queueOf_setQueue, Function.update_of_ne hne]
      have hserves' (serverID : UInt32) (hserverID : Local serverID) :
          ∃ server, next.mapSvrInfo serverID = some server ∧
            server.clusterID = next.clusterID := by
        by_cases heq : serverID = dstID
        · subst heq
          exact ⟨_, Function.update_self .., hcluster⟩
        · obtain ⟨found, hfound, hsame⟩ := hserves serverID hserverID
          exact ⟨found, (Function.update_of_ne heq ..).trans hfound, hsame⟩
      have hholds' (serverID : UInt32) (hserverID : Local serverID) :
          QueueHolds next serverID (Function.update queues dstID
            (queues dstID ++ [copyFor now pkg dstID]) serverID) := by
        by_cases heq : serverID = dstID
        · subst heq
          rw [Function.update_self]
          refine ⟨_, ?_, hafter⟩
          rw [hnext, queueOf_setQueue, Function.update_self]
        · obtain ⟨found, hfound, hsame⟩ := hholds serverID hserverID
          rw [Function.update_of_ne heq]
          exact ⟨found, (hqueues serverID heq).trans hfound, hsame⟩
      have hroom' (other : UInt32) (hother : other ∈ dsts) :
          HasRoom next other (Function.update queues dstID
            (queues dstID ++ [copyFor now pkg dstID]) other) pkg.length := by
        have hne : other ≠ dstID := by
          rintro rfl
          exact hfresh hother
        obtain ⟨found, hfound, hsame, hfits⟩ :=
          hroom other (List.mem_cons_of_mem _ hother)
        rw [Function.update_of_ne hne]
        exact ⟨found, (hqueues other hne).trans hfound, hsame, hfits⟩
      obtain ⟨hconns, hlater⟩ := ih hserves' hholds' hnodup
        (fun other hother => hlocal other (List.mem_cons_of_mem _ hother))
        hroom'
      refine ⟨hconns, ?_⟩
      intro serverID hserverID
      have hend := hlater serverID hserverID
      by_cases heq : serverID = dstID
      · subst heq
        rw [Function.update_self, if_neg hfresh, List.append_nil] at hend
        rwa [if_pos List.mem_cons_self]
      · rw [Function.update_of_ne heq] at hend
        simpa [heq] using hend

end Received

/-! ## All clusters -/

section Clusters

variable {process : UInt32 → CBus} {queues : UInt32 → List (List UInt8)}

/-- What another cluster makes of the copies on its link. -/
theorem Ready.received
    (h : Ready ini process own now pkg dsts streams queues)
    (hdsts : dsts.Sublist (ini.servers.map Prod.snd))
    (hpkg : WellFormed pkg)
    (hheartbeat : (BusHeader.read pkg).cmdID ≠ cmdHeartbeat)
    (hstate : (BusHeader.read pkg).cmdID ≠ cmdStateChange)
    (hcluster : clusterID ∈ ini.clusters) (parsers : Parsers)
    {results : List ReadResult}
    (hresults : (results.map ReadResult.piece).flatten =
      (copiesTo ini now pkg dsts clusterID).flatten)
    (hfit : ReadsFit (traced parsers) ⟨⟨process clusterID, []⟩, some []⟩
      results) :
    ∃ there log,
      pollAll (traced parsers) ⟨⟨process clusterID, []⟩, some []⟩ results =
        some ⟨⟨there, log⟩, some []⟩ ∧
      there.posConnMap = (process clusterID).posConnMap ∧
      ∀ serverID, (clusterID, serverID) ∈ ini.servers →
        QueueHolds there serverID (queues serverID ++
          if serverID ∈ dsts then [copyFor now pkg serverID] else []) := by
  have hroutes := (h.configured clusterID hcluster).routes
  obtain ⟨log, hpoll⟩ := pollAll_whole parsers (process clusterID)
    (fun packet hpacket => by
      obtain ⟨dstID, _, rfl⟩ := List.mem_map.mp hpacket
      exact wellFormed_copyFor hpkg now dstID) hresults hfit
  obtain ⟨hconns, hqueues⟩ := processPkg_copies parsers now
    (fun serverID => (clusterID, serverID) ∈ ini.servers) hpkg hheartbeat
    hstate
    (fun serverID hserver => by
      obtain ⟨server, hfound, hsame⟩ := hroutes.server _ hserver
      exact ⟨server, hfound, hsame.trans hroutes.own.symm⟩)
    (fun serverID hserver => by
      obtain ⟨pQueue, hqueue, hholds, _⟩ := h.room _ hserver
      exact ⟨pQueue, hqueue, hholds⟩)
    ((hroutes.servers_nodup.sublist hdsts).filter _)
    (fun dstID hdst => of_decide_eq_true (List.mem_filter.mp hdst).2)
    (fun dstID hdst => h.room _ (of_decide_eq_true (List.mem_filter.mp hdst).2))
  refine ⟨_, log, hpoll, hconns, ?_⟩
  intro serverID hserver
  have hend := hqueues serverID hserver
  simp only [List.mem_filter, hserver, decide_true, and_true] at hend
  exact hend

/-- A packet that is taken by `ForwardMsg` reaches the servers it addresses and
nobody else, each of them once.  The local ones find their copy in their queue.
The link to another cluster has been given the copies for the servers of that
cluster; in whatever pieces these arrive, the other cluster puts each of them
into the queue it is for and sends nothing on. -/
theorem routed_exactly_once
    {rand : ℕ → ℕ}
    (hready : Ready ini process own now pkg
      (ini.addressed rand (BusHeader.read pkg)) streams queues)
    (hrand : ∀ size, 0 < size → rand size < size)
    (hpkg : WellFormed pkg)
    (hheartbeat : (BusHeader.read pkg).cmdID ≠ cmdHeartbeat)
    (hstate : (BusHeader.read pkg).cmdID ≠ cmdStateChange)
    (parsers : Parsers) :
    let dsts := ini.addressed rand (BusHeader.read pkg)
    let sent := (process own).forwardMsg parsers rand now pkg
    ini.Addresses (BusHeader.read pkg) dsts ∧ dsts.Nodup ∧
      (dsts ≠ [] → sent.1 = 0) ∧
      (dsts = [] → (BusHeader.read pkg).sendType = toGrpRnd ∨
        (BusHeader.read pkg).sendType = toGrpRndnome → sent.1 = -1) ∧
      (∀ serverID, (own, serverID) ∈ ini.servers →
        QueueHolds sent.2 serverID (queues serverID ++
          if serverID ∈ dsts then [copyFor now pkg serverID] else [])) ∧
      (∀ clusterID ∈ ini.clusters, clusterID ≠ own →
        (∃ conn, sent.2.linkConn clusterID = some conn ∧
          conn.Carries (streams clusterID ++
            (copiesTo ini now pkg dsts clusterID).flatten)) ∧
        ∀ results, (results.map ReadResult.piece).flatten =
            (copiesTo ini now pkg dsts clusterID).flatten →
          ReadsFit (traced parsers) ⟨⟨process clusterID, []⟩, some []⟩
            results →
          ∃ there log, pollAll (traced parsers)
              ⟨⟨process clusterID, []⟩, some []⟩ results =
              some ⟨⟨there, log⟩, some []⟩ ∧
            there.posConnMap = (process clusterID).posConnMap ∧
            ∀ serverID, (clusterID, serverID) ∈ ini.servers →
              QueueHolds there serverID (queues serverID ++
                if serverID ∈ dsts then [copyFor now pkg serverID]
                else [])) ∧
      ∀ dstID, BusHeader.read (copyFor now pkg dstID) =
          { BusHeader.read pkg with
            dstID := dstID
            sendType := toSrv
            pkgTime := if (BusHeader.read pkg).pkgTime = 0 then now
              else (BusHeader.read pkg).pkgTime } ∧
        (copyFor now pkg dstID).drop BusHeader.getHeaderLen =
          pkg.drop BusHeader.getHeaderLen := by
  intro dsts sent
  have hroutes := (hready.configured own hready.own_mem).routes
  have hdsts : dsts.Sublist (ini.servers.map Prod.snd) :=
    Ini.addressed_sublist hrand (BusHeader.read pkg)
  obtain ⟨hstateAfter, hret, hnobody⟩ :=
    hroutes.forwardMsg_eq parsers rand now hpkg hstate
  have hsuccess := (deliverAll_success hroutes.keys_nodup now pkg dsts
    (hready.not_fails hdsts hpkg)).1
  obtain ⟨hlocal, hlinks⟩ := hready.sent hdsts hpkg hstateAfter
  refine ⟨Ini.addresses_addressed hrand _, hroutes.servers_nodup.sublist hdsts,
    ?_, hnobody, hlocal, ?_, ?_⟩
  · intro hne
    exact (hret hne).trans hsuccess
  · intro clusterID hcluster hother
    refine ⟨hlinks clusterID hcluster hother, ?_⟩
    intro results hresults hfit
    exact hready.received hdsts hpkg hheartbeat hstate hcluster parsers
      hresults hfit
  · intro dstID
    exact ⟨read_copyFor now pkg dstID, BusHeader.drop_writeTo _ _⟩

end Clusters

end Routes

/-! ## Two clusters -/

/-- Server 11 in cluster 1 and server 21 in cluster 2, both of group 5. -/
def twoServers : Ini :=
  ⟨[(1, [11]), (2, [21])],
    fun serverID => ⟨if serverID = 11 then 1 else 2, serverID, 5, 1, 1⟩⟩

/-- The process of a cluster after `Init`. -/
def started (clusterID : UInt32) : CBus :=
  ((init twoServers (emptyQueues 128) clusterID).getD idle).listening
    (newConn 3 []) (newConn 4 [])

/-- The processes of both clusters, the first one connected with the second
one. -/
def connected (clusterID : UInt32) : CBus :=
  if clusterID = 1 then
    ((started 1).connectCluster 2 (.connected 5 [])).getD idle
  else started 2

theorem init_two {clusterID : UInt32} (h : clusterID ∈ twoServers.clusters) :
    init twoServers (emptyQueues 128) clusterID =
      some ((init twoServers (emptyQueues 128) clusterID).getD idle) := by
  have hcluster : clusterID = 1 ∨ clusterID = 2 := by
    simpa [Ini.clusters, twoServers] using h
  obtain rfl | rfl := hcluster
  · rfl
  · rfl

theorem connected_linkTable : (connected 1).LinkTable := by
  have htables := init_tables (init_two (show 1 ∈ twoServers.clusters by decide))
  have hconnect : (started 1).connectCluster 2 (.connected 5 []) =
      some (connected 1) := rfl
  exact (htables.linkTable _ _).connectCluster hconnect

theorem empty_holds : (CShmQueue.mk 128 0 0 fun _ => 0).Holds [] :=
  holds_of_empty (by decide) (by decide) rfl

theorem connected_ready :
    Ready twoServers connected 1 0 groupPacket [11, 21] (fun _ => [])
      (fun _ => []) := by
  refine ⟨?_, by decide, ⟨connected_linkTable, ?_⟩, ?_, ?_⟩
  · intro clusterID hcluster
    refine ⟨_, _, init_two hcluster, ?_⟩
    have hcases : clusterID = 1 ∨ clusterID = 2 := by
      simpa [Ini.clusters, twoServers] using hcluster
    obtain rfl | rfl := hcases
    · exact ⟨rfl, rfl, by decide, fun _ => rfl⟩
    · exact ⟨rfl, rfl, by decide, fun _ => rfl⟩
  · intro info hinfo hother
    have hclusters : (connected 1).mapClusterInfo =
        [⟨1, -1, 0⟩, ⟨2, 5, 200001⟩] := by decide
    rw [hclusters] at hinfo
    obtain rfl | rfl := by simpa using hinfo
    · exact absurd rfl hother
    · refine ⟨by decide, by decide, newConn 5 [], rfl, rfl, by decide, ?_⟩
      intro hremain
      exact absurd rfl hremain
  · intro clusterID hcluster hother conn hconn
    have hcases : clusterID = 1 ∨ clusterID = 2 := by
      simpa [Ini.clusters, twoServers] using hcluster
    obtain rfl | rfl := hcases
    · exact absurd rfl hother
    · cases hconn
      decide
  · intro entry hentry
    have hcases : entry = (1, 11) ∨ entry = (2, 21) := by
      simpa [Ini.servers, twoServers] using hentry
    obtain rfl | rfl := hcases
    · exact ⟨_, rfl, empty_holds, by decide⟩
    · exact ⟨_, rfl, empty_holds, by decide⟩

theorem routed_exactly_once_two :
    QueueHolds ((connected 1).forwardMsg noParsers (fun _ => 0) 0
        groupPacket).2 11 [copyFor 0 groupPacket 11] ∧
      ∃ there log, pollAll (traced noParsers) ⟨⟨connected 2, []⟩, some []⟩
          [.bytes (copyFor 0 groupPacket 21)] =
          some ⟨⟨there, log⟩, some []⟩ ∧
        there.posConnMap = (connected 2).posConnMap ∧
        QueueHolds there 21 [copyFor 0 groupPacket 21] := by
  have hdsts : twoServers.addressed (fun _ => 0)
      (BusHeader.read groupPacket) = [11, 21] := by decide
  have hready := connected_ready
  rw [← hdsts] at hready
  obtain ⟨_, _, _, _, hlocal, hremote, _⟩ := routed_exactly_once hready
    (fun size hpos => hpos) ⟨by decide, by decide, by decide⟩ (by decide)
    (by decide) noParsers
  rw [hdsts] at hlocal hremote
  obtain ⟨_, hreceived⟩ := hremote 2 (by decide) (by decide)
  obtain ⟨there, log, hpoll, hconns, hqueues⟩ := hreceived
    [.bytes (copyFor 0 groupPacket 21)] (by decide) (by decide)
  exact ⟨hlocal 11 (by decide), there, log, hpoll, hconns,
    hqueues 21 (by decide)⟩

end CBus

end MessageBus.Bus
