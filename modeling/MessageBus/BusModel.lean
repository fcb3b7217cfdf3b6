import MessageBus.BusHeader
import MessageBus.SendPath
import MessageBus.ShmQueueRefinement

/-!
# The bus process `CBus`

A transcription of `bus/bus.cpp`: the tables that `Init` builds from the ini
file, the table of connections with its two ways to lose an entry,
`ProcessPkg` for packets that come from other clusters, and `ForwardMsg` for
packets that local servers send.

The message bodies are protobuf messages, whose parser is not part of the
repository; it is a parameter.
-/

namespace MessageBus.Bus

open ShmQueue
open Send
open Receive

/-- `Cmd_HelloMessage`, `Cmd_Heartbeat` and `Cmd_StateChange`. -/
def cmdHelloMessage : UInt32 := 1
def cmdHeartbeat : UInt32 := 2
def cmdStateChange : UInt32 := 4

/-- `CLUSTER_SOCK_CPOS_MIN`, `CLUSTER_SOCK_CPOS_MAX` and
`CLIENT_SOCK_CPOS_MIN`. -/
def clusterSockCposMin : UInt32 := 200000
def clusterSockCposMax : UInt32 := 299999
def clientSockCposMin : UInt32 := 300000

/-- `ParseFromArray` of the three messages of `bus.proto`: the fields, or
`none` where it returns false. -/
structure Parsers where
  heartbeatMsg : List UInt8 → Option UInt32
  stateChangeMsg : List UInt8 → Option (Int32 × Int32)
  helloMessage : List UInt8 → Option UInt32

structure ServerInfo where
  clusterID : UInt32
  groupID : UInt32
  status : Int32
  pQueue : Option CShmQueue

structure CBus where
  clusterID : UInt32
  connPosCnt : UInt32
  clusterPosCnt : UInt32
  posConnMap : PosConnMap
  /-- The values of `m_mapClusterInfo` in the order of their keys. -/
  mapClusterInfo : List ClusterInfo
  mapSvrInfo : UInt32 → Option ServerInfo
  mapGrpInfo : UInt32 → Option (List UInt32)

/-! ## The tables of `Init` -/

/-- The section of a server in the ini file. -/
structure ServerSection where
  clusterID : UInt32
  serverID : UInt32
  groupID : UInt32
  queueKey : Int32
  queueSize : Int32

/-- The ini file: the clusters in the order of `ClusterList`, each with its
`SrvList`, and the sections of the servers. -/
structure Ini where
  clusterList : List (UInt32 × List UInt32)
  server : UInt32 → ServerSection

namespace CBus

/-- `m_mapGrpInfo` after a server has been pushed to its group. -/
def pushGroup (mapGrpInfo : UInt32 → Option (List UInt32))
    (groupID serverID : UInt32) : UInt32 → Option (List UInt32) :=
  match mapGrpInfo groupID with
  | none => Function.update mapGrpInfo groupID (some [serverID])
  | some members =>
      Function.update mapGrpInfo groupID (some (members ++ [serverID]))

/-- One server of a cluster's `SrvList`; `attach` opens the queue of a local
server.  `none` where `Init` gives up. -/
def initServer (ini : Ini) (attach : UInt32 → Option CShmQueue)
    (clusterID : UInt32) (bus : CBus) (serverID : UInt32) : Option CBus :=
  let tmp := ini.server serverID
  if clusterID = bus.clusterID then
    if tmp.clusterID = 0 ∨ tmp.clusterID ≠ clusterID ∨ tmp.serverID = 0 ∨
        tmp.serverID ≠ serverID ∨ tmp.groupID = 0 then none
    else if tmp.queueKey = 0 ∨ tmp.queueSize = 0 then none
    else
      match attach serverID, bus.mapSvrInfo serverID with
      | some queue, none =>
          some { bus with
            mapGrpInfo := pushGroup bus.mapGrpInfo tmp.groupID serverID
            mapSvrInfo := Function.update bus.mapSvrInfo serverID
              (some ⟨clusterID, tmp.groupID, 0, some queue⟩) }
      | _, _ => none
  else
    if tmp.clusterID = 0 ∨ tmp.clusterID ≠ clusterID ∨ tmp.groupID = 0 then
      none
    else
      match bus.mapSvrInfo serverID with
      | none =>
          some { bus with
            mapGrpInfo := pushGroup bus.mapGrpInfo tmp.groupID serverID
            mapSvrInfo := Function.update bus.mapSvrInfo serverID
              (some ⟨clusterID, tmp.groupID, 0, none⟩) }
      | some _ => none

/-- Insertion into `m_mapClusterInfo`, which keeps the order of the keys. -/
def insertCluster (info : ClusterInfo) : List ClusterInfo → List ClusterInfo
  | [] => [info]
  | head :: later =>
      if info.clusterID ≤ head.clusterID then info :: head :: later
      else head :: insertCluster info later

/-- `m_mapClusterInfo.find`. -/
def findCluster (bus : CBus) (clusterID : UInt32) : Option ClusterInfo :=
  bus.mapClusterInfo.find? fun info => info.clusterID = clusterID

/-- One cluster of `ClusterList`. -/
def initCluster (ini : Ini) (attach : UInt32 → Option CShmQueue)
    (bus : CBus) (cluster : UInt32 × List UInt32) : Option CBus :=
  if cluster.1 = 0 ∨ (bus.findCluster cluster.1).isSome then none
  else
    cluster.2.foldlM (initServer ini attach cluster.1)
      { bus with
        mapClusterInfo :=
          insertCluster ⟨cluster.1, -1, 0⟩ bus.mapClusterInfo }

/-- The tables that `Init` leaves for one cluster. -/
def init (ini : Ini) (attach : UInt32 → Option CShmQueue)
    (clusterID : UInt32) : Option CBus :=
  if clusterID = 0 ∨ ini.clusterList = [] then none
  else
    ini.clusterList.foldlM (initCluster ini attach)
      { clusterID := clusterID
        connPosCnt := 0
        clusterPosCnt := 0
        posConnMap := fun _ => none
        mapClusterInfo := []
        mapSvrInfo := fun _ => none
        mapGrpInfo := fun _ => none }

/-! ## The table of links -/

/-- Write `SocketID` and `ConnPos` of a cluster. -/
def setLink (bus : CBus) (clusterID : UInt32)
    (socketID : ℤ) (connPos : UInt32) : CBus :=
  { bus with
    mapClusterInfo := bus.mapClusterInfo.map fun info =>
      if info.clusterID = clusterID then
        { info with
          socketID := socketID
          connPos := connPos }
      else info }

/-- The block of `ConnectCluster` and `DisconnetCluster` that drops the link
of a cluster. -/
def dropLink (bus : CBus) (info : ClusterInfo) : CBus :=
  if info.socketID ≠ -1 ∨ info.connPos ≠ 0 then
    { bus with
      posConnMap := Function.update bus.posConnMap info.connPos none
    }.setLink info.clusterID (-1) 0
  else bus

def disconnetCluster (bus : CBus) (clusterID : UInt32) : CBus :=
  if clusterID = bus.clusterID then bus
  else
    match bus.findCluster clusterID with
    | none => bus
    | some info => bus.dropLink info

def releaseConn (bus : CBus) (curConnPos : UInt32) : CBus :=
  let erased :=
    { bus with posConnMap := Function.update bus.posConnMap curConnPos none }
  if clusterSockCposMin < curConnPos ∧ curConnPos < clusterSockCposMax then
    match bus.mapClusterInfo.find? fun info => info.connPos = curConnPos with
    | none => erased
    | some info => erased.disconnetCluster info.clusterID
  else erased

def send2Cluster (bus : CBus) (info : ClusterInfo)
    (pSendBuff : List UInt8) : ℤ × CBus :=
  if info.socketID = -1 ∨ info.connPos = 0 then (0, bus)
  else
    match bus.posConnMap info.connPos with
    | none => (-1, bus)
    | some conn =>
        match conn.sendOrKeep pSendBuff with
        | (ret, some kept) =>
            (ret, { bus with
              posConnMap := Function.update bus.posConnMap info.connPos
                (some kept) })
        | (ret, none) => (ret, bus.releaseConn info.connPos)

/-! ## `ProcessPkg` -/

/-- `pQueue->InQueue` of a server. -/
def setQueue (bus : CBus) (serverID : UInt32) (info : ServerInfo)
    (queue : CShmQueue) : CBus :=
  { bus with
    mapSvrInfo := Function.update bus.mapSvrInfo serverID
      (some { info with pQueue := some queue }) }

/-- `iter->second.Status = Status`. -/
def setStatus (bus : CBus) (serverID : UInt32) (info : ServerInfo)
    (status : Int32) : CBus :=
  { bus with
    mapSvrInfo := Function.update bus.mapSvrInfo serverID
      (some { info with status := status }) }

/-- What one call of `ProcessPkg` does: the lengths it gives to `memcpy` and to
`ParseFromArray`, the message it gives to `InQueue`, the process it leaves and
its return value. -/
structure PkgRun where
  memcpyLen : Option ℤ
  parseLen : Option ℤ
  queued : Option (List UInt8)
  bus : CBus
  ret : ℤ

/-- `ProcessPkg` after its `memcpy`, on the header and on the copy in
`m_pProcessBuff`.  A parser that is given a negative length reads nothing. -/
def processCopy (parsers : Parsers) (bus : CBus) (header : BusHeader)
    (pProcessBuff : List UInt8) : PkgRun :=
  let pkgLen := asInt header.pkgLen
  let body := pProcessBuff.drop BusHeader.getHeaderLen
  let bodyLen := pkgLen - BusHeader.getHeaderLen
  if header.sendType ≠ toSrv then
    ⟨some pkgLen, none, none, bus, pkgLen⟩
  else if header.cmdID = cmdHeartbeat then
    ⟨some pkgLen, some bodyLen, none, bus, pkgLen⟩
  else if header.cmdID = cmdStateChange then
    let changed :=
      match parsers.stateChangeMsg body with
      | none => bus
      | some (serverID, status) =>
          match bus.mapSvrInfo serverID.toUInt32 with
          | none => bus
          | some info => bus.setStatus serverID.toUInt32 info status
    ⟨some pkgLen, some bodyLen, none, changed, pkgLen⟩
  else
    match bus.mapSvrInfo header.dstID with
    | none => ⟨some pkgLen, none, none, bus, pkgLen⟩
    | some info =>
        if info.clusterID = bus.clusterID then
          match info.pQueue with
          | none => ⟨some pkgLen, none, none, bus, pkgLen⟩
          | some queue =>
              -- a queue that is full drops the packet
              ⟨some pkgLen, none, some pProcessBuff,
                bus.setQueue header.dstID info (queue.inQueue pProcessBuff).2,
                pkgLen⟩
        else ⟨some pkgLen, none, none, bus, pkgLen⟩

/-- `ProcessPkg` on the bytes from `pCurBuffPos` on, all of which have been
received.  Nothing is modelled after a `memcpy` of negative length. -/
def processPkg (parsers : Parsers) (bus : CBus)
    (pCurBuffPos : List UInt8) : PkgRun :=
  if pCurBuffPos.length < BusHeader.getHeaderLen then
    ⟨none, none, none, bus, BusHeader.getHeaderLen⟩
  else
    let header := BusHeader.read pCurBuffPos
    let pkgLen := asInt header.pkgLen
    if (pCurBuffPos.length : ℤ) < pkgLen then ⟨none, none, none, bus, pkgLen⟩
    else if (xyPkgMaxLen : ℤ) < pkgLen then ⟨none, none, none, bus, pkgLen⟩
    else if pkgLen < 0 then ⟨some pkgLen, none, none, bus, pkgLen⟩
    else
      processCopy parsers bus header (pCurBuffPos.take pkgLen.toNat)

/-! ## The head of `RecvHelloMessage` -/

/-- What `RecvHelloMessage` does with a datagram: the offsets of `buf` it reads,
the length it gives to `ParseFromArray` and the cluster that says hello. -/
structure HelloRun where
  reads : List ℕ
  parseLen : Option ℤ
  hello : Option UInt32

/-- The head of `RecvHelloMessage`.  `recvfrom` fills `buf` with at most 1024
bytes of the datagram; what stands behind them is `stale`. -/
def readHello (parsers : Parsers) (stale : ℕ → UInt8)
    (datagram : List UInt8) : HelloRun :=
  let received := datagram.take 1024
  if received.length ≤ 0 then ⟨[], none, none⟩
  else
    let buf := (List.range 1024).map fun offset =>
      received.getD offset (stale offset)
    let header := BusHeader.read buf
    let offset := BusHeader.getHeaderLen
    if header.cmdID ≠ cmdHelloMessage then ⟨List.range offset, none, none⟩
    else
      ⟨List.range offset ++ List.range' offset (received.length - offset),
        some ((received.length : ℤ) - offset),
        parsers.helloMessage (received.drop offset)⟩

/-! ## `ForwardMsg` -/

/-- The header that `ForwardMsg` writes for one destination. -/
def copyHeader (now : UInt64) (header : BusHeader) (dstID : UInt32) :
    BusHeader :=
  { header with
    dstID := dstID
    sendType := toSrv
    pkgTime := if header.pkgTime = 0 then now else header.pkgTime }

/-- One round of the delivery loop, with the buffer already rewritten for the
destination: what it returns where it leaves `ForwardMsg`, and the process. -/
def deliverOne (bus : CBus) (dstID : UInt32) (pCurBuffPos : List UInt8) :
    Option ℤ × CBus :=
  match bus.mapSvrInfo dstID with
  | none => (some (-1), bus)
  | some info =>
      if info.clusterID = bus.clusterID then
        match info.pQueue with
        | none => (none, bus)
        | some queue =>
            let (ret, next) := queue.inQueue pCurBuffPos
            if ret = eShmQueueFull then
              (some (-1), bus.setQueue dstID info next)
            else if ret ≠ 0 then (some (-1), bus.setQueue dstID info next)
            else (none, bus.setQueue dstID info next)
      else
        match bus.findCluster info.clusterID with
        | none => (none, bus)
        | some cluster =>
            let (ret, next) := bus.send2Cluster cluster pCurBuffPos
            if ret ≠ 0 then (some (-1), next) else (none, next)

/-- The delivery loop over `vctDstID`. -/
def deliverAll (now : UInt64) :
    CBus → BusHeader → List UInt8 → List UInt32 → ℤ × CBus
  | bus, _, _, [] => (0, bus)
  | bus, header, pCurBuffPos, dstID :: later =>
      let written := copyHeader now header dstID
      let buff := written.writeTo pCurBuffPos
      match bus.deliverOne dstID buff with
      | (some ret, next) => (ret, next)
      | (none, next) => deliverAll now next written buff later

/-- The loop that forwards a `Cmd_StateChange` to the clusters whose keys are
still to come. -/
def stateChangeAll :
    CBus → List UInt8 → List UInt32 → ℤ × CBus
  | bus, _, [] => (0, bus)
  | bus, pCurBuffPos, clusterID :: later =>
      match bus.findCluster clusterID with
      | none => stateChangeAll bus pCurBuffPos later
      | some info =>
          if info.clusterID = bus.clusterID then
            stateChangeAll bus pCurBuffPos later
          else
            let (ret, next) := bus.send2Cluster info pCurBuffPos
            if ret ≠ 0 then (-1, next)
            else stateChangeAll next pCurBuffPos later

/-- `vctDstID`, or `none` where `ForwardMsg` gives up before the delivery
loop; `rand` is `CRandomTool::Get` for a number of servers. -/
def destinations (bus : CBus) (rand : ℕ → ℕ) (header : BusHeader) :
    Option (List UInt32) :=
  if header.sendType = toGrpRnd ∨ header.sendType = toGrpRndnome then
    match bus.mapGrpInfo header.dstID with
    | none => none
    | some members =>
        let vctServerID := members.filter fun member =>
          ¬ (member = header.srcID ∧ header.sendType = toGrpRndnome)
        if vctServerID.length = 0 then none
        else some [vctServerID.getD (rand vctServerID.length) 0]
  else if header.sendType = toGrpAllnome ∨ header.sendType = toGrpAll then
    match bus.mapGrpInfo header.dstID with
    | none => none
    | some members =>
        some (members.filter fun member =>
          ¬ (member = header.srcID ∧ header.sendType = toGrpAllnome))
  else some [header.dstID]

def forwardMsg (parsers : Parsers) (rand : ℕ → ℕ) (now : UInt64)
    (bus : CBus) (pCurBuffPos : List UInt8) : ℤ × CBus :=
  if pCurBuffPos.length < BusHeader.getHeaderLen then (-1, bus)
  else
    let header := BusHeader.read pCurBuffPos
    let pkgLen := asInt header.pkgLen
    if (pCurBuffPos.length : ℤ) ≠ pkgLen then (-1, bus)
    else if (xyPkgMaxLen : ℤ) < pkgLen then (-1, bus)
    else if header.cmdID = cmdStateChange then
      if header.sendType ≠ toSrv then (-1, bus)
      else
        match parsers.stateChangeMsg
            (pCurBuffPos.drop BusHeader.getHeaderLen) with
        | none => (-1, bus)
        | some (serverID, status) =>
            match bus.mapSvrInfo serverID.toUInt32 with
            | none => (-1, bus)
            | some info =>
                stateChangeAll (bus.setStatus serverID.toUInt32 info status)
                  pCurBuffPos
                  (bus.mapClusterInfo.map fun cluster => cluster.clusterID)
    else
      match bus.destinations rand header with
      | none => (-1, bus)
      | some vctDstID => deliverAll now bus header pCurBuffPos vctDstID

end CBus

end MessageBus.Bus
