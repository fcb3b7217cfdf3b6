import MessageBus.ConnPositions
import MessageBus.HashListRuns

/-!
# One conn server

A transcription of the parts of `conn/conn.cpp` that touch the connections
(`m_PosConnMap`) and the table of logged-in users (`m_GnsInfoMap`).  The table
is the finite map that the shared-memory hash list refines; its index has as
many nodes as the map has room for, plus one.

Every handler takes the current time in seconds and returns the server after
it together with the packets it sends.  Texts for the log and answers to the
client are left out, and so are the listening sockets, which never own a user.
-/

namespace MessageBus.Conn

inductive ConnType where
  | connUnauth
  | connAuth
deriving DecidableEq

inductive GnsUserStatus where
  | active
  | unactive
deriving DecidableEq

structure ShmGnsInfo where
  userID : UInt64
  serverID : ℤ
  connPos : UInt32
  status : GnsUserStatus
  lastActiveTime : ℕ
deriving DecidableEq

/-- The fields of `CConnInfo` that the handlers read. -/
structure ConnInfo where
  connType : ConnType
  userID : UInt64
deriving DecidableEq

/-- `mm::LoginData`, one entry of a notice. -/
structure LoginData where
  userID : UInt64
  serverID : ℤ
  connPos : UInt32
  time : ℕ
deriving DecidableEq

inductive Body where
  | loginNotice (data : List LoginData)
  | disconnect (data : List LoginData)
  | loginSyncReq (serverID : ℤ)
  | loginSyncRsp (data : List LoginData)
deriving DecidableEq

inductive SendType where
  -- TO_GRP_ALLNOME with GROUP_CONN
  | toGrpAllNoMe
  | toSrv (dstID : ℤ)
deriving DecidableEq

structure Packet where
  sendType : SendType
  body : Body
deriving DecidableEq

structure Server where
  serverID : ℤ
  connPosCnt : UInt32
  posConnMap : UInt32 → Option ConnInfo
  gnsInfoMap : BoundedMap UInt64 ShmGnsInfo
  checkConnPos : ℕ
  -- the log line `m_GnsInfoMap Insert failed` has been written
  insertFailed : Bool

def Server.maxGnsNodeNum (server : Server) : ℕ :=
  server.gnsInfoMap.capacity + 1

def Server.start (serverID : ℤ) (gnsCapacity : ℕ) : Server where
  serverID := serverID
  connPosCnt := 0
  posConnMap := fun _ => none
  gnsInfoMap := BoundedMap.empty UInt64 ShmGnsInfo gnsCapacity
  checkConnPos := 0
  insertFailed := false

/-! ## The user table -/

/-- `m_GnsInfoMap.Insert`; a failure is only logged. -/
def Server.gnsInsert (server : Server) (info : ShmGnsInfo) : Server :=
  let (answer, map) :=
    HashList.mapCall server.gnsInfoMap (.insert info.userID info)
  { server with
    gnsInfoMap := map
    insertFailed := server.insertFailed || answer.iRetVal != 0 }

/-- The four assignments through `pCurGnsInfo`. -/
def Server.gnsAssign
    (server : Server) (userID : UInt64) (serverID : ℤ) (connPos : UInt32)
    (status : GnsUserStatus) (time : ℕ) : Server :=
  { server with
    gnsInfoMap := server.gnsInfoMap.modify userID fun info =>
      { info with
        serverID := serverID
        connPos := connPos
        status := status
        lastActiveTime := time } }

/-- The entries in the order in which `ProcessAll(bucket, ..)` meets them. -/
def Server.processAll (server : Server) (bucket : ℕ) :
    List (Σ _ : UInt64, ShmGnsInfo) :=
  server.gnsInfoMap.store.entries.filter fun entry =>
    HashList.hashVal server.maxGnsNodeNum entry.1 = bucket

/-- `MemFullCallBackAll` over the whole table. -/
def Server.ownSessions (server : Server) : List LoginData :=
  (((List.range server.maxGnsNodeNum).flatMap server.processAll).filter
    fun entry =>
      entry.2.serverID = server.serverID ∧ entry.2.status = .active).map
    fun entry =>
      { userID := entry.2.userID
        serverID := entry.2.serverID
        connPos := entry.2.connPos
        time := entry.2.lastActiveTime }

/-! ## Connections -/

def clientSockCposMin : UInt32 := 500

/-- `CurConnPos++` in the range of the clients. -/
def nextClientPos : UInt32 → UInt32 :=
  Positions.nextPosition (fun pos => decide (pos < clientSockCposMin))
    clientSockCposMin

/-- The loop of `AcceptConn` that looks for a position not in use. -/
def Server.findFreePos (server : Server) : ℕ → UInt32 → Option UInt32 :=
  ProbeLoop.probe nextClientPos
    fun curConnPos => (server.posConnMap curConnPos).isSome

/-- `m_ConnPosCnt` as `AcceptConn` counts it up. -/
def Server.nextConnPosCnt (server : Server) : UInt32 :=
  nextClientPos server.connPosCnt

/-- `AcceptConn` after `accept` has given a socket; `ready` says whether the
calls that set the socket up succeed.  `none` when the search has not ended
within the fuel. -/
def Server.acceptConn
    (server : Server) (fuel : ℕ) (ready : Bool) : Option Server :=
  (server.findFreePos fuel server.nextConnPosCnt).map fun curConnPos =>
    if ready then
      { server with
        connPosCnt := server.nextConnPosCnt
        posConnMap := Function.update server.posConnMap curConnPos
          (some ⟨.connUnauth, 0⟩) }
    else { server with connPosCnt := server.nextConnPosCnt }

/-- `ReleaseConn` on an iterator that points to `connPos`. -/
def Server.releaseConn
    (server : Server) (now : ℕ) (connPos : UInt32) (bSend : Bool) :
    Server × List Packet :=
  match server.posConnMap connPos with
  | none => (server, [])
  | some conn =>
      let recorded :=
        if conn.userID ≠ 0 then
          server.gnsAssign conn.userID server.serverID connPos .unactive now
        else server
      let packets :=
        if conn.userID ≠ 0 ∧ bSend = true then
          [⟨.toGrpAllNoMe,
            .disconnect [⟨conn.userID, server.serverID, connPos, now⟩]⟩]
        else []
      ({ recorded with
          posConnMap := Function.update recorded.posConnMap connPos none },
        packets)

/-- Release the connection at a position without notice, if it exists and
belongs to the user. -/
def Server.releaseIfOwned
    (server : Server) (now : ℕ) (connPos : UInt32) (userID : UInt64) :
    Server :=
  match server.posConnMap connPos with
  | none => server
  | some conn =>
      if conn.userID = userID then (server.releaseConn now connPos false).1
      else server

/-! ## Packets from other servers -/

/-- `SetConnType(CONN_AUTH)` and `SetUserID`. -/
def Server.setUser
    (server : Server) (connPos : UInt32) (userID : UInt64) : Server :=
  { server with
    posConnMap := Function.update server.posConnMap connPos
      (some ⟨.connAuth, userID⟩) }

/-- `Cmd_Auth_Login_Rsp`. -/
def Server.authLoginRsp
    (server : Server) (now : ℕ) (connPos : UInt32) (userID : UInt64)
    (result : ℤ) : Server × List Packet :=
  if result ≠ 0 then (server, [])
  else
    match server.posConnMap connPos with
    | none => (server, [])
    | some _ =>
        let bound := server.setUser connPos userID
        let recorded :=
          match bound.gnsInfoMap.get userID with
          | none =>
              bound.gnsInsert ⟨userID, server.serverID, connPos, .active, now⟩
          | some info =>
              let released :=
                if info.status = .active ∧ info.serverID = server.serverID
                then bound.releaseIfOwned now info.connPos userID
                else bound
              released.gnsAssign userID server.serverID connPos .active now
        (recorded,
          [⟨.toGrpAllNoMe,
            .loginNotice [⟨userID, server.serverID, connPos, now⟩]⟩])

/-- The body of the loop of `Cmd_LoginNotice`, which is also that of
`Cmd_LoginSync_Rsp`. -/
def Server.loginEntry
    (server : Server) (now : ℕ) (data : LoginData) : Server :=
  match server.gnsInfoMap.get data.userID with
  | none =>
      server.gnsInsert
        ⟨data.userID, data.serverID, data.connPos, .active, data.time⟩
  | some info =>
      if info.lastActiveTime ≤ data.time then
        let released :=
          if info.serverID = server.serverID ∧ info.status = .active
          then server.releaseIfOwned now info.connPos data.userID
          else server
        released.gnsAssign data.userID data.serverID data.connPos .active
          data.time
      else server

/-- The body of the loop of `Cmd_Disconnect`. -/
def Server.disconnectEntry
    (server : Server) (now : ℕ) (data : LoginData) : Server :=
  match server.gnsInfoMap.get data.userID with
  | none => server
  | some info =>
      if info.lastActiveTime ≤ data.time then
        if info.serverID = server.serverID ∧ info.status = .active then
          server.releaseIfOwned now info.connPos data.userID
        else
          server.gnsAssign data.userID data.serverID data.connPos .unactive
            data.time
      else server

/-- The sending loop of `Init` and of `Cmd_LoginSync_Req`.  The message is not
emptied when it is sent, so that a later one repeats the earlier ones. -/
def batches : List LoginData → ℕ → List LoginData → List (List LoginData)
  | _, _, [] => []
  | sent, j, data :: rest =>
      if 1000 < j + 1 ∨ rest = [] then
        (sent ++ [data]) :: batches (sent ++ [data]) 0 rest
      else batches (sent ++ [data]) (j + 1) rest

/-- `DealPkg` on the commands between conn servers; `srcID` is the header's
`SrcID`. -/
def Server.dealPkg
    (server : Server) (now : ℕ) (srcID : ℤ) : Body → Server × List Packet
  | .loginNotice data =>
      (data.foldl (fun server => server.loginEntry now) server, [])
  | .disconnect data =>
      (data.foldl (fun server => server.disconnectEntry now) server, [])
  | .loginSyncReq serverID =>
      if serverID = server.serverID then (server, [])
      else
        (server, (batches [] 0 server.ownSessions).map fun data =>
          ⟨.toSrv srcID, .loginSyncRsp data⟩)
  | .loginSyncRsp data =>
      (data.foldl (fun server => server.loginEntry now) server, [])

/-! ## Housekeeping -/

def connInvalidTime : ℕ := 86400

/-- The test of `MemFullCallBack` for an entry to be removed; the difference
is taken in `uint64_t`. -/
def ShmGnsInfo.Stale (info : ShmGnsInfo) (now : ℕ) : Prop :=
  info.status = .unactive ∧
    info.lastActiveTime < (now + 2 ^ 64 - connInvalidTime) % 2 ^ 64

instance (info : ShmGnsInfo) (now : ℕ) : Decidable (info.Stale now) :=
  inferInstanceAs (Decidable (_ ∧ _))

/-- The users whose entries the next `CheckValid` removes. -/
def Server.staleUsers (server : Server) (now : ℕ) : List UInt64 :=
  ((server.processAll server.checkConnPos).filter
    fun entry => entry.2.Stale now).map Sigma.fst

def Server.checkValid (server : Server) (now : ℕ) : Server :=
  { server with
    gnsInfoMap := (server.staleUsers now).foldl BoundedMap.erase
      server.gnsInfoMap
    checkConnPos := (server.checkConnPos + 1) % server.maxGnsNodeNum }

/-- `Init` of a process that finds the table of its predecessor. -/
def Server.restart (server : Server) : Server × List Packet :=
  ({ server with
      connPosCnt := 0
      posConnMap := fun _ => none
      gnsInfoMap :=
        BoundedMap.empty UInt64 ShmGnsInfo server.gnsInfoMap.capacity
      checkConnPos := 0 },
    (batches [] 0 server.ownSessions).map
        (fun data => ⟨.toGrpAllNoMe, .disconnect data⟩) ++
      [⟨.toGrpAllNoMe, .loginSyncReq server.serverID⟩])

end MessageBus.Conn
