import MessageBus.ReceivePath
import MessageBus.Transition

/-!
# Sending on a connection

`CConnInfo::Send`, `AddSendData` and `SendRemainData`, which `bus/bus.cpp` and
`conn/conn.cpp` share, the two functions that call them, `CBus::Send2Cluster`
and `CConn::Send2Client`, and the `EPOLLOUT` branch of `Run`.

A socket is the bytes it has taken and the results that its coming writes
will have; every order of full writes, partial writes and blocked writes is a
list of results.
-/

namespace MessageBus.Send

open Receive

/-! ## A socket -/

/-- What a call of `write` comes back with. -/
inductive WriteResult where
  /-- The socket has room for this many bytes. -/
  | wrote (count : ℕ)
  /-- Nothing was written and `errno` is `EAGAIN`. -/
  | again
  /-- Nothing was written and `errno` is something else. -/
  | failed
deriving DecidableEq

structure Socket where
  written : List UInt8
  /-- The results of the coming writes; after these the socket is blocked. -/
  results : List WriteResult

/-- `write`.  A call that writes nothing is `again` or `failed`, according to
`errno`. -/
def Socket.write (socket : Socket) (data : List UInt8) :
    WriteResult × Socket :=
  match socket.results with
  | [] => (.again, socket)
  | .wrote count :: later =>
      if min count data.length = 0 then
        (.failed, { socket with results := later })
      else
        (.wrote (min count data.length),
          ⟨socket.written ++ data.take (min count data.length), later⟩)
  | .again :: later => (.again, { socket with results := later })
  | .failed :: later => (.failed, { socket with results := later })

/-- What a write returns and what it does to the socket. -/
theorem Socket.write_cases (socket : Socket) (data : List UInt8) :
    (∃ count, 0 < count ∧ count ≤ data.length ∧
        (socket.write data).1 = .wrote count ∧
        (socket.write data).2.written =
          socket.written ++ data.take count) ∨
      (((socket.write data).1 = .again ∨ (socket.write data).1 = .failed) ∧
        (socket.write data).2.written = socket.written) := by
  cases hresults : socket.results with
  | nil =>
      right
      simp [write, hresults]
  | cons result later =>
      cases result with
      | wrote count =>
          by_cases hzero : min count data.length = 0
          · right
            simp [write, hresults, hzero]
          · left
            refine ⟨min count data.length, by omega, by omega, ?_⟩
            simp [write, hresults, hzero]
      | again =>
          right
          simp [write, hresults]
      | failed =>
          right
          simp [write, hresults]

/-! ## `CConnInfo` -/

/-- The sending half of `CConnInfo`, and whether `EPOLLOUT` is armed for its
socket. -/
structure CConnInfo where
  sockID : ℤ
  remainSendData : List UInt8
  socket : Socket
  epollOut : Bool

namespace CConnInfo

/-- The second half of `Send`: write the new data. -/
def sendNew (conn : CConnInfo) (pBuff : List UInt8) : ℤ × CConnInfo :=
  match conn.socket.write pBuff with
  | (.wrote count, socket) => (count, { conn with socket := socket })
  | (.again, socket) => (0, { conn with socket := socket })
  | (.failed, socket) => (-1, { conn with socket := socket })

/-- `Send`: the number of bytes of `pBuff` it has written, or `-1`. -/
def send (conn : CConnInfo) (pBuff : List UInt8) : ℤ × CConnInfo :=
  if conn.remainSendData ≠ [] then
    match conn.socket.write conn.remainSendData with
    | (.wrote count, socket) =>
        if count < conn.remainSendData.length then
          (0, { conn with
            socket := socket
            remainSendData := conn.remainSendData.drop count })
        else
          sendNew { conn with
            socket := socket
            remainSendData := [] } pBuff
    | (.again, socket) => (0, { conn with socket := socket })
    | (.failed, socket) => (-1, { conn with socket := socket })
  else sendNew conn pBuff

def addSendData (conn : CConnInfo) (pBuff : List UInt8) : ℤ × CConnInfo :=
  if conn.remainSendData ≠ [] then
    if xyMaxbuffLen < conn.remainSendData.length + pBuff.length then
      (-1, conn)
    else
      (0, { conn with remainSendData := conn.remainSendData ++ pBuff })
  else
    if xyMaxbuffLen < pBuff.length then (-1, conn)
    else (0, { conn with remainSendData := pBuff })

def sendRemainData (conn : CConnInfo) : ℤ × CConnInfo :=
  if conn.remainSendData ≠ [] then
    match conn.socket.write conn.remainSendData with
    | (.wrote count, socket) =>
        if count < conn.remainSendData.length then
          (1, { conn with
            socket := socket
            remainSendData := conn.remainSendData.drop count })
        else
          (0, { conn with
            socket := socket
            remainSendData := [] })
    | (.again, socket) => (1, { conn with socket := socket })
    | (.failed, socket) => (-1, { conn with socket := socket })
  else (0, conn)

/-- What `Send2Cluster` and `Send2Client` do with the connection they have
found: the return value, and the connection unless `ReleaseConn` was
called. -/
def sendOrKeep (conn : CConnInfo) (pSendBuff : List UInt8) :
    ℤ × Option CConnInfo :=
  let (ret2, sent) := conn.send pSendBuff
  if 0 ≤ ret2 ∧ ret2 < pSendBuff.length then
    let (ret3, kept) := sent.addSendData (pSendBuff.drop ret2.toNat)
    if ret3 ≠ 0 then (-2, none)
    else (0, some { kept with epollOut := true })
  else if ret2 < 0 then (-3, none)
  else (0, some sent)

/-- The `EPOLLOUT` branch of `Run`. -/
def pollOut (conn : CConnInfo) : Option CConnInfo :=
  let (ret, sent) := conn.sendRemainData
  if ret = 1 then some sent
  else if ret ≠ 0 then none
  else some { sent with epollOut := false }

end CConnInfo

/-! ## The stream of one connection -/

/-- The bytes written followed by the bytes kept are a given stream, the kept
bytes fit, and `EPOLLOUT` is armed while there are any. -/
structure CConnInfo.Carries (conn : CConnInfo) (stream : List UInt8) :
    Prop where
  stream_eq : conn.socket.written ++ conn.remainSendData = stream
  remain_le : conn.remainSendData.length ≤ xyMaxbuffLen
  armed : conn.remainSendData ≠ [] → conn.epollOut = true

namespace CConnInfo

variable {conn next : CConnInfo} {stream pBuff : List UInt8} {ret : ℤ}

/-- The connection has written its stream a little further and has taken some
bytes of the new data. -/
structure Advances
    (before : CConnInfo) (pBuff : List UInt8) (count : ℕ)
    (after : CConnInfo) : Prop where
  count_le : count ≤ pBuff.length
  stream_eq : after.socket.written ++ after.remainSendData =
    before.socket.written ++ before.remainSendData ++ pBuff.take count
  remain_le : after.remainSendData.length ≤ before.remainSendData.length
  epollOut_eq : after.epollOut = before.epollOut

/-- A write of the new data on a connection that keeps nothing. -/
theorem sendNew_cases
    (hempty : conn.remainSendData = []) (hsend : conn.sendNew pBuff =
      (ret, next)) :
    ret = -1 ∨ ∃ count : ℕ, ret = count ∧ conn.Advances pBuff count next := by
  unfold sendNew at hsend
  have hcases := conn.socket.write_cases pBuff
  cases hwrite : conn.socket.write pBuff with
  | mk result socket =>
      rw [hwrite] at hsend hcases
      obtain ⟨count, hpos, hle, hresult, hwritten⟩ |
        ⟨hagain | hfailed, hwritten⟩ := hcases
      · right
        dsimp only at hresult hwritten
        subst hresult
        obtain ⟨rfl, rfl⟩ := Prod.mk.inj hsend
        refine ⟨count, rfl, hle, ?_, le_rfl, rfl⟩
        simp [hwritten, hempty]
      · right
        dsimp only at hagain hwritten
        subst hagain
        obtain ⟨rfl, rfl⟩ := Prod.mk.inj hsend
        refine ⟨0, rfl, Nat.zero_le _, ?_, le_rfl, rfl⟩
        simp [hwritten]
      · left
        dsimp only at hfailed
        subst hfailed
        exact (Prod.mk.inj hsend).1.symm

/-- `Send` fails, or writes the stream further and reports how much of the new
data it has taken. -/
theorem send_cases (hsend : conn.send pBuff = (ret, next)) :
    ret = -1 ∨ ∃ count : ℕ, ret = count ∧ conn.Advances pBuff count next := by
  unfold send at hsend
  split_ifs at hsend with hremain
  · have hcases := conn.socket.write_cases conn.remainSendData
    cases hwrite : conn.socket.write conn.remainSendData with
    | mk result socket =>
        rw [hwrite] at hsend hcases
        obtain ⟨count, hpos, hle, hresult, hwritten⟩ |
          ⟨hagain | hfailed, hwritten⟩ := hcases
        · dsimp only at hresult hwritten
          subst hresult
          dsimp only at hsend
          split_ifs at hsend with hpart
          · right
            obtain ⟨rfl, rfl⟩ := Prod.mk.inj hsend
            refine ⟨0, rfl, Nat.zero_le _, ?_, ?_, rfl⟩
            · simp [hwritten]
            · simp
          · -- the stash is gone; the new data is next
            have hall : count = conn.remainSendData.length := by omega
            rw [hall, List.take_length] at hwritten
            obtain hminus | ⟨taken, hret, hadvances⟩ :=
              sendNew_cases rfl hsend
            · exact Or.inl hminus
            · right
              refine ⟨taken, hret, hadvances.count_le, ?_, ?_,
                hadvances.epollOut_eq⟩
              · rw [hadvances.stream_eq]
                simp [hwritten]
              · exact hadvances.remain_le.trans (Nat.zero_le _)
        · right
          dsimp only at hagain hwritten
          subst hagain
          obtain ⟨rfl, rfl⟩ := Prod.mk.inj hsend
          refine ⟨0, rfl, Nat.zero_le _, ?_, le_rfl, rfl⟩
          simp [hwritten]
        · left
          dsimp only at hfailed
          subst hfailed
          exact (Prod.mk.inj hsend).1.symm
  · exact sendNew_cases (not_not.mp hremain) hsend

theorem addSendData_eq (conn : CConnInfo) (pBuff : List UInt8) :
    conn.addSendData pBuff =
      if xyMaxbuffLen < conn.remainSendData.length + pBuff.length then
        (-1, conn)
      else
        (0, { conn with remainSendData := conn.remainSendData ++ pBuff }) := by
  unfold addSendData
  by_cases hempty : conn.remainSendData = []
  · simp [hempty]
  · simp [hempty]

/-- A message that leaves the connection alive has been taken, and continues
the stream. -/
theorem Carries.sendOrKeep
    (hcarries : conn.Carries stream)
    (hsend : conn.sendOrKeep pBuff = (ret, some next)) :
    ret = 0 ∧ next.Carries (stream ++ pBuff) := by
  unfold CConnInfo.sendOrKeep at hsend
  cases hsent : conn.send pBuff with
  | mk ret2 sent =>
      rw [hsent] at hsend
      obtain hfailed | ⟨count, hret, hadvances⟩ := send_cases hsent
      · subst hfailed
        simp at hsend
      subst hret
      dsimp only at hsend
      have hlength := hcarries.remain_le
      have hcount := hadvances.count_le
      by_cases hpart : count < pBuff.length
      · -- blocked: the bytes not written are kept behind the stash
        rw [if_pos ⟨Int.natCast_nonneg count, by exact_mod_cast hpart⟩,
          Int.toNat_natCast, addSendData_eq] at hsend
        by_cases hlong : xyMaxbuffLen <
            sent.remainSendData.length + (pBuff.drop count).length
        · rw [if_pos hlong] at hsend
          simp at hsend
        · rw [if_neg hlong] at hsend
          simp only [ne_eq, not_true_eq_false, if_false, Prod.mk.injEq,
            Option.some.injEq] at hsend
          obtain ⟨rfl, rfl⟩ := hsend
          refine ⟨rfl, ?_, ?_, fun _ => rfl⟩
          · dsimp only
            rw [← List.append_assoc, hadvances.stream_eq, hcarries.stream_eq,
              List.append_assoc, List.take_append_drop]
          · simpa using hlong
      · have hall : count = pBuff.length := by omega
        rw [if_neg (by omega), if_neg (by omega)] at hsend
        simp only [Prod.mk.injEq, Option.some.injEq] at hsend
        obtain ⟨rfl, rfl⟩ := hsend
        have hshorter := hadvances.remain_le
        refine ⟨rfl, ?_, by omega, ?_⟩
        · rw [hadvances.stream_eq, hcarries.stream_eq, hall, List.take_length]
        · intro hkept
          rw [hadvances.epollOut_eq]
          apply hcarries.armed
          rintro hempty
          rw [hempty] at hshorter
          exact hkept (List.length_eq_zero_iff.mp (Nat.le_zero.mp hshorter))

/-- `SendRemainData` moves bytes of the stash to the socket. -/
theorem Carries.pollOut
    (hcarries : conn.Carries stream) (hpoll : conn.pollOut = some next) :
    next.Carries stream := by
  unfold CConnInfo.pollOut sendRemainData at hpoll
  have hlength := hcarries.remain_le
  have hstream := hcarries.stream_eq
  by_cases hremain : conn.remainSendData = []
  · rw [if_neg (not_not.mpr hremain)] at hpoll
    dsimp only at hpoll
    rw [if_neg (by decide), if_neg (by decide), Option.some.injEq] at hpoll
    subst hpoll
    exact ⟨hstream, hlength, fun habsurd => absurd hremain habsurd⟩
  · rw [if_pos hremain] at hpoll
    have hcases := conn.socket.write_cases conn.remainSendData
    cases hwrite : conn.socket.write conn.remainSendData with
    | mk result socket =>
        rw [hwrite] at hpoll hcases
        obtain ⟨count, hpos, hle, hresult, hwritten⟩ |
          ⟨hagain | hfailed, hwritten⟩ := hcases
        · dsimp only at hresult hwritten
          subst hresult
          dsimp only at hpoll
          by_cases hpart : count < conn.remainSendData.length
          · rw [if_pos hpart] at hpoll
            dsimp only at hpoll
            rw [if_pos rfl, Option.some.injEq] at hpoll
            subst hpoll
            refine ⟨?_, ?_, fun _ => hcarries.armed hremain⟩
            · simp [hwritten, ← hstream]
            · simp only [List.length_drop]
              omega
          · have hall : count = conn.remainSendData.length := by omega
            rw [if_neg hpart] at hpoll
            dsimp only at hpoll
            rw [if_neg (by decide), if_neg (by decide),
              Option.some.injEq] at hpoll
            subst hpoll
            refine ⟨?_, Nat.zero_le _, fun habsurd => absurd rfl habsurd⟩
            simp [hwritten, hall, ← hstream]
        · dsimp only at hagain hwritten
          subst hagain
          dsimp only at hpoll
          rw [if_pos rfl, Option.some.injEq] at hpoll
          subst hpoll
          refine ⟨?_, hlength, fun _ => hcarries.armed hremain⟩
          simp [hwritten, ← hstream]
        · dsimp only at hfailed
          subst hfailed
          simp at hpoll

end CConnInfo

/-! ## The connections of a process -/

/-- `ClusterInfo`, without the address of the cluster. -/
structure ClusterInfo where
  clusterID : UInt32
  socketID : ℤ
  connPos : UInt32
deriving DecidableEq

/-- `m_PosConnMap`. -/
abbrev PosConnMap := UInt32 → Option CConnInfo

/-- `CBus::Send2Cluster`, up to what `ReleaseConn` does to the cluster
table. -/
def send2Cluster (posConnMap : PosConnMap) (info : ClusterInfo)
    (pSendBuff : List UInt8) : ℤ × PosConnMap :=
  if info.socketID = -1 ∨ info.connPos = 0 then (0, posConnMap)
  else
    match posConnMap info.connPos with
    | none => (-1, posConnMap)
    | some conn =>
        let (ret, kept) := conn.sendOrKeep pSendBuff
        (ret, Function.update posConnMap info.connPos kept)

/-- `CConn::Send2Client`. -/
def send2Client (posConnMap : PosConnMap) (curConnPos : UInt32)
    (pSendBuff : List UInt8) : ℤ × PosConnMap :=
  match posConnMap curConnPos with
  | none => (-1, posConnMap)
  | some conn =>
      let (ret, kept) := conn.sendOrKeep pSendBuff
      (ret, Function.update posConnMap curConnPos kept)

/-- A step of a process that sends on its connections. -/
inductive Action where
  /-- A new connection, made by `AcceptConn` or `ConnectCluster`. -/
  | open (connPos : UInt32) (sockID : ℤ) (results : List WriteResult)
  | send2Cluster (info : ClusterInfo) (message : List UInt8)
  | send2Client (curConnPos : UInt32) (message : List UInt8)
  /-- `EPOLLOUT` is reported for a connection. -/
  | pollOut (connPos : UInt32)
  | releaseConn (connPos : UInt32)

/-- The connections of a process, and for each the messages that were accepted
on it since it was opened. -/
structure Process where
  posConnMap : PosConnMap
  accepted : UInt32 → List (List UInt8)

/-- Note a message that was sent on a connection with result 0. -/
def Process.sent (process : Process) (connPos : UInt32)
    (message : List UInt8) (outcome : ℤ × PosConnMap) : Process where
  posConnMap := outcome.2
  accepted :=
    if outcome.1 = 0 then
      Function.update process.accepted connPos
        (process.accepted connPos ++ [message])
    else process.accepted

/-- One step of a process.  `EPOLLOUT` is reported only where it is armed, and
a position is given out only while it is free. -/
def Process.step (process : Process) : Action → Option Process
  | .open connPos sockID results =>
      if process.posConnMap connPos = none then
        some
          { posConnMap := Function.update process.posConnMap connPos
              (some ⟨sockID, [], ⟨[], results⟩, false⟩)
            accepted := Function.update process.accepted connPos [] }
      else none
  | .send2Cluster info message =>
      let outcome := Send.send2Cluster process.posConnMap info message
      -- a cluster that is not active answers 0 and accepts nothing
      if info.socketID = -1 ∨ info.connPos = 0 then
        some { process with posConnMap := outcome.2 }
      else some (process.sent info.connPos message outcome)
  | .send2Client curConnPos message =>
      some (process.sent curConnPos message
        (Send.send2Client process.posConnMap curConnPos message))
  | .pollOut connPos =>
      match process.posConnMap connPos with
      | none => none
      | some conn =>
          if conn.epollOut = true then
            some { process with
              posConnMap :=
                Function.update process.posConnMap connPos conn.pollOut }
          else none
  | .releaseConn connPos =>
      some { process with
        posConnMap := Function.update process.posConnMap connPos none }

/-- Every live connection carries the messages accepted on it. -/
def Process.Carries (process : Process) : Prop :=
  ∀ connPos conn, process.posConnMap connPos = some conn →
    conn.Carries (process.accepted connPos).flatten

namespace Process

variable {process next : Process}

/-- A process that has just started has no connections. -/
def start : Process where
  posConnMap := fun _ => none
  accepted := fun _ => []

theorem start_carries : start.Carries := by
  intro connPos conn hconn
  simp [start] at hconn

/-- Sending on a connection that was found keeps every stream. -/
theorem Carries.sent
    (hcarries : process.Carries) {connPos : UInt32} {conn : CConnInfo}
    (hconn : process.posConnMap connPos = some conn)
    (message : List UInt8) :
    (process.sent connPos message
      ((conn.sendOrKeep message).1,
        Function.update process.posConnMap connPos
          (conn.sendOrKeep message).2)).Carries := by
  intro pos live hlive
  simp only [Process.sent] at hlive ⊢
  by_cases hpos : pos = connPos
  · subst hpos
    rw [Function.update_self] at hlive
    obtain ⟨hret, hnext⟩ := (hcarries pos conn hconn).sendOrKeep
      (Prod.ext rfl hlive : conn.sendOrKeep message = (_, some live))
    rw [if_pos hret, Function.update_self]
    simpa using hnext
  · rw [Function.update_of_ne hpos] at hlive
    have hkept := hcarries pos live hlive
    split_ifs
    · rw [Function.update_of_ne hpos]
      exact hkept
    · exact hkept

/-- A message for a position without a connection is accepted nowhere. -/
theorem Carries.refused
    (hcarries : process.Carries) (connPos : UInt32) (message : List UInt8) :
    (process.sent connPos message (-1, process.posConnMap)).Carries :=
  hcarries

/-- One step of a process keeps the stream of every connection that lives. -/
theorem Carries.step
    (hcarries : process.Carries) {action : Action}
    (hstep : process.step action = some next) : next.Carries := by
  cases action with
  | «open» connPos sockID results =>
      simp only [Process.step] at hstep
      split_ifs at hstep with hfree
      obtain rfl := Option.some.inj hstep
      intro pos conn hconn
      by_cases hpos : pos = connPos
      · subst hpos
        simp only [Function.update_self, Option.some.injEq] at hconn ⊢
        subst hconn
        exact ⟨rfl, Nat.zero_le _, fun habsurd => absurd rfl habsurd⟩
      · simp only [Function.update_of_ne hpos] at hconn ⊢
        exact hcarries pos conn hconn
  | send2Cluster info message =>
      simp only [Process.step, Send.send2Cluster] at hstep
      split_ifs at hstep with hactive
      · obtain rfl := Option.some.inj hstep
        exact hcarries
      · obtain rfl := Option.some.inj hstep
        cases hconn : process.posConnMap info.connPos with
        | none => exact hcarries.refused _ _
        | some conn => exact hcarries.sent hconn message
  | send2Client curConnPos message =>
      simp only [Process.step, Send.send2Client] at hstep
      obtain rfl := Option.some.inj hstep
      cases hconn : process.posConnMap curConnPos with
      | none => exact hcarries.refused _ _
      | some conn => exact hcarries.sent hconn message
  | pollOut connPos =>
      simp only [Process.step] at hstep
      cases hconn : process.posConnMap connPos with
      | none => simp [hconn] at hstep
      | some conn =>
          rw [hconn] at hstep
          dsimp only at hstep
          split_ifs at hstep with harmed
          obtain rfl := Option.some.inj hstep
          intro pos live hlive
          by_cases hpos : pos = connPos
          · subst hpos
            simp only [Function.update_self] at hlive
            exact (hcarries pos conn hconn).pollOut hlive
          · simp only [Function.update_of_ne hpos] at hlive
            exact hcarries pos live hlive
  | releaseConn connPos =>
      obtain rfl := Option.some.inj hstep
      intro pos live hlive
      by_cases hpos : pos = connPos
      · subst hpos
        simp at hlive
      · simp only [Function.update_of_ne hpos] at hlive
        exact hcarries pos live hlive

/-- Whatever messages are sent on the connections of a process, whatever its
writes return and wherever `EPOLLOUT` comes in between: on every live
connection the bytes written and the bytes kept are the accepted messages in
order, the kept bytes fit in `XY_MAXBUFF_LEN`, and `EPOLLOUT` is armed while
there are any. -/
theorem reachable_stream
    (process : Process)
    (hreach : Transition.Reaches Process.step (fun _ _ => True) start process)
    (connPos : UInt32) (conn : CConnInfo)
    (hconn : process.posConnMap connPos = some conn) :
    conn.socket.written ++ conn.remainSendData =
        (process.accepted connPos).flatten ∧
      conn.remainSendData.length ≤ xyMaxbuffLen ∧
      (conn.remainSendData ≠ [] → conn.epollOut = true) := by
  have hcarries : process.Carries :=
    hreach.invariant Process.Carries start_carries
      fun _ _ _ hbefore _ hstep => hbefore.step hstep
  have hone := hcarries connPos conn hconn
  exact ⟨hone.stream_eq, hone.remain_le, hone.armed⟩

/-- Two messages to a client whose socket takes three bytes, then nothing,
then two more. -/
theorem reachable_stream_under_pressure :
    ∃ process conn,
      Transition.Reaches Process.step (fun _ _ => True) start process ∧
      process.posConnMap 501 = some conn ∧
      conn.remainSendData = [6, 7, 8, 9] ∧ conn.epollOut = true ∧
      conn.socket.written ++ conn.remainSendData =
        (process.accepted 501).flatten := by
  obtain ⟨process, hreplay, hvalue⟩ := Option.map_eq_some_iff.mp
    (show (Transition.replay Process.step (fun _ _ => True) start
        [.open 501 9 [.wrote 3, .again, .wrote 2],
          .send2Client 501 [1, 2, 3, 4, 5], .send2Client 501 [6, 7, 8, 9],
          .pollOut 501]).map
        (fun process => (process.posConnMap 501).map fun conn =>
          (conn.remainSendData, conn.epollOut)) =
        some (some ([6, 7, 8, 9], true))
      by decide)
  obtain ⟨conn, hconn, hdata⟩ := Option.map_eq_some_iff.mp hvalue
  obtain ⟨hremain, harmed⟩ := Prod.mk.inj hdata
  have hreach := Transition.reaches_of_replay hreplay
  exact ⟨process, conn, hreach, hconn, hremain, harmed,
    (reachable_stream process hreach 501 conn hconn).1⟩

end Process

end MessageBus.Send
