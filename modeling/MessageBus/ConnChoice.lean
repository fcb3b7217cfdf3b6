import MessageBus.ConnStatusTable

/-!
# The choice of a connection in `CSafeTcpClient`

`Init` with a list of addresses and `GetConnection` of
`mmlib/safe_tcp_client/safe_tcp_client.cpp`.  From a random place on, half of the
connections and one more are tried one after the other.  When none of them is of
use, one of those just tried is connected by force.
-/

namespace MessageBus.SafeTcpClient

def stcpMaxConnData : ℕ := 200
def stcpRetryTimeInterDefault : ℤ := 600
def stcpDefaultTimeout : ℤ := 5000
def stcpDefaultPeertimeout : ℤ := 180
structure STcpAddr where
  uiIPAddr : UInt32
  ushPort : UInt16
deriving DecidableEq

structure STcpConnData where
  uiIPAddr : UInt32
  ushPort : UInt16
  iSocket : ℤ
  tLastUseTime : ℤ
deriving DecidableEq

/-- Where `m_pstCurConnStatus` points to: into the table, or to
`m_stFullConnStatus`. -/
inductive StatusPlace where
  | inTable (i : ℕ)
  | full
deriving DecidableEq

/-- The members of `CSafeTcpClient` that count here; `m_pstCurConnData` is the
place in the array. -/
structure Client where
  m_astSTcpConnData : ℤ → STcpConnData
  m_iSTcpConnDataNum : ℕ
  m_iTimeOut : ℤ
  m_iRetryInterval : ℤ
  m_iPeerTimeOut : ℤ
  m_pstSTcpConnStatus : Option STcpConnStatusHeader
  m_stFullConnStatus : STcpConnStatus
  m_pstCurConnData : Option ℤ
  m_pstCurConnStatus : Option StatusPlace

namespace Client

variable (client : Client)

/-! ## `Init` -/

/-- `CSafeTcpClient` as it is constructed. -/
def fresh : Client where
  m_astSTcpConnData _ := ⟨0, 0, -1, 0⟩
  m_iSTcpConnDataNum := 0
  m_iTimeOut := stcpDefaultTimeout
  m_iRetryInterval := stcpRetryTimeInterDefault
  m_iPeerTimeOut := stcpDefaultPeertimeout
  m_pstSTcpConnStatus := none
  m_stFullConnStatus := ⟨0, 0, stcpConnStatusEFull, 0, 0, 0, 0, 0, 0, 0⟩
  m_pstCurConnData := none
  m_pstCurConnStatus := none

def setConnData (idx : ℤ) (data : STcpConnData) : Client :=
  { client with
    m_astSTcpConnData := Function.update client.m_astSTcpConnData idx data }

def closeAllConn : Client :=
  { client with
    m_astSTcpConnData := fun idx =>
      if 0 ≤ idx ∧ idx < client.m_iSTcpConnDataNum then
        { client.m_astSTcpConnData idx with iSocket := -1 }
      else client.m_astSTcpConnData idx }

def destory : Client :=
  { client.closeAllConn with m_pstSTcpConnStatus := none }

/-- The loop over the addresses; `false` at one that is not valid. -/
def addAddrs : Client → List STcpAddr → Bool × Client
  | client, [] => (true, client)
  | client, addr :: addrs =>
      if addr.uiIPAddr = 0 ∨ addr.ushPort = 0 then (false, client)
      else
        let idx := client.m_iSTcpConnDataNum
        let data := client.m_astSTcpConnData idx
        let client := client.setConnData idx
          { data with
            uiIPAddr := addr.uiIPAddr
            ushPort := addr.ushPort
            iSocket := -1 }
        addAddrs { client with m_iSTcpConnDataNum := idx + 1 } addrs

/-- `Init`, with the table that `InitStatusShm` finds, if it does. -/
def init (vstSTcpAddrList : List STcpAddr)
    (iTimeOut iRetryInterval iPeerTimeOut : ℤ)
    (statusShm : Option STcpConnStatusHeader) : ℤ × Client :=
  let client := client.destory
  if stcpMaxConnData < vstSTcpAddrList.length then (-1, client)
  else
    match addAddrs { client with m_iSTcpConnDataNum := 0 } vstSTcpAddrList with
    | (false, client) => (-1, client)
    | (true, client) =>
        let client := { client with
          m_iTimeOut := iTimeOut
          m_iRetryInterval :=
            if stcpMaxConnStatusKeepTime / 5 < iRetryInterval then
              stcpMaxConnStatusKeepTime / 60
            else iRetryInterval
          m_iPeerTimeOut := iPeerTimeOut }
        match statusShm with
        | none => (-1, client)
        | some table => (0, { client with m_pstSTcpConnStatus := some table })

/-! ## `GetConnection` -/

/-- What a call of `GetConnection` meets with: the time, the two random places
and, for each connection it makes, what the system answers and when it fails. -/
structure Surroundings where
  tTimeNow : ℤ
  iStart : ℤ
  iForce : ℤ
  socket : ℕ → ℤ
  connects : ℕ → ℤ → Bool
  retryTime : ℕ → ℤ
  useTime : ℕ → ℤ

variable (around : Surroundings)

/-- The number of connections, the current one and the table stay. -/
structure Keeps (before after : Client) : Prop where
  num : after.m_iSTcpConnDataNum = before.m_iSTcpConnDataNum
  cur : after.m_pstCurConnData = before.m_pstCurConnData
  shm : after.m_pstSTcpConnStatus.isSome = before.m_pstSTcpConnStatus.isSome

section Keeps

variable (client : Client) (around : Surroundings)

theorem Keeps.refl : Keeps client client :=
  ⟨rfl, rfl, rfl⟩

theorem Keeps.trans {first second third : Client} (hleft : Keeps first second)
    (hright : Keeps second third) : Keeps first third :=
  ⟨hright.num.trans hleft.num, hright.cur.trans hleft.cur,
    hright.shm.trans hleft.shm⟩

end Keeps

/-! ## The connections that are tried -/

/-- Places from `start` on, around the list of `num`. -/
def window (num : ℕ) (start : ℤ) (count : ℕ) : List ℤ :=
  (List.range count).map fun offset : ℕ => (start + offset) % num

section Windows

variable {num count : ℕ} {start place : ℤ}

end Windows

section Loop

variable {start : ℤ}

end Loop

/-! ## The connection that is made by force -/

section Choices

variable {unset started client : Client} {around : Surroundings}
  {vstSTcpAddrList : List STcpAddr} {iTimeOut iRetryInterval iPeerTimeOut : ℤ}
  {statusShm : Option STcpConnStatusHeader}

end Choices

end Client

end MessageBus.SafeTcpClient
