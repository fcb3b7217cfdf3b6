import MessageBus.ConnEffects
import MessageBus.Transition

/-!
# A cluster of conn servers

The servers exchange packets through the bus.  A packet in flight can be
delivered at any time and in any order; the clock is common to all servers and
never goes back.
-/

namespace MessageBus.Conn

structure Message where
  srcID : ℤ
  dstID : ℤ
  body : Body
deriving DecidableEq

structure Cluster where
  members : List ℤ
  servers : ℤ → Server
  inFlight : List Message
  now : ℕ
  -- every login and every disconnect announced so far, for stating properties
  logins : List LoginData
  closes : List LoginData

/-- What happens at one server other than the arrival of a packet from another
conn server. -/
inductive Action where
  -- `ready` is false when a call that sets the new socket up has failed
  | acceptConn (ready : Bool)
  -- the peer has closed, a receive or send has failed, or `CheckConn` has
  -- found a timeout
  | releaseConn (connPos : UInt32)
  | authLoginRsp (connPos : UInt32) (userID : UInt64) (result : ℤ)
  | checkValid
  | restart
deriving DecidableEq

inductive Event where
  | advance (seconds : ℕ)
  | act (serverID : ℤ) (action : Action)
  | deliver (index : ℕ)
deriving DecidableEq

def Server.act (server : Server) (fuel now : ℕ) :
    Action → Option (Server × List Packet)
  | .acceptConn ready =>
      (server.acceptConn fuel ready).map fun after => (after, [])
  | .releaseConn connPos => some (server.releaseConn now connPos true)
  | .authLoginRsp connPos userID result =>
      some (server.authLoginRsp now connPos userID result)
  | .checkValid => some (server.checkValid now, [])
  | .restart => some server.restart

namespace Cluster

/-- The copies of a packet that the bus makes. -/
def route (members : List ℤ) (srcID : ℤ) (packet : Packet) : List Message :=
  match packet.sendType with
  | .toGrpAllNoMe =>
      (members.filter fun dstID => dstID ≠ srcID).map fun dstID =>
        ⟨srcID, dstID, packet.body⟩
  | .toSrv dstID => [⟨srcID, dstID, packet.body⟩]

def loginsOf (packet : Packet) : List LoginData :=
  match packet.body with
  | .loginNotice data => data
  | _ => []

def closesOf (packet : Packet) : List LoginData :=
  match packet.body with
  | .disconnect data => data
  | _ => []

/-- A server has moved and its packets are on their way. -/
def perform
    (cluster : Cluster) (serverID : ℤ) (result : Server × List Packet) :
    Cluster :=
  { cluster with
    servers := Function.update cluster.servers serverID result.1
    inFlight := cluster.inFlight ++
      result.2.flatMap (route cluster.members serverID)
    logins := cluster.logins ++ result.2.flatMap loginsOf
    closes := cluster.closes ++ result.2.flatMap closesOf }

def step (fuel : ℕ) (cluster : Cluster) : Event → Option Cluster
  | .advance seconds => some { cluster with now := cluster.now + seconds }
  | .act serverID action =>
      if serverID ∈ cluster.members then
        ((cluster.servers serverID).act fuel cluster.now action).map
          (cluster.perform serverID)
      else none
  | .deliver index =>
      match cluster.inFlight[index]? with
      | none => none
      | some message =>
          if message.dstID ∈ cluster.members then
            some (({ cluster with
              inFlight := cluster.inFlight.eraseIdx index } : Cluster).perform
                message.dstID
                ((cluster.servers message.dstID).dealPkg cluster.now
                  message.srcID message.body))
          else none

/-- Servers that have just been started for the first time. -/
def start (members : List ℤ) (gnsCapacity : ℤ → ℕ) (now : ℕ) : Cluster where
  members := members
  servers := fun serverID => Server.start serverID (gnsCapacity serverID)
  inFlight := []
  now := now
  logins := []
  closes := []

/-- What a step of the cluster is. -/
theorem step_cases
    {fuel : ℕ} {cluster after : Cluster} {event : Event}
    (hstep : cluster.step fuel event = some after) :
    (∃ seconds, event = .advance seconds ∧
      after = { cluster with now := cluster.now + seconds }) ∨
    (∃ serverID action result, event = .act serverID action ∧
      serverID ∈ cluster.members ∧
      (cluster.servers serverID).act fuel cluster.now action = some result ∧
      after = cluster.perform serverID result) ∨
    ∃ index message, event = .deliver index ∧
      cluster.inFlight[index]? = some message ∧
      message.dstID ∈ cluster.members ∧
      after = ({ cluster with
          inFlight := cluster.inFlight.eraseIdx index } : Cluster).perform
        message.dstID
        ((cluster.servers message.dstID).dealPkg cluster.now message.srcID
          message.body) := by
  cases event with
  | advance seconds =>
      left
      exact ⟨seconds, rfl, (Option.some.inj hstep).symm⟩
  | act serverID action =>
      right
      left
      simp only [step] at hstep
      split_ifs at hstep with hmember
      rcases Option.map_eq_some_iff.mp hstep with ⟨result, hact, rfl⟩
      exact ⟨serverID, action, result, rfl, hmember, hact, rfl⟩
  | deliver index =>
      right
      right
      simp only [step] at hstep
      split at hstep
      · simp at hstep
      · next message hmessage =>
          split_ifs at hstep with hmember
          exact ⟨index, message, rfl, hmessage, hmember,
            (Option.some.inj hstep).symm⟩

theorem mem_inFlight_of_group
    {cluster : Cluster} {srcID dstID : ℤ} {result : Server × List Packet}
    {body : Body} (hpacket : (⟨.toGrpAllNoMe, body⟩ : Packet) ∈ result.2)
    (hmember : dstID ∈ cluster.members) (hne : dstID ≠ srcID) :
    (⟨srcID, dstID, body⟩ : Message) ∈
      (cluster.perform srcID result).inFlight := by
  apply List.mem_append_right
  apply List.mem_flatMap.mpr
  refine ⟨_, hpacket, ?_⟩
  simp [route, hmember, hne]

theorem mem_eraseIdx_or_eq
    {messages : List Message} {index : ℕ} {message other : Message}
    (hmessage : messages[index]? = some message) (hother : other ∈ messages) :
    other = message ∨ other ∈ messages.eraseIdx index := by
  rcases List.getElem?_eq_some_iff.mp hmessage with ⟨hlength, hget⟩
  have hperm := List.getElem_cons_eraseIdx_perm hlength
  rw [hget] at hperm
  exact List.mem_cons.mp (hperm.mem_iff.mpr hother)

end Cluster

end MessageBus.Conn
