import Mathlib.Data.List.GetD
import MessageBus.BusServing
import MessageBus.ProtoWire

/-!
# The network of the buses

All bus processes of an ini file and the rounds of their main loops in any
order: a server gives a packet to the bus of its cluster, `Run` takes a packet
from the queue of the cluster and forwards it, connects to a cluster that says
hello, sends a heartbeat, writes what a socket did not take, loses a link, reads
from a connection, and a server takes a packet from its own queue.

A link is a row of connections, each of which begins when the one before it has
been lost.  The bytes of a connection arrive in the order they were written, in
whatever pieces the reads cut, and also after the writer has lost it.
-/

namespace MessageBus.Bus

open ShmQueue
open Send
open Receive
open Framing
open Merging

namespace CBus

/-! ## The processes and their links -/

/-- `HeartbeatMsg` of a cluster, serialized. -/
def heartbeatMsg (clusterID : UInt32) : List UInt8 :=
  ProtoWire.encode [⟨1, ProtoWire.Value.uint32 clusterID⟩]

/-- What `Send2ClusterByMsg` makes of a `HeartbeatMsg`. -/
def heartbeatPkg (clusterID : UInt32) : List UInt8 :=
  let pSendData := heartbeatMsg clusterID
  let curHeader : BusHeader :=
    ⟨UInt32.ofNat (BusHeader.getHeaderLen + pSendData.length), cmdHeartbeat,
      0, 0, 0, toSrv, 0⟩
  curHeader.write ++ pSendData

/-- A packet that `Run` has taken from the queue of its cluster, the time it
was taken at and the servers it is for. -/
structure Forwarded where
  pkg : List UInt8
  now : UInt64
  dsts : List UInt32

/-- The processes and what has happened.  For every link, by sender and reader:
what was written to each of the connections that have been lost, and for each
connection the number of bytes read and `m_RemainRecvData` of the reader while
it has not released the connection.  Then the packets given to every bus, those
forwarded by it, and those handled by every server.

`lossless` says that `ForwardMsg` has returned 0 for every packet for servers,
with a link for each of them, and that no queue has refused a packet that came
over a link.  An error of `ForwardMsg` ends its loop: after a queue that refuses
its copy or a link that fails while it is written to, the servers behind in the
list get none, also those of other clusters. -/
structure Network where
  bus : UInt32 → CBus
  clusterQueue : UInt32 → CShmQueue
  past : UInt32 × UInt32 → List (List UInt8)
  taken : UInt32 × UInt32 → ℕ → ℕ
  remain : UInt32 × UInt32 → ℕ → Option (List UInt8)
  given : UInt32 → List (List UInt8)
  forwarded : UInt32 → List Forwarded
  handled : UInt32 → List (List UInt8)
  lossless : Bool

inductive NetAction where
  | give (own : UInt32) (pkg : List UInt8)
  | forward (own : UInt32) (seed : ℕ) (now : UInt64)
  | hello (own other : UInt32) (result : ConnectResult)
  | heartbeat (own other : UInt32)
  | pollOut (own other : UInt32)
  | lose (own other : UInt32)
  | pollIn (own other : UInt32) (connection : ℕ) (result : ReadResult)
  | handle (own serverID : UInt32)

/-- The bytes that have been written to a connection of a link. -/
def Network.written (net : Network) (link : UInt32 × UInt32)
    (connection : ℕ) : List UInt8 :=
  (net.past link ++ [((net.bus link.1).linkConn link.2).elim [] fun conn =>
    conn.socket.written]).getD connection []

/-- A process after a call.  Of a link that the call has lost, the network
keeps what has been written to its connection. -/
def Network.become (net : Network) (own : UInt32) (bus : CBus)
    (final : CConnInfo → UInt32 → List UInt8) : Network :=
  { net with
    bus := Function.update net.bus own bus
    past := fun link =>
      if link.1 = own ∧ bus.linkConn link.2 = none then
        ((net.bus own).linkConn link.2).elim (net.past link) fun conn =>
          net.past link ++ [final conn link.2]
      else net.past link }

/-- The random number `seed` is drawn for a group of some size. -/
def drawn (seed size : ℕ) : ℕ := seed % size

/-- The process can hand a packet for the server to a queue or a link. -/
def reachable (bus : CBus) (dstID : UInt32) : Bool :=
  (bus.mapSvrInfo dstID).any fun info =>
    info.clusterID = bus.clusterID || (bus.linkConn info.clusterID).isSome

/-- Two different clusters of the ini file. -/
def Neighbours (ini : Ini) (own other : UInt32) : Prop :=
  own ∈ ini.clusters ∧ other ∈ ini.clusters ∧ other ≠ own

instance (ini : Ini) (own other : UInt32) : Decidable (Neighbours ini own other) :=
  inferInstanceAs (Decidable (_ ∧ _))

/-- One round of a loop; `none` where it does nothing. -/
def netStep (ini : Ini) (parsers : Parsers) (net : Network) :
    NetAction → Option Network
  | .give own pkg =>
      let (ret, queue) := (net.clusterQueue own).inQueue pkg
      if pkg.length ≤ xyPkgMaxLen ∧ ret = success then
        some { net with
          clusterQueue := Function.update net.clusterQueue own queue
          given := Function.update net.given own (net.given own ++ [pkg]) }
      else none
  | .forward own seed now =>
      let (out, queue) := (net.clusterQueue own).outQueue xyPkgMaxLen
      let before := net.bus own
      let (ret, bus) := before.forwardMsg parsers (drawn seed) now out.pData
      let dsts := wanted ini (drawn seed) out.pData
      if own ∈ ini.clusters ∧ out.ret = success then
        some { net.become own bus fun conn other =>
            lastWritten conn (offered ini now out.pData dsts other) with
          clusterQueue := Function.update net.clusterQueue own queue
          forwarded := Function.update net.forwarded own
            (net.forwarded own ++ [⟨out.pData, now, dsts⟩])
          lossless := net.lossless &&
            (dsts = [] || (ret = 0 && dsts.all before.reachable)) }
      else none
  | .hello own other result =>
      if own ∈ ini.clusters ∧ result.Opens then
        ((net.bus own).recvHelloMessage other result).map fun bus =>
          { net with bus := Function.update net.bus own bus }
      else none
  | .heartbeat own other =>
      if Neighbours ini own other then
        ((net.bus own).findCluster other).map fun info =>
          net.become own
            ((net.bus own).send2Cluster info (heartbeatPkg own)).2
            fun conn _ => lastWritten conn [heartbeatPkg own]
      else none
  | .pollOut own other =>
      if Neighbours ini own other then
        ((net.bus own).findCluster other).map fun info =>
          net.become own ((net.bus own).pollOut info.connPos)
            fun conn _ => conn.sendRemainData.2.socket.written
      else none
  | .lose own other =>
      if Neighbours ini own other ∧
          ((net.bus own).linkConn other).isSome = true then
        ((net.bus own).findCluster other).map fun info =>
          net.become own ((net.bus own).releaseConn info.connPos)
            fun conn _ => conn.socket.written
      else none
  | .pollIn own other connection result =>
      let link := (other, own)
      let unread :=
        (net.written link connection).drop (net.taken link connection)
      match net.remain link connection with
      | none => none
      | some remain =>
          if Neighbours ini own other ∧ result.piece <+: unread ∧
              (result = .closed ∨ result = .failed ∨
                Offered (some remain) result) then
            (Receive.pollIn (checked parsers)
              ⟨(net.bus own, net.lossless), some remain⟩ result).map
                fun ended =>
                  { net with
                    bus := Function.update net.bus own ended.state.1
                    taken := Function.update net.taken link
                      (Function.update (net.taken link) connection
                        (net.taken link connection + result.piece.length))
                    remain := Function.update net.remain link
                      (Function.update (net.remain link) connection
                        ended.remainRecvData)
                    lossless := ended.state.2 }
          else none
  | .handle own serverID =>
      match (net.bus own).mapSvrInfo serverID with
      | none => none
      | some info =>
          match info.pQueue with
          | none => none
          | some pQueue =>
              let (out, queue) := pQueue.outQueue xyPkgMaxLen
              if own ∈ ini.clusters ∧ info.clusterID = own ∧
                  out.ret = success then
                some { net with
                  bus := Function.update net.bus own
                    ((net.bus own).setQueue serverID info queue)
                  handled := Function.update net.handled serverID
                    (net.handled serverID ++ [out.pData]) }
              else none

/-- All processes have been started, and nothing has happened. -/
structure Started (ini : Ini) (net : Network) : Prop where
  bus : ∀ own ∈ ini.clusters, ∃ attach start tcp udp,
    init ini attach own = some start ∧
      net.bus own = start.listening tcp udp
  queues : ∀ entry ∈ ini.servers, QueueHolds (net.bus entry.1) entry.2 []
  clusterQueues : ∀ own, (net.clusterQueue own).Holds []
  past : net.past = fun _ => []
  taken : net.taken = fun _ _ => 0
  remain : net.remain = fun _ _ => some []
  given : net.given = fun _ => []
  forwarded : net.forwarded = fun _ => []
  handled : net.handled = fun _ => []
  lossless : net.lossless = true

/-- No process of the network has a link at the last position. -/
def KeepsLinks (ini : Ini) (net : Network) (_ : NetAction) : Prop :=
  ∀ own ∈ ini.clusters, AvoidsLast (net.bus own)

instance (bus : CBus) : Decidable (AvoidsLast bus) :=
  List.decidableBAll _ _

instance (ini : Ini) (net : Network) (action : NetAction) :
    Decidable (KeepsLinks ini net action) :=
  List.decidableBAll _ _

/-- The states of the runs of the network. -/
abbrev NetRun (ini : Ini) (parsers : Parsers) (start net : Network) : Prop :=
  Transition.Reaches (netStep ini parsers) (KeepsLinks ini) start net

/-! ## A link -/

/-- The packets that have gone on a link, those that the reader has worked on,
and the bytes between. -/
structure LinkFlow (onLink done : List (List UInt8)) (taken : ℕ)
    (remain : List UInt8) : Prop where
  packets : ∀ packet ∈ onLink, WellFormed packet ∧
    (BusHeader.read packet).sendType = toSrv
  taken_le : taken ≤ onLink.flatten.length
  cut : ∃ todo, onLink = done ++ todo ∧
    remain ++ onLink.flatten.drop taken = todo.flatten ∧
    ∀ packet ∈ todo.head?, remain.length < packet.length

section Link

variable {onLink done packets : List (List UInt8)} {taken : ℕ}
  {remain chunk : List UInt8}

theorem LinkFlow.start : LinkFlow [] [] 0 [] :=
  ⟨by simp, le_rfl, [], rfl, rfl, by simp⟩

theorem LinkFlow.remain_le (h : LinkFlow onLink done taken remain) :
    remain.length ≤ xyMaxbuffLen := by
  obtain ⟨todo, hsplit, hrest, hhead⟩ := h.cut
  cases todo with
  | nil =>
      rw [List.flatten_nil, List.append_eq_nil_iff] at hrest
      rw [hrest.1]
      exact Nat.zero_le _
  | cons packet todo =>
      have hshort := hhead packet rfl
      have hmax := (h.packets packet (by simp [hsplit])).1.le_max
      have hsame : xyPkgMaxLen = xyMaxbuffLen := rfl
      omega

/-- More packets go on the link. -/
theorem LinkFlow.send (h : LinkFlow onLink done taken remain)
    (hpackets : ∀ packet ∈ packets, WellFormed packet ∧
      (BusHeader.read packet).sendType = toSrv) :
    LinkFlow (onLink ++ packets) done taken remain := by
  obtain ⟨todo, hsplit, hrest, hhead⟩ := h.cut
  refine ⟨?_, ?_, todo ++ packets, by rw [hsplit, List.append_assoc], ?_, ?_⟩
  · intro packet hpacket
    obtain hold | hnew := List.mem_append.mp hpacket
    · exact h.packets packet hold
    · exact hpackets packet hnew
  · have hle := h.taken_le
    rw [List.flatten_append, List.length_append]
    omega
  · rw [List.flatten_append, List.drop_append_of_le_length h.taken_le,
      ← List.append_assoc, hrest, List.flatten_append]
  · intro packet hpacket
    cases todo with
    | cons first todo => exact hhead packet hpacket
    | nil =>
        rw [List.flatten_nil, List.append_eq_nil_iff] at hrest
        have hmem : packet ∈ packets := List.mem_of_mem_head? hpacket
        rw [hrest.1]
        exact (hpackets packet hmem).1.length_pos

/-- The reader gets some more bytes. -/
theorem LinkFlow.read (h : LinkFlow onLink done taken remain)
    (hchunk : chunk <+: onLink.flatten.drop taken) :
    ∃ packets later, Framed (remain ++ chunk) ∧
      split procLen (remain ++ chunk) = ⟨packets, some later⟩ ∧
      (∀ packet ∈ packets, packet ∈ onLink) ∧
      LinkFlow onLink (done ++ packets) (taken + chunk.length) later := by
  obtain ⟨todo, hsplit, hrest, hhead⟩ := h.cut
  obtain ⟨unread, hunread⟩ := hchunk
  have hgood : ∀ packet ∈ todo, WellFormed packet := by
    intro packet hpacket
    exact (h.packets packet (by simp [hsplit, hpacket])).1
  have hstream : remain ++ chunk ++ unread = todo.flatten := by
    rw [List.append_assoc, hunread, hrest]
  obtain ⟨packets, left, later, htodo, hcut, hlater, hnext⟩ :=
    WellFormed.split_arrived hgood hstream
  refine ⟨packets, later, WellFormed.framed_arrived hgood hstream, hcut, ?_,
    h.packets, ?_, left, ?_, ?_, hnext⟩
  · intro packet hpacket
    simp [hsplit, htodo, hpacket]
  · have hlength := congrArg List.length hunread
    have hle := h.taken_le
    rw [List.length_append, List.length_drop] at hlength
    omega
  · rw [hsplit, htodo, List.append_assoc]
  · rw [← List.drop_drop, ← hunread, List.drop_left]
    exact hlater

/-- A link whose bytes have all been read has delivered its packets. -/
theorem LinkFlow.drained (h : LinkFlow onLink done taken remain)
    (htaken : taken = onLink.flatten.length) : done = onLink := by
  obtain ⟨todo, hsplit, hrest, hhead⟩ := h.cut
  rw [htaken, List.drop_length, List.append_nil] at hrest
  cases todo with
  | nil => rw [hsplit, List.append_nil]
  | cons packet todo =>
      have hshort := hhead packet rfl
      have hlength := congrArg List.length hrest
      rw [List.flatten_cons, List.length_append] at hlength
      omega

end Link

/-! ## The connections of a link -/

/-- The packets given to the connections of a link: to those that have been
lost, the oldest first, and to the last one. -/
structure Wire where
  lost : List (List (List UInt8))
  onLink : List (List UInt8)

/-- What a call does to the connection of a link that it gives some packets;
`final` is what has been written to a connection that it has released. -/
structure Moves (before after : Option CConnInfo)
    (final : CConnInfo → List UInt8) (more : List (List UInt8)) : Prop where
  keeps : ∀ conn kept stream, before = some conn → after = some kept →
    conn.Carries stream → kept.Carries (stream ++ more.flatten)
  loses : ∀ conn stream, before = some conn → after = none →
    conn.Carries stream → final conn <+: stream ++ more.flatten
  opens : ∀ kept, before = none → after = some kept → kept.Carries []

namespace Wire

/-- The packets given to one connection. -/
def packets (wire : Wire) (connection : ℕ) : List (List UInt8) :=
  (wire.lost ++ [wire.onLink]).getD connection []

def all (wire : Wire) : List (List UInt8) :=
  (wire.lost ++ [wire.onLink]).flatten

def move (wire : Wire) (more : List (List UInt8)) :
    Option CConnInfo → Option CConnInfo → Wire
  | none, _ => wire
  | some _, some _ => { wire with onLink := wire.onLink ++ more }
  | some _, none => ⟨wire.lost ++ [wire.onLink ++ more], []⟩

/-- What the packets of a link say about what has been written. -/
structure Holds (wire : Wire) (past : List (List UInt8))
    (conn : Option CConnInfo) : Prop where
  lost : List.Forall₂ (fun written packets => written <+: packets.flatten)
    past wire.lost
  carries : ∀ live ∈ conn, live.Carries wire.onLink.flatten
  idle : conn = none → wire.onLink = []

section Wires

variable {wire : Wire} {past : List (List UInt8)}
  {before after : Option CConnInfo} {final : CConnInfo → List UInt8}
  {more : List (List UInt8)}

theorem Holds.move (h : wire.Holds past before)
    (hmoves : Moves before after final more) :
    (wire.move more before after).Holds
      (if after = none then
        before.elim past fun conn => past ++ [final conn]
      else past) after := by
  cases before with
  | none =>
      have hidle := h.idle rfl
      have hpast : (if after = none then (none : Option CConnInfo).elim past
          fun conn => past ++ [final conn] else past) = past := by
        split_ifs <;> rfl
      rw [hpast]
      refine ⟨h.lost, ?_, fun _ => hidle⟩
      intro kept hkept
      rw [Wire.move, hidle]
      exact hmoves.opens kept rfl hkept
  | some conn =>
      have hcarries := h.carries conn rfl
      cases after with
      | some kept =>
          refine ⟨h.lost, ?_, by simp⟩
          intro live hlive
          cases hlive
          rw [Wire.move, List.flatten_append]
          exact hmoves.keeps conn kept _ rfl rfl hcarries
      | none =>
          have hlast : final conn <+: (wire.onLink ++ more).flatten := by
            rw [List.flatten_append]
            exact hmoves.loses conn _ rfl rfl hcarries
          exact ⟨List.rel_append h.lost (.cons hlast .nil), by simp,
            fun _ => rfl⟩

/-- What has been written to a connection is the front of its stream. -/
theorem Holds.written_front (h : wire.Holds past before)
    (connection : ℕ) :
    (past ++ [before.elim [] fun conn => conn.socket.written]).getD
      connection [] <+: (wire.packets connection).flatten := by
  have hlast : (before.elim [] fun conn => conn.socket.written) <+:
      wire.onLink.flatten := by
    cases before with
    | none => exact List.nil_prefix
    | some conn =>
        rw [← (h.carries conn rfl).stream_eq]
        exact List.prefix_append _ _
  have hrow := List.rel_append h.lost (.cons hlast .nil)
  unfold packets
  obtain ⟨hlength, hget⟩ := List.forall₂_iff_get.mp hrow
  rw [List.getD_eq_getElem?_getD, List.getD_eq_getElem?_getD]
  by_cases hlt : connection <
      (past ++ [before.elim [] fun conn => conn.socket.written]).length
  · rw [List.getElem?_eq_getElem hlt, List.getElem?_eq_getElem (hlength ▸ hlt)]
    exact hget connection hlt (hlength ▸ hlt)
  · rw [List.getElem?_eq_none (by omega)]
    exact List.nil_prefix

theorem packets_eq (wire : Wire) (connection : ℕ) :
    wire.packets connection =
      if connection < wire.lost.length then wire.lost.getD connection []
      else if connection = wire.lost.length then wire.onLink
      else [] := by
  unfold packets
  split_ifs with hlt hlast
  · exact List.getD_append _ _ _ _ hlt
  · rw [List.getD_append_right _ _ _ _ (by omega), hlast, Nat.sub_self]
    rfl
  · apply List.getD_eq_default
    rw [List.length_append, List.length_singleton]
    omega

theorem row_eq (wire : Wire) :
    wire.lost ++ [wire.onLink] =
      (List.range (wire.lost.length + 1)).map wire.packets := by
  apply List.ext_getElem
  · simp
  · intro connection hrow _
    rw [List.getElem_map, List.getElem_range, packets,
      List.getD_eq_getElem _ _ hrow]

/-- The packets go to the last connection of a link that is there. -/
theorem packets_move (wire : Wire) (more : List (List UInt8))
    (before after : Option CConnInfo) (connection : ℕ) :
    (wire.move more before after).packets connection =
      wire.packets connection ++
        if before.isSome ∧ connection = wire.lost.length then more
        else [] := by
  cases before with
  | none => simp [Wire.move]
  | some conn =>
      rw [packets_eq, packets_eq]
      cases after with
      | some kept =>
          by_cases hlast : connection = wire.lost.length
          · simp [Wire.move, hlast]
          · simp [Wire.move, hlast]
      | none =>
          rw [Wire.move, List.length_append, List.length_singleton]
          by_cases hlt : connection < wire.lost.length
          · rw [if_pos (by omega), if_pos hlt, List.getD_append _ _ _ _ hlt,
              if_neg (by omega), List.append_nil]
          · by_cases hlast : connection = wire.lost.length
            · subst hlast
              rw [if_pos (by omega), if_neg hlt, if_pos rfl,
                if_pos ⟨rfl, rfl⟩, List.getD_append_right _ _ _ _ le_rfl,
                Nat.sub_self, List.getD_cons_zero]
            · rw [if_neg (by omega), ite_self, if_neg hlt, if_neg hlast,
                if_neg (fun hboth => hlast hboth.2), List.append_nil]

theorem all_move (wire : Wire) (more : List (List UInt8))
    (before after : Option CConnInfo) :
    (wire.move more before after).all =
      wire.all ++ if before.isSome then more else [] := by
  cases before with
  | none => simp [Wire.move]
  | some conn =>
      cases after with
      | some kept => simp [Wire.move, all]
      | none => simp [Wire.move, all]

end Wires

end Wire

section Calls

variable {bus next : CBus} {sent : UInt32 → List (List UInt8)}
  {other : UInt32}

theorem Moves.refl (conn : Option CConnInfo)
    (final : CConnInfo → List UInt8) : Moves conn conn final [] := by
  refine ⟨?_, ?_, ?_⟩
  · intro live kept stream hlive hkept hcarries
    rw [hlive] at hkept
    cases hkept
    simpa using hcarries
  · intro live stream hlive hnone
    rw [hlive] at hnone
    cases hnone
  · intro kept hnone hkept
    rw [hnone] at hkept
    cases hkept

/-- A call that gives packets to a link, and may have had more of them. -/
theorem Sends.moves (h : Sends bus next sent) {offer : List (List UInt8)}
    (hoffer : sent other <+: offer) :
    Moves (bus.linkConn other) (next.linkConn other)
      (fun conn => lastWritten conn offer) (sent other) := by
  rw [h other]
  refine ⟨?_, ?_, ?_⟩
  · intro conn kept stream hconn hkept hcarries
    rw [hconn, Option.bind_some] at hkept
    exact carries_feed hcarries hkept
  · intro conn stream hconn hnone hcarries
    rw [hconn, Option.bind_some] at hnone
    obtain ⟨later, rfl⟩ := hoffer
    rw [lastWritten_append hnone]
    exact lastWritten_front hcarries _
  · intro kept hnone hkept
    rw [hnone] at hkept
    cases hkept

theorem moves_pollOut (before : Option CConnInfo) :
    Moves before (before.bind CConnInfo.pollOut)
      (fun conn => conn.sendRemainData.2.socket.written) [] := by
  refine ⟨?_, ?_, ?_⟩
  · rintro conn kept stream rfl hkept hcarries
    simpa using hcarries.pollOut hkept
  · rintro conn stream rfl _ hcarries
    simpa using written_sendRemainData hcarries
  · rintro kept rfl hkept
    cases hkept

theorem moves_release (before : Option CConnInfo) :
    Moves before none (fun conn => conn.socket.written) [] := by
  refine ⟨?_, ?_, ?_⟩
  · intro conn kept stream _ hkept
    cases hkept
  · intro conn stream _ _ hcarries
    rw [List.flatten_nil, List.append_nil, ← hcarries.stream_eq]
    exact List.prefix_append _ _
  · intro kept _ hkept
    cases hkept

theorem moves_open (socketID : ℤ) (results : List WriteResult)
    (final : CConnInfo → List UInt8) :
    Moves none (some (newConn socketID results)) final [] := by
  refine ⟨?_, ?_, ?_⟩
  · intro conn kept stream hconn
    cases hconn
  · intro conn stream hconn
    cases hconn
  · intro kept _ hkept
    cases hkept
    exact ⟨rfl, Nat.zero_le _, fun hremain => absurd rfl hremain⟩

end Calls

end CBus

end MessageBus.Bus
