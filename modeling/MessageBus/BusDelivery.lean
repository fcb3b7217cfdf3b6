import MessageBus.BusNetwork

/-!
# Delivery over the network of the buses

Whatever the order of the rounds, and whichever links are lost and opened again,
a server gets from every cluster a part of the copies that the bus of the
cluster was asked to make for it: each at most once, and those of one connection
in their order.  Where no queue has refused a packet and no link has been missing
it gets everything but the ends of what was on the connections that have been
lost.
-/

namespace MessageBus.Bus

open ShmQueue
open Send
open Receive
open Framing
open Merging
open Transition

namespace CBus

/-- The copies of the forwarded packets for one server. -/
def copiesOf (forwarded : List Forwarded) (serverID : UInt32) :
    List (List UInt8) :=
  forwarded.flatMap fun entry =>
    copiesAt entry.now entry.pkg entry.dsts serverID

/-- The packets that are not for the buses themselves. -/
def transfers (packets : List (List UInt8)) : List (List UInt8) :=
  packets.filter fun packet => ¬ Control packet

/-- What is where: the packets given to the connections of every link, those its
reader has worked on, and by cluster the messages that wait for its servers. -/
structure Flow where
  wire : UInt32 × UInt32 → Wire
  done : UInt32 × UInt32 → ℕ → List (List UInt8)
  contents : UInt32 → UInt32 → List (List UInt8)

/-- What has come for a server: over the connections of the links to its
cluster, and directly from the bus of the cluster. -/
def arrived (net : Network) (flow : Flow) (own serverID : UInt32)
    (channel : UInt32 × ℕ) : List (List UInt8) :=
  if channel.1 = own then
    if channel.2 = 0 then transfers (copiesOf (net.forwarded own) serverID)
    else []
  else
    (flow.done (channel.1, own) channel.2).filter fun packet =>
      TransferFor serverID packet

/-- The processes serve their servers, every connection is a stream of packets,
and its reader has worked on the front of it. -/
structure Carried (ini : Ini) (net : Network) (flow : Flow) : Prop where
  serving : ∀ own ∈ ini.clusters,
    Serving ini own (net.bus own) (flow.contents own)
  wires : ∀ link, Neighbours ini link.1 link.2 →
    (flow.wire link).Holds (net.past link) ((net.bus link.1).linkConn link.2)
  reads : ∀ link, Neighbours ini link.1 link.2 → ∀ connection, ∃ remain,
    LinkFlow ((flow.wire link).packets connection) (flow.done link connection)
        (net.taken link connection) remain ∧
      ∀ data ∈ net.remain link connection, data = remain

/-- What holds in every run: the packets on a link are the copies for the
servers behind it, and what a server has got is merged from the channels. -/
structure Delivers (ini : Ini) (net : Network) (flow : Flow) : Prop where
  carried : Carried ini net flow
  sent : ∀ link, Neighbours ini link.1 link.2 → ∀ serverID,
    (link.2, serverID) ∈ ini.servers →
    Follows (net.lossless = true)
      ((flow.wire link).all.filter fun packet => TransferFor serverID packet)
      (transfers (copiesOf (net.forwarded link.1) serverID))
  received : ∀ own serverID, (own, serverID) ∈ ini.servers →
    MergeOf (net.lossless = true) (arrived net flow own serverID)
      (transfers (net.handled serverID ++ flow.contents own serverID))
  waiting : ∀ own, ∃ messages, (net.clusterQueue own).Holds messages ∧
    (∀ message ∈ messages, message.length ≤ xyPkgMaxLen) ∧
    net.given own = (net.forwarded own).map Forwarded.pkg ++ messages
  drawn : ∀ own, ∀ entry ∈ net.forwarded own, ∃ seed,
    entry.dsts = wanted ini (drawn seed) entry.pkg
  outside : ∀ link, ¬ Neighbours ini link.1 link.2 →
    net.past link = [] ∧ ∀ connection, flow.done link connection = []
  silent : ∀ source, source ∉ ini.clusters → net.forwarded source = []

section Steps

variable {ini : Ini} {net next : Network} {flow : Flow}
  {own other serverID : UInt32} {bus : CBus}
  {contents more : UInt32 → List (List UInt8)}
  {final : CConnInfo → UInt32 → List UInt8}

theorem transfers_append (before after : List (List UInt8)) :
    transfers (before ++ after) = transfers before ++ transfers after :=
  List.filter_append ..

theorem copiesOf_append (before after : List Forwarded) (serverID : UInt32) :
    copiesOf (before ++ after) serverID =
      copiesOf before serverID ++ copiesOf after serverID := by
  simp [copiesOf]

theorem arrived_congr (net : Network) (flow : Flow) {after : Flow}
    (hforwarded : next.forwarded own = net.forwarded own)
    (hdone : ∀ source, after.done (source, own) = flow.done (source, own)) :
    arrived next after own serverID = arrived net flow own serverID := by
  funext channel
  unfold arrived
  rw [hforwarded, hdone]

theorem Started.serving (h : Started ini net) (hown : own ∈ ini.clusters) :
    Serving ini own (net.bus own) (fun _ => []) ∧
      ∀ other, (net.bus own).linkConn other = none := by
  obtain ⟨attach, start, tcp, udp, hinit, hbus⟩ := h.bus own hown
  have htables := init_tables hinit
  have hrouted : Configured ini own (start.listening tcp udp) :=
    ⟨attach, start, hinit, rfl, rfl, rfl, fun _ => rfl⟩
  have htable := htables.linkTable tcp udp
  have hunlinked : ∀ info ∈ (start.listening tcp udp).mapClusterInfo,
      info.socketID = -1 ∧ info.connPos = 0 := htables.unlinked
  have hqueues (serverID : UInt32) (hserver : (own, serverID) ∈ ini.servers) :
      QueueHolds (net.bus own) serverID [] := h.queues (own, serverID) hserver
  rw [hbus] at hqueues ⊢
  refine ⟨⟨hrouted.routes, htable, ?_, hqueues⟩, ?_⟩
  · intro info hinfo hpos
    exact absurd (hunlinked info hinfo).2 hpos
  · intro other
    rw [linkConn]
    cases hfind : (start.listening tcp udp).findCluster other with
    | none => rfl
    | some info =>
        rw [Option.bind_some, (hunlinked info (mem_of_findCluster hfind).1).2]
        exact htable.none_zero

theorem Started.delivers (h : Started ini net) :
    Delivers ini net
      ⟨fun _ => ⟨[], []⟩, fun _ _ => [], fun _ _ => []⟩ := by
  refine ⟨⟨fun own hown => (h.serving hown).1, ?_, ?_⟩, ?_, ?_, ?_, ?_, ?_, ?_⟩
  · intro link hlink
    rw [h.past, (h.serving hlink.1).2]
    exact ⟨.nil, by simp, fun _ => rfl⟩
  · intro link _ connection
    have hnone : (Wire.mk [] []).packets connection = [] := by
      rw [Wire.packets_eq]
      split_ifs <;> rfl
    rw [h.taken, h.remain, hnone]
    exact ⟨[], LinkFlow.start, by simp⟩
  · intro link _ serverID _
    rw [h.forwarded]
    exact Follows.refl _ []
  · intro own serverID _
    rw [h.handled]
    apply MergeOf.nil
    intro _ channel
    unfold arrived
    rw [h.forwarded]
    split_ifs <;> rfl
  · intro own
    refine ⟨[], h.clusterQueues own, by simp, ?_⟩
    rw [h.given, h.forwarded]
    rfl
  · intro own entry hentry
    rw [h.forwarded] at hentry
    cases hentry
  · intro link _
    rw [h.past]
    exact ⟨rfl, fun _ => rfl⟩
  · intro source _
    rw [h.forwarded]

/-- The packets that a process gives to its links. -/
def Flow.give (flow : Flow) (own : UInt32)
    (before after : UInt32 → Option CConnInfo)
    (more contents : UInt32 → List (List UInt8)) : Flow :=
  { flow with
    wire := fun link =>
      if link.1 = own then
        (flow.wire link).move (more link.2) (before link.2) (after link.2)
      else flow.wire link
    contents := Function.update flow.contents own contents }

/-- A call of one process. -/
theorem Carried.become (h : Carried ini net flow)
    (hserving : own ∈ ini.clusters → Serving ini own bus contents)
    (hmoves : ∀ other, Neighbours ini own other →
      Moves ((net.bus own).linkConn other) (bus.linkConn other)
        (fun conn => final conn other) (more other))
    (hmore : ∀ other, ∀ packet ∈ more other, WellFormed packet ∧
      (BusHeader.read packet).sendType = toSrv) :
    Carried ini (net.become own bus final)
      (flow.give own (net.bus own).linkConn bus.linkConn more contents) := by
  refine ⟨?_, ?_, ?_⟩
  · intro cluster hcluster
    dsimp only [Network.become, Flow.give]
    by_cases heq : cluster = own
    · subst heq
      rw [Function.update_self, Function.update_self]
      exact hserving hcluster
    · rw [Function.update_of_ne heq, Function.update_of_ne heq]
      exact h.serving cluster hcluster
  · rintro ⟨writer, reader⟩ hlink
    have hwire := h.wires (writer, reader) hlink
    dsimp only [Network.become, Flow.give] at hlink hwire ⊢
    by_cases heq : writer = own
    · subst heq
      have hmove := hwire.move (hmoves reader hlink)
      rw [Function.update_self, if_pos rfl]
      convert hmove using 2
      simp
    · rw [Function.update_of_ne heq, if_neg heq, if_neg fun hboth =>
        heq hboth.1]
      exact hwire
  · rintro ⟨writer, reader⟩ hlink connection
    obtain ⟨remain, hflow, hremain⟩ := h.reads (writer, reader) hlink connection
    refine ⟨remain, ?_, hremain⟩
    dsimp only [Network.become, Flow.give]
    split_ifs with heq
    · rw [Wire.packets_move]
      apply hflow.send
      intro packet hpacket
      split_ifs at hpacket
      · exact hmore reader packet hpacket
      · cases hpacket
    · exact hflow

/-- A call that loses no link. -/
theorem become_of_kept (final : CConnInfo → UInt32 → List UInt8)
    (hkept : ∀ other, bus.linkConn other = none →
    (net.bus own).linkConn other = none) :
    net.become own bus final =
      { net with bus := Function.update net.bus own bus } := by
  unfold Network.become
  congr 1
  funext link
  split_ifs with hlost
  · rw [hkept link.2 hlost.2]
    rfl
  · rfl

theorem Neighbours.symm (h : Neighbours ini own other) :
    Neighbours ini other own :=
  ⟨h.2.1, h.1, h.2.2.symm⟩

/-- A packet is put into the queue of a cluster. -/
theorem Delivers.offer (h : Delivers ini net flow) {pkg : List UInt8}
    (hlen : pkg.length ≤ xyPkgMaxLen)
    (hret : ((net.clusterQueue own).inQueue pkg).1 = success) :
    Delivers ini { net with
      clusterQueue := Function.update net.clusterQueue own
        ((net.clusterQueue own).inQueue pkg).2
      given := Function.update net.given own (net.given own ++ [pkg]) }
      flow := by
  have hcarried := h.carried
  refine ⟨⟨hcarried.serving, hcarried.wires, hcarried.reads⟩, h.sent,
    h.received, ?_, h.drawn, h.outside, h.silent⟩
  intro cluster
  dsimp only
  obtain ⟨messages, hholds, hshort, hgiven⟩ := h.waiting cluster
  by_cases heq : cluster = own
  · subst heq
    have hsmall : pkg.length + 4 < 2 ^ 32 := by
      unfold xyPkgMaxLen at hlen
      omega
    obtain ⟨hpos, hroom⟩ := (inQueue_success_iff hholds hsmall).mp hret
    refine ⟨messages ++ [pkg], ?_, ?_, ?_⟩
    · rw [Function.update_self]
      exact (inQueue_of_room hholds hpos hroom).2.1
    · intro message hmessage
      obtain hold | hnew := List.mem_append.mp hmessage
      · exact hshort message hold
      · rwa [List.mem_singleton.mp hnew]
    · rw [Function.update_self, hgiven, List.append_assoc]
  · rw [Function.update_of_ne heq, Function.update_of_ne heq]
    exact ⟨messages, hholds, hshort, hgiven⟩

theorem copiesOf_single (entry : Forwarded) (serverID : UInt32) :
    copiesOf [entry] serverID =
      copiesAt entry.now entry.pkg entry.dsts serverID := by
  simp [copiesOf]

/-- Packets for the buses are not for a server. -/
theorem filter_control {control : UInt32 → List (List UInt8)}
    (hcontrol : ∀ other, ∀ sent ∈ control other, WellFormed sent ∧
      (BusHeader.read sent).sendType = toSrv ∧ Control sent) :
    (control other).filter (fun packet => TransferFor serverID packet) =
      [] := by
  rw [List.filter_eq_nil_iff]
  intro packet hpacket htransfer
  exact (of_decide_eq_true htransfer).1 (hcontrol other packet hpacket).2.2

/-- There are links to the other clusters of the ini file only. -/
theorem Serving.linkConn_outside {contents : UInt32 → List (List UInt8)}
    (h : Serving ini own bus contents) (hown : own ∈ ini.clusters)
    (hother : ¬ Neighbours ini own other) : bus.linkConn other = none := by
  by_cases heq : other = own
  · rw [heq]
    exact h.linkConn_own
  · rw [linkConn]
    cases hfind : bus.findCluster other with
    | none => rfl
    | some info =>
        obtain ⟨hinfo, rfl⟩ := mem_of_findCluster hfind
        exfalso
        exact hother ⟨hown, (h.routes.keys _).mp (List.mem_map_of_mem hinfo),
          heq⟩

theorem Delivers.become_past (h : Delivers ini net flow)
    (hown : own ∈ ini.clusters) (bus : CBus)
    (final : CConnInfo → UInt32 → List UInt8) :
    ∀ link, ¬ Neighbours ini link.1 link.2 →
      (net.become own bus final).past link = [] ∧
        ∀ connection, flow.done link connection = [] := by
  rintro ⟨writer, reader⟩ hlink
  obtain ⟨hpast, hdone⟩ := h.outside (writer, reader) hlink
  refine ⟨?_, hdone⟩
  dsimp only [Network.become] at hlink ⊢
  split_ifs with hlost
  · rw [hlost.1] at hlink
    rw [(h.carried.serving own hown).linkConn_outside hown hlink]
    exact hpast
  · exact hpast

/-- A call whose packets are for the buses themselves. -/
theorem Delivers.control (h : Delivers ini net flow)
    (more : UInt32 → List (List UInt8)) (hown : own ∈ ini.clusters)
    (hserving : Serving ini own bus (flow.contents own))
    (hmoves : ∀ other, Neighbours ini own other →
      Moves ((net.bus own).linkConn other) (bus.linkConn other)
        (fun conn => final conn other) (more other))
    (hmore : ∀ other, ∀ packet ∈ more other, WellFormed packet ∧
      (BusHeader.read packet).sendType = toSrv ∧ Control packet) :
    ∃ flow, Delivers ini (net.become own bus final) flow := by
  refine ⟨_, h.carried.become (fun _ => hserving) hmoves
    fun other packet hpacket => ⟨(hmore other packet hpacket).1,
      (hmore other packet hpacket).2.1⟩, ?_, ?_, h.waiting, h.drawn,
    h.become_past hown bus final, h.silent⟩
  · rintro ⟨writer, reader⟩ hlink serverID hserver
    have hsent := h.sent (writer, reader) hlink serverID hserver
    dsimp only [Flow.give, Network.become]
    split_ifs with heq
    · rw [Wire.all_move, List.filter_append]
      split_ifs
      · rw [filter_control hmore, List.append_nil]
        exact hsent
      · rw [List.filter_nil, List.append_nil]
        exact hsent
    · exact hsent
  · intro cluster serverID hserver
    dsimp only [Flow.give, Network.become]
    rw [Function.update_eq_self]
    exact h.received cluster serverID hserver

theorem outQueue_success {queue : CShmQueue} {messages : List (List UInt8)}
    (hholds : queue.Holds messages) {size : ℕ}
    (hret : (queue.outQueue size).1.ret = success) :
    ∃ rest, messages = (queue.outQueue size).1.pData :: rest ∧
      (queue.outQueue size).2.Holds rest := by
  cases messages with
  | nil =>
      rw [outQueue_of_nil hholds] at hret
      exact absurd hret (show eShmQueueEmpty ≠ success by decide)
  | cons message rest =>
      rw [outQueue_of_cons hholds] at hret ⊢
      split_ifs at hret ⊢
      · exact absurd hret (show eShmQueueDataLen ≠ success by decide)
      · exact ⟨rest, rfl, hholds.addHead⟩

section Copies

variable {now : UInt64} {pkg : List UInt8} {rand : ℕ → ℕ}
  {served : List UInt32}

theorem transferFor_copyFor {dstID : UInt32} :
    TransferFor serverID (copyFor now pkg dstID) ↔
      ¬ Control pkg ∧ dstID = serverID := by
  unfold TransferFor Control
  rw [read_copyFor]
  rfl

theorem control_copyFor {dstID : UInt32} :
    Control (copyFor now pkg dstID) ↔ Control pkg := by
  unfold Control
  rw [read_copyFor]
  rfl

/-- On a link a server finds the copies that are for it. -/
theorem filter_copiesTo (hserver : (other, serverID) ∈ ini.servers) :
    (copiesTo ini now pkg served other).filter
        (fun packet => TransferFor serverID packet) =
      transfers (copiesAt now pkg served serverID) := by
  unfold copiesTo transfers copiesAt
  rw [List.filter_map, List.filter_map, List.filter_filter,
    List.filter_filter]
  congr 1
  apply List.filter_congr
  intro dstID _
  simp only [Function.comp_apply, transferFor_copyFor, control_copyFor]
  by_cases heq : dstID = serverID
  · simp [heq, hserver]
  · simp [heq]

theorem filter_offered (now : UInt64) {dsts : List UInt32}
    (hserver : (other, serverID) ∈ ini.servers)
    (hstate : (BusHeader.read pkg).cmdID = cmdStateChange → dsts = []) :
    (offered ini now pkg dsts other).filter
        (fun packet => TransferFor serverID packet) =
      transfers (copiesAt now pkg dsts serverID) := by
  unfold offered
  split_ifs with hcmd
  · rw [hstate hcmd, List.filter_eq_nil_iff.mpr]
    · rfl
    · intro packet hpacket htransfer
      rw [List.mem_singleton.mp hpacket] at htransfer
      exact (of_decide_eq_true htransfer).1 (.inr hcmd)
  · exact filter_copiesTo hserver

/-- A server behind a link finds there the first of its copies, and all of them
if its link is there and all have been sent. -/
theorem Serving.follows_sent {contents : UInt32 → List (List UInt8)}
    (h : Serving ini own bus contents) {exact : Prop} {dsts : List UInt32}
    {sent : List (List UInt8)} (hlink : Neighbours ini own other)
    (hserver : (other, serverID) ∈ ini.servers)
    (hstate : (BusHeader.read pkg).cmdID = cmdStateChange → dsts = [])
    (hoffer : sent <+: offered ini now pkg dsts other)
    (hall : exact → dsts = [] ∨
      sent = offered ini now pkg dsts other ∧
        dsts.all bus.reachable = true) :
    Follows exact
      ((if (bus.linkConn other).isSome then sent else []).filter fun packet =>
        TransferFor serverID packet)
      (transfers (copiesAt now pkg dsts serverID)) := by
  have hwhole := filter_offered now hserver hstate
  have hsublist : ((if (bus.linkConn other).isSome then sent else []).filter
      fun packet => TransferFor serverID packet).Sublist
        (transfers (copiesAt now pkg dsts serverID)) := by
    rw [← hwhole]
    apply List.Sublist.filter
    split_ifs
    · exact hoffer.sublist
    · exact List.nil_sublist _
  refine ⟨hsublist, ?_⟩
  intro hexact
  obtain hnil | ⟨hsent, hreach⟩ := hall hexact
  · rw [hnil] at hsublist ⊢
    exact List.sublist_nil.mp hsublist
  · rw [← hwhole, hsent]
    split_ifs with hconn
    · rfl
    · -- a server without a link is not among the destinations
      have hnone : copiesAt now pkg dsts serverID = [] := by
        rw [copiesAt, List.filter_eq_nil_iff.mpr, List.map_nil]
        intro dstID hdst heq
        obtain rfl := of_decide_eq_true heq
        obtain ⟨info, hinfo, hcluster⟩ := h.routes.server _ hserver
        have hfound := List.all_eq_true.mp hreach dstID hdst
        dsimp only at hinfo hcluster
        rw [reachable, hinfo, Option.any_some, hcluster, h.routes.own]
          at hfound
        obtain hown | hsome := Bool.or_eq_true_iff.mp hfound
        · exact hlink.2.2 (of_decide_eq_true hown)
        · exact hconn hsome
      rw [hwhole, hnone]
      rfl

/-- A server gets a copy or none, and gets it if all are served. -/
theorem follows_copiesAt {exact : Prop} {dsts : List UInt32}
    (hserved : served <+: dsts) (hall : exact → served = dsts) :
    Follows exact (transfers (copiesAt now pkg served serverID))
      (transfers (copiesAt now pkg dsts serverID)) := by
  constructor
  · exact ((hserved.sublist.filter _).map _).filter _
  · intro hexact
    rw [hall hexact]

end Copies

/-- A bus has handed on a packet of its queue. -/
theorem Delivers.pass (h : Delivers ini net flow) (hown : own ∈ ini.clusters)
    (entry : Forwarded) {served : List UInt32} {queue : CShmQueue}
    {rest : List (List UInt8)} {lossless : Bool}
    (hgiven : net.given own =
      (net.forwarded own).map Forwarded.pkg ++ entry.pkg :: rest)
    (hrest : queue.Holds rest)
    (hshort : ∀ message ∈ rest, message.length ≤ xyPkgMaxLen)
    (hdrawn : ∃ seed, entry.dsts = wanted ini (CBus.drawn seed) entry.pkg)
    (hserving : Serving ini own bus fun serverID =>
      flow.contents own serverID ++
        copiesAt entry.now entry.pkg served serverID)
    (hmoves : ∀ other, Neighbours ini own other →
      Moves ((net.bus own).linkConn other) (bus.linkConn other)
        (fun conn => final conn other) (more other))
    (hmore : ∀ other, ∀ packet ∈ more other, WellFormed packet ∧
      (BusHeader.read packet).sendType = toSrv)
    (hserved : served <+: entry.dsts)
    (hexact : lossless = true → net.lossless = true ∧ served = entry.dsts)
    (hlinks : ∀ other serverID, Neighbours ini own other →
      (other, serverID) ∈ ini.servers → Follows (lossless = true)
        ((if ((net.bus own).linkConn other).isSome then more other
          else []).filter fun packet => TransferFor serverID packet)
        (transfers (copiesOf [entry] serverID))) :
    ∃ flow, Delivers ini { net.become own bus final with
      clusterQueue := Function.update net.clusterQueue own queue
      forwarded := Function.update net.forwarded own
        (net.forwarded own ++ [entry])
      lossless := lossless } flow := by
  have hcarried := h.carried.become (fun _ => hserving) hmoves hmore
  refine ⟨_, ⟨hcarried.serving, hcarried.wires, hcarried.reads⟩, ?_, ?_, ?_,
    ?_, h.become_past hown bus final, ?_⟩
  · rintro ⟨writer, reader⟩ hlink serverID hserver
    have hsent := (h.sent (writer, reader) hlink serverID hserver).weaken
      fun hlossless => (hexact hlossless).1
    dsimp only [Flow.give]
    by_cases heq : writer = own
    · subst heq
      rw [Function.update_self, if_pos rfl, Wire.all_move, List.filter_append,
        copiesOf_append, transfers_append]
      exact hsent.append (hlinks reader serverID hlink hserver)
    · rw [Function.update_of_ne heq, if_neg heq]
      exact hsent
  · intro cluster serverID hserver
    have hbefore := (h.received cluster serverID hserver).weaken
      fun hlossless => (hexact hlossless).1
    dsimp only [Flow.give]
    by_cases heq : cluster = own
    · subst heq
      have hmore := hbefore.receive (fun channel =>
        if channel = (cluster, 0) then transfers (copiesOf [entry] serverID)
        else []) (cluster, 0)
        (by rw [if_pos rfl, copiesOf_single]
            exact follows_copiesAt hserved
              fun hlossless => (hexact hlossless).2)
        (fun channel hchannel => if_neg hchannel)
      rw [Function.update_self, ← List.append_assoc, transfers_append]
      convert hmore using 2 with channel
      · obtain ⟨source, connection⟩ := channel
        unfold arrived
        dsimp only
        rw [Function.update_self]
        simp only [Prod.mk.injEq]
        by_cases hsource : source = cluster
        · by_cases hfirst : connection = 0
          · rw [if_pos hsource, if_pos hfirst, if_pos hsource, if_pos hfirst,
              if_pos ⟨hsource, hfirst⟩, copiesOf_append, transfers_append]
          · rw [if_pos hsource, if_neg hfirst, if_pos hsource, if_neg hfirst,
              if_neg fun hboth => hfirst hboth.2, List.append_nil]
        · rw [if_neg hsource, if_neg hsource,
            if_neg fun hboth => hsource hboth.1, List.append_nil]
      · rfl
    · rw [Function.update_of_ne heq, arrived_congr net flow]
      · exact hbefore
      · exact Function.update_of_ne heq _ _
      · exact fun _ => rfl
  · intro cluster
    dsimp only
    by_cases heq : cluster = own
    · subst heq
      simp only [Function.update_self]
      refine ⟨rest, hrest, hshort, ?_⟩
      rw [List.map_append, List.append_assoc]
      exact hgiven
    · simp only [Function.update_of_ne heq]
      exact h.waiting cluster
  · intro cluster other hother
    dsimp only at hother
    by_cases heq : cluster = own
    · subst heq
      rw [Function.update_self] at hother
      obtain hold | hnew := List.mem_append.mp hother
      · exact h.drawn cluster other hold
      · rw [List.mem_singleton.mp hnew]
        exact hdrawn
    · rw [Function.update_of_ne heq] at hother
      exact h.drawn cluster other hother
  · intro source hsource
    have hne : source ≠ own := by
      rintro rfl
      exact hsource hown
    dsimp only
    rw [Function.update_of_ne hne]
    exact h.silent source hsource

theorem drawn_lt (seed size : ℕ) (hpos : 0 < size) : drawn seed size < size :=
  Nat.mod_lt seed hpos

theorem Delivers.forward (h : Delivers ini net flow) {parsers : Parsers}
    {seed : ℕ} {now : UInt64}
    (hlast : own ∈ ini.clusters → AvoidsLast (net.bus own))
    (hstep : netStep ini parsers net (.forward own seed now) = some next) :
    ∃ flow, Delivers ini next flow := by
  simp only [netStep] at hstep
  split_ifs at hstep with hstepped
  obtain ⟨hown, hret⟩ := hstepped
  rw [Option.some.injEq] at hstep
  subst hstep
  obtain ⟨messages, hholds, hshort, hgiven⟩ := h.waiting own
  obtain ⟨rest, hmessages, hrest⟩ := outQueue_success hholds hret
  generalize ((net.clusterQueue own).outQueue xyPkgMaxLen).1.pData = pkg at *
  have hserving := h.carried.serving own hown
  obtain ⟨served, sent, hserved, hoffer, hall, hgood, hcalled⟩ :=
    hserving.forwardMsg (hlast hown) (drawn_lt seed) parsers now pkg
  have hstate (hcmd : (BusHeader.read pkg).cmdID = cmdStateChange) :
      wanted ini (CBus.drawn seed) pkg = [] := if_neg fun hboth => hboth.2 hcmd
  generalize hdsts : wanted ini (CBus.drawn seed) pkg = dsts at *
  -- what a round without losses says
  have hexact : (net.lossless && (decide (dsts = []) ||
      (decide (((net.bus own).forwardMsg parsers (CBus.drawn seed) now
        pkg).1 = 0) && dsts.all (net.bus own).reachable))) = true →
      net.lossless = true ∧ served = dsts ∧ ∀ other, dsts = [] ∨
        sent other = offered ini now pkg dsts other ∧
          dsts.all (net.bus own).reachable = true := by
    intro hlossless
    obtain ⟨hbefore, hnow⟩ := Bool.and_eq_true_iff.mp hlossless
    refine ⟨hbefore, ?_⟩
    obtain hnil | hboth := Bool.or_eq_true_iff.mp hnow
    · have hempty := of_decide_eq_true hnil
      exact ⟨(hall (.inr hempty)).1, fun _ => .inl hempty⟩
    · obtain ⟨hzero, hreach⟩ := Bool.and_eq_true_iff.mp hboth
      obtain ⟨hwhole, hlinks⟩ := hall (.inl (of_decide_eq_true hzero))
      refine ⟨hwhole, fun other => ?_⟩
      by_cases hcmd : (BusHeader.read pkg).cmdID = cmdStateChange
      · exact .inl (hstate hcmd)
      · exact .inr ⟨hlinks hcmd other, hreach⟩
  have hlinks (other serverID : UInt32) (hlink : Neighbours ini own other)
      (hserver : (other, serverID) ∈ ini.servers) :=
    hserving.follows_sent hlink hserver hstate (hoffer other)
      fun hlossless => (hexact hlossless).2.2 other
  rw [hmessages] at hgiven hshort
  exact h.pass hown ⟨pkg, now, dsts⟩ hgiven hrest
    (fun message hmessage => hshort message (.tail _ hmessage))
    ⟨seed, hdsts.symm⟩ hcalled.serving
    (fun other _ => hcalled.sends.moves (hoffer other)) hgood hserved
    (fun hlossless => ⟨(hexact hlossless).1, (hexact hlossless).2.1⟩)
    (fun other serverID hlink hserver => by
      rw [copiesOf_single]
      exact hlinks other serverID hlink hserver)

theorem wellFormed_heartbeatPkg (own : UInt32) :
    WellFormed (heartbeatPkg own) ∧
      (BusHeader.read (heartbeatPkg own)).sendType = toSrv ∧
      Control (heartbeatPkg own) := by
  have hbody : (heartbeatMsg own).length ≤ 11 := by
    unfold heartbeatMsg
    rw [ProtoWire.encode_cons, ProtoWire.encode, List.flatMap_nil,
      List.append_nil]
    exact (ProtoWire.Field.isInteger (by decide) (by decide)
      _).encode_length_le
  have hread : BusHeader.read (heartbeatPkg own) =
      ⟨UInt32.ofNat (BusHeader.getHeaderLen + (heartbeatMsg own).length),
        cmdHeartbeat, 0, 0, 0, toSrv, 0⟩ := by
    unfold heartbeatPkg
    dsimp only
    rw [BusHeader.read_append (BusHeader.write_length _).ge,
      BusHeader.read_write]
  have hlength : (heartbeatPkg own).length =
      BusHeader.getHeaderLen + (heartbeatMsg own).length := by
    simp [heartbeatPkg]
  have hheader : BusHeader.getHeaderLen = 26 := rfl
  refine ⟨⟨by omega, ?_, ?_⟩, by rw [hread], .inl (by rw [hread])⟩
  · unfold xyPkgMaxLen
    omega
  · rw [hread, hlength, UInt32.toNat_ofNat']
    omega

theorem Delivers.heartbeat (h : Delivers ini net flow) {parsers : Parsers}
    (hlast : own ∈ ini.clusters → AvoidsLast (net.bus own))
    (hstep : netStep ini parsers net (.heartbeat own other) = some next) :
    ∃ flow, Delivers ini next flow := by
  simp only [netStep] at hstep
  split_ifs at hstep with hlink
  obtain ⟨info, hfind, rfl⟩ := Option.map_eq_some_iff.mp hstep
  obtain ⟨found, hfound, hcalled⟩ := (h.carried.serving own hlink.1).send2Cluster
    (hlast hlink.1) hlink.2.1 (heartbeatPkg own)
  rw [hfind, Option.some.injEq] at hfound
  subst hfound
  apply h.control _ hlink.1 hcalled.serving
    fun cluster _ => hcalled.sends.moves ?_
  · intro cluster packet hpacket
    split_ifs at hpacket
    · rw [List.mem_singleton.mp hpacket]
      exact wellFormed_heartbeatPkg own
    · cases hpacket
  · split_ifs
    · exact List.prefix_rfl
    · exact List.nil_prefix

theorem Delivers.pollOut (h : Delivers ini net flow) {parsers : Parsers}
    (hlast : own ∈ ini.clusters → AvoidsLast (net.bus own))
    (hstep : netStep ini parsers net (.pollOut own other) = some next) :
    ∃ flow, Delivers ini next flow := by
  simp only [netStep] at hstep
  split_ifs at hstep with hlink
  obtain ⟨info, hfind, rfl⟩ := Option.map_eq_some_iff.mp hstep
  obtain ⟨found, hfound, hserving, hconns⟩ :=
    (h.carried.serving own hlink.1).pollOut (hlast hlink.1) hlink.2.1
  rw [hfind, Option.some.injEq] at hfound
  subst hfound
  apply h.control (fun _ => []) hlink.1 hserving _ (by simp)
  intro cluster _
  rw [hconns]
  split_ifs with heq
  · rw [heq]
    exact moves_pollOut _
  · exact Moves.refl _ _

/-- A link is lost. -/
theorem Delivers.lose (h : Delivers ini net flow) {parsers : Parsers}
    (hlast : own ∈ ini.clusters → AvoidsLast (net.bus own))
    (hstep : netStep ini parsers net (.lose own other) = some next) :
    ∃ flow, Delivers ini next flow := by
  simp only [netStep] at hstep
  split_ifs at hstep with hstepped
  obtain ⟨hlink, hlive⟩ := hstepped
  obtain ⟨info, hfind, rfl⟩ := Option.map_eq_some_iff.mp hstep
  have hserving := h.carried.serving own hlink.1
  obtain ⟨hinfo, rfl⟩ := mem_of_findCluster hfind
  have hpos : info.connPos ≠ 0 := by
    intro hpos
    rw [hserving.table.linkConn_eq hinfo, hpos, hserving.table.none_zero]
      at hlive
    cases hlive
  obtain ⟨hreleased, _, hconns⟩ :=
    hserving.releaseConn (hlast hlink.1) hinfo hpos
  apply h.control (fun _ => []) hlink.1 hreleased _ (by simp)
  intro cluster _
  rw [hconns]
  split_ifs
  · exact moves_release _
  · exact Moves.refl _ _

/-- A cluster says hello. -/
theorem Delivers.hello (h : Delivers ini net flow) {parsers : Parsers}
    {result : ConnectResult}
    (hstep : netStep ini parsers net (.hello own other result) = some next) :
    ∃ flow, Delivers ini next flow := by
  simp only [netStep] at hstep
  split_ifs at hstep with hstepped
  obtain ⟨hown, hopens⟩ := hstepped
  obtain ⟨bus, hhello, rfl⟩ := Option.map_eq_some_iff.mp hstep
  obtain ⟨hserving, hlinks⟩ :=
    (h.carried.serving own hown).recvHelloMessage hopens hhello
  have hkept (cluster : UInt32) (hnone : bus.linkConn cluster = none) :
      (net.bus own).linkConn cluster = none := by
    obtain hsame | ⟨hidle, _, _, socketID, results, hopened⟩ := hlinks
    · rw [← hsame, hnone]
    · rw [hopened] at hnone
      split_ifs at hnone
      exact hnone
  rw [← become_of_kept (fun _ _ => []) hkept]
  apply h.control (fun _ => []) hown hserving _ (by simp)
  intro cluster _
  obtain hsame | ⟨hidle, _, _, socketID, results, hopened⟩ := hlinks
  · rw [hsame]
    exact Moves.refl _ _
  · rw [hopened]
    split_ifs with heq
    · rw [heq, hidle]
      exact moves_open socketID results _
    · exact Moves.refl _ _

theorem cluster_of_server (hserver : (own, serverID) ∈ ini.servers) :
    own ∈ ini.clusters := by
  obtain ⟨cluster, hcluster, hentry⟩ := List.mem_flatMap.mp hserver
  obtain ⟨_, _, heq⟩ := List.mem_map.mp hentry
  cases heq
  exact List.mem_map_of_mem hcluster

theorem Routes.local_server {bus : CBus} (h : Routes ini own bus)
    {info : ServerInfo} (hserver : bus.mapSvrInfo serverID = some info)
    (hcluster : info.clusterID = own) : (own, serverID) ∈ ini.servers := by
  have hpresent : serverID ∈ ini.servers.map Prod.snd := by
    by_contra habsent
    rw [h.absent serverID habsent] at hserver
    cases hserver
  obtain ⟨entry, hentry, rfl⟩ := List.mem_map.mp hpresent
  obtain ⟨found, hfound, hfoundCluster⟩ := h.server entry hentry
  rw [hserver, Option.some.injEq] at hfound
  rw [← hcluster, hfound, hfoundCluster]
  exact hentry

/-- The processes and their links, when one process has worked on what it had
received. -/
theorem Carried.updateBus (h : Carried ini net flow)
    (hcalled : own ∈ ini.clusters →
      Called ini own (net.bus own) bus (fun _ => []) contents) :
    Carried ini { net with bus := Function.update net.bus own bus }
      { flow with contents := Function.update flow.contents own contents } := by
  refine ⟨?_, ?_, h.reads⟩
  · intro cluster hcluster
    dsimp only
    by_cases heq : cluster = own
    · subst heq
      rw [Function.update_self, Function.update_self]
      exact (hcalled hcluster).serving
    · rw [Function.update_of_ne heq, Function.update_of_ne heq]
      exact h.serving cluster hcluster
  · rintro ⟨writer, reader⟩ hlink
    have hwire := h.wires (writer, reader) hlink
    dsimp only at hlink hwire ⊢
    by_cases heq : writer = own
    · subst heq
      have hsame : bus.linkConn reader = (net.bus writer).linkConn reader := by
        rw [(hcalled hlink.1).sends reader]
        exact (Sends.refl (net.bus writer) reader).symm
      rw [Function.update_self, hsame]
      exact hwire
    · rw [Function.update_of_ne heq]
      exact hwire

/-- A process has read from a connection. -/
theorem Delivers.read (h : Delivers ini net flow)
    (hlink : Neighbours ini own other) {connection count : ℕ}
    {packets : List (List UInt8)} {left : List UInt8}
    {later : Option (List UInt8)} {lossless : Bool}
    (hcalled : Called ini own (net.bus own) bus (fun _ => []) fun serverID =>
      flow.contents own serverID ++ more serverID)
    (hread : LinkFlow ((flow.wire (other, own)).packets connection)
      (flow.done (other, own) connection ++ packets)
      (net.taken (other, own) connection + count) left)
    (hlater : ∀ data ∈ later, data = left)
    (hroom : lossless = true → net.lossless = true)
    (hmore : ∀ serverID, (own, serverID) ∈ ini.servers →
      Follows (lossless = true) (more serverID)
        (packets.filter fun packet => TransferFor serverID packet)) :
    ∃ flow, Delivers ini { net with
      bus := Function.update net.bus own bus
      taken := Function.update net.taken (other, own)
        (Function.update (net.taken (other, own)) connection
          (net.taken (other, own) connection + count))
      remain := Function.update net.remain (other, own)
        (Function.update (net.remain (other, own)) connection later)
      lossless := lossless } flow := by
  have hcarried := h.carried.updateBus fun _ => hcalled
  refine ⟨{ flow with
    done := Function.update flow.done (other, own)
      (Function.update (flow.done (other, own)) connection
        (flow.done (other, own) connection ++ packets))
    contents := Function.update flow.contents own fun serverID =>
      flow.contents own serverID ++ more serverID },
    ⟨hcarried.serving, hcarried.wires, ?_⟩, ?_, ?_, h.waiting, h.drawn, ?_,
    h.silent⟩
  · intro link hneighbours index
    dsimp only
    by_cases heq : link = (other, own)
    · subst heq
      simp only [Function.update_self]
      by_cases hindex : index = connection
      · subst hindex
        simp only [Function.update_self]
        exact ⟨left, hread, hlater⟩
      · simp only [Function.update_of_ne hindex]
        exact h.carried.reads _ hneighbours index
    · simp only [Function.update_of_ne heq]
      exact h.carried.reads link hneighbours index
  · intro link hneighbours serverID hserver
    exact (h.sent link hneighbours serverID hserver).weaken hroom
  · intro cluster serverID hserver
    have hbefore := (h.received cluster serverID hserver).weaken hroom
    dsimp only
    by_cases heq : cluster = own
    · subst heq
      have hkept : transfers
            (packets.filter fun packet => TransferFor serverID packet) =
          packets.filter fun packet => TransferFor serverID packet := by
        unfold transfers
        rw [List.filter_eq_self]
        intro packet hpacket
        have htransfer := of_decide_eq_true (List.mem_filter.mp hpacket).2
        exact decide_eq_true htransfer.1
      have hfollows : Follows _ (transfers (more serverID)) (transfers _) :=
        (hmore serverID hserver).filter fun packet => ¬ Control packet
      rw [hkept] at hfollows
      have hafter := hbefore.receive (fun channel =>
        if channel = (other, connection) then
          packets.filter fun packet => TransferFor serverID packet
        else []) (other, connection) (by rw [if_pos rfl]; exact hfollows)
        (fun channel hchannel => if_neg hchannel)
      rw [Function.update_self, ← List.append_assoc, transfers_append]
      convert hafter using 2 with channel
      obtain ⟨source, index⟩ := channel
      unfold arrived
      dsimp only
      by_cases hown : source = cluster
      · subst hown
        rw [if_pos rfl, if_pos rfl, if_neg fun hboth =>
          hlink.2.2 (Prod.mk.inj hboth).1.symm, List.append_nil]
      · rw [if_neg hown, if_neg hown]
        by_cases hother : source = other
        · subst hother
          rw [Function.update_self]
          by_cases hindex : index = connection
          · subst hindex
            rw [Function.update_self, if_pos rfl, List.filter_append]
          · rw [Function.update_of_ne hindex, if_neg fun hboth =>
              hindex (Prod.mk.inj hboth).2, List.append_nil]
        · rw [Function.update_of_ne fun hboth =>
              hother (Prod.mk.inj hboth).1,
            if_neg fun hboth => hother (Prod.mk.inj hboth).1,
            List.append_nil]
    · rw [Function.update_of_ne heq, arrived_congr net flow]
      · exact hbefore
      · rfl
      · intro source
        apply Function.update_of_ne
        intro hboth
        exact heq (Prod.mk.inj hboth).2
  · intro link hneighbours
    obtain ⟨hpast, hdone⟩ := h.outside link hneighbours
    refine ⟨hpast, ?_⟩
    have hne : link ≠ (other, own) := by
      rintro rfl
      exact hneighbours hlink.symm
    dsimp only
    rw [Function.update_of_ne hne]
    exact hdone

theorem pollIn_lost {σ : Type} (process : σ → List UInt8 → σ × ℤ) (state : σ)
    {remain : List UInt8} {result : ReadResult}
    (hremain : remain.length ≤ xyMaxbuffLen)
    (hlost : result = .closed ∨ result = .failed) :
    Receive.pollIn process ⟨state, some remain⟩ result =
      some ⟨state, none⟩ := by
  have hshort : ¬ (remain ≠ [] ∧ xyMaxbuffLen < remain.length) := by
    rintro ⟨_, hlong⟩
    omega
  unfold Receive.pollIn recv
  dsimp only
  rw [if_neg hshort]
  obtain rfl | rfl := hlost
  · rfl
  · rfl

theorem Delivers.pollIn (h : Delivers ini net flow) {parsers : Parsers}
    {connection : ℕ} {result : ReadResult}
    (hlast : own ∈ ini.clusters → AvoidsLast (net.bus own))
    (hstep : netStep ini parsers net (.pollIn own other connection result) =
      some next) :
    ∃ flow, Delivers ini next flow := by
  simp only [netStep] at hstep
  cases hremain : net.remain (other, own) connection with
  | none =>
      rw [hremain] at hstep
      cases hstep
  | some remain =>
      rw [hremain] at hstep
      dsimp only at hstep
      split_ifs at hstep with hstepped
      obtain ⟨hlink, hpiece, hresult⟩ := hstepped
      obtain ⟨ended, hended, rfl⟩ := Option.map_eq_some_iff.mp hstep
      have hserving := h.carried.serving own hlink.1
      obtain ⟨left, hflow, hleft⟩ :=
        h.carried.reads (other, own) hlink.symm connection
      obtain rfl := hleft remain (by rw [hremain]; rfl)
      have hlost (hclosed : result = .closed ∨ result = .failed) :
          result.piece = [] := by
        obtain rfl | rfl := hclosed <;> rfl
      rw [← or_assoc] at hresult
      obtain hclosed | hoffered := hresult
      · rw [pollIn_lost _ _ hflow.remain_le hclosed, Option.some.injEq]
          at hended
        subst hended
        rw [hlost hclosed]
        have hcalled : Called ini own (net.bus own) (net.bus own) (fun _ => [])
            fun serverID => flow.contents own serverID ++ [] := by
          simpa using hserving.called (hlast hlink.1)
        have hread : LinkFlow ((flow.wire (other, own)).packets connection)
            (flow.done (other, own) connection ++ [])
            (net.taken (other, own) connection + 0) remain := by
          simpa using hflow
        exact h.read hlink hcalled hread (by simp) id
          fun _ _ => Follows.refl _ []
      · have hpoll := pollIn_eq (checked_ret parsers)
          (net.bus own, net.lossless) hflow.remain_le hoffered
        have hchunk := hpiece.trans (((h.carried.wires (other, own)
          hlink.symm).written_front connection).drop
            (net.taken (other, own) connection))
        obtain ⟨packets, later, hframed, hcut, hpackets, hread⟩ :=
          hflow.read hchunk
        obtain ⟨fresh, hcalled, hroom, hfresh⟩ :=
          hserving.processAll (hlast hlink.1) parsers
            (fun packet hpacket => hflow.packets packet (hpackets packet hpacket))
            net.lossless
        rw [processAll_visits parsers hframed, hcut, hended,
          Option.some.injEq] at hpoll
        subst hpoll
        exact h.read hlink hcalled hread (by simp) hroom hfresh

/-- A server takes the first message of its queue. -/
theorem Delivers.handle (h : Delivers ini net flow) {parsers : Parsers}
    (hlast : own ∈ ini.clusters → AvoidsLast (net.bus own))
    (hstep : netStep ini parsers net (.handle own serverID) = some next) :
    ∃ flow, Delivers ini next flow := by
  simp only [netStep] at hstep
  cases hserver : (net.bus own).mapSvrInfo serverID with
  | none =>
      rw [hserver] at hstep
      cases hstep
  | some info =>
      rw [hserver] at hstep
      dsimp only at hstep
      cases hqueue : info.pQueue with
      | none =>
          rw [hqueue] at hstep
          cases hstep
      | some pQueue =>
          rw [hqueue] at hstep
          dsimp only at hstep
          split_ifs at hstep with hstepped
          obtain ⟨hown, hcluster, hret⟩ := hstepped
          rw [Option.some.injEq] at hstep
          subst hstep
          have hserving := h.carried.serving own hown
          have hlocal := hserving.routes.local_server hserver hcluster
          obtain ⟨found, _, hfound, _, hopen, _, hholds⟩ :=
            hserving.localServer hlocal
          rw [hserver, Option.some.injEq] at hfound
          rw [← hfound, hqueue, Option.some.injEq] at hopen
          rw [← hopen] at hholds
          obtain ⟨rest, hmessages, hrest⟩ := outQueue_success hholds hret
          have hkeeps : ({ info with
              pQueue := some (pQueue.outQueue xyPkgMaxLen).2 } :
              ServerInfo).clusterID = info.clusterID := rfl
          have hcalled := hserving.updateServer (hlast hown) hserver hkeeps
            fun _ => ⟨_, rfl, hrest⟩
          have hcarried := h.carried.updateBus fun _ => hcalled
          refine ⟨_, ⟨hcarried.serving, hcarried.wires, hcarried.reads⟩,
            h.sent, ?_, h.waiting, h.drawn, h.outside, h.silent⟩
          intro cluster other hother
          have hbefore := h.received cluster other hother
          dsimp only
          by_cases heq : other = serverID
          · subst heq
            have hsame := hserving.routes.cluster_unique hother hlocal
            subst hsame
            rw [Function.update_self, Function.update_self,
              Function.update_self, List.append_assoc, List.singleton_append,
              ← hmessages]
            exact hbefore
          · have hcontents : Function.update flow.contents own
                (Function.update (flow.contents own) serverID rest) cluster
                other = flow.contents cluster other := by
              rw [Function.update_apply]
              split_ifs with hcluster
              · rw [Function.update_of_ne heq, hcluster]
              · rfl
            rw [Function.update_of_ne heq, hcontents]
            exact hbefore

/-- Every round keeps the invariant. -/
theorem Delivers.step (h : Delivers ini net flow) {parsers : Parsers}
    {action : NetAction} (hlast : KeepsLinks ini net action)
    (hstep : netStep ini parsers net action = some next) :
    ∃ flow, Delivers ini next flow := by
  cases action with
  | give own pkg =>
      simp only [netStep] at hstep
      split_ifs at hstep with hstepped
      rw [Option.some.injEq] at hstep
      subst hstep
      exact ⟨flow, h.offer hstepped.1 hstepped.2⟩
  | forward own seed now => exact h.forward (hlast own) hstep
  | hello own other result => exact h.hello hstep
  | heartbeat own other => exact h.heartbeat (hlast own) hstep
  | pollOut own other => exact h.pollOut (hlast own) hstep
  | lose own other => exact h.lose (hlast own) hstep
  | pollIn own other connection result => exact h.pollIn (hlast own) hstep
  | handle own serverID => exact h.handle (hlast own) hstep

end Steps

/-! ## Runs -/

section Runs

variable {ini : Ini} {parsers : Parsers} {start net : Network} {flow : Flow}
  {own serverID : UInt32}

theorem NetRun.delivers (hstart : Started ini start)
    (hrun : NetRun ini parsers start net) :
    ∃ flow, Delivers ini net flow :=
  hrun.invariant (fun net => ∃ flow, Delivers ini net flow)
    ⟨_, hstart.delivers⟩
    (fun _ _ _ hbefore hlast hstep => by
      obtain ⟨flow, hflow⟩ := hbefore
      exact hflow.step hlast hstep)

theorem wanted_sublist {rand : ℕ → ℕ}
    (hrand : ∀ size, 0 < size → rand size < size) (pkg : List UInt8) :
    (wanted ini rand pkg).Sublist (ini.servers.map Prod.snd) := by
  unfold wanted
  split_ifs
  · exact Ini.addressed_sublist hrand _
  · exact List.nil_sublist _

/-- A packet that has been forwarded is for the servers that its send type asks
for. -/
theorem Delivers.forwarded (h : Delivers ini net flow)
    {entry : Forwarded} (hentry : entry ∈ net.forwarded own) :
    entry.dsts.Nodup ∧
      if WellFormed entry.pkg ∧
          (BusHeader.read entry.pkg).cmdID ≠ cmdStateChange then
        ini.Addresses (BusHeader.read entry.pkg) entry.dsts
      else entry.dsts = [] := by
  obtain ⟨seed, hdsts⟩ := h.drawn own entry hentry
  rw [hdsts]
  constructor
  · have hown : own ∈ ini.clusters := by
      by_contra hout
      rw [h.silent own hout] at hentry
      cases hentry
    exact (h.carried.serving own hown).routes.servers_nodup.sublist
      (wanted_sublist (drawn_lt seed) entry.pkg)
  · unfold wanted
    split_ifs with hgood
    · exact Ini.addresses_addressed (drawn_lt seed) _
    · rfl

theorem Delivers.contents (h : Delivers ini net flow)
    (hserver : (own, serverID) ∈ ini.servers) :
    ∃ pQueue, (net.bus own).queueOf serverID = some pQueue ∧
      pQueue.getAllQueueData = some (flow.contents own serverID) := by
  obtain ⟨pQueue, hqueue, hholds⟩ :=
    (h.carried.serving own (cluster_of_server hserver)).queues serverID hserver
  exact ⟨pQueue, hqueue, getAllQueueData_eq hholds⟩

theorem Carried.done_front (h : Carried ini net flow)
    {link : UInt32 × UInt32} (hlink : Neighbours ini link.1 link.2)
    (connection : ℕ) :
    flow.done link connection <+: (flow.wire link).packets connection := by
  obtain ⟨remain, hflow, _⟩ := h.reads link hlink connection
  obtain ⟨todo, hsplit, _⟩ := hflow.cut
  exact ⟨todo, hsplit.symm⟩

/-- Nothing has come over connections that there have not been. -/
theorem Delivers.done_nil (h : Delivers ini net flow)
    (link : UInt32 × UInt32) {connection : ℕ}
    (hconnection : (net.past link).length < connection) :
    flow.done link connection = [] := by
  by_cases hlink : Neighbours ini link.1 link.2
  · have hprefix := h.carried.done_front hlink connection
    have hlength := (h.carried.wires link hlink).lost.length_eq
    rw [Wire.packets_eq, if_neg (by omega), if_neg (by omega)] at hprefix
    exact List.prefix_nil.mp hprefix
  · exact (h.outside link hlink).2 connection

/-- What has come over the connections of one cluster. -/
def parts (net : Network) (flow : Flow) (own serverID source : UInt32) :
    List (List (List UInt8)) :=
  if source = own then [transfers (copiesOf (net.forwarded own) serverID)]
  else
    (List.range ((net.past (source, own)).length + 1)).map fun connection =>
      (flow.done (source, own) connection).filter fun packet =>
        TransferFor serverID packet

theorem Delivers.arrived_eq (h : Delivers ini net flow) :
    arrived net flow own serverID = fun channel =>
      (parts net flow own serverID channel.1).getD channel.2 [] := by
  funext channel
  obtain ⟨source, connection⟩ := channel
  unfold arrived parts
  dsimp only
  split_ifs with hown hfirst
  · rw [hfirst]
    rfl
  · rw [List.getD_eq_default]
    rw [List.length_singleton]
    omega
  · by_cases hlt : connection < (net.past (source, own)).length + 1
    · rw [List.getD_eq_getElem _ _ (by simpa using hlt)]
      simp
    · rw [List.getD_eq_default _ _ (by simpa using hlt),
        h.done_nil (source, own) (by omega), List.filter_nil]

theorem Delivers.fronts (h : Delivers ini net flow)
    (hserver : (own, serverID) ∈ ini.servers) (source : UInt32) :
    Fronts (net.lossless = true) (parts net flow own serverID source)
      (transfers (copiesOf (net.forwarded source) serverID)) := by
  unfold parts
  split_ifs with hown
  · rw [hown]
    exact Fronts.single _ _
  · have hreader := cluster_of_server hserver
    by_cases hsource : source ∈ ini.clusters
    · have hlink : Neighbours ini source own := ⟨hsource, hreader, Ne.symm hown⟩
      have hsent := h.sent (source, own) hlink serverID hserver
      have hlength := (h.carried.wires (source, own) hlink).lost.length_eq
      refine ⟨(List.range ((net.past (source, own)).length + 1)).map
        fun connection => ((flow.wire (source, own)).packets connection).filter
          fun packet => TransferFor serverID packet, ?_, ?_⟩
      · rw [List.forall₂_map_left_iff, List.forall₂_map_right_iff,
          List.forall₂_same]
        intro connection _
        exact (h.carried.done_front hlink connection).filter _
      · rw [Wire.all, List.filter_flatten, Wire.row_eq, List.map_map,
          ← hlength] at hsent
        exact hsent
    · rw [h.silent source hsource]
      have hlink : ¬ Neighbours ini source own := fun hboth => hsource hboth.1
      obtain ⟨hpast, hdone⟩ := h.outside (source, own) hlink
      rw [hpast]
      have hnone : (List.range (([] : List (List UInt8)).length + 1)).map
          (fun connection => (flow.done (source, own) connection).filter
            fun packet => TransferFor serverID packet) = [[]] := by
        simp [hdone]
      rw [hnone]
      exact Fronts.single _ _

/-- Every packet given to a bus is forwarded in turn or waits.  What a server
has handled and what waits for it, but for packets for the buses themselves, is
merged from what has come over the connections, and that is from each connection
the front of a part of the copies that the buses were asked to make for it. -/
theorem delivered_in_order (hstart : Started ini start)
    (hrun : NetRun ini parsers start net) :
    (∀ own, ∃ waiting,
        (net.clusterQueue own).getAllQueueData = some waiting ∧
        net.given own = (net.forwarded own).map Forwarded.pkg ++ waiting) ∧
      (∀ own, ∀ entry ∈ net.forwarded own, entry.dsts.Nodup ∧
        if WellFormed entry.pkg ∧
            (BusHeader.read entry.pkg).cmdID ≠ cmdStateChange then
          ini.Addresses (BusHeader.read entry.pkg) entry.dsts
        else entry.dsts = []) ∧
      ∀ own serverID, (own, serverID) ∈ ini.servers →
        ∃ pQueue contents, ∃ parts : UInt32 → List (List (List UInt8)),
          (net.bus own).queueOf serverID = some pQueue ∧
          pQueue.getAllQueueData = some contents ∧
          (∀ source,
            (parts source).length ≤ (net.past (source, own)).length + 1 ∧
              Fronts (net.lossless = true) (parts source)
                (transfers (copiesOf (net.forwarded source) serverID))) ∧
          MergeOf (net.lossless = true)
            (fun channel : UInt32 × ℕ =>
              (parts channel.1).getD channel.2 [])
            (transfers (net.handled serverID ++ contents)) := by
  obtain ⟨flow, h⟩ := hrun.delivers hstart
  refine ⟨?_, fun own entry hentry => h.forwarded hentry, ?_⟩
  · intro own
    obtain ⟨waiting, hholds, _, hgiven⟩ := h.waiting own
    exact ⟨waiting, getAllQueueData_eq hholds, hgiven⟩
  · intro own serverID hserver
    obtain ⟨pQueue, hqueue, hcontents⟩ := h.contents hserver
    have hreceived := h.received own serverID hserver
    rw [h.arrived_eq] at hreceived
    refine ⟨pQueue, _, parts net flow own serverID, hqueue, hcontents, ?_,
      hreceived⟩
    intro source
    refine ⟨?_, h.fronts hserver source⟩
    unfold parts
    split_ifs
    · simp
    · simp

/-- A link that has been kept and read to its end has handed over its
packets. -/
theorem Delivers.drained (h : Delivers ini net flow)
    (link : UInt32 × UInt32) (hlink : Neighbours ini link.1 link.2)
    (hkept : net.past link = [])
    (hdrained : ∀ conn, (net.bus link.1).linkConn link.2 = some conn →
      conn.remainSendData = [] ∧
        net.taken link 0 = conn.socket.written.length) :
    flow.done link 0 = (flow.wire link).all := by
  have hwire := h.carried.wires link hlink
  obtain ⟨remain, hflow, _⟩ := h.carried.reads link hlink 0
  have hlost : (flow.wire link).lost = [] := by
    have hlength := hwire.lost.length_eq
    rw [hkept] at hlength
    exact List.eq_nil_of_length_eq_zero hlength.symm
  have hpackets : (flow.wire link).packets 0 = (flow.wire link).onLink := by
    rw [Wire.packets_eq, hlost]
    rfl
  have hall : (flow.wire link).all = (flow.wire link).onLink := by
    rw [Wire.all, hlost, List.nil_append, List.flatten_singleton]
  rw [hpackets] at hflow
  rw [hall]
  apply hflow.drained
  cases hconn : (net.bus link.1).linkConn link.2 with
  | none =>
      have hle := hflow.taken_le
      rw [hwire.idle hconn, List.flatten_nil, List.length_nil] at hle ⊢
      omega
  | some conn =>
      obtain ⟨hnone, htaken⟩ := hdrained conn hconn
      rw [htaken, ← (hwire.carries conn hconn).stream_eq, hnone,
        List.append_nil]

/-- As long as no queue has refused a packet, no link has been missing for one
or failed while it was written to, and no link to a cluster has been lost, the
servers of the cluster have got all copies for them once its links have been
read to their ends. -/
theorem delivered_exactly_once (hstart : Started ini start)
    (hrun : NetRun ini parsers start net) (hlossless : net.lossless = true)
    (hkept : ∀ source, Neighbours ini source own →
      net.past (source, own) = [])
    (hdrained : ∀ source, Neighbours ini source own → ∀ conn,
      (net.bus source).linkConn own = some conn →
      conn.remainSendData = [] ∧
        net.taken (source, own) 0 = conn.socket.written.length)
    (hserver : (own, serverID) ∈ ini.servers) :
    ∃ pQueue contents, (net.bus own).queueOf serverID = some pQueue ∧
      pQueue.getAllQueueData = some contents ∧
      MergeOf True
        (fun source => transfers (copiesOf (net.forwarded source) serverID))
        (transfers (net.handled serverID ++ contents)) := by
  obtain ⟨flow, h⟩ := hrun.delivers hstart
  obtain ⟨pQueue, hqueue, hcontents⟩ := h.contents hserver
  refine ⟨pQueue, _, hqueue, hcontents, ?_⟩
  have hreceived := (h.received own serverID hserver).weaken
    fun _ : True => hlossless
  apply (hreceived.single ?_).follow
  · intro source
    unfold arrived
    by_cases hown : source = own
    · rw [if_pos hown, if_pos rfl, hown]
      exact Follows.refl _ _
    · rw [if_neg hown]
      by_cases hsource : source ∈ ini.clusters
      · have hlink : Neighbours ini source own :=
          ⟨hsource, cluster_of_server hserver, Ne.symm hown⟩
        rw [h.drained (source, own) hlink (hkept source hlink)
          (hdrained source hlink)]
        exact (h.sent (source, own) hlink serverID hserver).weaken
          fun _ => hlossless
      · have hlink : ¬ Neighbours ini source own :=
          fun hboth => hsource hboth.1
        rw [(h.outside (source, own) hlink).2, h.silent source hsource]
        exact Follows.refl _ []
  · intro source channel hchannel
    unfold arrived
    dsimp only
    split_ifs
    · rfl
    · have hpast : net.past (source, own) = [] := by
        by_cases hlink : Neighbours ini source own
        · exact hkept source hlink
        · exact (h.outside (source, own) hlink).1
      rw [h.done_nil (source, own), List.filter_nil]
      rw [hpast]
      exact Nat.pos_of_ne_zero hchannel

end Runs

/-! ## Two clusters -/

def startedNet : Network where
  bus := started
  clusterQueue := fun _ => ⟨128, 0, 0, fun _ => 0⟩
  past := fun _ => []
  taken := fun _ _ => 0
  remain := fun _ _ => some []
  given := fun _ => []
  forwarded := fun _ => []
  handled := fun _ => []
  lossless := true

theorem two_clusters {clusterID : UInt32}
    (hcluster : clusterID ∈ twoServers.clusters) :
    clusterID = 1 ∨ clusterID = 2 := by
  simpa [Ini.clusters, twoServers] using hcluster

theorem started_two : Started twoServers startedNet := by
  refine ⟨?_, ?_, fun _ => empty_holds, rfl, rfl, rfl, rfl, rfl, rfl, rfl⟩
  · intro own hown
    exact ⟨_, _, _, _, init_two hown, rfl⟩
  · intro entry hentry
    have hcases : entry = (1, 11) ∨ entry = (2, 21) := by
      simpa [Ini.servers, twoServers] using hentry
    obtain rfl | rfl := hcases
    · exact ⟨_, rfl, empty_holds⟩
    · exact ⟨_, rfl, empty_holds⟩

/-- Cluster 1 loses its link when half of a packet has been read, and finds
cluster 2 again for the next packet. -/
def reconnect : List NetAction :=
  [.hello 1 2 (.connected 5 [.wrote 40]), .give 1 groupPacket,
    .forward 1 0 7, .pollIn 2 1 0 (.bytes ((copyFor 7 groupPacket 21).take 11)),
    .lose 1 2, .hello 1 2 (.connected 6 [.wrote 40]), .give 1 groupPacket,
    .forward 1 0 8, .pollIn 2 1 1 (.bytes (copyFor 8 groupPacket 21)),
    .pollIn 2 1 0 .closed, .handle 2 21]

def reconnected : Network :=
  (replay (netStep twoServers noParsers) (KeepsLinks twoServers) startedNet
    reconnect).getD startedNet

theorem reconnected_run :
    NetRun twoServers noParsers startedNet reconnected :=
  reaches_getD (by decide +kernel)

/-- The packet that was on the lost connection is missing. -/
theorem delivered_in_order_two :
    reconnected.handled 21 = [copyFor 8 groupPacket 21] ∧
      reconnected.past (1, 2) = [copyFor 7 groupPacket 21] ∧
      ∃ pQueue contents, ∃ parts : UInt32 → List (List (List UInt8)),
        (reconnected.bus 2).queueOf 21 = some pQueue ∧
        pQueue.getAllQueueData = some contents ∧
        (∀ source,
          (parts source).length ≤ (reconnected.past (source, 2)).length + 1 ∧
            Fronts (reconnected.lossless = true) (parts source)
              (transfers (copiesOf (reconnected.forwarded source) 21))) ∧
        MergeOf (reconnected.lossless = true)
          (fun channel : UInt32 × ℕ => (parts channel.1).getD channel.2 [])
          (transfers (reconnected.handled 21 ++ contents)) :=
  ⟨by decide +kernel, by decide +kernel,
    (delivered_in_order started_two reconnected_run).2.2 2 21 (by decide)⟩

/-- A packet for the group goes from cluster 1 to the server of cluster 2, in
two pieces and between two heartbeats. -/
def exchange : List NetAction :=
  [.hello 1 2 (.connected 5 [.wrote 40, .wrote 40]), .give 1 groupPacket,
    .forward 1 0 7, .heartbeat 1 2,
    .pollIn 2 1 0 (.bytes ((copyFor 7 groupPacket 21).take 11)),
    .pollIn 2 1 0 (.bytes ((copyFor 7 groupPacket 21).drop 11 ++
      heartbeatPkg 1)),
    .handle 2 21, .pollOut 1 2]

def exchanged : Network :=
  (replay (netStep twoServers noParsers) (KeepsLinks twoServers) startedNet
    exchange).getD startedNet

theorem exchanged_run : NetRun twoServers noParsers startedNet exchanged :=
  reaches_getD (by decide +kernel)

theorem delivered_exactly_once_two :
    exchanged.handled 21 = [copyFor 7 groupPacket 21] ∧
      ∃ pQueue contents, (exchanged.bus 2).queueOf 21 = some pQueue ∧
        pQueue.getAllQueueData = some contents ∧
        MergeOf True
          (fun source => transfers (copiesOf (exchanged.forwarded source) 21))
          (transfers (exchanged.handled 21 ++ contents)) := by
  refine ⟨by decide +kernel, ?_⟩
  have hone (source : UInt32) (hlink : Neighbours twoServers source 2) :
      source = 1 := by
    obtain hone | htwo := two_clusters hlink.1
    · exact hone
    · exact absurd htwo.symm hlink.2.2
  apply delivered_exactly_once started_two exchanged_run (by decide +kernel)
    _ _ (by decide)
  · intro source hlink
    rw [hone source hlink]
    decide +kernel
  · intro source hlink conn hconn
    rw [hone source hlink] at hconn ⊢
    have hall : ((exchanged.bus 1).linkConn 2).all (fun conn =>
        conn.remainSendData = [] ∧
          exchanged.taken (1, 2) 0 = conn.socket.written.length) = true := by
      decide +kernel
    rw [hconn, Option.all_some] at hall
    exact of_decide_eq_true hall

end CBus

end MessageBus.Bus
