import MessageBus.ConnAgreement

/-!
# Runs in which the user tables agree

Every step of the cluster keeps the invariant of the previous module, unless
it is one of a few: a login or an announced close in a second in which the
user was busy on another server, a login of user 0, the removal of an entry
while there is still something to hear about its user, and a restart, after
which a server no longer knows the times that it would compare with.
-/

namespace MessageBus.Conn

open SharedChannels

theorem Body.mem_entries_of_notices
    {body : Body} {notice : Notice} (hnotice : notice ∈ body.notices) :
    notice.data ∈ body.entries := by
  cases body with
  | loginNotice entries =>
      rcases List.mem_map.mp hnotice with ⟨data, hdata, rfl⟩
      exact hdata
  | disconnect entries =>
      rcases List.mem_map.mp hnotice with ⟨data, hdata, rfl⟩
      exact hdata
  | loginSyncReq serverID => simp [Body.notices] at hnotice
  | loginSyncRsp entries =>
      rcases List.mem_map.mp hnotice with ⟨data, hdata, rfl⟩
      exact hdata

theorem Notice.entries_body (notice : Notice) :
    notice.body.entries = [notice.data] := by
  rcases notice with ⟨status, data⟩
  cases status with
  | active => rfl
  | unactive => rfl

namespace Cluster

variable {cluster before after : Cluster} {fuel : ℕ} {event : Event}
  {serverID : ℤ} {result : Server × List Packet} {userID other : UInt64}
  {notice newest : Notice} {rest : List Message}

theorem about_eq_nil
    {message : Message}
    (hentries : ∀ data ∈ message.body.entries, data.userID ≠ userID) :
    message.about userID = [] := by
  apply List.filter_eq_nil_iff.mpr
  intro notice hnotice
  have hne := hentries notice.data (Body.mem_entries_of_notices hnotice)
  simpa using hne

theorem about_body {message : Message} (hbody : message.body = notice.body) :
    message.about userID =
      if notice.data.userID = userID then [notice] else [] := by
  unfold Message.about
  rw [hbody, Notice.notices_body, List.filter_singleton]
  simp

theorem mem_entries_of_loginsOf
    {packet : Packet} {data : LoginData} (hdata : data ∈ loginsOf packet) :
    data ∈ packet.body.entries := by
  rcases packet with ⟨sendType, body⟩
  cases body with
  | loginNotice entries => exact hdata
  | disconnect entries => simp [loginsOf] at hdata
  | loginSyncReq serverID => simp [loginsOf] at hdata
  | loginSyncRsp entries => simp [loginsOf] at hdata

theorem mem_entries_of_closesOf
    {packet : Packet} {data : LoginData} (hdata : data ∈ closesOf packet) :
    data ∈ packet.body.entries := by
  rcases packet with ⟨sendType, body⟩
  cases body with
  | loginNotice entries => simp [closesOf] at hdata
  | disconnect entries => exact hdata
  | loginSyncReq serverID => simp [closesOf] at hdata
  | loginSyncRsp entries => simp [closesOf] at hdata

/-! ## What the steps do -/

/-- A server moves without touching the user and says nothing of the user. -/
theorem sameFor_perform
    (hentry : result.1.entry userID =
      (cluster.servers serverID).entry userID)
    (huserAt : ∀ connPos, result.1.userAt connPos = some userID ↔
      (cluster.servers serverID).userAt connPos = some userID)
    (hpackets : ∀ packet ∈ result.2, ∀ data ∈ packet.body.entries,
      data.userID ≠ userID)
    (hrest : ∀ channel,
      waiting Message.channel (Message.about userID) channel rest =
        waiting Message.channel (Message.about userID) channel
          cluster.inFlight) :
    SameFor userID cluster
      (({ cluster with inFlight := rest } : Cluster).perform serverID
        result) := by
  constructor
  · rfl
  · exact le_rfl
  · intro atServer
    by_cases hserver : atServer = serverID
    · subst hserver
      rw [perform_servers_self]
      exact hentry
    · rw [perform_servers_of_ne hserver]
  · intro atServer connPos
    by_cases hserver : atServer = serverID
    · subst hserver
      rw [perform_servers_self]
      exact huserAt connPos
    · rw [perform_servers_of_ne hserver]
  · intro srcID dstID
    have hsilent : waiting Message.channel (Message.about userID)
        (srcID, dstID)
        (result.2.flatMap (route cluster.members serverID)) = [] := by
      apply waiting_eq_nil
      intro message hmessage _
      rcases List.mem_flatMap.mp hmessage with ⟨packet, hpacket, hroute⟩
      apply about_eq_nil
      rw [(mem_route hroute).2]
      exact hpackets packet hpacket
    change waiting _ _ _ (rest ++ _) = _
    rw [waiting_append, hrest, hsilent, List.append_nil]
    rfl
  · apply List.append_subset.mpr
    constructor
    · intro data hdata
      exact List.mem_append_left _ (List.mem_append_left _ hdata)
    · intro data hdata
      exact List.mem_append_right _ (List.mem_append_left _ hdata)
  · intro data hdata huser
    have hnew : ∀ packet ∈ result.2, data ∉ packet.body.entries := by
      intro packet hpacket hmem
      exact hpackets packet hpacket data hmem huser
    rcases List.mem_append.mp hdata with hlogin | hclose
    · rcases List.mem_append.mp hlogin with hold | hmade
      · exact List.mem_append_left _ hold
      · rcases List.mem_flatMap.mp hmade with ⟨packet, hpacket, hmem⟩
        exact (hnew packet hpacket (mem_entries_of_loginsOf hmem)).elim
    · rcases List.mem_append.mp hclose with hold | hmade
      · exact List.mem_append_right _ hold
      · rcases List.mem_flatMap.mp hmade with ⟨packet, hpacket, hmem⟩
        exact (hnew packet hpacket (mem_entries_of_closesOf hmem)).elim

theorem mem_waiting_announced
    {members : List ℤ} {srcID dstID homeID : ℤ} {found : Notice} :
    found ∈ waiting Message.channel (Message.about notice.data.userID)
        (srcID, dstID) (route members homeID ⟨.toGrpAllNoMe, notice.body⟩) ↔
      srcID = homeID ∧ dstID ∈ members ∧ dstID ≠ homeID ∧
        found = notice := by
  rw [mem_waiting]
  constructor
  · rintro ⟨message, hmessage, hchannel, hfound⟩
    rcases List.mem_map.mp hmessage with ⟨copyID, hcopy, rfl⟩
    rcases List.mem_filter.mp hcopy with ⟨hmember, hne⟩
    rw [Message.channel, Prod.mk.injEq] at hchannel
    rw [about_body rfl, if_pos rfl] at hfound
    rcases hchannel with ⟨hsrc, hdst⟩
    subst hsrc hdst
    exact ⟨rfl, hmember, of_decide_eq_true hne, List.mem_singleton.mp hfound⟩
  · rintro ⟨rfl, hmember, hne, rfl⟩
    refine ⟨⟨srcID, dstID, found.body⟩, ?_, rfl, ?_⟩
    · simp [route, hmember, hne]
    · rw [about_body rfl, if_pos rfl]
      simp

theorem announces_perform
    (hserver : notice.data.serverID = serverID)
    (hmember : serverID ∈ cluster.members)
    (htime : notice.data.time = cluster.now)
    (hpackets : result.2 = [⟨.toGrpAllNoMe, notice.body⟩])
    (hentry : ∃ info, result.1.entry notice.data.userID = some info ∧
      info.Records notice.data notice.status)
    (hopened : notice.status = .active →
      result.1.userAt notice.data.connPos = some notice.data.userID)
    (hclosed : notice.status = .unactive →
      (cluster.servers serverID).userAt notice.data.connPos =
        some notice.data.userID) :
    Announces notice cluster (cluster.perform serverID result) := by
  subst hserver
  have hwaiting : ∀ srcID dstID,
      (cluster.perform notice.data.serverID result).waitingAbout
          notice.data.userID srcID dstID =
        cluster.waitingAbout notice.data.userID srcID dstID ++
          waiting Message.channel (Message.about notice.data.userID)
            (srcID, dstID) (route cluster.members notice.data.serverID
              ⟨.toGrpAllNoMe, notice.body⟩) := by
    intro srcID dstID
    change waiting _ _ _ (cluster.inFlight ++ _) = _
    rw [waiting_append, hpackets, List.flatMap_singleton]
    rfl
  constructor
  · rfl
  · rfl
  · exact htime
  · exact hmember
  · change notice.data ∈ (cluster.logins ++ result.2.flatMap loginsOf) ++
      (cluster.closes ++ result.2.flatMap closesOf)
    rw [hpackets]
    rcases notice with ⟨status, data⟩
    cases status with
    | active => simp [Notice.body, loginsOf]
    | unactive => simp [Notice.body, closesOf]
  · rw [perform_servers_self]
    exact hentry
  · intro hactive
    unfold SessionOpen
    rw [perform_servers_self]
    exact hopened hactive
  · exact hclosed
  · intro otherID hne
    exact perform_servers_of_ne hne
  · intro srcID hne dstID
    rw [hwaiting]
    have hnone : waiting Message.channel (Message.about notice.data.userID)
        (srcID, dstID) (route cluster.members notice.data.serverID
          ⟨.toGrpAllNoMe, notice.body⟩) = [] := by
      apply List.eq_nil_iff_forall_not_mem.mpr
      intro found hfound
      exact hne (mem_waiting_announced.mp hfound).1
    rw [hnone, List.append_nil]
  · intro dstID
    have hall : ∀ found ∈ waiting Message.channel
        (Message.about notice.data.userID) (notice.data.serverID, dstID)
        (route cluster.members notice.data.serverID
          ⟨.toGrpAllNoMe, notice.body⟩), found = notice :=
      fun found hfound => (mem_waiting_announced.mp hfound).2.2.2
    have hcopies := List.eq_replicate_iff.mpr ⟨rfl, hall⟩
    refine ⟨_, by rw [hwaiting, ← hcopies], ?_⟩
    intro hdst hne hzero
    have hmem := mem_waiting_announced.mpr
      ⟨rfl, hdst, hne, (rfl : notice = notice)⟩
    rw [List.length_eq_zero_iff.mp hzero] at hmem
    simp at hmem

section Delivery

variable {index : ℕ} {message : Message}
  (hmessage : cluster.inFlight[index]? = some message)
  (hfirst : Foremost Message.channel cluster.inFlight index)
  (hbody : message.body = notice.body)

include hmessage hfirst hbody

theorem sameFor_deliver (hother : notice.data.userID ≠ userID) :
    SameFor userID cluster
      (({ cluster with
          inFlight := cluster.inFlight.eraseIdx index } : Cluster).perform
        message.dstID
        ((cluster.servers message.dstID).dealPkg cluster.now message.srcID
          message.body)) := by
  have honly := Server.onlyUser_handle (cluster.servers message.dstID)
    cluster.now notice
  rw [hbody, Server.dealPkg_body]
  apply sameFor_perform
  · exact honly.entry_eq userID hother.symm
  · exact honly.userAt_iff userID hother.symm
  · simp
  · intro channel
    by_cases hchannel : message.channel = channel
    · subst hchannel
      rw [waiting_of_foremost hmessage hfirst, about_body hbody,
        if_neg hother]
      rfl
    · exact waiting_eraseIdx_of_ne hmessage hchannel

theorem delivers_deliver
    (hmember : message.dstID ∈ cluster.members)
    (hforeign : message.srcID ≠ message.dstID) :
    Delivers notice message.srcID message.dstID cluster
      (({ cluster with
          inFlight := cluster.inFlight.eraseIdx index } : Cluster).perform
        message.dstID
        ((cluster.servers message.dstID).dealPkg cluster.now message.srcID
          message.body)) := by
  rw [hbody, Server.dealPkg_body]
  have hwaiting : ∀ fromID toID,
      (({ cluster with
          inFlight := cluster.inFlight.eraseIdx index } : Cluster).perform
        message.dstID ((cluster.servers message.dstID).handle cluster.now
          notice, [])).waitingAbout notice.data.userID fromID toID =
        waiting Message.channel (Message.about notice.data.userID)
          (fromID, toID) (cluster.inFlight.eraseIdx index) := by
    intro fromID toID
    change waiting _ _ _ (_ ++ []) = _
    rw [List.append_nil]
  constructor
  · rfl
  · rfl
  · simp [perform]
  · exact hmember
  · exact hforeign
  · exact perform_servers_self
  · intro serverID hne
    exact perform_servers_of_ne hne
  · intro fromID toID hchannel
    rw [hwaiting]
    exact waiting_eraseIdx_of_ne hmessage (Ne.symm hchannel)
  · rw [hwaiting]
    change waiting Message.channel _ message.channel _ = _
    rw [waiting_of_foremost hmessage hfirst, about_body hbody, if_pos rfl]
    rfl

end Delivery

/-! ## Every step -/

/-- Messages between two servers arrive in order, and a connection logs in at
most once. -/
def Orderly (cluster : Cluster) : Event → Prop
  | .act serverID (.authLoginRsp connPos _ result) =>
      result = 0 → (cluster.servers serverID).userAt connPos = none ∨
        (cluster.servers serverID).userAt connPos = some 0
  | .deliver index => Foremost Message.channel cluster.inFlight index
  | _ => True

/-- A login or an announced close does not fall into a second in which the
user was busy on another server, an entry is removed only when there is nothing
left to hear about its user, and no server loses its whole table. -/
def Paced (cluster : Cluster) : Event → Prop
  | .act serverID (.releaseConn connPos) =>
      ∀ userID ∈ (cluster.servers serverID).userAt connPos, userID ≠ 0 →
        cluster.SecondOf userID serverID
  | .act serverID (.authLoginRsp connPos userID result) =>
      result = 0 → userID ≠ 0 ∧
        ((cluster.servers serverID).userAt connPos ≠ none →
          cluster.SecondOf userID serverID)
  | .act serverID .checkValid =>
      ∀ userID ∈ (cluster.servers serverID).staleUsers cluster.now,
        cluster.Idle userID
  | .act _ .restart => False
  | _ => True

instance (userID : UInt64) (serverID : ℤ) :
    Decidable (cluster.SecondOf userID serverID) :=
  List.decidableBAll _ _

instance (userID : UInt64) (serverID : ℤ) (connPos : UInt32) :
    Decidable (cluster.SessionOpen userID serverID connPos) :=
  inferInstanceAs (Decidable (_ = _))

instance (userID : UInt64) : Decidable (cluster.Idle userID) :=
  inferInstanceAs (Decidable (_ ∧ _))

instance : Decidable (cluster.Orderly event) :=
  match event with
  | .advance _ => isTrue trivial
  | .act _ (.acceptConn _) => isTrue trivial
  | .act _ (.releaseConn _) => isTrue trivial
  | .act _ (.authLoginRsp _ _ _) => inferInstanceAs (Decidable (_ → _))
  | .act _ .checkValid => isTrue trivial
  | .act _ .restart => isTrue trivial
  | .deliver _ => inferInstanceAs (Decidable (Foremost _ _ _))

-- the users are too many to be tried one by one, so the instances are named
instance : Decidable (cluster.Paced event) :=
  match event with
  | .advance _ => isTrue trivial
  | .act _ (.acceptConn _) => isTrue trivial
  | .act _ (.releaseConn _) => Option.decidableForallMem _
  | .act _ (.authLoginRsp _ _ _) => inferInstanceAs (Decidable (_ → _))
  | .act _ .checkValid => List.decidableBAll _ _
  | .act _ .restart => isFalse id
  | .deliver _ => isTrue trivial

/-- All that holds in such a run. -/
structure Steady (cluster : Cluster) : Prop where
  sessionsKnown : cluster.SessionsKnown
  foreign : cluster.Foreign
  loginsKnown : cluster.LoginsKnown
  notices : ∀ message ∈ cluster.inFlight, ∃ notice : Notice,
    message.body = notice.body ∧ notice.data.userID ≠ 0
  users : ∀ login ∈ cluster.logins, login.userID ≠ 0
  consistent : ∀ serverID,
    (cluster.servers serverID).insertFailed = false →
    (cluster.servers serverID).Consistent
  settled : (∀ serverID ∈ cluster.members,
      (cluster.servers serverID).insertFailed = false) →
    ∀ userID ≠ 0, cluster.Settled userID

theorem insertFailed_before
    (hstep : cluster.step fuel event = some after)
    (hokay : (after.servers serverID).insertFailed = false) :
    (cluster.servers serverID).insertFailed = false := by
  rcases step_cases hstep with ⟨seconds, -, rfl⟩ |
    ⟨atServer, action, result, -, -, hact, rfl⟩ |
    ⟨index, message, -, -, -, rfl⟩
  · exact hokay
  · by_cases hserver : serverID = atServer
    · subst hserver
      rw [perform_servers_self] at hokay
      rcases Server.act_cases hact with hopens |
        ⟨connPos, userID, -, -, rfl⟩
      · exact hopens.failed hokay
      · exact Server.authLoginRsp_insertFailed hokay
    · rw [perform_servers_of_ne hserver] at hokay
      exact hokay
  · by_cases hserver : serverID = message.dstID
    · subst hserver
      rw [perform_servers_self] at hokay
      exact (Server.opensNone_dealPkg _ _ _ _).failed hokay
    · rw [perform_servers_of_ne hserver] at hokay
      exact hokay

/-- What a server sends on its own account in such a run. -/
theorem act_sends
    {action : Action} (hpaced : cluster.Paced (.act serverID action))
    (hact : (cluster.servers serverID).act fuel cluster.now action =
      some result) {packet : Packet} (hpacket : packet ∈ result.2) :
    ∃ notice : Notice, packet.body = notice.body ∧
      notice.data.userID ≠ 0 := by
  cases action with
  | acceptConn ready =>
      rcases Option.map_eq_some_iff.mp hact with ⟨after, -, rfl⟩
      simp at hpacket
  | releaseConn connPos =>
      rw [← Option.some.inj hact] at hpacket
      rcases Server.mem_releaseConn_packets hpacket with
        ⟨userID, huser, -, rfl⟩
      exact ⟨⟨.unactive, _⟩, rfl, huser⟩
  | authLoginRsp connPos userID answer =>
      rw [← Option.some.inj hact] at hpacket
      rcases Server.mem_authLoginRsp_packets hpacket with ⟨hanswer, rfl⟩
      exact ⟨⟨.active, _⟩, rfl, (hpaced hanswer).1⟩
  | checkValid =>
      rw [← Option.some.inj hact] at hpacket
      simp at hpacket
  | restart => exact hpaced.elim

section Settling

variable (hall : ∀ userID ≠ 0, cluster.Settled userID)

include hall

theorem settled_announce
    (notice : Notice) (hserver : notice.data.serverID = serverID)
    (hmember : serverID ∈ cluster.members)
    (htime : notice.data.time = cluster.now)
    (hpackets : result.2 = [⟨.toGrpAllNoMe, notice.body⟩])
    (hentry : ∃ info, result.1.entry notice.data.userID = some info ∧
      info.Records notice.data notice.status)
    (hopened : notice.status = .active →
      result.1.userAt notice.data.connPos = some notice.data.userID)
    (hclosed : notice.status = .unactive →
      (cluster.servers serverID).userAt notice.data.connPos =
        some notice.data.userID)
    (hsecond : cluster.SecondOf notice.data.userID serverID)
    (hothers : ∀ other ≠ 0, other ≠ notice.data.userID →
      result.1.entry other = (cluster.servers serverID).entry other ∧
        ∀ connPos, result.1.userAt connPos = some other ↔
          (cluster.servers serverID).userAt connPos = some other)
    (userID : UInt64) (huser : userID ≠ 0) :
    (cluster.perform serverID result).Settled userID := by
  by_cases hsame : userID = notice.data.userID
  · subst hsame
    apply (hall _ huser).announces
    · rw [hserver]
      exact hsecond
    · exact announces_perform hserver hmember htime hpackets hentry hopened
        hclosed
  · have hother := hothers userID huser hsame
    apply (hall userID huser).same
    apply sameFor_perform hother.1 hother.2
    · intro packet hpacket data hdata
      rw [hpackets] at hpacket
      rw [List.mem_singleton.mp hpacket, Notice.entries_body] at hdata
      rw [List.mem_singleton.mp hdata]
      exact Ne.symm hsame
    · exact fun _ => rfl

theorem settled_releaseConn
    {connPos : UInt32}
    (hknown : (cluster.servers serverID).serverID = serverID)
    (hsound : (cluster.servers serverID).Sound)
    (hmember : serverID ∈ cluster.members)
    (hpaced : cluster.Paced (.act serverID (.releaseConn connPos)))
    (userID : UInt64) (huser : userID ≠ 0) :
    (cluster.perform serverID ((cluster.servers serverID).releaseConn
      cluster.now connPos true)).Settled userID := by
  by_cases hconn : ∃ owner, owner ≠ 0 ∧
      (cluster.servers serverID).userAt connPos = some owner
  · rcases hconn with ⟨owner, howner, hconn⟩
    rcases hsound owner connPos howner hconn with ⟨info, hinfo, -⟩
    apply settled_announce hall
      ⟨.unactive, ⟨owner, serverID, connPos, cluster.now⟩⟩ rfl hmember rfl
      _ _ _ _ _ _ userID huser
    · rw [Server.releaseConn_packets hconn howner, hknown]
      rfl
    · rw [Server.releaseConn_entry_self hconn howner, hinfo, hknown]
      exact ⟨_, rfl, rfl, rfl, rfl, rfl⟩
    · intro hactive
      simp at hactive
    · exact fun _ => hconn
    · exact hpaced owner hconn howner
    · intro other _ hne
      have hunowned : (cluster.servers serverID).userAt connPos ≠
          some other := by
        rw [hconn]
        simpa using Ne.symm hne
      exact ⟨Server.releaseConn_entry_of_ne hunowned,
        fun _ => Server.releaseConn_userAt_iff hunowned⟩
  · have hunowned : ∀ owner ≠ 0,
        (cluster.servers serverID).userAt connPos ≠ some owner :=
      fun owner howner hfound => hconn ⟨owner, howner, hfound⟩
    apply (hall userID huser).same
    apply sameFor_perform
    · exact Server.releaseConn_entry_of_ne (hunowned userID huser)
    · exact fun _ => Server.releaseConn_userAt_iff (hunowned userID huser)
    · rw [Server.releaseConn_packets_zero hunowned]
      simp
    · exact fun _ => rfl

theorem settled_authLoginRsp
    {connPos : UInt32} {loginUser : UInt64}
    (hknown : (cluster.servers serverID).serverID = serverID)
    (hcons : (cluster.servers serverID).Consistent)
    (hmember : serverID ∈ cluster.members)
    (hfresh : (cluster.servers serverID).userAt connPos = some 0)
    (hlogin : loginUser ≠ 0)
    (hsecond : cluster.SecondOf loginUser serverID)
    (hokay : ((cluster.servers serverID).authLoginRsp cluster.now connPos
      loginUser 0).1.insertFailed = false)
    (userID : UInt64) (huser : userID ≠ 0) :
    (cluster.perform serverID ((cluster.servers serverID).authLoginRsp
      cluster.now connPos loginUser 0)).Settled userID := by
  have hconn : (cluster.servers serverID).userAt connPos ≠ none := by
    rw [hfresh]
    simp
  have hlogged := Server.authLoginRsp_loggedIn hcons.sound hconn hokay
  apply settled_announce hall
    ⟨.active, ⟨loginUser, serverID, connPos, cluster.now⟩⟩ rfl hmember rfl
    _ _ _ _ _ _ userID huser
  · rw [Server.authLoginRsp_packets hconn, hknown]
    rfl
  · have hself := hlogged.entry_self
    rw [hknown] at hself
    exact hself
  · intro _
    exact (hcons.loggedIn hlogged hlogin hfresh).2
  · intro hclose
    simp at hclose
  · exact hsecond
  · intro other hother hne
    refine ⟨hlogged.entry_eq other hne, ?_⟩
    intro pos
    rw [hlogged.userAt_iff other hne pos]
    constructor
    · exact fun hboth => hboth.2
    · intro hfound
      refine ⟨?_, hfound⟩
      rintro rfl
      rw [hfresh, Option.some.injEq] at hfound
      exact hother hfound.symm

theorem settled_acceptConn
    {ready : Bool} {accepted : Server}
    (haccept :
      (cluster.servers serverID).acceptConn fuel ready = some accepted)
    (userID : UInt64) (huser : userID ≠ 0) :
    (cluster.perform serverID (accepted, [])).Settled userID := by
  rcases Server.acceptConn_cases haccept with ⟨-, -, hentry, huserAt⟩
  apply (hall userID huser).same
  apply sameFor_perform
  · exact hentry userID
  · intro pos
    rcases huserAt pos with hsame | ⟨hfree, hnew⟩
    · rw [hsame]
    · rw [hnew, hfree]
      simpa using Ne.symm huser
  · simp
  · exact fun _ => rfl

theorem settled_checkValid
    (hknown : cluster.LoginsKnown) (hservers : cluster.SessionsKnown)
    (hokay : ∀ serverID ∈ cluster.members,
      (cluster.servers serverID).insertFailed = false)
    (hpaced : cluster.Paced (.act serverID .checkValid))
    (userID : UInt64) (huser : userID ≠ 0) :
    (cluster.perform serverID
      ((cluster.servers serverID).checkValid cluster.now, [])).Settled
        userID := by
  by_cases hstale : userID ∈
      (cluster.servers serverID).staleUsers cluster.now
  · have hidle := hpaced userID hstale
    apply (hall userID huser).forget _ hidle
    · intro atServer hmember
      exact hidle.no_session hknown (hservers.serverID_eq atServer)
        (hservers.sound atServer (hokay atServer hmember)) huser
    · constructor
      · rfl
      · rfl
      · simp [perform]
      · simp [perform]
      · intro atServer connPos
        by_cases hserver : atServer = serverID
        · subst hserver
          rw [perform_servers_self]
          rfl
        · rw [perform_servers_of_ne hserver]
      · intro atServer
        by_cases hserver : atServer = serverID
        · subst hserver
          left
          rw [perform_servers_self, Server.checkValid_entry, if_pos hstale]
        · right
          rw [perform_servers_of_ne hserver]
  · apply (hall userID huser).same
    apply sameFor_perform
    · rw [Server.checkValid_entry, if_neg hstale]
    · exact fun _ => Iff.rfl
    · simp
    · exact fun _ => rfl

theorem settled_unchanged (userID : UInt64) (huser : userID ≠ 0) :
    (cluster.perform serverID (cluster.servers serverID, [])).Settled
      userID := by
  apply (hall userID huser).same
  apply sameFor_perform rfl (fun _ => Iff.rfl)
  · simp
  · exact fun _ => rfl

end Settling

theorem Steady.settled_act
    (hsteady : cluster.Steady) {action : Action}
    (horderly : cluster.Orderly (.act serverID action))
    (hpaced : cluster.Paced (.act serverID action))
    (hmember : serverID ∈ cluster.members)
    (hact : (cluster.servers serverID).act fuel cluster.now action =
      some result)
    (hbefore : ∀ serverID ∈ cluster.members,
      (cluster.servers serverID).insertFailed = false)
    (hokay : result.1.insertFailed = false) :
    ∀ userID ≠ 0, (cluster.perform serverID result).Settled userID := by
  have hall := hsteady.settled hbefore
  have hserver := hsteady.sessionsKnown.serverID_eq serverID
  have hcons := hsteady.consistent serverID (hbefore serverID hmember)
  cases action with
  | acceptConn ready =>
      rcases Option.map_eq_some_iff.mp hact with ⟨accepted, haccept, rfl⟩
      exact settled_acceptConn hall haccept
  | releaseConn connPos =>
      rw [← Option.some.inj hact]
      exact settled_releaseConn hall hserver hcons.sound hmember hpaced
  | authLoginRsp connPos loginUser answer =>
      rw [← Option.some.inj hact] at hokay ⊢
      by_cases hanswer : answer = 0
      · subst hanswer
        rcases horderly rfl with hnone | hfresh
        · rw [Server.authLoginRsp_of_missing 0 hnone]
          exact settled_unchanged hall
        · have hlogin := hpaced rfl
          exact settled_authLoginRsp hall hserver hcons hmember hfresh
            hlogin.1 (hlogin.2 (by rw [hfresh]; simp)) hokay
      · rw [Server.authLoginRsp_of_failed hanswer]
        exact settled_unchanged hall
  | checkValid =>
      rw [← Option.some.inj hact]
      exact settled_checkValid hall hsteady.loginsKnown hsteady.sessionsKnown
        hbefore hpaced
  | restart => exact hpaced.elim

theorem Steady.settled_step
    (hsteady : cluster.Steady) (horderly : cluster.Orderly event)
    (hpaced : cluster.Paced event)
    (hstep : cluster.step fuel event = some after)
    (hokay : ∀ serverID ∈ after.members,
      (after.servers serverID).insertFailed = false)
    (userID : UInt64) (huser : userID ≠ 0) : after.Settled userID := by
  have hmembers : after.members = cluster.members := by
    rcases step_cases hstep with ⟨seconds, -, rfl⟩ |
      ⟨serverID, action, result, -, -, -, rfl⟩ |
      ⟨index, message, -, -, -, rfl⟩
    · rfl
    · rfl
    · rfl
  rw [hmembers] at hokay
  have hbefore : ∀ serverID ∈ cluster.members,
      (cluster.servers serverID).insertFailed = false :=
    fun serverID hmember => insertFailed_before hstep (hokay serverID hmember)
  have hall := hsteady.settled hbefore
  rcases step_cases hstep with ⟨seconds, -, rfl⟩ |
    ⟨serverID, action, result, rfl, hmember, hact, rfl⟩ |
    ⟨index, message, rfl, hmessage, hmember, rfl⟩
  · apply (hall userID huser).same
    exact ⟨rfl, Nat.le_add_right _ _, fun _ => rfl, fun _ _ => Iff.rfl,
      fun _ _ => rfl, List.Subset.refl _, fun _ hevent _ => hevent⟩
  · have hself := hokay serverID hmember
    rw [perform_servers_self] at hself
    exact hsteady.settled_act horderly hpaced hmember hact hbefore hself
      userID huser
  · rcases hsteady.notices message (List.mem_of_getElem? hmessage) with
      ⟨notice, hbody, hnotice⟩
    by_cases hsame : notice.data.userID = userID
    · subst hsame
      have hforeign := hsteady.foreign message (List.mem_of_getElem? hmessage)
      apply (hall _ huser).delivers (delivers_deliver hmessage horderly hbody
        hmember hforeign.1) _ huser
      · exact hokay _ hmember
      · exact hsteady.consistent _ (hbefore _ hmember)
    · exact (hall userID huser).same
        (sameFor_deliver hmessage horderly hbody hsame)

theorem freshLogins_of_paced
    (horderly : cluster.Orderly event) (hpaced : cluster.Paced event)
    (serverID : ℤ) : FreshLogins serverID cluster event := by
  cases event with
  | advance seconds => trivial
  | deliver index => trivial
  | act atServer action =>
      cases action with
      | acceptConn ready => trivial
      | releaseConn connPos => trivial
      | checkValid => trivial
      | restart => trivial
      | authLoginRsp connPos userID answer =>
          rintro rfl hanswer
          exact ⟨(hpaced hanswer).1, horderly hanswer⟩

theorem start_steady
    (members : List ℤ) (gnsCapacity : ℤ → ℕ) (now : ℕ) :
    (start members gnsCapacity now).Steady := by
  have hentry : ∀ serverID userID,
      ((start members gnsCapacity now).servers serverID).entry userID =
        none := fun _ _ => BoundedMap.get_empty _ _
  have huserAt : ∀ serverID connPos,
      ((start members gnsCapacity now).servers serverID).userAt connPos =
        none := fun _ _ => rfl
  constructor
  · exact start_sessionsKnown members gnsCapacity now
  · simp [Foreign, start]
  · constructor
    · intro serverID userID info hinfo
      rw [hentry] at hinfo
      simp at hinfo
    · simp [start]
  · simp [start]
  · simp [start]
  · intro serverID _
    exact Server.consistent_restart
      (Server.start serverID (gnsCapacity serverID))
  · intro _ userID _
    refine ⟨⟨?_, ?_⟩, Or.inl ⟨?_, ?_, ?_, ?_⟩⟩
    · intro serverID _ _ srcID notice hhead
      simp [waitingAbout, start] at hhead
    · rintro serverID _ _ _ _ ⟨connPos, hconn⟩
      rw [huserAt] at hconn
      simp at hconn
    · simp [start]
    · exact fun serverID => hentry serverID userID
    · intro serverID connPos
      rw [huserAt]
      simp
    · exact fun _ _ => rfl

theorem Steady.sends
    (hsteady : cluster.Steady) (hpaced : cluster.Paced event)
    (hstep : cluster.step fuel event = some after) :
    (∀ message ∈ after.inFlight, ∃ notice : Notice,
      message.body = notice.body ∧ notice.data.userID ≠ 0) ∧
    ∀ login ∈ after.logins, login.userID ≠ 0 := by
  rcases step_cases hstep with ⟨seconds, -, rfl⟩ |
    ⟨serverID, action, result, rfl, -, hact, rfl⟩ |
    ⟨index, message, -, hmessage, -, rfl⟩
  · exact ⟨hsteady.notices, hsteady.users⟩
  · constructor
    · intro message hmem
      rcases List.mem_append.mp hmem with hold | hnew
      · exact hsteady.notices message hold
      · rcases List.mem_flatMap.mp hnew with ⟨packet, hpacket, hroute⟩
        rw [(mem_route hroute).2]
        exact act_sends hpaced hact hpacket
    · intro login hlogin
      rcases List.mem_append.mp hlogin with hold | hnew
      · exact hsteady.users login hold
      · rcases List.mem_flatMap.mp hnew with ⟨packet, hpacket, hmem⟩
        rcases act_sends hpaced hact hpacket with
          ⟨notice, hbody, huser⟩
        have hentry := mem_entries_of_loginsOf hmem
        rw [hbody, Notice.entries_body] at hentry
        rw [List.mem_singleton.mp hentry]
        exact huser
  · rcases hsteady.notices message (List.mem_of_getElem? hmessage) with
      ⟨notice, hbody, -⟩
    rw [hbody, Server.dealPkg_body]
    constructor
    · intro other hother
      rcases List.mem_append.mp hother with hold | hnew
      · exact hsteady.notices other (List.mem_of_mem_eraseIdx hold)
      · simp at hnew
    · intro login hlogin
      rcases List.mem_append.mp hlogin with hold | hnew
      · exact hsteady.users login hold
      · simp at hnew

theorem Steady.step
    (hsteady : cluster.Steady) (horderly : cluster.Orderly event)
    (hpaced : cluster.Paced event)
    (hstep : cluster.step fuel event = some after) : after.Steady := by
  have hsends := hsteady.sends hpaced hstep
  constructor
  · exact hsteady.sessionsKnown.step hstep
  · exact hsteady.foreign.step hsteady.sessionsKnown hstep
  · exact hsteady.loginsKnown.step hstep
  · exact hsends.1
  · exact hsends.2
  · intro serverID
    exact consistent_step hsteady.foreign hsteady.sessionsKnown
      (hsteady.consistent serverID)
      (freshLogins_of_paced horderly hpaced serverID) hstep
  · exact hsteady.settled_step horderly hpaced hstep

/-! ## The result -/

/-- Every active entry names an open connection of its user, and all active
entries of a user name the same one. -/
structure TablesAgree (cluster : Cluster) : Prop where
  names_open : ∀ serverID ∈ cluster.members, ∀ userID info,
    (cluster.servers serverID).entry userID = some info →
    info.status = .active →
    info.serverID ∈ cluster.members ∧
      cluster.SessionOpen userID info.serverID info.connPos
  same : ∀ serverID ∈ cluster.members, ∀ otherID ∈ cluster.members,
    ∀ userID info found,
    (cluster.servers serverID).entry userID = some info →
    info.status = .active →
    (cluster.servers otherID).entry userID = some found →
    found.status = .active →
    info.serverID = found.serverID ∧ info.connPos = found.connPos

/-- With nothing in flight, an active entry is the newest event. -/
theorem Converging.records_newest
    (hconv : cluster.Converging userID newest)
    (hquiet : cluster.inFlight = []) (hmember : serverID ∈ cluster.members)
    {info : ShmGnsInfo}
    (hinfo : (cluster.servers serverID).entry userID = some info)
    (hactive : info.status = .active) :
    newest.status = .active ∧ info.Records newest.data .active := by
  rcases hconv.informed serverID hmember with
    ⟨-, hnews⟩ | ⟨found, hfound, -, hstate⟩ | ⟨hnone, -⟩
  · exfalso
    apply hnews
    unfold waitingAbout
    rw [hquiet, waiting_nil]
  · rw [hinfo, Option.some.injEq] at hfound
    subst hfound
    rcases hstate with hclosed | hrecords
    · rw [hactive] at hclosed
      simp at hclosed
    · exact hrecords
  · rw [hinfo] at hnone
    simp at hnone

theorem Steady.converging
    (hsteady : cluster.Steady)
    (hroom : ∀ serverID ∈ cluster.members,
      (cluster.servers serverID).insertFailed = false)
    {info : ShmGnsInfo}
    (hinfo : (cluster.servers serverID).entry userID = some info)
    (hactive : info.status = .active) :
    ∃ newest, cluster.Converging userID newest := by
  have huser : userID ≠ 0 := hsteady.users _
    ((hsteady.loginsKnown.servers serverID userID info hinfo).2 hactive)
  rcases (hsteady.settled hroom userID huser).2 with hnone | hconv
  · rw [hnone.entry_none] at hinfo
    simp at hinfo
  · exact hconv

/-- In every orderly and paced run, the user tables agree whenever nothing is
in flight. -/
theorem user_tables_agree
    (fuel : ℕ) (members : List ℤ) (gnsCapacity : ℤ → ℕ) (now : ℕ)
    (cluster : Cluster)
    (hreach : Transition.Reaches (step fuel)
      (fun cluster event => cluster.Orderly event ∧ cluster.Paced event)
      (start members gnsCapacity now) cluster)
    (hroom : ∀ serverID ∈ cluster.members,
      (cluster.servers serverID).insertFailed = false)
    (hquiet : cluster.inFlight = []) : cluster.TablesAgree := by
  have hsteady : cluster.Steady := by
    apply hreach.invariant Steady (start_steady members gnsCapacity now)
    intro before after event hbefore hallowed hstep
    exact hbefore.step hallowed.1 hallowed.2 hstep
  constructor
  · intro serverID hmember userID info hinfo hactive
    rcases hsteady.converging hroom hinfo hactive with ⟨newest, hconv⟩
    rcases hconv.records_newest hquiet hmember hinfo hactive with
      ⟨hnewest, hserver, hpos, -⟩
    rw [hserver, hpos]
    exact ⟨hconv.home_mem, (hconv.home hnewest).1⟩
  · intro serverID hmember otherID hother userID info found hinfo hactive
      hfound hstatus
    rcases hsteady.converging hroom hinfo hactive with ⟨newest, hconv⟩
    have hfirst := hconv.records_newest hquiet hmember hinfo hactive
    have hsecond := hconv.records_newest hquiet hother hfound hstatus
    rw [hfirst.2.1, hfirst.2.2.1, hsecond.2.1, hsecond.2.2.1]
    exact ⟨rfl, rfl⟩

/-- A user logs in at server 1, closes, comes back in the same second and moves
to server 2 a second later. -/
theorem user_tables_agree_moves :
    ∃ cluster, Transition.Reaches (step 1)
        (fun cluster event => cluster.Orderly event ∧ cluster.Paced event)
        (start [1, 2, 3] (fun _ => 3) 10) cluster ∧
      (∀ serverID ∈ cluster.members,
        (cluster.servers serverID).insertFailed = false) ∧
      cluster.inFlight = [] ∧
      (cluster.servers 3).entry 7 = some ⟨7, 2, 501, .active, 11⟩ ∧
      cluster.TablesAgree := by
  rcases Option.map_eq_some_iff.mp
    (show (Transition.replay (step 1)
        (fun cluster event => cluster.Orderly event ∧ cluster.Paced event)
        (start [1, 2, 3] (fun _ => 3) 10)
        [.act 1 (.acceptConn true), .act 1 (.authLoginRsp 501 7 0),
          .act 1 (.releaseConn 501), .act 1 (.acceptConn true),
          .act 1 (.authLoginRsp 502 7 0), .advance 1, .act 2 (.acceptConn true),
          .act 2 (.authLoginRsp 501 7 0), .deliver 7, .deliver 6, .deliver 0,
          .deliver 1, .deliver 2, .deliver 0, .deliver 0, .deliver 0]).map
        (fun cluster => (decide (∀ serverID ∈ cluster.members,
            (cluster.servers serverID).insertFailed = false),
          cluster.inFlight, (cluster.servers 3).entry 7)) =
        some (true, [], some ⟨7, 2, 501, .active, 11⟩)
      by decide) with ⟨cluster, hreplay, hvalues⟩
  simp only [Prod.mk.injEq, decide_eq_true_eq] at hvalues
  rcases hvalues with ⟨hroom, hquiet, hentry⟩
  have hreach := Transition.reaches_of_replay hreplay
  exact ⟨cluster, hreach, hroom, hquiet, hentry,
    user_tables_agree 1 [1, 2, 3] (fun _ => 3) 10 cluster hreach hroom hquiet⟩

/-- A user logs in at two servers in the same second.  Each notice ends the
session of the server that it arrives at, and both tables are left with an
active entry for the session that the other server has ended. -/
theorem user_tables_disagree_same_second :
    ∃ cluster, Transition.Reaches (step 1) Orderly
        (start [1, 2] (fun _ => 3) 10) cluster ∧
      (∀ serverID ∈ cluster.members,
        (cluster.servers serverID).insertFailed = false) ∧
      cluster.inFlight = [] ∧ ¬ cluster.TablesAgree := by
  rcases Option.map_eq_some_iff.mp
    (show (Transition.replay (step 1) Orderly (start [1, 2] (fun _ => 3) 10)
        [.act 1 (.acceptConn true), .act 2 (.acceptConn true),
          .act 1 (.authLoginRsp 501 7 0), .act 2 (.authLoginRsp 501 7 0),
          .deliver 0, .deliver 0]).map
        (fun cluster => (decide (∀ serverID ∈ cluster.members,
            (cluster.servers serverID).insertFailed = false),
          cluster.inFlight, (cluster.servers 1).entry 7,
          (cluster.servers 2).userAt 501)) =
        some (true, [], some ⟨7, 2, 501, .active, 10⟩, none)
      by decide) with ⟨cluster, hreplay, hvalues⟩
  simp only [Prod.mk.injEq, decide_eq_true_eq] at hvalues
  rcases hvalues with ⟨hroom, hquiet, hentry, hclosed⟩
  have hreach := Transition.reaches_of_replay hreplay
  have hmembers := reaches_members hreach
  refine ⟨cluster, hreach, hroom, hquiet, ?_⟩
  intro hagree
  have hopen := (hagree.names_open 1 (by rw [hmembers]; simp) 7 _ hentry
    rfl).2
  unfold SessionOpen at hopen
  rw [hclosed] at hopen
  simp at hopen

end Cluster

end MessageBus.Conn
