import MessageBus.ConnDisconnect

/-!
# Connections and user table of one server

`CheckConn` and `MemFullCallBack` write `some error happen` to the log when a
connection and the user table disagree.  They agree in every run in which a
login response finds a connection that has no user yet; a second login on a
connection breaks the agreement.
-/

namespace MessageBus.Conn

/-- All entries of a message. -/
def Body.entries : Body → List LoginData
  | .loginNotice entries => entries
  | .disconnect entries => entries
  | .loginSyncReq _ => []
  | .loginSyncRsp entries => entries

namespace Server

variable {server before after : Server} {now : ℕ} {data : LoginData}
  {userID : UInt64} {connPos : UInt32}

/-- The checks of `CheckConn` and of `MemFullCallBack` pass. -/
structure ChecksPass (server : Server) : Prop where
  session_active : ∀ userID connPos, userID ≠ 0 →
    server.userAt connPos = some userID →
    ∃ info, server.entry userID = some info ∧ info.status = .active
  active_open : ∀ userID info, server.entry userID = some info →
    info.serverID = server.serverID → info.status = .active →
    server.userAt info.connPos = some userID
  unactive_closed : ∀ userID info, server.entry userID = some info →
    info.serverID = server.serverID → info.status = .unactive →
    server.userAt info.connPos ≠ some userID

structure Consistent (server : Server) : Prop where
  sound : server.Sound
  active_open : ∀ userID info, server.entry userID = some info →
    info.serverID = server.serverID → info.status = .active →
    server.userAt info.connPos = some userID
  no_zero : ∀ info, server.entry 0 = some info →
    info.serverID ≠ server.serverID

theorem Consistent.checksPass (hcons : server.Consistent) :
    server.ChecksPass := by
  constructor
  · intro userID connPos huser hconn
    rcases hcons.sound userID connPos huser hconn with
      ⟨info, hinfo, -, -, hactive⟩
    exact ⟨info, hinfo, hactive⟩
  · exact hcons.active_open
  · intro userID info hinfo hown hstatus hconn
    have huser : userID ≠ 0 := by
      rintro rfl
      exact hcons.no_zero info hinfo hown
    rcases hcons.sound userID info.connPos huser hconn with
      ⟨found, hfound, -, -, hactive⟩
    rw [hinfo, Option.some.injEq] at hfound
    rw [hfound, hactive] at hstatus
    simp at hstatus

theorem Consistent.of_onlyUser
    (hcons : before.Consistent) (honly : OnlyUser userID before after)
    (hsound : after.Sound)
    (hself : ∀ info, after.entry userID = some info →
      info.serverID = after.serverID → info.status = .active →
      after.userAt info.connPos = some userID)
    (hzero : userID = 0 → ∀ info, after.entry 0 = some info →
      info.serverID ≠ after.serverID) :
    after.Consistent := by
  constructor
  · exact hsound
  · intro other info hinfo hown hactive
    by_cases hsame : other = userID
    · subst hsame
      exact hself info hinfo hown hactive
    · rw [honly.entry_eq other hsame] at hinfo
      rw [honly.serverID_eq] at hown
      rw [honly.userAt_iff other hsame]
      exact hcons.active_open other info hinfo hown hactive
  · intro info hinfo
    by_cases hsame : userID = 0
    · exact hzero hsame info hinfo
    · rw [honly.entry_eq 0 (Ne.symm hsame)] at hinfo
      rw [honly.serverID_eq]
      exact hcons.no_zero info hinfo

/-! ## Every handler -/

theorem Consistent.loginEntry
    (hcons : server.Consistent) (hdata : data.serverID ≠ server.serverID)
    (hokay : (server.loginEntry now data).insertFailed = false) :
    (server.loginEntry now data).Consistent := by
  have honly := onlyUser_loginEntry server now data
  have hforeign : ∀ info,
      (server.loginEntry now data).entry data.userID = some info →
      server.loginEntry now data = server ∨
        info.serverID ≠ (server.loginEntry now data).serverID := by
    intro info hinfo
    rcases loginEntry_entry_self hinfo with hsame | hnamed
    · exact Or.inl hsame
    · right
      rw [hnamed, honly.serverID_eq]
      exact hdata
  apply hcons.of_onlyUser honly
  · exact (opensNone_loginEntry server now data).sound hcons.sound hokay
  · intro info hinfo hown hactive
    rcases hforeign info hinfo with hsame | hother
    · rw [hsame] at hinfo hown ⊢
      exact hcons.active_open data.userID info hinfo hown hactive
    · exact (hother hown).elim
  · intro hzero info hinfo
    rw [← hzero] at hinfo
    rcases hforeign info hinfo with hsame | hother
    · rw [hsame] at hinfo ⊢
      rw [hzero] at hinfo
      exact hcons.no_zero info hinfo
    · exact hother

theorem Consistent.releaseConn
    (hcons : server.Consistent) (now : ℕ) (connPos : UInt32)
    (bSend : Bool) (hokay : server.insertFailed = false) :
    (server.releaseConn now connPos bSend).1.Consistent := by
  constructor
  · apply (opensNone_releaseConn server now connPos bSend).sound hcons.sound
    rw [releaseConn_insertFailed]
    exact hokay
  · intro userID info hinfo hown hactive
    rw [releaseConn_serverID] at hown
    have huser : userID ≠ 0 := by
      rintro rfl
      rw [releaseConn_entry_zero] at hinfo
      exact hcons.no_zero info hinfo hown
    have hreleased : server.userAt connPos ≠ some userID := by
      intro hconn
      rw [releaseConn_entry_self hconn huser] at hinfo
      rcases Option.map_eq_some_iff.mp hinfo with ⟨old, -, rfl⟩
      simp at hactive
    rw [releaseConn_entry_of_ne hreleased] at hinfo
    have hopen := hcons.active_open userID info hinfo hown hactive
    rw [releaseConn_userAt_of_ne, hopen]
    intro hpos
    rw [hpos] at hopen
    exact hreleased hopen
  · intro info hinfo
    rw [releaseConn_entry_zero] at hinfo
    rw [releaseConn_serverID]
    exact hcons.no_zero info hinfo

theorem Consistent.disconnectEntry
    (hcons : server.Consistent) (now : ℕ)
    (hdata : data.serverID ≠ server.serverID)
    (hokay : server.insertFailed = false) :
    (server.disconnectEntry now data).Consistent := by
  rcases disconnectEntry_cases server now data with
    ⟨hsame, -⟩ | ⟨info, hinfo, -, ⟨-, -, -, hclose⟩ | ⟨-, hassign⟩⟩
  · rw [hsame]
    exact hcons
  · rw [hclose]
    exact hcons.releaseConn now info.connPos false hokay
  · have hforeign : ∀ found,
        (server.gnsAssign data.userID data.serverID data.connPos .unactive
          data.time).entry data.userID = some found →
        found.serverID ≠ server.serverID := by
      intro found hfound
      rw [gnsAssign_entry_self] at hfound
      rcases Option.map_eq_some_iff.mp hfound with ⟨old, -, rfl⟩
      exact hdata
    have hsound := (opensNone_disconnectEntry server now data).sound
      hcons.sound (disconnectEntry_insertFailed.trans hokay)
    rw [hassign] at hsound ⊢
    apply hcons.of_onlyUser onlyUser_gnsAssign hsound
    · intro found hfound hown _
      exact (hforeign found hfound hown).elim
    · intro hzero found hfound
      rw [← hzero] at hfound
      exact hforeign found hfound

theorem Consistent.foldl
    {handle : Server → LoginData → Server} {entries : List LoginData}
    (hopens : ∀ server data, OpensNone server (handle server data))
    (hhandle : ∀ server data, data.serverID ≠ server.serverID →
      (handle server data).insertFailed = false → server.Consistent →
      (handle server data).Consistent)
    (hentries : ∀ data ∈ entries, data.serverID ≠ server.serverID)
    (hokay : (entries.foldl handle server).insertFailed = false)
    (hcons : server.Consistent) :
    (entries.foldl handle server).Consistent := by
  induction entries generalizing server with
  | nil => exact hcons
  | cons data entries ih =>
      rw [List.foldl_cons] at hokay ⊢
      have hfirst := (OpensNone.foldl hopens entries _).failed hokay
      apply ih _ hokay
      · exact hhandle server data (hentries data (by simp)) hfirst hcons
      · intro other hother
        rw [(hopens server data).serverID_eq]
        exact hentries other (by simp [hother])

theorem Consistent.dealPkg
    {srcID : ℤ} {body : Body} (hcons : server.Consistent)
    (hbody : ∀ data ∈ body.entries, data.serverID ≠ server.serverID)
    (hokay : (server.dealPkg now srcID body).1.insertFailed = false) :
    (server.dealPkg now srcID body).1.Consistent := by
  cases body with
  | loginNotice entries =>
      exact Consistent.foldl (fun server => opensNone_loginEntry server now)
        (fun _ _ hdata hokay hcons => hcons.loginEntry hdata hokay) hbody
        hokay hcons
  | disconnect entries =>
      exact Consistent.foldl
        (fun server => opensNone_disconnectEntry server now)
        (fun _ _ hdata hokay hcons => hcons.disconnectEntry now hdata
          (disconnectEntry_insertFailed.symm.trans hokay)) hbody hokay hcons
  | loginSyncReq serverID =>
      simp only [Server.dealPkg]
      split_ifs
      · exact hcons
      · exact hcons
  | loginSyncRsp entries =>
      exact Consistent.foldl (fun server => opensNone_loginEntry server now)
        (fun _ _ hdata hokay hcons => hcons.loginEntry hdata hokay) hbody
        hokay hcons

theorem Consistent.acceptConn
    {fuel : ℕ} {ready : Bool} (hcons : server.Consistent)
    (hokay : server.insertFailed = false)
    (haccept : server.acceptConn fuel ready = some after) :
    after.Consistent := by
  have hopens := opensNone_acceptConn haccept
  rcases acceptConn_cases haccept with ⟨hserver, hfailed, hentry, huserAt⟩
  constructor
  · apply hopens.sound hcons.sound
    rw [hfailed]
    exact hokay
  · intro userID info hinfo hown hactive
    rw [hentry] at hinfo
    rw [hserver] at hown
    have hopen := hcons.active_open userID info hinfo hown hactive
    rcases huserAt info.connPos with hsame | ⟨hfree, -⟩
    · rw [hsame]
      exact hopen
    · rw [hfree] at hopen
      cases hopen
  · intro info hinfo
    rw [hentry] at hinfo
    rw [hserver]
    exact hcons.no_zero info hinfo

theorem Consistent.checkValid
    (hcons : server.Consistent) (now : ℕ)
    (hokay : server.insertFailed = false) :
    (server.checkValid now).Consistent := by
  have hentry : ∀ userID info,
      (server.checkValid now).entry userID = some info →
      server.entry userID = some info := by
    intro userID info hinfo
    rw [checkValid_entry] at hinfo
    split_ifs at hinfo
    exact hinfo
  constructor
  · exact (opensNone_checkValid server now).sound hcons.sound hokay
  · intro userID info hinfo hown hactive
    exact hcons.active_open userID info (hentry userID info hinfo) hown
      hactive
  · intro info hinfo
    exact hcons.no_zero info (hentry 0 info hinfo)

theorem consistent_restart (server : Server) :
    server.restart.1.Consistent := by
  have hnone : ∀ userID, server.restart.1.entry userID = none :=
    fun _ => BoundedMap.get_empty _ _
  constructor
  · intro userID connPos _ hconn
    rw [restart_userAt] at hconn
    simp at hconn
  · intro userID info hinfo
    rw [hnone] at hinfo
    simp at hinfo
  · intro info hinfo
    rw [hnone] at hinfo
    simp at hinfo

/-- A login on a connection that has no user yet. -/
theorem Consistent.loggedIn
    (hcons : before.Consistent)
    (hlogin : LoggedIn before after now connPos userID)
    (huser : userID ≠ 0) (hfresh : before.userAt connPos = some 0) :
    after.Consistent ∧ after.userAt connPos = some userID := by
  have hopen : after.userAt connPos = some userID := by
    apply hlogin.stays
    intro info hinfo hown hactive hpos
    have hold := hcons.active_open userID info hinfo hown hactive
    rw [hpos, hfresh, Option.some.injEq] at hold
    exact huser hold.symm
  refine ⟨⟨hlogin.sound hcons.sound, ?_, ?_⟩, hopen⟩
  · intro other info hinfo hown hactive
    by_cases hsame : other = userID
    · subst hsame
      rcases hlogin.entry_self with ⟨found, hfound, -, hpos, -, -⟩
      rw [hinfo, Option.some.injEq] at hfound
      rw [hfound, hpos]
      exact hopen
    · rw [hlogin.entry_eq other hsame] at hinfo
      rw [hlogin.serverID_eq] at hown
      have hold := hcons.active_open other info hinfo hown hactive
      apply (hlogin.userAt_iff other hsame info.connPos).mpr
      refine ⟨?_, hold⟩
      intro hpos
      rw [hpos, hfresh, Option.some.injEq] at hold
      subst hold
      exact hcons.no_zero info hinfo hown
  · intro info hinfo
    rw [hlogin.entry_eq 0 (Ne.symm huser)] at hinfo
    rw [hlogin.serverID_eq]
    exact hcons.no_zero info hinfo

/-! ## Where entries come from -/

theorem act_packets
    {fuel : ℕ} {action : Action} {result : Server × List Packet}
    (hact : server.act fuel now action = some result) {packet : Packet}
    (hpacket : packet ∈ result.2) :
    packet.sendType = .toGrpAllNoMe ∧
      ∀ data ∈ packet.body.entries, data.serverID = server.serverID := by
  cases action with
  | acceptConn ready =>
      rcases Option.map_eq_some_iff.mp hact with ⟨after, -, rfl⟩
      simp at hpacket
  | releaseConn connPos =>
      rw [← Option.some.inj hact] at hpacket
      rcases mem_releaseConn_packets hpacket with ⟨userID, -, -, rfl⟩
      simp [Body.entries]
  | authLoginRsp connPos userID answer =>
      rw [← Option.some.inj hact] at hpacket
      rcases mem_authLoginRsp_packets hpacket with ⟨-, rfl⟩
      simp [Body.entries]
  | checkValid =>
      rw [← Option.some.inj hact] at hpacket
      simp at hpacket
  | restart =>
      rw [← Option.some.inj hact] at hpacket
      rcases List.mem_append.mp hpacket with hsessions | hsync
      · rcases List.mem_map.mp hsessions with ⟨batch, hbatch, rfl⟩
        refine ⟨rfl, ?_⟩
        intro data hdata
        rcases mem_batches hbatch hdata with hnone | hown
        · simp at hnone
        · rcases mem_ownSessions hown with ⟨_, info, -, hserver, -, rfl⟩
          exact hserver
      · rw [List.mem_singleton.mp hsync]
        simp [Body.entries]

theorem dealPkg_packets
    {srcID : ℤ} {body : Body} {packet : Packet}
    (hpacket : packet ∈ (server.dealPkg now srcID body).2) :
    packet.sendType = .toSrv srcID ∧
      ∀ data ∈ packet.body.entries, data.serverID = server.serverID := by
  cases body with
  | loginNotice entries => simp [Server.dealPkg] at hpacket
  | disconnect entries => simp [Server.dealPkg] at hpacket
  | loginSyncReq serverID =>
      simp only [Server.dealPkg] at hpacket
      split_ifs at hpacket
      · simp at hpacket
      · rcases List.mem_map.mp hpacket with ⟨batch, hbatch, rfl⟩
        refine ⟨rfl, ?_⟩
        intro data hdata
        rcases mem_batches hbatch hdata with hnone | hown
        · simp at hnone
        · rcases mem_ownSessions hown with ⟨_, info, -, hserver, -, rfl⟩
          exact hserver
  | loginSyncRsp entries => simp [Server.dealPkg] at hpacket

end Server

namespace Cluster

variable {cluster after : Cluster} {fuel : ℕ} {event : Event}
  {serverID : ℤ} {result : Server × List Packet} {rest : List Message}

/-- A message comes from another server and speaks of that server's
sessions. -/
def Foreign (cluster : Cluster) : Prop :=
  ∀ message ∈ cluster.inFlight, message.srcID ≠ message.dstID ∧
    ∀ data ∈ message.body.entries, data.serverID = message.srcID

theorem Foreign.perform
    (hforeign : cluster.Foreign) (hrest : rest ⊆ cluster.inFlight)
    (hresult : ∀ packet ∈ result.2,
      (packet.sendType = .toGrpAllNoMe ∨
        ∃ dstID ≠ serverID, packet.sendType = .toSrv dstID) ∧
      ∀ data ∈ packet.body.entries, data.serverID = serverID) :
    (({ cluster with inFlight := rest } : Cluster).perform serverID
      result).Foreign := by
  intro message hmessage
  rcases List.mem_append.mp hmessage with hold | hnew
  · exact hforeign message (hrest hold)
  · rcases List.mem_flatMap.mp hnew with ⟨packet, hpacket, hroute⟩
    rcases hresult packet hpacket with ⟨hsend, hentries⟩
    have hcopy := mem_route hroute
    rw [hcopy.1, hcopy.2]
    refine ⟨?_, hentries⟩
    unfold route at hroute
    rcases hsend with hgroup | ⟨dstID, hne, hserver⟩
    · rw [hgroup] at hroute
      rcases List.mem_map.mp hroute with ⟨dstID, hdst, rfl⟩
      have hne := (List.mem_filter.mp hdst).2
      simpa using Ne.symm (of_decide_eq_true hne)
    · rw [hserver] at hroute
      rw [List.mem_singleton.mp hroute]
      exact hne.symm

theorem Foreign.step
    (hforeign : cluster.Foreign) (hknown : cluster.SessionsKnown)
    (hstep : cluster.step fuel event = some after) : after.Foreign := by
  rcases step_cases hstep with ⟨seconds, -, rfl⟩ |
    ⟨serverID, action, result, -, -, hact, rfl⟩ |
    ⟨index, message, -, hmessage, -, rfl⟩
  · exact hforeign
  · apply hforeign.perform (List.Subset.refl _)
    intro packet hpacket
    rcases Server.act_packets hact hpacket with ⟨hsend, hentries⟩
    rw [hknown.serverID_eq] at hentries
    exact ⟨Or.inl hsend, hentries⟩
  · apply hforeign.perform List.eraseIdx_subset
    intro packet hpacket
    rcases Server.dealPkg_packets hpacket with ⟨hsend, hentries⟩
    rw [hknown.serverID_eq] at hentries
    have hother := (hforeign message (List.mem_of_getElem? hmessage)).1
    exact ⟨Or.inr ⟨message.srcID, hother, hsend⟩, hentries⟩

/-! ## The result -/

/-- Successful login responses at the server are for a user other than 0 and
find a connection without a user, or none. -/
def FreshLogins (serverID : ℤ) (cluster : Cluster) : Event → Prop
  | .act atServer (.authLoginRsp connPos userID result) =>
      atServer = serverID → result = 0 → userID ≠ 0 ∧
        ((cluster.servers serverID).userAt connPos = none ∨
          (cluster.servers serverID).userAt connPos = some 0)
  | _ => True

instance (serverID : ℤ) (cluster : Cluster) (event : Event) :
    Decidable (FreshLogins serverID cluster event) :=
  match event with
  | .advance _ => isTrue trivial
  | .act _ (.acceptConn _) => isTrue trivial
  | .act _ (.releaseConn _) => isTrue trivial
  | .act _ (.authLoginRsp _ _ _) => inferInstanceAs (Decidable (_ → _))
  | .act _ .checkValid => isTrue trivial
  | .act _ .restart => isTrue trivial
  | .deliver _ => isTrue trivial

/-- The server's own part of a step. -/
theorem consistent_step
    (hforeign : cluster.Foreign) (hknown : cluster.SessionsKnown)
    (hcons : (cluster.servers serverID).insertFailed = false →
      (cluster.servers serverID).Consistent)
    (hfresh : FreshLogins serverID cluster event)
    (hstep : cluster.step fuel event = some after)
    (hokay : (after.servers serverID).insertFailed = false) :
    (after.servers serverID).Consistent := by
  rcases step_cases hstep with ⟨seconds, -, rfl⟩ |
    ⟨atServer, action, result, rfl, -, hact, rfl⟩ |
    ⟨index, message, -, hmessage, -, rfl⟩
  · exact hcons hokay
  · by_cases hsame : serverID = atServer
    · subst hsame
      rw [perform_servers_self] at hokay ⊢
      cases action with
      | acceptConn ready =>
          rcases Option.map_eq_some_iff.mp hact with ⟨after, haccept, rfl⟩
          have hbefore :=
            (Server.opensNone_acceptConn haccept).failed hokay
          exact (hcons hbefore).acceptConn hbefore haccept
      | releaseConn connPos =>
          rw [← Option.some.inj hact] at hokay ⊢
          rw [Server.releaseConn_insertFailed] at hokay
          exact (hcons hokay).releaseConn cluster.now connPos true hokay
      | authLoginRsp connPos userID answer =>
          rw [← Option.some.inj hact] at hokay ⊢
          have hbefore := Server.authLoginRsp_insertFailed hokay
          have hserver := hcons hbefore
          by_cases hanswer : answer = 0
          · subst hanswer
            rcases hfresh rfl rfl with ⟨huser, hnone | hzero⟩
            · rw [Server.authLoginRsp_of_missing 0 hnone]
              exact hserver
            · have hlogin := Server.authLoginRsp_loggedIn hserver.sound
                (by rw [hzero]; simp) hokay
              exact (hserver.loggedIn hlogin huser hzero).1
          · rw [Server.authLoginRsp_of_failed hanswer]
            exact hserver
      | checkValid =>
          rw [← Option.some.inj hact] at hokay ⊢
          exact (hcons hokay).checkValid cluster.now hokay
      | restart =>
          rw [← Option.some.inj hact]
          exact Server.consistent_restart _
    · rw [perform_servers_of_ne hsame] at hokay ⊢
      exact hcons hokay
  · by_cases hsame : serverID = message.dstID
    · subst hsame
      rw [perform_servers_self] at hokay ⊢
      have hbefore := (Server.opensNone_dealPkg _ _ _ _).failed hokay
      apply (hcons hbefore).dealPkg _ hokay
      intro data hdata
      have hmem := hforeign message (List.mem_of_getElem? hmessage)
      rw [hmem.2 data hdata, hknown.serverID_eq]
      exact hmem.1
    · rw [perform_servers_of_ne hsame] at hokay ⊢
      exact hcons hokay

/-- In every run in which the logins at a server are fresh, its connections
and its user table agree. -/
theorem connections_match_table
    (fuel : ℕ) (members : List ℤ) (gnsCapacity : ℤ → ℕ) (now : ℕ)
    (serverID : ℤ) (cluster : Cluster)
    (hreach : Transition.Reaches (step fuel) (FreshLogins serverID)
      (start members gnsCapacity now) cluster)
    (hroom : (cluster.servers serverID).insertFailed = false) :
    (cluster.servers serverID).ChecksPass := by
  have hall : cluster.SessionsKnown ∧ cluster.Foreign ∧
      ((cluster.servers serverID).insertFailed = false →
        (cluster.servers serverID).Consistent) := by
    apply hreach.invariant (fun cluster => cluster.SessionsKnown ∧
      cluster.Foreign ∧
      ((cluster.servers serverID).insertFailed = false →
        (cluster.servers serverID).Consistent))
    · refine ⟨start_sessionsKnown .., by simp [Foreign, start], ?_⟩
      intro _
      exact Server.consistent_restart
        (Server.start serverID (gnsCapacity serverID))
    · rintro before after event ⟨hknown, hforeign, hcons⟩ hfresh hstep
      exact ⟨hknown.step hstep, hforeign.step hknown hstep,
        consistent_step hforeign hknown hcons hfresh hstep⟩
  exact (hall.2.2 hroom).checksPass

/-- A user logs in, and the connection is closed. -/
theorem connections_match_table_closed :
    ∃ cluster, Transition.Reaches (step 1) (FreshLogins 1)
        (start [1, 2] (fun _ => 3) 10) cluster ∧
      (cluster.servers 1).insertFailed = false ∧
      (cluster.servers 1).ChecksPass := by
  rcases Option.map_eq_some_iff.mp
    (show (Transition.replay (step 1) (FreshLogins 1)
        (start [1, 2] (fun _ => 3) 10)
        [.act 1 (.acceptConn true), .act 1 (.authLoginRsp 501 7 0), .deliver 0,
          .advance 2, .act 1 (.releaseConn 501)]).map
        (fun cluster => (cluster.servers 1).insertFailed) = some false
      by decide) with ⟨cluster, hreplay, hroom⟩
  have hreach := Transition.reaches_of_replay hreplay
  exact ⟨cluster, hreach, hroom,
    connections_match_table 1 [1, 2] (fun _ => 3) 10 1 cluster hreach hroom⟩

/-- A second login of the user on the same connection closes the connection
and leaves its entry active. -/
theorem connections_match_table_fails_twice :
    ∃ cluster, Transition.Reaches (step 1) (fun _ _ => True)
        (start [1, 2] (fun _ => 3) 10) cluster ∧
      (cluster.servers 1).insertFailed = false ∧
      ¬ (cluster.servers 1).ChecksPass := by
  rcases Option.map_eq_some_iff.mp
    (show (Transition.replay (step 1) (fun _ _ => True)
        (start [1, 2] (fun _ => 3) 10)
        [.act 1 (.acceptConn true), .act 1 (.authLoginRsp 501 7 0),
          .act 1 (.authLoginRsp 501 7 0)]).map
        (fun cluster => ((cluster.servers 1).insertFailed,
          (cluster.servers 1).serverID, (cluster.servers 1).entry 7,
          (cluster.servers 1).userAt 501)) =
        some (false, 1, some ⟨7, 1, 501, .active, 10⟩, none)
      by decide) with ⟨cluster, hreplay, hvalues⟩
  simp only [Prod.mk.injEq] at hvalues
  rcases hvalues with ⟨hroom, hserver, hentry, hclosed⟩
  refine ⟨cluster, Transition.reaches_of_replay hreplay, hroom, ?_⟩
  intro hpass
  have hopen := hpass.active_open 7 _ hentry hserver.symm rfl
  rw [hclosed] at hopen
  simp at hopen

end Cluster

end MessageBus.Conn
