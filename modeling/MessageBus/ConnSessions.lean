import MessageBus.ConnCluster

/-!
# One session per user

Every handler but that of a login response can only end sessions.  A login
ends the other sessions of the user on its own server at once and those on
other servers when its notice arrives; two sessions of one user therefore
coexist only while a notice that will end one of them is in flight.
-/

namespace MessageBus.Conn

namespace Server

variable {server before middle after : Server} {now : ℕ}
  {data : LoginData} {userID : UInt64} {connPos : UInt32}

theorem Sound.of_onlyUser
    (hsound : before.Sound) (honly : OnlyUser userID before after)
    (hself : userID ≠ 0 → ∀ pos, after.userAt pos = some userID →
      ∃ info, after.entry userID = some info ∧
        info.serverID = after.serverID ∧ info.connPos = pos ∧
          info.status = .active) :
    after.Sound := by
  intro other pos hother hafter
  by_cases hsame : other = userID
  · subst hsame
    exact hself hother pos hafter
  · rw [honly.entry_eq other hsame, honly.serverID_eq]
    exact hsound other pos hother ((honly.userAt_iff other hsame pos).mp hafter)

/-! ## Handlers that open no session -/

/-- The handler opens no session and leaves the entries of those that stay. -/
structure OpensNone (before after : Server) : Prop where
  serverID_eq : after.serverID = before.serverID
  failed : after.insertFailed = false → before.insertFailed = false
  sound : before.Sound → after.insertFailed = false → after.Sound
  sessions : before.Sound → after.insertFailed = false →
    ∀ userID ≠ 0, ∀ pos, after.userAt pos = some userID →
      before.userAt pos = some userID ∧
        after.entry userID = before.entry userID

theorem OpensNone.refl (server : Server) : OpensNone server server :=
  ⟨rfl, id, fun hsound _ => hsound, fun _ _ _ _ _ hafter => ⟨hafter, rfl⟩⟩

theorem OpensNone.trans
    (hfirst : OpensNone before middle) (hsecond : OpensNone middle after) :
    OpensNone before after := by
  constructor
  · rw [hsecond.serverID_eq, hfirst.serverID_eq]
  · intro hokay
    exact hfirst.failed (hsecond.failed hokay)
  · intro hsound hokay
    exact hsecond.sound (hfirst.sound hsound (hsecond.failed hokay)) hokay
  · intro hsound hokay userID huser pos hafter
    have hokay' := hsecond.failed hokay
    have hlast := hsecond.sessions (hfirst.sound hsound hokay') hokay
      userID huser pos hafter
    have hinit := hfirst.sessions hsound hokay' userID huser pos hlast.1
    exact ⟨hinit.1, hlast.2.trans hinit.2⟩

theorem OpensNone.foldl
    {handle : Server → LoginData → Server}
    (hhandle : ∀ server data, OpensNone server (handle server data))
    (entries : List LoginData) (server : Server) :
    OpensNone server (entries.foldl handle server) :=
  foldl_related OpensNone.refl OpensNone.trans hhandle entries server

theorem opensNone_loginEntry
    (server : Server) (now : ℕ) (data : LoginData) :
    OpensNone server (server.loginEntry now data) := by
  have honly := onlyUser_loginEntry server now data
  -- a session of the user after the entry can only be one that was kept
  have hkept : server.Sound →
      (server.loginEntry now data).insertFailed = false →
      data.userID ≠ 0 → ∀ pos,
      (server.loginEntry now data).userAt pos = some data.userID →
        server.loginEntry now data = server := by
    intro hsound hokay huser pos hafter
    rcases loginEntry_cases hsound huser hokay with
      ⟨_, _, _, hsame⟩ | ⟨_, _, hnone⟩
    · exact hsame
    · exact (hnone pos hafter).elim
  constructor
  · exact honly.serverID_eq
  · exact loginEntry_insertFailed
  · intro hsound hokay
    apply hsound.of_onlyUser honly
    intro huser pos hafter
    have hsame := hkept hsound hokay huser pos hafter
    rw [hsame] at hafter ⊢
    exact hsound data.userID pos huser hafter
  · intro hsound hokay userID huser pos hafter
    by_cases huserID : userID = data.userID
    · subst huserID
      have hsame := hkept hsound hokay huser pos hafter
      rw [hsame] at hafter ⊢
      exact ⟨hafter, rfl⟩
    · exact ⟨(honly.userAt_iff userID huserID pos).mp hafter,
        honly.entry_eq userID huserID⟩

theorem opensNone_releaseConn
    (server : Server) (now : ℕ) (connPos : UInt32) (bSend : Bool) :
    OpensNone server (server.releaseConn now connPos bSend).1 := by
  have hsessions : server.Sound → ∀ userID ≠ 0, ∀ pos,
      (server.releaseConn now connPos bSend).1.userAt pos = some userID →
        server.userAt pos = some userID ∧
          (server.releaseConn now connPos bSend).1.entry userID =
            server.entry userID := by
    intro hsound userID huser pos hafter
    have hne : pos ≠ connPos := by
      rintro rfl
      rw [releaseConn_userAt_self] at hafter
      simp at hafter
    rw [releaseConn_userAt_of_ne hne] at hafter
    refine ⟨hafter, releaseConn_entry_of_ne ?_⟩
    -- two connections of one user would both be the one in the table
    intro hreleased
    rcases hsound userID pos huser hafter with ⟨info, hinfo, -, hpos, -⟩
    rcases hsound userID connPos huser hreleased with
      ⟨other, hother, -, hconn, -⟩
    rw [hinfo, Option.some.injEq] at hother
    rw [← hpos, hother, hconn] at hne
    exact hne rfl
  constructor
  · exact releaseConn_serverID
  · rw [releaseConn_insertFailed]
    exact id
  · intro hsound _ userID pos huser hafter
    rcases hsessions hsound userID huser pos hafter with ⟨hbefore, hentry⟩
    rw [hentry, releaseConn_serverID]
    exact hsound userID pos huser hbefore
  · intro hsound _
    exact hsessions hsound

theorem opensNone_disconnectEntry
    (server : Server) (now : ℕ) (data : LoginData) :
    OpensNone server (server.disconnectEntry now data) := by
  rcases disconnectEntry_cases server now data with
    ⟨hsame, -⟩ | ⟨info, hentry, -, ⟨-, -, -, hclose⟩ | ⟨hown, hassign⟩⟩
  · rw [hsame]
    exact OpensNone.refl server
  · rw [hclose]
    exact opensNone_releaseConn server now info.connPos false
  · rw [hassign]
    have hnone : server.Sound → data.userID ≠ 0 →
        ∀ pos, server.userAt pos ≠ some data.userID := by
      intro hsound huser
      apply userAt_ne_of_not_own hsound huser
      intro found hfound
      rw [hentry, Option.some.injEq] at hfound
      rw [← hfound]
      exact hown
    constructor
    · rfl
    · exact id
    · intro hsound _
      apply hsound.of_onlyUser onlyUser_gnsAssign
      intro huser pos hafter
      exact (hnone hsound huser pos hafter).elim
    · intro hsound _ userID huser pos hafter
      by_cases huserID : userID = data.userID
      · subst huserID
        exact (hnone hsound huser pos hafter).elim
      · exact ⟨hafter, gnsAssign_entry_of_ne huserID⟩

theorem opensNone_dealPkg
    (server : Server) (now : ℕ) (srcID : ℤ) (body : Body) :
    OpensNone server (server.dealPkg now srcID body).1 :=
  dealPkg_related OpensNone.refl OpensNone.trans
    (fun server => opensNone_loginEntry server now)
    (fun server => opensNone_disconnectEntry server now) server srcID body

theorem opensNone_acceptConn
    {fuel : ℕ} {ready : Bool}
    (haccept : server.acceptConn fuel ready = some after) :
    OpensNone server after := by
  rcases acceptConn_cases haccept with ⟨hserver, hfailed, hentry, huserAt⟩
  have hsessions : ∀ userID ≠ 0, ∀ pos, after.userAt pos = some userID →
      server.userAt pos = some userID := by
    intro userID huser pos hafter
    rcases huserAt pos with hsame | ⟨-, hnew⟩
    · rw [← hsame]
      exact hafter
    · rw [hnew, Option.some.injEq] at hafter
      exact (huser hafter.symm).elim
  constructor
  · exact hserver
  · rw [hfailed]
    exact id
  · intro hsound _ userID pos huser hafter
    rw [hentry, hserver]
    exact hsound userID pos huser (hsessions userID huser pos hafter)
  · intro _ _ userID huser pos hafter
    exact ⟨hsessions userID huser pos hafter, hentry userID⟩

theorem opensNone_checkValid (server : Server) (now : ℕ) :
    OpensNone server (server.checkValid now) := by
  have hentry : server.Sound → ∀ userID ≠ 0, ∀ pos,
      server.userAt pos = some userID →
        (server.checkValid now).entry userID = server.entry userID := by
    intro hsound userID huser pos hconn
    rcases hsound userID pos huser hconn with ⟨info, hinfo, -, -, hactive⟩
    rw [checkValid_entry_of_active hinfo hactive, hinfo]
  constructor
  · rfl
  · exact id
  · intro hsound _ userID pos huser hafter
    rw [hentry hsound userID huser pos hafter]
    exact hsound userID pos huser hafter
  · intro hsound _ userID huser pos hafter
    exact ⟨hafter, hentry hsound userID huser pos hafter⟩

theorem restart_userAt (server : Server) (pos : UInt32) :
    server.restart.1.userAt pos = none := rfl

theorem opensNone_restart (server : Server) :
    OpensNone server server.restart.1 := by
  constructor
  · rfl
  · exact id
  · intro _ _ userID pos _ hafter
    rw [restart_userAt] at hafter
    simp at hafter
  · intro _ _ userID _ pos hafter
    rw [restart_userAt] at hafter
    simp at hafter

/-! ## Logins -/

theorem LoggedIn.sound
    (hlogin : LoggedIn before after now connPos userID)
    (hsound : before.Sound) : after.Sound := by
  intro other pos hother hafter
  rw [hlogin.serverID_eq]
  by_cases hsame : other = userID
  · subst hsame
    rcases hlogin.entry_self with ⟨info, hinfo, hserver, hpos, hstatus, -⟩
    have hconn := hlogin.userAt_self hother pos hafter
    refine ⟨info, hinfo, hserver, ?_, hstatus⟩
    rw [hpos, hconn]
  · rw [hlogin.entry_eq other hsame]
    exact hsound other pos hother
      ((hlogin.userAt_iff other hsame pos).mp hafter).2

/-- Two cases of an action: it opens no session, or it is a login. -/
theorem act_cases
    {fuel : ℕ} {action : Action} {result : Server × List Packet}
    (hact : server.act fuel now action = some result) :
    OpensNone server result.1 ∨
      ∃ connPos userID, action = .authLoginRsp connPos userID 0 ∧
        server.userAt connPos ≠ none ∧
        result = server.authLoginRsp now connPos userID 0 := by
  cases action with
  | acceptConn ready =>
      left
      rcases Option.map_eq_some_iff.mp hact with ⟨after, haccept, rfl⟩
      exact opensNone_acceptConn haccept
  | releaseConn connPos =>
      left
      rw [← Option.some.inj hact]
      exact opensNone_releaseConn server now connPos true
  | authLoginRsp connPos userID answer =>
      have hresult := (Option.some.inj hact).symm
      by_cases hanswer : answer = 0
      · subst hanswer
        by_cases hconn : server.userAt connPos = none
        · left
          rw [hresult, authLoginRsp_of_missing 0 hconn]
          exact OpensNone.refl server
        · right
          exact ⟨connPos, userID, rfl, hconn, hresult⟩
      · left
        rw [hresult, authLoginRsp_of_failed hanswer]
        exact OpensNone.refl server
  | checkValid =>
      left
      rw [← Option.some.inj hact]
      exact opensNone_checkValid server now
  | restart =>
      left
      rw [← Option.some.inj hact]
      exact opensNone_restart server

/-! ## A notice that arrives -/

theorem foldl_loginEntry_ends
    {entries : List LoginData}
    (hsound : server.Sound) (huser : userID ≠ 0)
    (hokay : (entries.foldl (fun server => server.loginEntry now)
      server).insertFailed = false)
    (hentry : ∃ data ∈ entries, data.userID = userID ∧
      ∀ info, server.entry userID = some info →
        info.lastActiveTime ≤ data.time)
    (pos : UInt32) :
    (entries.foldl (fun server => server.loginEntry now) server).userAt pos ≠
      some userID := by
  induction entries generalizing server with
  | nil => simp at hentry
  | cons first entries ih =>
      rw [List.foldl_cons] at hokay ⊢
      have hfirst := opensNone_loginEntry server now first
      have hrest := OpensNone.foldl
        (fun server => opensNone_loginEntry server now) entries
        (server.loginEntry now first)
      have hokay' := hrest.failed hokay
      have hsound' := hfirst.sound hsound hokay'
      intro hafter
      have hmiddle := hrest.sessions hsound' hokay userID huser pos hafter
      have hkept := hfirst.sessions hsound hokay' userID huser pos hmiddle.1
      rcases hentry with ⟨data, hdata, hsame, htime⟩
      rcases List.mem_cons.mp hdata with rfl | hdata
      · subst hsame
        rcases loginEntry_cases hsound huser hokay' with
          ⟨info, hinfo, hnewer, -⟩ | ⟨-, -, hnone⟩
        · have holder := htime info hinfo
          omega
        · exact hnone pos hmiddle.1
      · rw [← hkept.2] at htime
        exact ih hsound' hokay ⟨data, hdata, hsame, htime⟩ hafter

end Server

/-! ## The invariant of the cluster -/

/-- A login notice that ends the session of a user when it arrives. -/
def Message.Ends (message : Message) (server : Server) (userID : UInt64) :
    Prop :=
  ∃ entries, message.body = .loginNotice entries ∧
    ∃ data ∈ entries, data.userID = userID ∧
      ∀ info, server.entry userID = some info →
        info.lastActiveTime ≤ data.time

namespace Cluster

def Pending (cluster : Cluster) (serverID : ℤ) (userID : UInt64) : Prop :=
  ∃ message ∈ cluster.inFlight, message.dstID = serverID ∧
    message.Ends (cluster.servers serverID) userID

/-- The server hosts a session of the user, and its table is in order. -/
def Hosts (cluster : Cluster) (serverID : ℤ) (userID : UInt64) : Prop :=
  serverID ∈ cluster.members ∧
    (cluster.servers serverID).insertFailed = false ∧
    ∃ connPos, (cluster.servers serverID).userAt connPos = some userID

structure SessionsKnown (cluster : Cluster) : Prop where
  serverID_eq : ∀ serverID,
    (cluster.servers serverID).serverID = serverID
  sound : ∀ serverID, (cluster.servers serverID).insertFailed = false →
    (cluster.servers serverID).Sound
  time_le : ∀ serverID userID info, userID ≠ 0 →
    cluster.Hosts serverID userID →
    (cluster.servers serverID).entry userID = some info →
    info.lastActiveTime ≤ cluster.now
  pending : ∀ first second userID, userID ≠ 0 → first ≠ second →
    cluster.Hosts first userID → cluster.Hosts second userID →
    cluster.Pending first userID ∨ cluster.Pending second userID

variable {cluster after : Cluster} {fuel : ℕ} {event : Event}
  {serverID other : ℤ} {result : Server × List Packet}
  {rest : List Message} {userID : UInt64}

@[simp] theorem perform_servers_self :
    (cluster.perform serverID result).servers serverID = result.1 :=
  Function.update_self ..

@[simp] theorem perform_servers_of_ne (hne : other ≠ serverID) :
    (cluster.perform serverID result).servers other = cluster.servers other :=
  Function.update_of_ne hne ..

/-- What holds of every server, and of the one that moves when it has moved,
holds of every server afterwards. -/
theorem forall_perform (holds : ℤ → Server → Prop)
    (hbefore : ∀ other, holds other (cluster.servers other))
    (hself : holds serverID result.1) (other : ℤ) :
    holds other ((cluster.perform serverID result).servers other) := by
  by_cases hsame : other = serverID
  · subst hsame
    rw [perform_servers_self]
    exact hself
  · rw [perform_servers_of_ne hsame]
    exact hbefore other

theorem start_sessionsKnown
    (members : List ℤ) (gnsCapacity : ℤ → ℕ) (now : ℕ) :
    (start members gnsCapacity now).SessionsKnown := by
  constructor
  · intro serverID
    rfl
  · intro serverID _ userID connPos _ hconn
    simp [start, Server.start, Server.userAt] at hconn
  · rintro serverID userID info - ⟨-, -, connPos, hconn⟩
    simp [start, Server.start, Server.userAt] at hconn
  · rintro first second userID - - ⟨-, -, connPos, hconn⟩
    simp [start, Server.start, Server.userAt] at hconn

/-- What a session after a step that opens none was before the step. -/
theorem Hosts.before
    (hknown : cluster.SessionsKnown)
    (hopens : Server.OpensNone (cluster.servers serverID) result.1)
    (huser : userID ≠ 0)
    (hhosts : (({ cluster with inFlight := rest } : Cluster).perform serverID
      result).Hosts other userID) :
    cluster.Hosts other userID ∧
      ((({ cluster with inFlight := rest } : Cluster).perform serverID
        result).servers other).entry userID =
          (cluster.servers other).entry userID := by
  rcases hhosts with ⟨hmember, hokay, connPos, hconn⟩
  by_cases hsame : other = serverID
  · subst hsame
    rw [perform_servers_self] at hokay hconn ⊢
    have hbefore := hopens.failed hokay
    have hsession := hopens.sessions (hknown.sound other hbefore) hokay
      userID huser connPos hconn
    exact ⟨⟨hmember, hbefore, connPos, hsession.1⟩, hsession.2⟩
  · rw [perform_servers_of_ne hsame] at hokay hconn ⊢
    exact ⟨⟨hmember, hokay, connPos, hconn⟩, rfl⟩

/-- A step that opens no session, and that takes a message out of flight only
by delivering it. -/
theorem SessionsKnown.opensNone
    (hknown : cluster.SessionsKnown)
    (hopens : Server.OpensNone (cluster.servers serverID) result.1)
    (hrest : ∀ message ∈ cluster.inFlight, message ∈ rest ∨
      message.dstID = serverID ∧ ∀ userID ≠ 0,
        (cluster.servers serverID).Sound →
        result.1.insertFailed = false →
        message.Ends (cluster.servers serverID) userID →
        ∀ pos, result.1.userAt pos ≠ some userID) :
    (({ cluster with inFlight := rest } : Cluster).perform serverID
      result).SessionsKnown := by
  -- a pending notice is still in flight, or the session it ends is gone
  have hpending : ∀ other userID, userID ≠ 0 →
      (({ cluster with inFlight := rest } : Cluster).perform serverID
        result).Hosts other userID →
      cluster.Pending other userID →
      (({ cluster with inFlight := rest } : Cluster).perform serverID
        result).Pending other userID := by
    intro other userID huser hhosts hpending
    rcases hhosts.before hknown hopens huser with ⟨hbefore, hentry⟩
    rcases hpending with ⟨message, hmessage, hdst, entries, hbody, data,
      hdata, hsame, htime⟩
    rcases hrest message hmessage with hkept | ⟨hself, hends⟩
    · refine ⟨message, List.mem_append_left _ hkept, hdst, entries, hbody,
        data, hdata, hsame, ?_⟩
      rw [hentry]
      exact htime
    · rw [hdst] at hself
      subst hself
      rcases hhosts with ⟨-, hokay, connPos, hconn⟩
      rw [perform_servers_self] at hokay hconn
      exact (hends userID huser
        (hknown.sound other (hopens.failed hokay)) hokay
        ⟨entries, hbody, data, hdata, hsame, htime⟩ connPos hconn).elim
  constructor
  · exact forall_perform (fun other server => server.serverID = other)
      hknown.serverID_eq
      (hopens.serverID_eq.trans (hknown.serverID_eq serverID))
  · exact forall_perform
      (fun _ server => server.insertFailed = false → server.Sound)
      hknown.sound fun hokay =>
        hopens.sound (hknown.sound serverID (hopens.failed hokay)) hokay
  · intro other userID info huser hhosts hinfo
    rcases hhosts.before hknown hopens huser with ⟨hbefore, hentry⟩
    rw [hentry] at hinfo
    exact hknown.time_le other userID info huser hbefore hinfo
  · intro first second userID huser hne hfirst hsecond
    have hfirst' := (hfirst.before hknown hopens huser).1
    have hsecond' := (hsecond.before hknown hopens huser).1
    rcases hknown.pending first second userID huser hne hfirst' hsecond' with
      hleft | hright
    · exact Or.inl (hpending first userID huser hfirst hleft)
    · exact Or.inr (hpending second userID huser hsecond hright)

/-- A session after a login that is not one of the user who has logged in. -/
theorem Hosts.before_login
    {connPos : UInt32} {loginUser : UInt64}
    (hlogin : (result.1.insertFailed = false →
      Server.LoggedIn (cluster.servers serverID) result.1 cluster.now connPos
        loginUser))
    (hfailed : result.1.insertFailed = false →
      (cluster.servers serverID).insertFailed = false)
    (hhosts : (cluster.perform serverID result).Hosts other userID)
    (hother : other ≠ serverID ∨ userID ≠ loginUser) :
    cluster.Hosts other userID ∧
      ((cluster.perform serverID result).servers other).entry userID =
        (cluster.servers other).entry userID := by
  rcases hhosts with ⟨hmember, hokay, pos, hconn⟩
  by_cases hsame : other = serverID
  · subst hsame
    rw [perform_servers_self] at hokay hconn ⊢
    have huser : userID ≠ loginUser := by
      rcases hother with hne | huser
      · exact (hne rfl).elim
      · exact huser
    have hbefore :=
      (((hlogin hokay).userAt_iff userID huser pos).mp hconn).2
    exact ⟨⟨hmember, hfailed hokay, pos, hbefore⟩,
      (hlogin hokay).entry_eq userID huser⟩
  · rw [perform_servers_of_ne hsame] at hokay hconn ⊢
    exact ⟨⟨hmember, hokay, pos, hconn⟩, rfl⟩

/-- The login is announced to every other server that hosts the user. -/
theorem SessionsKnown.announced
    {connPos : UInt32} {loginUser : UInt64}
    (hknown : cluster.SessionsKnown)
    (hpackets : result.2 = [⟨.toGrpAllNoMe, .loginNotice
      [⟨loginUser, (cluster.servers serverID).serverID, connPos,
        cluster.now⟩]⟩])
    (huser : loginUser ≠ 0) (hne : other ≠ serverID)
    (hbefore : cluster.Hosts other loginUser) :
    (cluster.perform serverID result).Pending other loginUser := by
  have hmem : (⟨serverID, other, .loginNotice
      [⟨loginUser, (cluster.servers serverID).serverID, connPos,
        cluster.now⟩]⟩ : Message) ∈
      (cluster.perform serverID result).inFlight := by
    apply mem_inFlight_of_group _ hbefore.1 hne
    rw [hpackets]
    exact List.mem_singleton.mpr rfl
  refine ⟨_, hmem, rfl, _, rfl, _, List.mem_singleton.mpr rfl, rfl, ?_⟩
  intro info hinfo
  rw [perform_servers_of_ne hne] at hinfo
  exact hknown.time_le other loginUser info huser hbefore hinfo

/-- A notice stays pending while the entry it ends stays as it is. -/
theorem Pending.perform
    (hpending : cluster.Pending other userID)
    (hentry : ((cluster.perform serverID result).servers other).entry userID =
      (cluster.servers other).entry userID) :
    (cluster.perform serverID result).Pending other userID := by
  rcases hpending with ⟨message, hmessage, hdst, entries, hbody, data,
    hdata, hsame, htime⟩
  refine ⟨message, List.mem_append_left _ hmessage, hdst, entries, hbody,
    data, hdata, hsame, ?_⟩
  rw [hentry]
  exact htime

theorem SessionsKnown.login
    {connPos : UInt32} {loginUser : UInt64}
    (hknown : cluster.SessionsKnown)
    (hconn : (cluster.servers serverID).userAt connPos ≠ none)
    (hresult : result = (cluster.servers serverID).authLoginRsp cluster.now
      connPos loginUser 0) :
    (cluster.perform serverID result).SessionsKnown := by
  have hfailed : result.1.insertFailed = false →
      (cluster.servers serverID).insertFailed = false := by
    rw [hresult]
    exact Server.authLoginRsp_insertFailed
  have hlogin : result.1.insertFailed = false →
      Server.LoggedIn (cluster.servers serverID) result.1 cluster.now connPos
        loginUser := by
    intro hokay
    have hsound := hknown.sound serverID (hfailed hokay)
    rw [hresult] at hokay ⊢
    exact Server.authLoginRsp_loggedIn hsound hconn hokay
  have hpackets : result.2 = [⟨.toGrpAllNoMe, .loginNotice
      [⟨loginUser, (cluster.servers serverID).serverID, connPos,
        cluster.now⟩]⟩] := by
    rw [hresult]
    exact Server.authLoginRsp_packets hconn
  constructor
  · refine forall_perform (fun other server => server.serverID = other)
      hknown.serverID_eq ?_
    rw [hresult, Server.authLoginRsp_serverID]
    exact hknown.serverID_eq serverID
  · exact forall_perform
      (fun _ server => server.insertFailed = false → server.Sound)
      hknown.sound fun hokay =>
        (hlogin hokay).sound (hknown.sound serverID (hfailed hokay))
  · intro other userID info huser hhosts hinfo
    by_cases hself : other = serverID ∧ userID = loginUser
    · rcases hself with ⟨rfl, rfl⟩
      have hokay := hhosts.2.1
      rw [perform_servers_self] at hokay hinfo
      rcases (hlogin hokay).entry_self with ⟨found, hfound, -, -, -, htime⟩
      rw [hinfo, Option.some.injEq] at hfound
      rw [hfound]
      exact htime.le
    · have hother : other ≠ serverID ∨ userID ≠ loginUser :=
        not_and_or.mp hself
      rcases hhosts.before_login hlogin hfailed hother with
        ⟨hbefore, hentry⟩
      rw [hentry] at hinfo
      exact hknown.time_le other userID info huser hbefore hinfo
  · intro first second userID huser hne hfirst hsecond
    by_cases hlogged : userID = loginUser
    · subst hlogged
      by_cases hfirstSelf : first = serverID
      · right
        have hother : second ≠ serverID := by
          rw [← hfirstSelf]
          exact hne.symm
        exact hknown.announced hpackets huser hother
          (hsecond.before_login hlogin hfailed (Or.inl hother)).1
      · left
        exact hknown.announced hpackets huser hfirstSelf
          (hfirst.before_login hlogin hfailed (Or.inl hfirstSelf)).1
    · have hfirst' := hfirst.before_login hlogin hfailed (Or.inr hlogged)
      have hsecond' := hsecond.before_login hlogin hfailed (Or.inr hlogged)
      rcases hknown.pending first second userID huser hne hfirst'.1 hsecond'.1
        with hleft | hright
      · exact Or.inl (hleft.perform hfirst'.2)
      · exact Or.inr (hright.perform hsecond'.2)

theorem SessionsKnown.step
    (hknown : cluster.SessionsKnown)
    (hstep : cluster.step fuel event = some after) :
    after.SessionsKnown := by
  rcases step_cases hstep with ⟨seconds, -, rfl⟩ |
    ⟨serverID, action, result, -, -, hact, rfl⟩ |
    ⟨index, message, -, hmessage, -, rfl⟩
  · refine ⟨hknown.serverID_eq, hknown.sound, ?_, hknown.pending⟩
    intro serverID userID info huser hhosts hinfo
    have hle := hknown.time_le serverID userID info huser hhosts hinfo
    exact hle.trans (Nat.le_add_right _ _)
  · rcases Server.act_cases hact with hopens |
      ⟨connPos, userID, -, hconn, hresult⟩
    · exact hknown.opensNone hopens fun message hmem => Or.inl hmem
    · exact hknown.login hconn hresult
  · apply hknown.opensNone (Server.opensNone_dealPkg ..)
    intro other hother
    rcases mem_eraseIdx_or_eq hmessage hother with rfl | hkept
    · right
      refine ⟨rfl, ?_⟩
      rintro userID huser hsound hokay ⟨entries, hbody, hentry⟩ pos
      rw [hbody] at hokay ⊢
      exact Server.foldl_loginEntry_ends hsound huser hokay hentry pos
    · exact Or.inl hkept

theorem reaches_sessionsKnown
    {allowed : Cluster → Event → Prop} {members : List ℤ}
    {gnsCapacity : ℤ → ℕ} {now : ℕ}
    (hreach : Transition.Reaches (step fuel) allowed
      (start members gnsCapacity now) cluster) :
    cluster.SessionsKnown :=
  hreach.invariant SessionsKnown (start_sessionsKnown ..)
    fun _ _ _ hknown _ hstep => hknown.step hstep

theorem reaches_members
    {allowed : Cluster → Event → Prop} {members : List ℤ}
    {gnsCapacity : ℤ → ℕ} {now : ℕ}
    (hreach : Transition.Reaches (step fuel) allowed
      (start members gnsCapacity now) cluster) :
    cluster.members = members := by
  apply hreach.invariant (fun cluster => cluster.members = members) rfl
  intro before after event hbefore _ hstep
  rcases step_cases hstep with ⟨seconds, -, rfl⟩ |
    ⟨serverID, action, result, -, -, -, rfl⟩ | ⟨index, message, -, -, -, rfl⟩
  · exact hbefore
  · exact hbefore
  · exact hbefore

end Cluster

/-! ## The result -/

def Body.Mentions (body : Body) (userID : UInt64) : Prop :=
  match body with
  | .loginNotice entries => ∃ data ∈ entries, data.userID = userID
  | .disconnect entries => ∃ data ∈ entries, data.userID = userID
  | .loginSyncReq _ => False
  | .loginSyncRsp entries => ∃ data ∈ entries, data.userID = userID

namespace Cluster

/-- In every run without a failed insertion, a server hosts at most one
session of a user, and so does the whole cluster when no notice about the user
is in flight. -/
theorem single_session_per_user
    (fuel : ℕ) (members : List ℤ) (gnsCapacity : ℤ → ℕ) (now : ℕ)
    (cluster : Cluster)
    (hreach : Transition.Reaches (step fuel) (fun _ _ => True)
      (start members gnsCapacity now) cluster)
    (hroom : ∀ serverID ∈ members,
      (cluster.servers serverID).insertFailed = false)
    (userID : UInt64) (huser : userID ≠ 0) :
    (∀ serverID ∈ members, ∀ first second,
      (cluster.servers serverID).userAt first = some userID →
      (cluster.servers serverID).userAt second = some userID →
      first = second) ∧
    ((∀ message ∈ cluster.inFlight, ¬ message.body.Mentions userID) →
      ∀ serverID ∈ members, ∀ otherID ∈ members, ∀ first second,
      (cluster.servers serverID).userAt first = some userID →
      (cluster.servers otherID).userAt second = some userID →
      serverID = otherID ∧ first = second) := by
  have hknown := reaches_sessionsKnown hreach
  have hmembers := reaches_members hreach
  have hlocal : ∀ serverID ∈ members, ∀ first second,
      (cluster.servers serverID).userAt first = some userID →
      (cluster.servers serverID).userAt second = some userID →
      first = second := by
    intro serverID hmember first second hfirst hsecond
    have hsound := hknown.sound serverID (hroom serverID hmember)
    rcases hsound userID first huser hfirst with ⟨info, hinfo, -, hpos, -⟩
    rcases hsound userID second huser hsecond with
      ⟨other, hother, -, hpos', -⟩
    rw [hinfo, Option.some.injEq] at hother
    rw [← hpos, ← hpos', hother]
  constructor
  · exact hlocal
  · intro hquiet serverID hmember otherID hmember' first second hfirst hsecond
    have hnone : ∀ serverID, ¬ cluster.Pending serverID userID := by
      rintro serverID ⟨message, hmessage, -, entries, hbody, data, hdata,
        hsame, -⟩
      apply hquiet message hmessage
      rw [hbody]
      exact ⟨data, hdata, hsame⟩
    have hsame : serverID = otherID := by
      by_contra hne
      have hhosts : cluster.Hosts serverID userID :=
        ⟨by rw [hmembers]; exact hmember, hroom serverID hmember, first,
          hfirst⟩
      have hhosts' : cluster.Hosts otherID userID :=
        ⟨by rw [hmembers]; exact hmember', hroom otherID hmember', second,
          hsecond⟩
      rcases hknown.pending serverID otherID userID huser hne hhosts hhosts'
        with hleft | hright
      · exact hnone serverID hleft
      · exact hnone otherID hright
    subst hsame
    exact ⟨rfl, hlocal serverID hmember first second hfirst hsecond⟩

/-- A user moves from one server to another. -/
theorem single_session_per_user_moves :
    ∃ cluster, Transition.Reaches (step 1) (fun _ _ => True)
        (start [1, 2] (fun _ => 3) 100) cluster ∧
      cluster.inFlight = [] ∧
      (cluster.servers 2).userAt 501 = some 7 ∧
      ∀ serverID ∈ [1, 2], ∀ otherID ∈ [1, 2], ∀ first second,
        (cluster.servers serverID).userAt first = some 7 →
        (cluster.servers otherID).userAt second = some 7 →
        serverID = otherID ∧ first = second := by
  rcases Option.map_eq_some_iff.mp
    (show (Transition.replay (step 1) (fun _ _ => True)
        (start [1, 2] (fun _ => 3) 100)
        [.act 1 (.acceptConn true), .act 2 (.acceptConn true),
          .act 1 (.authLoginRsp 501 7 0), .deliver 0, .advance 1,
          .act 2 (.authLoginRsp 501 7 0), .deliver 0]).map
        (fun cluster => (cluster.inFlight, (cluster.servers 2).userAt 501,
          (cluster.servers 1).insertFailed,
          (cluster.servers 2).insertFailed)) =
      some ([], some 7, false, false) by decide) with
    ⟨cluster, hreplay, hvalues⟩
  have hreach := Transition.reaches_of_replay hreplay
  simp only [Prod.mk.injEq] at hvalues
  rcases hvalues with ⟨hflight, hconn, hfirst, hsecond⟩
  refine ⟨cluster, hreach, hflight, hconn, ?_⟩
  refine (single_session_per_user 1 [1, 2] (fun _ => 3) 100 cluster hreach ?_
    7 (by decide)).2 ?_
  · simp [hfirst, hsecond]
  · simp [hflight]

end Cluster

end MessageBus.Conn
