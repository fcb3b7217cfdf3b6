import MessageBus.ConnSessions

/-!
# Which session a disconnect ends

A `Cmd_Disconnect` entry names the session that was closed, but its handler
compares times only.  Every active entry of a user table records a login that
was really made, in this or another server, and the handler spares a session
exactly when the login recorded for it is later than the close.
-/

namespace MessageBus.Conn

/-- The entries of a message that are handled as logins. -/
def Body.loginEntries : Body → List LoginData
  | .loginNotice entries => entries
  | .disconnect _ => []
  | .loginSyncReq _ => []
  | .loginSyncRsp entries => entries

namespace Server

variable {server before after : Server} {now time : ℕ}
  {logins more : List LoginData} {data : LoginData} {userID : UInt64}
  {connPos : UInt32} {serverID : ℤ} {status : GnsUserStatus}
  {info : ShmGnsInfo}

/-- Every active entry records one of the logins. -/
def Knows (server : Server) (logins : List LoginData) : Prop :=
  ∀ userID info, server.entry userID = some info →
    info.userID = userID ∧ (info.status = .active →
      (⟨userID, info.serverID, info.connPos, info.lastActiveTime⟩ :
        LoginData) ∈ logins)

theorem Knows.mono
    (hknows : server.Knows logins) (hsub : logins ⊆ more) :
    server.Knows more := by
  intro userID info hinfo
  have hentry := hknows userID info hinfo
  exact ⟨hentry.1, fun hactive => hsub (hentry.2 hactive)⟩

theorem Knows.of_entry
    (hknows : before.Knows logins)
    (hentry : ∀ userID info, after.entry userID = some info →
      before.entry userID = some info) :
    after.Knows logins :=
  fun userID info hinfo => hknows userID info (hentry userID info hinfo)

theorem Knows.gnsInsert
    (hknows : server.Knows logins)
    (hinfo : (⟨info.userID, info.serverID, info.connPos,
      info.lastActiveTime⟩ : LoginData) ∈ logins) :
    (server.gnsInsert info).Knows logins := by
  intro other found hfound
  rcases gnsInsert_entry_cases hfound with hold | ⟨rfl, rfl⟩
  · exact hknows other found hold
  · exact ⟨rfl, fun _ => hinfo⟩

theorem Knows.gnsAssign
    (hknows : server.Knows logins)
    (hlogin : status = .active →
      (⟨userID, serverID, connPos, time⟩ : LoginData) ∈ logins) :
    (server.gnsAssign userID serverID connPos status time).Knows logins := by
  intro other found hfound
  rcases gnsAssign_entry_cases hfound with hold | ⟨rfl, info, hinfo, rfl⟩
  · exact hknows other found hold
  · exact ⟨(hknows other info hinfo).1, hlogin⟩

theorem Knows.releaseConn
    (hknows : server.Knows logins) (now : ℕ) (connPos : UInt32)
    (bSend : Bool) :
    (server.releaseConn now connPos bSend).1.Knows logins := by
  unfold Server.releaseConn
  split
  · exact hknows
  · dsimp only
    split_ifs
    · exact hknows.gnsAssign (fun hactive => by simp at hactive)
    · exact hknows

theorem Knows.releaseIfOwned
    (hknows : server.Knows logins) (now : ℕ) (connPos : UInt32)
    (userID : UInt64) :
    (server.releaseIfOwned now connPos userID).Knows logins := by
  by_cases hconn : server.userAt connPos = some userID
  · rw [releaseIfOwned_of_owned hconn]
    exact hknows.releaseConn now connPos false
  · rw [releaseIfOwned_of_not_owned hconn]
    exact hknows

theorem Knows.loginEntry
    (hknows : server.Knows logins) (now : ℕ) (hdata : data ∈ logins) :
    (server.loginEntry now data).Knows logins := by
  unfold Server.loginEntry
  split
  · exact hknows.gnsInsert hdata
  · split_ifs
    · exact (hknows.releaseIfOwned now _ _).gnsAssign fun _ => hdata
    · exact hknows.gnsAssign fun _ => hdata
    · exact hknows

theorem Knows.disconnectEntry
    (hknows : server.Knows logins) (now : ℕ) (data : LoginData) :
    (server.disconnectEntry now data).Knows logins := by
  unfold Server.disconnectEntry
  split
  · exact hknows
  · split_ifs
    · exact hknows.releaseIfOwned now _ _
    · exact hknows.gnsAssign (fun hactive => by simp at hactive)
    · exact hknows

theorem Knows.foldl
    {handle : Server → LoginData → Server} {entries : List LoginData}
    (hhandle : ∀ server data, data ∈ entries → Knows server logins →
      Knows (handle server data) logins)
    (hknows : server.Knows logins) :
    (entries.foldl handle server).Knows logins := by
  induction entries generalizing server with
  | nil => exact hknows
  | cons data entries ih =>
      apply ih
      · intro server other hother
        exact hhandle server other (by simp [hother])
      · exact hhandle server data (by simp) hknows

/-! ## The sessions a server reports -/

theorem mem_batches
    {sent rest batch : List LoginData} {j : ℕ}
    (hbatch : batch ∈ batches sent j rest) (hdata : data ∈ batch) :
    data ∈ sent ∨ data ∈ rest := by
  induction rest generalizing sent j with
  | nil => simp [batches] at hbatch
  | cons first rest ih =>
      have hsplit : data ∈ sent ++ [first] ∨ data ∈ rest →
          data ∈ sent ∨ data ∈ first :: rest := by
        simp only [List.mem_append, List.mem_cons]
        tauto
      unfold batches at hbatch
      split_ifs at hbatch
      · rcases List.mem_cons.mp hbatch with rfl | hlater
        · exact hsplit (Or.inl hdata)
        · exact hsplit (ih hlater)
      · exact hsplit (ih hbatch)

theorem mem_ownSessions
    (hdata : data ∈ server.ownSessions) :
    ∃ userID info, server.entry userID = some info ∧
      info.serverID = server.serverID ∧ info.status = .active ∧
      data = ⟨info.userID, info.serverID, info.connPos,
        info.lastActiveTime⟩ := by
  rcases List.mem_map.mp hdata with ⟨found, hfound, rfl⟩
  rcases List.mem_filter.mp hfound with ⟨hbuckets, hown⟩
  rcases List.mem_flatMap.mp hbuckets with ⟨bucket, -, hbucket⟩
  rcases List.mem_filter.mp hbucket with ⟨hentries, -⟩
  have hboth := of_decide_eq_true hown
  exact ⟨found.1, found.2, BoundedMap.get_eq_some_iff.mpr hentries, hboth.1,
    hboth.2, rfl⟩

theorem Knows.ownSessions
    (hknows : server.Knows logins) (hdata : data ∈ server.ownSessions) :
    data ∈ logins := by
  rcases mem_ownSessions hdata with ⟨userID, info, hinfo, -, hactive, rfl⟩
  have hentry := hknows userID info hinfo
  rw [hentry.1]
  exact hentry.2 hactive

/-! ## Every handler -/

/-- A server and its packets speak of known logins, or of ones that the
packets announce. -/
def Speaks (result : Server × List Packet) (logins : List LoginData) : Prop :=
  result.1.Knows (logins ++ result.2.flatMap Cluster.loginsOf) ∧
    ∀ packet ∈ result.2, ∀ data ∈ packet.body.loginEntries,
      data ∈ logins ++ result.2.flatMap Cluster.loginsOf

theorem speaks_of_silent (hknows : server.Knows logins) :
    Speaks (server, []) logins := by
  refine ⟨?_, by simp⟩
  simpa using hknows

theorem speaks_dealPkg
    (hknows : server.Knows logins) (now : ℕ) (srcID : ℤ) {body : Body}
    (hbody : ∀ data ∈ body.loginEntries, data ∈ logins) :
    Speaks (server.dealPkg now srcID body) logins := by
  cases body with
  | loginNotice entries =>
      apply speaks_of_silent
      apply Knows.foldl _ hknows
      intro server data hdata hserver
      exact hserver.loginEntry now (hbody data hdata)
  | disconnect entries =>
      apply speaks_of_silent
      apply Knows.foldl _ hknows
      intro server data _ hserver
      exact hserver.disconnectEntry now data
  | loginSyncReq serverID =>
      simp only [dealPkg]
      split_ifs
      · exact speaks_of_silent hknows
      · constructor
        · exact hknows.mono (List.subset_append_left _ _)
        · intro packet hpacket data hdata
          rcases List.mem_map.mp hpacket with ⟨batch, hbatch, rfl⟩
          apply List.mem_append_left
          rcases mem_batches hbatch hdata with hnone | hown
          · simp at hnone
          · exact hknows.ownSessions hown
  | loginSyncRsp entries =>
      apply speaks_of_silent
      apply Knows.foldl _ hknows
      intro server data hdata hserver
      exact hserver.loginEntry now (hbody data hdata)

theorem speaks_authLoginRsp
    (hknows : server.Knows logins) (now : ℕ) (connPos : UInt32)
    (userID : UInt64) (result : ℤ) :
    Speaks (server.authLoginRsp now connPos userID result) logins := by
  have hmore : server.Knows (logins ++
      [⟨userID, server.serverID, connPos, now⟩]) :=
    hknows.mono (List.subset_append_left _ _)
  have hbound : (server.setUser connPos userID).Knows (logins ++
      [⟨userID, server.serverID, connPos, now⟩]) :=
    hmore.of_entry fun _ _ hinfo => hinfo
  have hlogin : (⟨userID, server.serverID, connPos, now⟩ : LoginData) ∈
      logins ++ [⟨userID, server.serverID, connPos, now⟩] := by simp
  unfold authLoginRsp
  split_ifs
  · exact speaks_of_silent hknows
  · split
    · exact speaks_of_silent hknows
    · constructor
      · dsimp only
        split
        · exact hbound.gnsInsert hlogin
        · apply Knows.gnsAssign _ fun _ => hlogin
          split_ifs
          · exact hbound.releaseIfOwned now _ userID
          · exact hbound
      · intro packet hpacket data hdata
        rw [List.mem_singleton.mp hpacket] at hdata
        rw [List.mem_singleton.mp hdata]
        exact hlogin

theorem speaks_act
    {fuel : ℕ} {action : Action} {result : Server × List Packet}
    (hknows : server.Knows logins)
    (hact : server.act fuel now action = some result) :
    Speaks result logins := by
  cases action with
  | acceptConn ready =>
      rcases Option.map_eq_some_iff.mp hact with ⟨after, haccept, rfl⟩
      rcases acceptConn_cases haccept with ⟨-, -, hentry, -⟩
      apply speaks_of_silent
      apply hknows.of_entry
      intro userID info hinfo
      rw [← hentry]
      exact hinfo
  | releaseConn connPos =>
      rw [← Option.some.inj hact]
      constructor
      · exact (hknows.releaseConn now connPos true).mono
          (List.subset_append_left _ _)
      · intro packet hpacket data hdata
        rcases mem_releaseConn_packets hpacket with ⟨userID, -, -, rfl⟩
        simp [Body.loginEntries] at hdata
  | authLoginRsp connPos userID answer =>
      rw [← Option.some.inj hact]
      exact speaks_authLoginRsp hknows now connPos userID answer
  | checkValid =>
      rw [← Option.some.inj hact]
      apply speaks_of_silent
      apply hknows.of_entry
      intro userID info hinfo
      rw [checkValid_entry] at hinfo
      split_ifs at hinfo
      exact hinfo
  | restart =>
      rw [← Option.some.inj hact]
      constructor
      · intro userID info hinfo
        have hnone : server.restart.1.entry userID = none :=
          BoundedMap.get_empty _ _
        rw [hnone] at hinfo
        simp at hinfo
      · intro packet hpacket data hdata
        rcases List.mem_append.mp hpacket with hbatch | hsync
        · rcases List.mem_map.mp hbatch with ⟨batch, -, rfl⟩
          simp [Body.loginEntries] at hdata
        · rw [List.mem_singleton.mp hsync] at hdata
          simp [Body.loginEntries] at hdata

end Server

namespace Cluster

variable {cluster after : Cluster} {fuel : ℕ} {event : Event}
  {serverID : ℤ} {result : Server × List Packet} {rest : List Message}

theorem mem_route
    {members : List ℤ} {srcID : ℤ} {packet : Packet} {message : Message}
    (hmessage : message ∈ route members srcID packet) :
    message.srcID = srcID ∧ message.body = packet.body := by
  unfold route at hmessage
  split at hmessage
  · rcases List.mem_map.mp hmessage with ⟨dstID, -, rfl⟩
    exact ⟨rfl, rfl⟩
  · rw [List.mem_singleton.mp hmessage]
    exact ⟨rfl, rfl⟩

/-- The user tables and the messages in flight speak of logins that were
made. -/
structure LoginsKnown (cluster : Cluster) : Prop where
  servers : ∀ serverID, (cluster.servers serverID).Knows cluster.logins
  inFlight : ∀ message ∈ cluster.inFlight,
    ∀ data ∈ message.body.loginEntries, data ∈ cluster.logins

theorem LoginsKnown.perform
    (hknown : cluster.LoginsKnown) (hrest : rest ⊆ cluster.inFlight)
    (hresult : Server.Speaks result cluster.logins) :
    (({ cluster with inFlight := rest } : Cluster).perform serverID
      result).LoginsKnown := by
  constructor
  · exact forall_perform (fun _ server => server.Knows _)
      (fun other => (hknown.servers other).mono (List.subset_append_left _ _))
      hresult.1
  · intro message hmessage data hdata
    rcases List.mem_append.mp hmessage with hold | hnew
    · apply List.mem_append_left
      exact hknown.inFlight message (hrest hold) data hdata
    · rcases List.mem_flatMap.mp hnew with ⟨packet, hpacket, hroute⟩
      rw [(mem_route hroute).2] at hdata
      exact hresult.2 packet hpacket data hdata

theorem LoginsKnown.step
    (hknown : cluster.LoginsKnown)
    (hstep : cluster.step fuel event = some after) : after.LoginsKnown := by
  rcases step_cases hstep with ⟨seconds, -, rfl⟩ |
    ⟨serverID, action, result, -, -, hact, rfl⟩ |
    ⟨index, message, -, hmessage, -, rfl⟩
  · exact ⟨hknown.servers, hknown.inFlight⟩
  · exact hknown.perform (List.Subset.refl _)
      (Server.speaks_act (hknown.servers serverID) hact)
  · apply hknown.perform (List.eraseIdx_subset)
    apply Server.speaks_dealPkg (hknown.servers message.dstID)
    exact hknown.inFlight message (List.mem_of_getElem? hmessage)

theorem reaches_loginsKnown
    {allowed : Cluster → Event → Prop} {members : List ℤ}
    {gnsCapacity : ℤ → ℕ} {now : ℕ}
    (hreach : Transition.Reaches (step fuel) allowed
      (start members gnsCapacity now) cluster) :
    cluster.LoginsKnown := by
  apply hreach.invariant LoginsKnown
  · constructor
    · intro serverID userID info hinfo
      have hnone : ((start members gnsCapacity now).servers serverID).entry
          userID = none := BoundedMap.get_empty _ _
      rw [hnone] at hinfo
      simp at hinfo
    · simp [start]
  · intro before after event hknown _ hstep
    exact hknown.step hstep

/-! ## The result -/

def SessionOpen (cluster : Cluster) (userID : UInt64) (serverID : ℤ)
    (connPos : UInt32) : Prop :=
  (cluster.servers serverID).userAt connPos = some userID

/-- Between two states only the session of a disconnect entry has ended: no
other connection is closed, and no active entry for another session that is
still open has become inactive. -/
structure EndsOnly (before after : Cluster) (data : LoginData) : Prop where
  closes : ∀ serverID connPos,
    (before.servers serverID).userAt connPos ≠ none →
    (after.servers serverID).userAt connPos = none →
    serverID = data.serverID ∧ connPos = data.connPos
  deactivates : ∀ serverID userID info,
    (before.servers serverID).entry userID = some info →
    info.status = .active →
    before.SessionOpen userID info.serverID info.connPos →
    ¬ (userID = data.userID ∧ info.serverID = data.serverID ∧
      info.connPos = data.connPos) →
    ∃ later, (after.servers serverID).entry userID = some later ∧
      later.status = .active

/-- The login that the receiver's table records for the user, if its session
is another one and still open, was made after the second of the close. -/
def RecordedLater (cluster : Cluster) (dstID : ℤ) (data : LoginData) : Prop :=
  ∀ login ∈ cluster.logins, login.userID = data.userID →
    (∃ info, (cluster.servers dstID).entry data.userID = some info ∧
      info.Records login .active) →
    cluster.SessionOpen login.userID login.serverID login.connPos →
    ¬ (login.serverID = data.serverID ∧ login.connPos = data.connPos) →
    data.time < login.time

variable {dstID : ℤ} {data : LoginData}

/-- Only the receiver changes, so it is enough to look at the receiver. -/
theorem endsOnly_of_receiver
    (hothers : ∀ other ≠ dstID, after.servers other = cluster.servers other)
    (hcloses : ∀ connPos, (cluster.servers dstID).userAt connPos ≠ none →
      (after.servers dstID).userAt connPos = none →
      dstID = data.serverID ∧ connPos = data.connPos)
    (hdeactivates : ∀ userID info,
      (cluster.servers dstID).entry userID = some info →
      info.status = .active →
      cluster.SessionOpen userID info.serverID info.connPos →
      ¬ (userID = data.userID ∧ info.serverID = data.serverID ∧
        info.connPos = data.connPos) →
      ∃ later, (after.servers dstID).entry userID = some later ∧
        later.status = .active) :
    cluster.EndsOnly after data := by
  constructor
  · intro serverID connPos hbefore hafter
    by_cases heq : serverID = dstID
    · subst heq
      exact hcloses connPos hbefore hafter
    · rw [hothers serverID heq] at hafter
      exact (hbefore hafter).elim
  · intro serverID userID info hinfo hactive hopen hother
    by_cases heq : serverID = dstID
    · subst heq
      exact hdeactivates userID info hinfo hactive hopen hother
    · rw [hothers serverID heq]
      exact ⟨info, hinfo, hactive⟩

/-- An entry that is not later than the close names no other open session. -/
theorem RecordedLater.names_closed
    (hlater : cluster.RecordedLater dstID data)
    (hknows : (cluster.servers dstID).Knows cluster.logins)
    {info : ShmGnsInfo}
    (hinfo : (cluster.servers dstID).entry data.userID = some info)
    (hactive : info.status = .active)
    (htime : info.lastActiveTime ≤ data.time)
    (hopen : cluster.SessionOpen data.userID info.serverID info.connPos) :
    info.serverID = data.serverID ∧ info.connPos = data.connPos := by
  by_contra hother
  have hlogin := (hknows data.userID info hinfo).2 hactive
  have hafter := hlater _ hlogin rfl
    ⟨info, hinfo, rfl, rfl, hactive, rfl⟩ hopen hother
  dsimp only at hafter
  omega

theorem endsOnly_of_recordedLater
    (hserver : (cluster.servers dstID).serverID = dstID)
    (hknows : (cluster.servers dstID).Knows cluster.logins)
    (hself : after.servers dstID =
      (cluster.servers dstID).disconnectEntry cluster.now data)
    (hothers : ∀ other ≠ dstID, after.servers other = cluster.servers other)
    (hlater : cluster.RecordedLater dstID data) :
    cluster.EndsOnly after data := by
  have honly := Server.onlyUser_disconnectEntry (cluster.servers dstID)
    cluster.now data
  apply endsOnly_of_receiver hothers
  · intro connPos hbefore hafter
    rw [hself] at hafter
    rcases Server.disconnectEntry_cases (cluster.servers dstID) cluster.now
      data with ⟨hsame, -⟩ | ⟨info, hinfo, htime, ⟨hown, hactive, hconn,
        hclose⟩ | ⟨-, hassign⟩⟩
    · rw [hsame] at hafter
      exact (hbefore hafter).elim
    · rw [hclose] at hafter
      have hopen : cluster.SessionOpen data.userID info.serverID
          info.connPos := by
        rw [hown, hserver]
        exact hconn
      have hnamed := hlater.names_closed hknows hinfo hactive htime hopen
      by_cases hpos : connPos = info.connPos
      · rw [hown, hserver] at hnamed
        rw [hpos]
        exact hnamed
      · rw [Server.releaseConn_userAt_of_ne hpos] at hafter
        exact (hbefore hafter).elim
    · rw [hassign, Server.gnsAssign_userAt] at hafter
      exact (hbefore hafter).elim
  · intro userID info hinfo hactive hopen hother
    rw [hself]
    by_cases huser : userID = data.userID
    · subst huser
      rcases Server.disconnectEntry_cases (cluster.servers dstID) cluster.now
        data with ⟨hsame, -⟩ | ⟨found, hfound, htime, -⟩
      · rw [hsame]
        exact ⟨info, hinfo, hactive⟩
      · rw [hinfo, Option.some.injEq] at hfound
        rw [← hfound] at htime
        exact (hother ⟨rfl, hlater.names_closed hknows hinfo hactive htime
          hopen⟩).elim
    · rw [honly.entry_eq userID huser]
      exact ⟨info, hinfo, hactive⟩

theorem recordedLater_of_endsOnly
    (hserver : (cluster.servers dstID).serverID = dstID)
    (hself : after.servers dstID =
      (cluster.servers dstID).disconnectEntry cluster.now data)
    (hends : cluster.EndsOnly after data) :
    cluster.RecordedLater dstID data := by
  rintro login - huser ⟨info, hinfo, hloginServer, hloginPos, hactive,
    hloginTime⟩ hopen hother
  rw [huser, ← hloginServer, ← hloginPos] at hopen
  rw [← hloginServer, ← hloginPos] at hother
  rw [← hloginTime]
  by_contra htime
  rcases Server.disconnectEntry_cases (cluster.servers dstID) cluster.now data
    with ⟨-, hspared⟩ | ⟨found, hfound, -, ⟨hown, -, hconn, hclose⟩ |
      ⟨hown, hassign⟩⟩
  · rcases hspared info hinfo with hlater | ⟨hown, -, hconn⟩
    · exact htime hlater
    · rw [hown, hserver] at hopen
      exact hconn hopen
  · rw [hinfo, Option.some.injEq] at hfound
    subst hfound
    rw [hown, hserver] at hother
    apply hother
    apply hends.closes dstID info.connPos
    · rw [hconn]
      simp
    · rw [hself, hclose]
      exact Server.releaseConn_userAt_self
  · have hkept := hends.deactivates dstID data.userID info hinfo hactive hopen
      (fun hnamed => hother hnamed.2)
    rcases hkept with ⟨later, hlater, hstatus⟩
    rw [hself, hassign, Server.gnsAssign_entry_self, hinfo,
      Option.map_some, Option.some.injEq] at hlater
    rw [← hlater] at hstatus
    simp at hstatus

/-- In every run, the delivery of a disconnect entry ends only the session the
entry is about if and only if the login that the receiver has recorded for the
user is later than the close, or no longer open, or the one closed. -/
theorem disconnect_ends_only_iff
    (fuel : ℕ) (members : List ℤ) (gnsCapacity : ℤ → ℕ) (now : ℕ)
    (cluster : Cluster)
    (hreach : Transition.Reaches (step fuel) (fun _ _ => True)
      (start members gnsCapacity now) cluster)
    (index : ℕ) (srcID dstID : ℤ) (data : LoginData)
    (hmessage : cluster.inFlight[index]? =
      some ⟨srcID, dstID, .disconnect [data]⟩)
    (after : Cluster)
    (hstep : cluster.step fuel (.deliver index) = some after) :
    cluster.EndsOnly after data ↔ cluster.RecordedLater dstID data := by
  have hserver := (reaches_sessionsKnown hreach).serverID_eq dstID
  have hknows := (reaches_loginsKnown hreach).servers dstID
  simp only [step, hmessage] at hstep
  split_ifs at hstep
  rw [← Option.some.inj hstep]
  constructor
  · exact recordedLater_of_endsOnly hserver perform_servers_self
  · apply endsOnly_of_recordedLater hserver hknows perform_servers_self
    intro other hne
    exact perform_servers_of_ne hne

/-- A session that is closed where it was made: the other server only marks it
as inactive. -/
theorem disconnect_ends_only_iff_own :
    ∃ cluster after, Transition.Reaches (step 1) (fun _ _ => True)
        (start [1, 2] (fun _ => 3) 10) cluster ∧
      cluster.inFlight[0]? =
        some ⟨1, 2, .disconnect [⟨7, 1, 501, 12⟩]⟩ ∧
      cluster.step 1 (.deliver 0) = some after ∧
      cluster.EndsOnly after ⟨7, 1, 501, 12⟩ := by
  rcases Option.bind_eq_some_iff.mp
    (show ((Transition.replay (step 1) (fun _ _ => True)
        (start [1, 2] (fun _ => 3) 10)
        [.act 1 (.acceptConn true), .act 1 (.authLoginRsp 501 7 0), .deliver 0,
          .advance 2, .act 1 (.releaseConn 501)]).bind
        fun cluster => (cluster.step 1 (.deliver 0)).map fun _ =>
          (cluster.inFlight, cluster.logins,
            (cluster.servers 1).userAt 501)) =
      some ([⟨1, 2, .disconnect [⟨7, 1, 501, 12⟩]⟩], [⟨7, 1, 501, 10⟩], none)
      by decide) with ⟨cluster, hreplay, hafter⟩
  rcases Option.map_eq_some_iff.mp hafter with ⟨after, hstep, hvalues⟩
  simp only [Prod.mk.injEq] at hvalues
  rcases hvalues with ⟨hflight, hlogins, hclosed⟩
  have hreach := Transition.reaches_of_replay hreplay
  have hmessage : cluster.inFlight[0]? =
      some ⟨1, 2, .disconnect [⟨7, 1, 501, 12⟩]⟩ := by
    rw [hflight]
    rfl
  refine ⟨cluster, after, hreach, hmessage, hstep, ?_⟩
  apply (disconnect_ends_only_iff 1 [1, 2] (fun _ => 3) 10 cluster hreach 0 1
    2 ⟨7, 1, 501, 12⟩ hmessage after hstep).mpr
  intro login hlogin _ _ hopen _
  rw [hlogins] at hlogin
  rw [List.mem_singleton.mp hlogin, SessionOpen, hclosed] at hopen
  simp at hopen

/-- A user logs in at server 1 at second 10 and at server 2 at second 11.  The
first connection closes at second 12, before the notice of the second login
arrives, and its disconnect then closes the second connection. -/
theorem disconnect_ends_newer_session :
    ∃ cluster after, Transition.Reaches (step 1) (fun _ _ => True)
        (start [1, 2] (fun _ => 3) 10) cluster ∧
      cluster.inFlight[1]? =
        some ⟨1, 2, .disconnect [⟨7, 1, 501, 12⟩]⟩ ∧
      cluster.step 1 (.deliver 1) = some after ∧
      ¬ cluster.EndsOnly after ⟨7, 1, 501, 12⟩ := by
  rcases Option.bind_eq_some_iff.mp
    (show ((Transition.replay (step 1) (fun _ _ => True)
        (start [1, 2] (fun _ => 3) 10)
        [.act 1 (.acceptConn true), .act 2 (.acceptConn true),
          .act 1 (.authLoginRsp 501 7 0), .deliver 0, .advance 1,
          .act 2 (.authLoginRsp 501 7 0), .advance 1,
          .act 1 (.releaseConn 501)]).bind
        fun cluster => (cluster.step 1 (.deliver 1)).map fun after =>
          (cluster.inFlight[1]?, (cluster.servers 2).userAt 501,
            (after.servers 2).userAt 501)) =
      some (some ⟨1, 2, .disconnect [⟨7, 1, 501, 12⟩]⟩, some 7, none)
      by decide) with ⟨cluster, hreplay, hafter⟩
  rcases Option.map_eq_some_iff.mp hafter with ⟨after, hstep, hvalues⟩
  simp only [Prod.mk.injEq] at hvalues
  rcases hvalues with ⟨hmessage, hopen, hclosed⟩
  refine ⟨cluster, after, Transition.reaches_of_replay hreplay, hmessage,
    hstep, ?_⟩
  intro hends
  have hnamed := hends.closes 2 501 (by rw [hopen]; simp) hclosed
  simp at hnamed

end Cluster

end MessageBus.Conn
