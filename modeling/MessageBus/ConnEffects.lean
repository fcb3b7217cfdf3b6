import MessageBus.ConnModel

/-!
# What the handlers of a conn server do

For every handler: which user owns which connection afterwards, and what the
user table says.  The handlers look a connection up through the table, so that
their effect is simple only on a `Sound` server, where the owner of a
connection is recorded with it.
-/

namespace MessageBus.Conn

namespace Server

variable {server : Server} {now time : ℕ} {userID other : UInt64}
  {connPos pos : UInt32} {serverID : ℤ} {status : GnsUserStatus}
  {info : ShmGnsInfo} {data : LoginData}

/-- The user of the connection at a position. -/
def userAt (server : Server) (connPos : UInt32) : Option UInt64 :=
  (server.posConnMap connPos).map ConnInfo.userID

/-- The table's entry for a user. -/
def entry (server : Server) (userID : UInt64) : Option ShmGnsInfo :=
  server.gnsInfoMap.get userID

/-- A connection with a user is the one that the table records as this
server's active session of the user. -/
def Sound (server : Server) : Prop :=
  ∀ userID connPos, userID ≠ 0 → server.userAt connPos = some userID →
    ∃ info, server.entry userID = some info ∧
      info.serverID = server.serverID ∧ info.connPos = connPos ∧
        info.status = .active

/-! ## The table -/

@[simp] theorem gnsAssign_entry_self :
    (server.gnsAssign userID serverID connPos status time).entry userID =
      (server.entry userID).map fun info =>
        { info with
          serverID := serverID
          connPos := connPos
          status := status
          lastActiveTime := time } :=
  BoundedMap.get_modify_self _

@[simp] theorem gnsAssign_entry_of_ne (hne : other ≠ userID) :
    (server.gnsAssign userID serverID connPos status time).entry other =
      server.entry other :=
  BoundedMap.get_modify_of_ne _ hne

@[simp] theorem gnsAssign_userAt :
    (server.gnsAssign userID serverID connPos status time).userAt pos =
      server.userAt pos := rfl

@[simp] theorem gnsAssign_serverID :
    (server.gnsAssign userID serverID connPos status time).serverID =
      server.serverID := rfl

@[simp] theorem gnsAssign_insertFailed :
    (server.gnsAssign userID serverID connPos status time).insertFailed =
      server.insertFailed := rfl

@[simp] theorem gnsInsert_userAt :
    (server.gnsInsert info).userAt pos = server.userAt pos := rfl

theorem gnsInsert_insertFailed
    (hokay : (server.gnsInsert info).insertFailed = false) :
    server.insertFailed = false := by
  have hboth : (server.insertFailed || _) = false := hokay
  exact (Bool.or_eq_false_iff.mp hboth).1

/-- An insertion into a table with a free node. -/
theorem gnsInsert_of_room
    (hentry : server.entry info.userID = none)
    (hroom : server.gnsInfoMap.size < server.gnsInfoMap.capacity) :
    server.gnsInsert info =
      { server with
        gnsInfoMap := server.gnsInfoMap.put info.userID info hroom } := by
  have hget : server.gnsInfoMap.get info.userID = none := hentry
  simp [gnsInsert, HashList.mapCall, hget, HashList.mapInsertNew, hroom,
    HashList.success]

theorem room_of_gnsInsert
    (hentry : server.entry info.userID = none)
    (hokay : (server.gnsInsert info).insertFailed = false) :
    server.gnsInfoMap.size < server.gnsInfoMap.capacity := by
  by_contra hroom
  have hget : server.gnsInfoMap.get info.userID = none := hentry
  simp [gnsInsert, HashList.mapCall, hget, HashList.mapInsertNew, hroom,
    HashList.eHashListNoSpace] at hokay

theorem gnsInsert_entry_self
    (hentry : server.entry info.userID = none)
    (hokay : (server.gnsInsert info).insertFailed = false) :
    (server.gnsInsert info).entry info.userID = some info := by
  have hroom := room_of_gnsInsert hentry hokay
  rw [gnsInsert_of_room hentry hroom]
  exact BoundedMap.get_put_self hroom

theorem gnsInsert_entry_of_ne (hne : other ≠ info.userID) :
    (server.gnsInsert info).entry other = server.entry other := by
  cases hget : server.gnsInfoMap.get info.userID with
  | some stored => simp [gnsInsert, HashList.mapCall, hget, entry]
  | none =>
      by_cases hroom :
          server.gnsInfoMap.size < server.gnsInfoMap.capacity
      · rw [gnsInsert_of_room hget hroom]
        exact BoundedMap.get_put_of_ne hroom hne
      · simp [gnsInsert, HashList.mapCall, hget, HashList.mapInsertNew,
          hroom, entry]

theorem gnsInsert_entry_cases {found : ShmGnsInfo}
    (hfound : (server.gnsInsert info).entry other = some found) :
    server.entry other = some found ∨ other = info.userID ∧ found = info := by
  by_cases hne : other = info.userID
  · subst hne
    cases hentry : server.entry info.userID with
    | some stored =>
        left
        have hget : server.gnsInfoMap.get info.userID = some stored := hentry
        have hsame : (server.gnsInsert info).entry info.userID =
            some stored := by
          simp [gnsInsert, HashList.mapCall, hget, entry]
        rw [hsame] at hfound
        exact hfound
    | none =>
        right
        by_cases hroom :
            server.gnsInfoMap.size < server.gnsInfoMap.capacity
        · rw [gnsInsert_of_room hentry hroom] at hfound
          have hput : (server.gnsInfoMap.put info.userID info hroom).get
              info.userID = some found := hfound
          rw [BoundedMap.get_put_self] at hput
          exact ⟨rfl, (Option.some.inj hput).symm⟩
        · have hget : server.gnsInfoMap.get info.userID = none := hentry
          simp [gnsInsert, HashList.mapCall, hget, HashList.mapInsertNew,
            hroom, entry] at hfound
  · left
    rw [gnsInsert_entry_of_ne hne] at hfound
    exact hfound

theorem gnsAssign_entry_cases {found : ShmGnsInfo}
    (hfound : (server.gnsAssign userID serverID connPos status time).entry
      other = some found) :
    server.entry other = some found ∨ other = userID ∧
      ∃ info, server.entry userID = some info ∧ found =
        { info with
          serverID := serverID
          connPos := connPos
          status := status
          lastActiveTime := time } := by
  by_cases hne : other = userID
  · subst hne
    right
    rw [gnsAssign_entry_self] at hfound
    rcases Option.map_eq_some_iff.mp hfound with ⟨info, hinfo, rfl⟩
    exact ⟨rfl, info, hinfo, rfl⟩
  · left
    rw [gnsAssign_entry_of_ne hne] at hfound
    exact hfound

/-! ## Releasing a connection -/

theorem userAt_none_iff :
    server.userAt connPos = none ↔ server.posConnMap connPos = none :=
  Option.map_eq_none_iff

section Release

variable {bSend : Bool}

@[simp] theorem releaseConn_serverID :
    (server.releaseConn now connPos bSend).1.serverID = server.serverID := by
  unfold releaseConn
  split
  · rfl
  · dsimp only
    split_ifs <;> rfl

@[simp] theorem releaseConn_insertFailed :
    (server.releaseConn now connPos bSend).1.insertFailed =
      server.insertFailed := by
  unfold releaseConn
  split
  · rfl
  · dsimp only
    split_ifs <;> rfl

theorem releaseConn_userAt_self :
    (server.releaseConn now connPos bSend).1.userAt connPos = none := by
  unfold releaseConn
  split
  · next hconn => exact userAt_none_iff.mpr hconn
  · simp [userAt]

theorem releaseConn_userAt_of_ne (hne : pos ≠ connPos) :
    (server.releaseConn now connPos bSend).1.userAt pos =
      server.userAt pos := by
  unfold releaseConn
  split
  · rfl
  · dsimp only
    split_ifs <;> simp [userAt, Function.update_of_ne hne, gnsAssign]

theorem releaseConn_userAt_iff
    (hconn : server.userAt connPos ≠ some other) :
    (server.releaseConn now connPos bSend).1.userAt pos = some other ↔
      server.userAt pos = some other := by
  by_cases hpos : pos = connPos
  · subst hpos
    rw [releaseConn_userAt_self]
    simp [hconn]
  · rw [releaseConn_userAt_of_ne hpos]

theorem releaseConn_entry_self
    (hconn : server.userAt connPos = some userID) (huser : userID ≠ 0) :
    (server.releaseConn now connPos bSend).1.entry userID =
      (server.entry userID).map fun info =>
        { info with
          serverID := server.serverID
          connPos := connPos
          status := .unactive
          lastActiveTime := now } := by
  unfold userAt at hconn
  rcases Option.map_eq_some_iff.mp hconn with ⟨conn, hpos, rfl⟩
  simp only [releaseConn, hpos, if_pos huser]
  exact gnsAssign_entry_self

theorem releaseConn_entry_of_ne
    (hconn : server.userAt connPos ≠ some other) :
    (server.releaseConn now connPos bSend).1.entry other =
      server.entry other := by
  unfold userAt at hconn
  unfold releaseConn
  split
  · rfl
  · next conn hpos =>
      have hne : other ≠ conn.userID := by
        rintro rfl
        apply hconn
        rw [hpos]
        rfl
      dsimp only
      split_ifs
      · exact gnsAssign_entry_of_ne hne
      · rfl

/-- The table has no say in closing a connection without a user. -/
theorem releaseConn_entry_zero :
    (server.releaseConn now connPos bSend).1.entry 0 = server.entry 0 := by
  by_cases hconn : server.userAt connPos = some 0
  · unfold userAt at hconn
    rcases Option.map_eq_some_iff.mp hconn with ⟨conn, hpos, hzero⟩
    simp [releaseConn, hpos, hzero, entry]
  · exact releaseConn_entry_of_ne hconn

theorem releaseConn_packets
    (hconn : server.userAt connPos = some userID) (huser : userID ≠ 0) :
    (server.releaseConn now connPos true).2 =
      [⟨.toGrpAllNoMe,
        .disconnect [⟨userID, server.serverID, connPos, now⟩]⟩] := by
  unfold userAt at hconn
  rcases Option.map_eq_some_iff.mp hconn with ⟨conn, hpos, rfl⟩
  simp [releaseConn, hpos, huser]

theorem mem_releaseConn_packets
    {packet : Packet}
    (hpacket : packet ∈ (server.releaseConn now connPos bSend).2) :
    ∃ userID ≠ 0, server.userAt connPos = some userID ∧
      packet = ⟨.toGrpAllNoMe,
        .disconnect [⟨userID, server.serverID, connPos, now⟩]⟩ := by
  unfold releaseConn at hpacket
  split at hpacket
  · simp at hpacket
  · next conn hpos =>
      dsimp only at hpacket
      split_ifs at hpacket with hsend
      · refine ⟨conn.userID, hsend.1, ?_, List.mem_singleton.mp hpacket⟩
        simp [userAt, hpos]
      · simp at hpacket

theorem releaseConn_packets_zero
    (hconn : ∀ userID ≠ 0, server.userAt connPos ≠ some userID) :
    (server.releaseConn now connPos bSend).2 = [] := by
  apply List.eq_nil_iff_forall_not_mem.mpr
  intro packet hpacket
  rcases mem_releaseConn_packets hpacket with ⟨userID, huser, hfound, -⟩
  exact hconn userID huser hfound

theorem releaseIfOwned_of_owned
    (hconn : server.userAt connPos = some userID) :
    server.releaseIfOwned now connPos userID =
      (server.releaseConn now connPos false).1 := by
  unfold userAt at hconn
  rcases Option.map_eq_some_iff.mp hconn with ⟨conn, hpos, rfl⟩
  simp [releaseIfOwned, hpos]

theorem releaseIfOwned_of_not_owned
    (hconn : server.userAt connPos ≠ some userID) :
    server.releaseIfOwned now connPos userID = server := by
  unfold releaseIfOwned
  split
  · rfl
  · next conn hpos =>
      rw [if_neg]
      rintro rfl
      apply hconn
      simp [userAt, hpos]

end Release

/-! ## Notices -/

/-- Nothing changes but the entry and the connections of one user. -/
structure OnlyUser (userID : UInt64) (before after : Server) : Prop where
  serverID_eq : after.serverID = before.serverID
  entry_eq : ∀ other ≠ userID, after.entry other = before.entry other
  userAt_iff : ∀ other ≠ userID, ∀ pos,
    after.userAt pos = some other ↔ before.userAt pos = some other

theorem OnlyUser.refl (userID : UInt64) (server : Server) :
    OnlyUser userID server server :=
  ⟨rfl, fun _ _ => rfl, fun _ _ _ => Iff.rfl⟩

theorem OnlyUser.trans
    {before middle after : Server} (hfirst : OnlyUser userID before middle)
    (hsecond : OnlyUser userID middle after) :
    OnlyUser userID before after := by
  constructor
  · rw [hsecond.serverID_eq, hfirst.serverID_eq]
  · intro other hne
    rw [hsecond.entry_eq other hne, hfirst.entry_eq other hne]
  · intro other hne pos
    rw [hsecond.userAt_iff other hne pos, hfirst.userAt_iff other hne pos]

theorem onlyUser_gnsInsert (server : Server) (info : ShmGnsInfo) :
    OnlyUser info.userID server (server.gnsInsert info) :=
  ⟨rfl, fun _ hne => gnsInsert_entry_of_ne hne, fun _ _ _ => Iff.rfl⟩

theorem onlyUser_gnsAssign :
    OnlyUser userID server
      (server.gnsAssign userID serverID connPos status time) :=
  ⟨rfl, fun _ hne => gnsAssign_entry_of_ne hne, fun _ _ _ => Iff.rfl⟩

theorem onlyUser_releaseIfOwned (now : ℕ) (connPos : UInt32) :
    OnlyUser userID server (server.releaseIfOwned now connPos userID) := by
  by_cases hconn : server.userAt connPos = some userID
  · rw [releaseIfOwned_of_owned hconn]
    have hunowned : ∀ other ≠ userID,
        server.userAt connPos ≠ some other := by
      intro other hne
      rw [hconn]
      simpa using hne.symm
    constructor
    · exact releaseConn_serverID
    · intro other hne
      exact releaseConn_entry_of_ne (hunowned other hne)
    · intro other hne pos
      exact releaseConn_userAt_iff (hunowned other hne)
  · rw [releaseIfOwned_of_not_owned hconn]
    exact OnlyUser.refl userID server

theorem releaseIfOwned_insertFailed :
    (server.releaseIfOwned now connPos userID).insertFailed =
      server.insertFailed := by
  by_cases hconn : server.userAt connPos = some userID
  · rw [releaseIfOwned_of_owned hconn, releaseConn_insertFailed]
  · rw [releaseIfOwned_of_not_owned hconn]

/-- Releasing a user's connection leaves the entry in place. -/
theorem releaseIfOwned_entry_isSome
    (hentry : (server.entry userID).isSome) :
    ((server.releaseIfOwned now connPos userID).entry userID).isSome := by
  by_cases hconn : server.userAt connPos = some userID
  · rw [releaseIfOwned_of_owned hconn]
    by_cases huser : userID = 0
    · subst huser
      rw [releaseConn_entry_zero]
      exact hentry
    · rw [releaseConn_entry_self hconn huser, Option.isSome_map]
      exact hentry
  · rw [releaseIfOwned_of_not_owned hconn]
    exact hentry

/-- After releasing through the entry of a user, a sound server has no
connection of that user. -/
theorem releaseIfOwned_userAt_ne
    (hsound : server.Sound) (huser : userID ≠ 0)
    (hentry : server.entry userID = some info) (pos : UInt32) :
    (server.releaseIfOwned now info.connPos userID).userAt pos ≠
      some userID := by
  intro hafter
  by_cases hconn : server.userAt info.connPos = some userID
  · rw [releaseIfOwned_of_owned hconn] at hafter
    by_cases hpos : pos = info.connPos
    · subst hpos
      rw [releaseConn_userAt_self] at hafter
      simp at hafter
    · rw [releaseConn_userAt_of_ne hpos] at hafter
      rcases hsound userID pos huser hafter with ⟨found, hfound, -, hsame, -⟩
      rw [hentry, Option.some.injEq] at hfound
      subst hfound
      exact hpos hsame.symm
  · rw [releaseIfOwned_of_not_owned hconn] at hafter
    rcases hsound userID pos huser hafter with ⟨found, hfound, -, hsame, -⟩
    rw [hentry, Option.some.injEq] at hfound
    subst hfound
    rw [hsame] at hconn
    exact hconn hafter

/-- A user whose entry is not an active one of this server has no connection
here. -/
theorem userAt_ne_of_not_own
    (hsound : server.Sound) (huser : userID ≠ 0)
    (hentry : ∀ info, server.entry userID = some info →
      ¬ (info.serverID = server.serverID ∧ info.status = .active))
    (pos : UInt32) : server.userAt pos ≠ some userID := by
  intro hconn
  rcases hsound userID pos huser hconn with ⟨info, hinfo, hown, -, hactive⟩
  exact hentry info hinfo ⟨hown, hactive⟩

end Server

/-- The entry is the one that a notice asks for. -/
def ShmGnsInfo.Records
    (info : ShmGnsInfo) (data : LoginData) (status : GnsUserStatus) : Prop :=
  info.serverID = data.serverID ∧ info.connPos = data.connPos ∧
    info.status = status ∧ info.lastActiveTime = data.time

namespace Server

variable {server : Server} {now : ℕ} {data : LoginData}

theorem onlyUser_loginEntry (server : Server) (now : ℕ) (data : LoginData) :
    OnlyUser data.userID server (server.loginEntry now data) := by
  unfold loginEntry
  split
  · exact onlyUser_gnsInsert server
      ⟨data.userID, data.serverID, data.connPos, .active, data.time⟩
  · split_ifs
    · exact (onlyUser_releaseIfOwned now _).trans onlyUser_gnsAssign
    · exact onlyUser_gnsAssign
    · exact OnlyUser.refl _ server

theorem loginEntry_insertFailed
    (hokay : (server.loginEntry now data).insertFailed = false) :
    server.insertFailed = false := by
  unfold loginEntry at hokay
  split at hokay
  · exact gnsInsert_insertFailed hokay
  · split_ifs at hokay
    · rw [gnsAssign_insertFailed, releaseIfOwned_insertFailed] at hokay
      exact hokay
    · exact hokay
    · exact hokay

/-- A login entry is ignored when the table knows something newer; otherwise
it is recorded and the user has no connection here any more. -/
theorem loginEntry_cases
    (hsound : server.Sound) (huser : data.userID ≠ 0)
    (hokay : (server.loginEntry now data).insertFailed = false) :
    (∃ info, server.entry data.userID = some info ∧
        data.time < info.lastActiveTime ∧
        server.loginEntry now data = server) ∨
      (∀ info, server.entry data.userID = some info →
          info.lastActiveTime ≤ data.time) ∧
        (∃ info, (server.loginEntry now data).entry data.userID =
            some info ∧ info.Records data .active) ∧
        ∀ pos, (server.loginEntry now data).userAt pos ≠
          some data.userID := by
  cases hentry : server.entry data.userID with
  | none =>
      have hlogin : server.loginEntry now data = server.gnsInsert
          ⟨data.userID, data.serverID, data.connPos, .active, data.time⟩ := by
        unfold entry at hentry
        simp only [loginEntry, hentry]
      rw [hlogin] at hokay ⊢
      right
      refine ⟨by simp, ⟨_, gnsInsert_entry_self hentry hokay, ?_⟩, ?_⟩
      · exact ⟨rfl, rfl, rfl, rfl⟩
      · intro pos
        apply userAt_ne_of_not_own hsound huser
        simp [hentry]
  | some info =>
      by_cases htime : info.lastActiveTime ≤ data.time
      · right
        have hlogin : server.loginEntry now data =
            (if info.serverID = server.serverID ∧ info.status = .active
              then server.releaseIfOwned now info.connPos data.userID
              else server).gnsAssign data.userID data.serverID data.connPos
                .active data.time := by
          unfold entry at hentry
          simp only [loginEntry, hentry, if_pos htime]
        rw [hlogin]
        refine ⟨?_, ?_, ?_⟩
        · intro found hfound
          rw [← Option.some.inj hfound]
          exact htime
        · have hsome : ((if info.serverID = server.serverID ∧
              info.status = .active
              then server.releaseIfOwned now info.connPos data.userID
              else server).entry data.userID).isSome := by
            split_ifs
            · apply releaseIfOwned_entry_isSome
              simp [hentry]
            · simp [hentry]
          rcases Option.isSome_iff_exists.mp hsome with ⟨kept, hkept⟩
          rw [gnsAssign_entry_self, hkept]
          exact ⟨_, rfl, rfl, rfl, rfl, rfl⟩
        · intro pos
          rw [gnsAssign_userAt]
          split_ifs with hown
          · exact releaseIfOwned_userAt_ne hsound huser hentry pos
          · apply userAt_ne_of_not_own hsound huser
            intro found hfound
            rw [hentry, Option.some.injEq] at hfound
            rw [← hfound]
            exact hown
      · left
        refine ⟨info, rfl, by omega, ?_⟩
        unfold entry at hentry
        simp only [loginEntry, hentry, if_neg htime]

/-- An entry after a login entry is the old one or names the sender. -/
theorem loginEntry_entry_self
    {info : ShmGnsInfo}
    (hinfo : (server.loginEntry now data).entry data.userID = some info) :
    server.loginEntry now data = server ∨ info.serverID = data.serverID := by
  unfold loginEntry at hinfo ⊢
  split at hinfo
  · next hget =>
      right
      rcases gnsInsert_entry_cases hinfo with hold | ⟨-, rfl⟩
      · unfold entry at hold
        rw [hget] at hold
        simp at hold
      · rfl
  · next old hget =>
      by_cases htime : old.lastActiveTime ≤ data.time
      · right
        rw [if_pos htime, gnsAssign_entry_self] at hinfo
        rcases Option.map_eq_some_iff.mp hinfo with ⟨kept, -, rfl⟩
        rfl
      · left
        simp only [if_neg htime]

theorem onlyUser_disconnectEntry
    (server : Server) (now : ℕ) (data : LoginData) :
    OnlyUser data.userID server (server.disconnectEntry now data) := by
  unfold disconnectEntry
  split
  · exact OnlyUser.refl _ server
  · split_ifs
    · exact onlyUser_releaseIfOwned now _
    · exact onlyUser_gnsAssign
    · exact OnlyUser.refl _ server

theorem disconnectEntry_insertFailed :
    (server.disconnectEntry now data).insertFailed = server.insertFailed := by
  unfold disconnectEntry
  split
  · rfl
  · split_ifs
    · exact releaseIfOwned_insertFailed
    · rfl
    · rfl

theorem disconnectEntry_cases
    (server : Server) (now : ℕ) (data : LoginData) :
    (server.disconnectEntry now data = server ∧
      ∀ info, server.entry data.userID = some info →
        data.time < info.lastActiveTime ∨
          info.serverID = server.serverID ∧ info.status = .active ∧
            server.userAt info.connPos ≠ some data.userID) ∨
    ∃ info, server.entry data.userID = some info ∧
      info.lastActiveTime ≤ data.time ∧
      (info.serverID = server.serverID ∧ info.status = .active ∧
          server.userAt info.connPos = some data.userID ∧
          server.disconnectEntry now data =
            (server.releaseConn now info.connPos false).1 ∨
        ¬ (info.serverID = server.serverID ∧ info.status = .active) ∧
          server.disconnectEntry now data =
            server.gnsAssign data.userID data.serverID data.connPos .unactive
              data.time) := by
  cases hentry : server.entry data.userID with
  | none =>
      left
      unfold entry at hentry
      simp [disconnectEntry, hentry]
  | some info =>
      unfold entry at hentry
      by_cases htime : info.lastActiveTime ≤ data.time
      · by_cases hown :
            info.serverID = server.serverID ∧ info.status = .active
        · have hclose : server.disconnectEntry now data =
              server.releaseIfOwned now info.connPos data.userID := by
            simp only [disconnectEntry, hentry, if_pos htime, if_pos hown]
          by_cases hconn : server.userAt info.connPos = some data.userID
          · right
            refine ⟨info, rfl, htime, Or.inl ⟨hown.1, hown.2, hconn, ?_⟩⟩
            rw [hclose, releaseIfOwned_of_owned hconn]
          · left
            constructor
            · rw [hclose, releaseIfOwned_of_not_owned hconn]
            · intro found hfound
              rw [← Option.some.inj hfound]
              exact Or.inr ⟨hown.1, hown.2, hconn⟩
        · right
          refine ⟨info, rfl, htime, Or.inr ⟨hown, ?_⟩⟩
          simp only [disconnectEntry, hentry, if_pos htime, if_neg hown]
      · left
        constructor
        · simp only [disconnectEntry, hentry, if_neg htime]
        · intro found hfound
          rw [← Option.some.inj hfound]
          left
          omega

/-! ## Login responses -/

/-- The effect of a successful login response. -/
structure LoggedIn
    (before after : Server) (now : ℕ) (connPos : UInt32) (userID : UInt64) :
    Prop where
  serverID_eq : after.serverID = before.serverID
  entry_self : ∃ info, after.entry userID = some info ∧
    info.Records ⟨userID, before.serverID, connPos, now⟩ .active
  entry_eq : ∀ other ≠ userID, after.entry other = before.entry other
  userAt_iff : ∀ other ≠ userID, ∀ pos,
    after.userAt pos = some other ↔
      pos ≠ connPos ∧ before.userAt pos = some other
  userAt_self : userID ≠ 0 → ∀ pos,
    after.userAt pos = some userID → pos = connPos
  -- the connection is lost if the table already names it as the user's
  stays : (∀ info, before.entry userID = some info →
      info.serverID = before.serverID → info.status = .active →
      info.connPos ≠ connPos) →
    after.userAt connPos = some userID

section Login

variable {connPos pos : UInt32} {userID : UInt64}

theorem setUser_userAt_self :
    (server.setUser connPos userID).userAt connPos = some userID := by
  simp [setUser, userAt]

theorem setUser_userAt_of_ne (hne : pos ≠ connPos) :
    (server.setUser connPos userID).userAt pos = server.userAt pos := by
  simp [setUser, userAt, Function.update_of_ne hne]

theorem setUser_entry (other : UInt64) :
    (server.setUser connPos userID).entry other = server.entry other := rfl

theorem loggedIn_of_steps
    {bound after : Server}
    (hbound : bound = server.setUser connPos userID)
    (honly : OnlyUser userID bound after)
    (hentry : ∃ info, after.entry userID = some info ∧
      info.Records ⟨userID, server.serverID, connPos, now⟩ .active)
    (hothers : userID ≠ 0 → ∀ pos ≠ connPos,
      after.userAt pos ≠ some userID)
    (hstays : (∀ info, server.entry userID = some info →
        info.serverID = server.serverID → info.status = .active →
        info.connPos ≠ connPos) →
      after.userAt connPos = some userID) :
    LoggedIn server after now connPos userID := by
  subst hbound
  constructor
  · exact honly.serverID_eq
  · exact hentry
  · intro other hne
    exact honly.entry_eq other hne
  · intro other hne pos
    rw [honly.userAt_iff other hne pos]
    by_cases hpos : pos = connPos
    · subst hpos
      rw [setUser_userAt_self]
      simpa using hne.symm
    · rw [setUser_userAt_of_ne hpos]
      simp [hpos]
  · intro huser pos hafter
    by_contra hpos
    exact hothers huser pos hpos hafter
  · exact hstays

theorem authLoginRsp_of_missing (result : ℤ)
    (hconn : server.userAt connPos = none) :
    server.authLoginRsp now connPos userID result = (server, []) := by
  simp [authLoginRsp, userAt_none_iff.mp hconn]

theorem authLoginRsp_of_failed {result : ℤ} (hresult : result ≠ 0) :
    server.authLoginRsp now connPos userID result = (server, []) := by
  simp [authLoginRsp, hresult]

theorem authLoginRsp_packets
    (hconn : server.userAt connPos ≠ none) :
    (server.authLoginRsp now connPos userID 0).2 =
      [⟨.toGrpAllNoMe,
        .loginNotice [⟨userID, server.serverID, connPos, now⟩]⟩] := by
  rcases Option.ne_none_iff_exists'.mp hconn with ⟨found, hfound⟩
  unfold userAt at hfound
  rcases Option.map_eq_some_iff.mp hfound with ⟨conn, hpos, -⟩
  simp [authLoginRsp, hpos]

theorem mem_authLoginRsp_packets
    {result : ℤ} {packet : Packet}
    (hpacket : packet ∈ (server.authLoginRsp now connPos userID result).2) :
    result = 0 ∧ packet = ⟨.toGrpAllNoMe,
      .loginNotice [⟨userID, server.serverID, connPos, now⟩]⟩ := by
  unfold authLoginRsp at hpacket
  split_ifs at hpacket with hresult
  · simp at hpacket
  · split at hpacket
    · simp at hpacket
    · exact ⟨not_not.mp hresult, List.mem_singleton.mp hpacket⟩

theorem authLoginRsp_serverID (result : ℤ) :
    (server.authLoginRsp now connPos userID result).1.serverID =
      server.serverID := by
  unfold authLoginRsp
  split_ifs
  · rfl
  · split
    · rfl
    · dsimp only
      split
      · rfl
      · rw [gnsAssign_serverID]
        split_ifs
        · exact (onlyUser_releaseIfOwned now _).serverID_eq
        · rfl

theorem authLoginRsp_insertFailed {result : ℤ}
    (hokay : (server.authLoginRsp now connPos userID result).1.insertFailed =
      false) :
    server.insertFailed = false := by
  unfold authLoginRsp at hokay
  split_ifs at hokay
  · exact hokay
  · split at hokay
    · exact hokay
    · dsimp only at hokay
      split at hokay
      · exact gnsInsert_insertFailed hokay
      · rw [gnsAssign_insertFailed] at hokay
        split_ifs at hokay
        · rw [releaseIfOwned_insertFailed] at hokay
          exact hokay
        · exact hokay

/-- A session at another position is the one that the table names. -/
theorem connPos_of_setUser
    (hsound : server.Sound) (huser : userID ≠ 0) (hne : pos ≠ connPos)
    (hbound : (server.setUser connPos userID).userAt pos = some userID) :
    ∃ info, server.entry userID = some info ∧ info.connPos = pos ∧
      info.status = .active ∧ info.serverID = server.serverID := by
  rw [setUser_userAt_of_ne hne] at hbound
  rcases hsound userID pos huser hbound with
    ⟨info, hinfo, hserver, hat, hactive⟩
  exact ⟨info, hinfo, hat, hactive, hserver⟩

/-- The former session has been released when the new one is recorded. -/
theorem releaseIfOwned_setUser_ne
    {info : ShmGnsInfo} (hsound : server.Sound) (huser : userID ≠ 0)
    (hentry : server.entry userID = some info) (hne : pos ≠ connPos) :
    ((server.setUser connPos userID).releaseIfOwned now info.connPos
      userID).userAt pos ≠ some userID := by
  intro hafter
  by_cases hold : (server.setUser connPos userID).userAt info.connPos =
      some userID
  · rw [releaseIfOwned_of_owned hold] at hafter
    by_cases hsame : pos = info.connPos
    · subst hsame
      rw [releaseConn_userAt_self] at hafter
      simp at hafter
    · rw [releaseConn_userAt_of_ne hsame] at hafter
      rcases connPos_of_setUser hsound huser hne hafter with
        ⟨found, hfound, hat, -⟩
      rw [hentry, Option.some.injEq] at hfound
      rw [hfound] at hsame
      exact hsame hat.symm
  · rw [releaseIfOwned_of_not_owned hold] at hafter
    rcases connPos_of_setUser hsound huser hne hafter with
      ⟨found, hfound, hat, -⟩
    rw [hentry, Option.some.injEq] at hfound
    rw [hfound, hat] at hold
    exact hold hafter

theorem releaseIfOwned_setUser_self {former : UInt32}
    (hne : former ≠ connPos) :
    ((server.setUser connPos userID).releaseIfOwned now former
      userID).userAt connPos = some userID := by
  by_cases hold : (server.setUser connPos userID).userAt former = some userID
  · rw [releaseIfOwned_of_owned hold, releaseConn_userAt_of_ne hne.symm,
      setUser_userAt_self]
  · rw [releaseIfOwned_of_not_owned hold, setUser_userAt_self]

theorem authLoginRsp_of_new
    (hconn : server.userAt connPos ≠ none)
    (hentry : server.entry userID = none) :
    (server.authLoginRsp now connPos userID 0).1 =
      (server.setUser connPos userID).gnsInsert
        ⟨userID, server.serverID, connPos, .active, now⟩ := by
  obtain ⟨conn, hpos⟩ := Option.ne_none_iff_exists'.mp
    (mt userAt_none_iff.mpr hconn)
  have hget : (server.setUser connPos userID).gnsInfoMap.get userID =
      none := hentry
  simp [authLoginRsp, hpos, hget]

theorem authLoginRsp_of_known
    {info : ShmGnsInfo} (hconn : server.userAt connPos ≠ none)
    (hentry : server.entry userID = some info) :
    (server.authLoginRsp now connPos userID 0).1 =
      (if info.status = .active ∧ info.serverID = server.serverID
        then (server.setUser connPos userID).releaseIfOwned now
          info.connPos userID
        else server.setUser connPos userID).gnsAssign userID
          server.serverID connPos .active now := by
  obtain ⟨conn, hpos⟩ := Option.ne_none_iff_exists'.mp
    (mt userAt_none_iff.mpr hconn)
  have hget : (server.setUser connPos userID).gnsInfoMap.get userID =
      some info := hentry
  simp [authLoginRsp, hpos, hget]

theorem authLoginRsp_onlyUser (hconn : server.userAt connPos ≠ none) :
    OnlyUser userID (server.setUser connPos userID)
      (server.authLoginRsp now connPos userID 0).1 := by
  cases hentry : server.entry userID with
  | none =>
      rw [authLoginRsp_of_new hconn hentry]
      exact onlyUser_gnsInsert _
        ⟨userID, server.serverID, connPos, .active, now⟩
  | some info =>
      rw [authLoginRsp_of_known hconn hentry]
      split_ifs
      · exact (onlyUser_releaseIfOwned now _).trans onlyUser_gnsAssign
      · exact onlyUser_gnsAssign

theorem authLoginRsp_entry_self
    (hconn : server.userAt connPos ≠ none)
    (hokay : (server.authLoginRsp now connPos userID 0).1.insertFailed =
      false) :
    ∃ info, (server.authLoginRsp now connPos userID 0).1.entry userID =
        some info ∧
      info.Records ⟨userID, server.serverID, connPos, now⟩ .active := by
  cases hentry : server.entry userID with
  | none =>
      rw [authLoginRsp_of_new hconn hentry] at hokay ⊢
      exact ⟨_, gnsInsert_entry_self hentry hokay, rfl, rfl, rfl, rfl⟩
  | some info =>
      have hbound : ((server.setUser connPos userID).entry userID).isSome := by
        simp [setUser_entry, hentry]
      have hsome : ((if info.status = .active ∧
          info.serverID = server.serverID
          then (server.setUser connPos userID).releaseIfOwned now
            info.connPos userID
          else server.setUser connPos userID).entry userID).isSome := by
        split_ifs
        · exact releaseIfOwned_entry_isSome hbound
        · exact hbound
      obtain ⟨kept, hkept⟩ := Option.isSome_iff_exists.mp hsome
      rw [authLoginRsp_of_known hconn hentry, gnsAssign_entry_self, hkept]
      exact ⟨_, rfl, rfl, rfl, rfl, rfl⟩

theorem authLoginRsp_userAt_ne
    (hsound : server.Sound) (hconn : server.userAt connPos ≠ none)
    (huser : userID ≠ 0) (hne : pos ≠ connPos) :
    (server.authLoginRsp now connPos userID 0).1.userAt pos ≠
      some userID := by
  intro hafter
  cases hentry : server.entry userID with
  | none =>
      rw [authLoginRsp_of_new hconn hentry, gnsInsert_userAt] at hafter
      rcases connPos_of_setUser hsound huser hne hafter with ⟨info, hinfo, -⟩
      rw [hentry] at hinfo
      simp at hinfo
  | some info =>
      rw [authLoginRsp_of_known hconn hentry, gnsAssign_userAt] at hafter
      split_ifs at hafter with hown
      · exact releaseIfOwned_setUser_ne hsound huser hentry hne hafter
      · rcases connPos_of_setUser hsound huser hne hafter with
          ⟨found, hfound, -, hactive, hserver⟩
        rw [hentry, Option.some.injEq] at hfound
        rw [hfound] at hown
        exact hown ⟨hactive, hserver⟩

theorem authLoginRsp_userAt_self
    (hconn : server.userAt connPos ≠ none)
    (hfresh : ∀ info, server.entry userID = some info →
      info.serverID = server.serverID → info.status = .active →
      info.connPos ≠ connPos) :
    (server.authLoginRsp now connPos userID 0).1.userAt connPos =
      some userID := by
  cases hentry : server.entry userID with
  | none =>
      rw [authLoginRsp_of_new hconn hentry, gnsInsert_userAt,
        setUser_userAt_self]
  | some info =>
      rw [authLoginRsp_of_known hconn hentry, gnsAssign_userAt]
      split_ifs with hown
      · exact releaseIfOwned_setUser_self
          (hfresh info hentry hown.2 hown.1)
      · exact setUser_userAt_self

theorem authLoginRsp_loggedIn
    (hsound : server.Sound) (hconn : server.userAt connPos ≠ none)
    (hokay : (server.authLoginRsp now connPos userID 0).1.insertFailed =
      false) :
    LoggedIn server (server.authLoginRsp now connPos userID 0).1 now connPos
      userID := by
  apply loggedIn_of_steps rfl (authLoginRsp_onlyUser hconn)
    (authLoginRsp_entry_self hconn hokay)
  · intro huser pos hne
    exact authLoginRsp_userAt_ne hsound hconn huser hne
  · exact authLoginRsp_userAt_self hconn

end Login

/-! ## Accepting and housekeeping -/

theorem findFreePos_free
    {fuel : ℕ} {first found : UInt32}
    (hfound : server.findFreePos fuel first = some found) :
    server.userAt found = none := by
  exact userAt_none_iff.mpr (ProbeLoop.probe_none hfound)

/-- At most one position gets a connection, and that has no user yet. -/
theorem acceptConn_cases
    {fuel : ℕ} {ready : Bool} {after : Server}
    (haccept : server.acceptConn fuel ready = some after) :
    after.serverID = server.serverID ∧
      after.insertFailed = server.insertFailed ∧
      (∀ userID, after.entry userID = server.entry userID) ∧
      ∀ pos, after.userAt pos = server.userAt pos ∨
        server.userAt pos = none ∧ after.userAt pos = some 0 := by
  unfold acceptConn at haccept
  rcases Option.map_eq_some_iff.mp haccept with ⟨connPos, hfound, rfl⟩
  cases ready with
  | false => exact ⟨rfl, rfl, fun _ => rfl, fun _ => Or.inl rfl⟩
  | true =>
      refine ⟨rfl, rfl, fun _ => rfl, fun pos => ?_⟩
      by_cases hpos : pos = connPos
      · subst hpos
        exact Or.inr ⟨findFreePos_free hfound, by simp [userAt]⟩
      · exact Or.inl (by simp [userAt, Function.update_of_ne hpos])

theorem get_foldl_erase
    (users : List UInt64) (map : BoundedMap UInt64 ShmGnsInfo)
    (userID : UInt64) :
    (users.foldl BoundedMap.erase map).get userID =
      if userID ∈ users then none else map.get userID := by
  induction users generalizing map with
  | nil => simp
  | cons first users ih =>
      rw [List.foldl_cons, ih]
      by_cases hrest : userID ∈ users
      · simp [hrest]
      · by_cases hfirst : userID = first
        · subst hfirst
          simp
        · simp [hrest, hfirst, BoundedMap.get_erase_of_ne hfirst]

theorem checkValid_entry (userID : UInt64) :
    (server.checkValid now).entry userID =
      if userID ∈ server.staleUsers now then none
      else server.entry userID :=
  get_foldl_erase _ _ _

theorem unactive_of_mem_staleUsers
    {userID : UInt64} (hmem : userID ∈ server.staleUsers now) :
    ∃ info, server.entry userID = some info ∧ info.status = .unactive := by
  rcases List.mem_map.mp hmem with ⟨found, hfound, rfl⟩
  rcases List.mem_filter.mp hfound with ⟨hbucket, hstale⟩
  rcases List.mem_filter.mp hbucket with ⟨hentries, -⟩
  refine ⟨found.2, BoundedMap.get_eq_some_iff.mpr hentries, ?_⟩
  exact (of_decide_eq_true hstale).1

theorem checkValid_entry_of_active
    {userID : UInt64} {info : ShmGnsInfo}
    (hentry : server.entry userID = some info)
    (hactive : info.status = .active) :
    (server.checkValid now).entry userID = some info := by
  rw [checkValid_entry, if_neg, hentry]
  intro hmem
  rcases unactive_of_mem_staleUsers hmem with ⟨found, hfound, hstatus⟩
  rw [hentry, Option.some.injEq] at hfound
  rw [hfound, hstatus] at hactive
  simp at hactive

/-! ## Relations between a server before and after a packet -/

section Related

variable {Related : Server → Server → Prop}
  (hrefl : ∀ server, Related server server)
  (htrans : ∀ {before middle after}, Related before middle →
    Related middle after → Related before after)

include hrefl htrans

theorem foldl_related
    {handle : Server → LoginData → Server}
    (hhandle : ∀ server data, Related server (handle server data))
    (entries : List LoginData) (server : Server) :
    Related server (entries.foldl handle server) := by
  induction entries generalizing server with
  | nil => exact hrefl server
  | cons data entries ih => exact htrans (hhandle server data) (ih _)

theorem dealPkg_related
    (hlogin : ∀ server data, Related server (server.loginEntry now data))
    (hdisconnect : ∀ server data,
      Related server (server.disconnectEntry now data))
    (server : Server) (srcID : ℤ) (body : Body) :
    Related server (server.dealPkg now srcID body).1 := by
  cases body with
  | loginNotice entries => exact foldl_related hrefl htrans hlogin entries server
  | disconnect entries =>
      exact foldl_related hrefl htrans hdisconnect entries server
  | loginSyncReq serverID =>
      simp only [dealPkg]
      split_ifs
      · exact hrefl server
      · exact hrefl server
  | loginSyncRsp entries =>
      exact foldl_related hrefl htrans hlogin entries server

end Related

end Server

end MessageBus.Conn
