import MessageBus.ConnEffects

/-!
# The way of a login

A client's `LoginReq` goes through `ProcessPkg` of `conn/conn.cpp` to the auth
service, `DealPkg` and `LoginCheck` of `auth/auth_proc.cpp`, and the answer
comes back to `DealPkg` of the conn server.  Request and answer carry the
position of the connection and nothing else that tells where they belong.

The database is not part of the model: it may answer every query as it likes.
-/

namespace MessageBus.Conn

/-- `app::LoginReq`. -/
structure LoginReq where
  userid : UInt64
  passwd : String
  plat : Int32
deriving DecidableEq

/-- `mm::AuthLoginReq` with the fields of its header that auth reads. -/
structure AuthLoginReq where
  srcID : ℤ
  connPos : UInt32
  userid : UInt64
  passwd : String
  plat : Int32
deriving DecidableEq

/-- `mm::AuthLoginRsp` with the position from its header.  The user is an
`int32` here. -/
structure AuthLoginRsp where
  connPos : UInt32
  userid : Int32
  ret : ℤ
deriving DecidableEq

/-- What the database makes of the query for a user's password. -/
inductive QueryResult where
  | failed
  | noRecord
  -- the first column of the first row, which may be NULL
  | record (passwd : Option String)
deriving DecidableEq

def loginCheck (query : QueryResult) (strPasswd : String) : ℤ :=
  match query with
  | .failed => 1
  | .noRecord => 2
  | .record none => 1
  | .record (some strResult) =>
      if strResult = "" then 1
      else if strResult ≠ strPasswd then 2
      else 0

/-- `ProcessPkg` on a `Cmd_Auth_Login_Req` from the connection at a
position. -/
def Server.processLoginReq (server : Server) (connPos : UInt32)
    (req : LoginReq) : Option AuthLoginReq :=
  (server.posConnMap connPos).map fun _ =>
    { srcID := server.serverID
      connPos := connPos
      userid := req.userid
      passwd := req.passwd
      plat := req.plat }

/-- A `uint64_t` assigned to an `int32` field. -/
def narrow (userID : UInt64) : Int32 :=
  userID.toUInt32.toInt32

/-- An `int32` field assigned to a `uint64_t`. -/
def widen (userid : Int32) : UInt64 :=
  userid.toInt64.toUInt64

/-- `DealPkg` of the auth service on a `Cmd_Auth_Login_Req`. -/
def AuthLoginReq.answer (req : AuthLoginReq) (query : QueryResult) :
    AuthLoginRsp where
  connPos := req.connPos
  userid := narrow req.userid
  ret := loginCheck query req.passwd

/-- `DealPkg` of the conn server on a `Cmd_Auth_Login_Rsp`. -/
def Server.dealLoginRsp (server : Server) (now : ℕ) (rsp : AuthLoginRsp) :
    Server × List Packet :=
  server.authLoginRsp now rsp.connPos (widen rsp.userid) rsp.ret

/-- A small user ID that comes back is the lower half of the one sent. -/
theorem toNat_widen_narrow
    {userID : UInt64} (hsmall : (widen (narrow userID)).toNat < 2 ^ 31) :
    (widen (narrow userID)).toNat = userID.toNat % 2 ^ 32 := by
  have hbits : (widen (narrow userID)).toNat =
      ((userID.toBitVec.setWidth 32).signExtend 64).toNat := rfl
  rw [hbits, BitVec.toNat_signExtend] at hsmall ⊢
  split_ifs at hsmall ⊢ with hnegative
  · simp only [BitVec.toNat_setWidth, UInt64.toNat_toBitVec, Nat.reducePow,
      Nat.reduceSub] at hsmall
    omega
  · simp only [BitVec.toNat_setWidth, UInt64.toNat_toBitVec, add_zero]
    omega

/-! ## Which connections a handler leaves -/

namespace Server

variable {server before middle after : Server} {now : ℕ}
  {connPos pos : UInt32} {userID : UInt64} {conn : ConnInfo}

/-- Connections are closed at most; none is opened or changed. -/
def OnlyCloses (before after : Server) : Prop :=
  ∀ connPos conn, after.posConnMap connPos = some conn →
    before.posConnMap connPos = some conn

theorem OnlyCloses.refl (server : Server) : OnlyCloses server server :=
  fun _ _ hconn => hconn

theorem OnlyCloses.trans
    (hfirst : OnlyCloses before middle) (hsecond : OnlyCloses middle after) :
    OnlyCloses before after :=
  fun connPos conn hconn =>
    hfirst connPos conn (hsecond connPos conn hconn)

theorem onlyCloses_releaseConn
    (server : Server) (now : ℕ) (connPos : UInt32) (bSend : Bool) :
    OnlyCloses server (server.releaseConn now connPos bSend).1 := by
  intro pos conn hconn
  unfold releaseConn at hconn
  split at hconn
  · exact hconn
  · dsimp only at hconn
    by_cases hpos : pos = connPos
    · subst hpos
      simp at hconn
    · rw [Function.update_of_ne hpos] at hconn
      split_ifs at hconn
      · exact hconn
      · exact hconn

theorem onlyCloses_releaseIfOwned
    (server : Server) (now : ℕ) (connPos : UInt32) (userID : UInt64) :
    OnlyCloses server (server.releaseIfOwned now connPos userID) := by
  unfold releaseIfOwned
  split
  · exact OnlyCloses.refl server
  · split_ifs
    · exact onlyCloses_releaseConn server now connPos false
    · exact OnlyCloses.refl server

theorem onlyCloses_loginEntry
    (server : Server) (now : ℕ) (data : LoginData) :
    OnlyCloses server (server.loginEntry now data) := by
  unfold loginEntry
  split
  · exact OnlyCloses.refl server
  · split_ifs
    · exact onlyCloses_releaseIfOwned server now _ data.userID
    · exact OnlyCloses.refl server
    · exact OnlyCloses.refl server

theorem onlyCloses_disconnectEntry
    (server : Server) (now : ℕ) (data : LoginData) :
    OnlyCloses server (server.disconnectEntry now data) := by
  unfold disconnectEntry
  split
  · exact OnlyCloses.refl server
  · split_ifs
    · exact onlyCloses_releaseIfOwned server now _ data.userID
    · exact OnlyCloses.refl server
    · exact OnlyCloses.refl server

theorem onlyCloses_dealPkg
    (server : Server) (now : ℕ) (srcID : ℤ) (body : Body) :
    OnlyCloses server (server.dealPkg now srcID body).1 :=
  dealPkg_related OnlyCloses.refl OnlyCloses.trans
    (fun server => onlyCloses_loginEntry server now)
    (fun server => onlyCloses_disconnectEntry server now) server srcID body

theorem onlyCloses_authLoginRsp (hconn : server.posConnMap connPos ≠ none) :
    OnlyCloses (server.setUser connPos userID)
      (server.authLoginRsp now connPos userID 0).1 := by
  obtain ⟨old, hbefore⟩ := Option.ne_none_iff_exists'.mp hconn
  intro pos conn hafter
  simp only [authLoginRsp, hbefore] at hafter
  rw [if_neg (by simp)] at hafter
  dsimp only at hafter
  split at hafter
  · exact hafter
  · split_ifs at hafter
    · exact onlyCloses_releaseIfOwned _ now _ userID pos conn hafter
    · exact hafter

/-- A login response changes the connection at its position only. -/
theorem authLoginRsp_posConnMap
    {result : ℤ}
    (hconn : (server.authLoginRsp now connPos userID result).1.posConnMap
      pos = some conn) :
    server.posConnMap pos = some conn ∨
      result = 0 ∧ pos = connPos ∧ server.posConnMap pos ≠ none ∧
        conn = ⟨.connAuth, userID⟩ := by
  by_cases hresult : result = 0
  · subst hresult
    by_cases hbefore : server.posConnMap connPos = none
    · rw [authLoginRsp_of_missing 0 (userAt_none_iff.mpr hbefore)] at hconn
      exact Or.inl hconn
    · have hbound := onlyCloses_authLoginRsp hbefore pos conn hconn
      by_cases hpos : pos = connPos
      · subst hpos
        right
        simp only [setUser, Function.update_self, Option.some.injEq]
          at hbound
        exact ⟨rfl, rfl, hbefore, hbound.symm⟩
      · left
        simp only [setUser, Function.update_of_ne hpos] at hbound
        exact hbound
  · rw [authLoginRsp_of_failed hresult] at hconn
    exact Or.inl hconn

/-- A new socket that could not be set up is closed again. -/
theorem onlyCloses_acceptConn
    {fuel : ℕ} (haccept : server.acceptConn fuel false = some after) :
    OnlyCloses server after := by
  unfold acceptConn at haccept
  rcases Option.map_eq_some_iff.mp haccept with ⟨found, -, rfl⟩
  exact OnlyCloses.refl server

theorem acceptConn_posConnMap
    {fuel : ℕ} {found : UInt32}
    (hfound : server.findFreePos fuel server.nextConnPosCnt = some found)
    (haccept : server.acceptConn fuel true = some after)
    (hconn : after.posConnMap pos = some conn) :
    pos = found ∧ conn = ⟨.connUnauth, 0⟩ ∨
      pos ≠ found ∧ server.posConnMap pos = some conn := by
  unfold acceptConn at haccept
  rw [hfound, Option.map_some, Option.some.injEq, if_pos rfl] at haccept
  rw [← haccept] at hconn
  by_cases hpos : pos = found
  · subst hpos
    left
    simp only [Function.update_self, Option.some.injEq] at hconn
    exact ⟨rfl, hconn.symm⟩
  · right
    simp only [Function.update_of_ne hpos] at hconn
    exact ⟨hpos, hconn⟩

end Server

end MessageBus.Conn
