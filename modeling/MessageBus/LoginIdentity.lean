import MessageBus.LoginModel

/-!
# The user that a login is made for

A client names its user as a `uint64`, auth answers with an `int32`, and the
conn server takes the answer as a `uint64_t` again.  The connection is bound to
the user that the client named exactly if the lower half of the ID, extended by
its sign, is the whole of it.
-/

namespace MessageBus.Conn

theorem widen_narrow_iff (userID : UInt64) :
    widen (narrow userID) = userID ↔
      userID.toNat < 2 ^ 31 ∨ 2 ^ 64 - 2 ^ 31 ≤ userID.toNat := by
  have hbits : (widen (narrow userID)).toNat =
      ((userID.toBitVec.setWidth 32).signExtend 64).toNat := rfl
  have hlt := userID.toNat_lt
  rw [← UInt64.toNat_inj, hbits, BitVec.toNat_signExtend, BitVec.msb_eq_decide]
  simp only [BitVec.toNat_setWidth, UInt64.toNat_toBitVec, Nat.reducePow,
    Nat.reduceSub, decide_eq_true_eq]
  split_ifs with hnegative
  · omega
  · omega

namespace Server

/-- The server has taken a login as one of the user: the connection is bound to
the user, unless this very login closes it, and the user is the key of the
entry in the table and of the notice for the tables of the other servers. -/
structure LoggedInAs
    (before after : Server) (packets : List Packet) (now : ℕ)
    (connPos : UInt32) (userID : UInt64) : Prop where
  bound : ∀ conn, after.posConnMap connPos = some conn →
    conn = ⟨.connAuth, userID⟩
  recorded : after.insertFailed = false →
    ∃ info, after.entry userID = some info ∧
      info.Records ⟨userID, before.serverID, connPos, now⟩ .active
  others : ∀ other ≠ userID, after.entry other = before.entry other
  announced : packets =
    [⟨.toGrpAllNoMe,
      .loginNotice [⟨userID, before.serverID, connPos, now⟩]⟩]

variable {server : Server} {connPos : UInt32}

theorem loggedInAs_authLoginRsp
    (now : ℕ) (userID : UInt64) (hconn : server.posConnMap connPos ≠ none) :
    LoggedInAs server (server.authLoginRsp now connPos userID 0).1
      (server.authLoginRsp now connPos userID 0).2 now connPos userID := by
  have huser : server.userAt connPos ≠ none := mt userAt_none_iff.mp hconn
  constructor
  · intro conn hafter
    have hbound := onlyCloses_authLoginRsp hconn connPos conn hafter
    simp only [setUser, Function.update_self, Option.some.injEq] at hbound
    exact hbound.symm
  · exact authLoginRsp_entry_self huser
  · exact (authLoginRsp_onlyUser huser).entry_eq
  · exact authLoginRsp_packets huser

/-- A login that auth has accepted, and whose connection is still there when
the answer comes, is taken as one of the user in the client's `LoginReq` if and
only if the ID of the user survives the `int32` of `AuthLoginRsp`. -/
theorem login_identity_preserved_iff
    (asked server : Server) (now : ℕ) (connPos : UInt32) (req : LoginReq)
    (query : QueryResult) (request : AuthLoginReq)
    (hrequest : asked.processLoginReq connPos req = some request)
    (haccepted : (request.answer query).ret = 0)
    (hconn : server.posConnMap connPos ≠ none) :
    LoggedInAs server (server.dealLoginRsp now (request.answer query)).1
        (server.dealLoginRsp now (request.answer query)).2 now connPos
        req.userid ↔
      req.userid.toNat < 2 ^ 31 ∨ 2 ^ 64 - 2 ^ 31 ≤ req.userid.toNat := by
  obtain ⟨conn, -, rfl⟩ := Option.map_eq_some_iff.mp hrequest
  have hanswer : server.dealLoginRsp now (AuthLoginReq.answer
        ⟨asked.serverID, connPos, req.userid, req.passwd, req.plat⟩ query) =
      server.authLoginRsp now connPos (widen (narrow req.userid)) 0 := by
    unfold dealLoginRsp
    rw [haccepted]
    rfl
  have hlogin := loggedInAs_authLoginRsp now (widen (narrow req.userid)) hconn
  rw [hanswer, ← widen_narrow_iff]
  constructor
  · intro hsame
    have hnotices := hlogin.announced.symm.trans hsame.announced
    simpa using hnotices
  · intro hsame
    rw [hsame] at hlogin ⊢
    exact hlogin

/-- A server with one connection that has not logged in. -/
def oneConnection : Server :=
  { Server.start 101 8 with
    posConnMap := fun connPos =>
      if connPos = 501 then some ⟨.connUnauth, 0⟩ else none }

theorem login_identity_preserved_iff_small :
    LoggedInAs oneConnection
      (oneConnection.dealLoginRsp 7
        ((AuthLoginReq.mk 101 501 10003 "secret" 1).answer
          (.record (some "secret")))).1
      (oneConnection.dealLoginRsp 7
        ((AuthLoginReq.mk 101 501 10003 "secret" 1).answer
          (.record (some "secret")))).2 7 501 10003 :=
  (login_identity_preserved_iff oneConnection oneConnection 7 501
    ⟨10003, "secret", 1⟩ (.record (some "secret")) _ rfl rfl
    (by simp [oneConnection])).mpr (Or.inl (by decide))

/-- The client of user `2 ^ 32 + 1` is given the connection of user 1. -/
theorem login_identity_lost :
    ∃ request,
      oneConnection.processLoginReq 501 ⟨4294967297, "secret", 1⟩ =
        some request ∧
      (request.answer (.record (some "secret"))).ret = 0 ∧
      (oneConnection.dealLoginRsp 7
        (request.answer (.record (some "secret")))).1.posConnMap 501 =
          some ⟨.connAuth, 1⟩ ∧
      ¬ LoggedInAs oneConnection
        (oneConnection.dealLoginRsp 7
          (request.answer (.record (some "secret")))).1
        (oneConnection.dealLoginRsp 7
          (request.answer (.record (some "secret")))).2 7 501 4294967297 := by
  have hbound : (oneConnection.dealLoginRsp 7
      ((AuthLoginReq.mk 101 501 4294967297 "secret" 1).answer
        (.record (some "secret")))).1.posConnMap 501 =
      some ⟨.connAuth, 1⟩ := rfl
  refine ⟨_, rfl, rfl, hbound, fun hlogin => ?_⟩
  have huser := hlogin.bound _ hbound
  exact absurd huser (by decide)

end Server

end MessageBus.Conn
