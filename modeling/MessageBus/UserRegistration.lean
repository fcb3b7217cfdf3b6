import Mathlib.Data.List.TakeWhile
import MessageBus.UserRequests

/-!
# Where a user is registered and what is stored

A registration goes from `ProcessPkg` of the conn server to auth, back to
`DealPkg` of the conn server and on to a user server, which stores the record.
The conn server computes the user server of a new user by a formula of its own;
everything later goes to the one of `GetUserServer`.
-/

namespace MessageBus.User

open Bus
open Conn

/-! ## The server of a user -/

section Placement

variable (parsers : ClientParsers)

/-- Some code takes the server for the one that a user belongs to. -/
inductive ChosenServer : UInt64 → UInt32 → Prop where
  -- `CConn::DealPkg` on a `Cmd_Auth_Register_Rsp`
  | registration {serverID : UInt32} {now : UInt64} {header : XYHeaderIn}
      {rsp : AuthRegisterRsp} {msg : ServerMsg}
      (hmsg : connRegister serverID now ⟨header, .authRegisterRsp rsp⟩ =
        some msg) :
      ChosenServer rsp.userid msg.dstID
  -- `CConn::ProcessPkg` on a command of the user service
  | client {serverID connPos : UInt32} {now : UInt64} {conn : ConnInfo}
      {buff : List UInt8} {msg : ServerMsg}
      (hmsg : msg ∈ (processPkg parsers serverID now connPos conn buff).1)
      (hcmd : msg.header.cmdID >>> 16 = cmdPrefixUser) :
      ChosenServer conn.userID msg.dstID
  -- `CUser::DealPkg` on a `Cmd_User_AddFriend_Req`, which goes on to the
  -- server of the friend
  | friend {serverID : UInt32} {request : Request} {msg : ServerMsg}
      {req : UserAddFriendReq}
      (hcall : (dealAddFriend parsers serverID request).MayCall (.send msg))
      (hpayload : msg.payload = .userAddFriendReq req) :
      ChosenServer req.otheruserid msg.dstID
  -- or is dealt with at once by the server itself
  | friendHere {serverID : UInt32} {request : Request}
      {userID otherUserID : UInt64} {strNickName : Text}
      (hcall : (dealAddFriend parsers serverID request).MayCall
        (.addFriendReq userID otherUserID strNickName)) :
      ChosenServer otherUserID serverID

variable {parsers}

theorem connRegister_dstID
    {serverID : UInt32} {now : UInt64} {header : XYHeaderIn}
    {rsp : AuthRegisterRsp} {msg : ServerMsg}
    (hmsg : connRegister serverID now ⟨header, .authRegisterRsp rsp⟩ =
      some msg) :
    msg.dstID = 400 + (rsp.userid % 2).toUInt32 + 1 := by
  unfold connRegister at hmsg
  dsimp only at hmsg
  split at hmsg
  · next req hcmd hpayload =>
      cases hpayload
      split_ifs at hmsg
      cases hmsg
      rfl
  · cases hmsg

theorem dispatch_of_user
    {headerIn : XYHeaderIn} (parsers : ClientParsers) (conn : ConnInfo)
    (pkgLen : ℤ) (body : List UInt8)
    (hcmd : headerIn.cmdID >>> 16 = cmdPrefixUser) :
    dispatch parsers conn headerIn pkgLen body =
      if headerIn.cmdID ≠ cmdAuthLoginReq ∧
          headerIn.cmdID ≠ cmdAuthRegisterReq ∧ conn.connType ≠ .connAuth
      then ([], pkgLen)
      else ([⟨getUserServer headerIn.userID, toSrv, headerIn,
        .client body⟩], pkgLen) := by
  have hconn : ¬ headerIn.cmdID >>> 16 = cmdPrefixConn := by
    rw [hcmd]
    decide
  have hauth : ¬ headerIn.cmdID >>> 16 = cmdPrefixAuth := by
    rw [hcmd]
    decide
  unfold dispatch
  rw [if_neg hconn, if_neg hauth, if_pos hcmd]

theorem processPkg_dstID
    {serverID connPos : UInt32} {now : UInt64} {conn : ConnInfo}
    {buff : List UInt8} {msg : ServerMsg}
    (hmsg : msg ∈ (processPkg parsers serverID now connPos conn buff).1)
    (hcmd : msg.header.cmdID >>> 16 = cmdPrefixUser) :
    msg.dstID = getUserServer conn.userID := by
  by_cases hcomplete : Complete buff
  · rw [processPkg_of_complete _ _ _ _ _ hcomplete] at hmsg
    rw [(dispatch_message hmsg).1] at hcmd
    rw [dispatch_of_user _ _ _ _ hcmd] at hmsg
    split_ifs at hmsg
    · simp at hmsg
    · rw [List.mem_singleton.mp hmsg]
      rfl
  · rw [processPkg_of_incomplete _ _ _ _ _ hcomplete] at hmsg
    simp at hmsg

/-- A call that treats a friend as a user of its `GetUserServer`. -/
def PlacesFriend (serverID : UInt32) : Op → Prop
  | .send msg => ∀ req, msg.payload = .userAddFriendReq req →
      msg.dstID = getUserServer req.otheruserid
  | .addFriendReq _ otherUserID _ => serverID = getUserServer otherUserID
  | _ => True

theorem dealAddFriend_places (serverID : UInt32) (request : Request) :
    (dealAddFriend parsers serverID request).Every (PlacesFriend serverID)
      fun _ => True := by
  apply (dealAddFriend_calls parsers serverID request).imp
  intro op hcall
  generalize hcmd : cmdUserAddFriendReq = cmdID at hcall
  cases hcall with
  | time => trivial
  | getUserInfo userID => trivial
  | writerSend userID => trivial
  | insertUserInfo now hparse => trivial
  | loaderSend hfriend userID => trivial
  | registerRsp now => exact fun req heq => Payload.noConfusion heq
  | addFriendRsp hfriend now => exact fun req heq => Payload.noConfusion heq
  | addFriendReq strNickName hhere => exact hhere.symm
  | addFriendReq2 hparse => exact absurd hcmd (by decide)
  | forward now otherUserID strNickName =>
      intro req heq
      cases heq
      rfl

/-- The two formulas. -/
theorem servers_eq_iff (userID : UInt64) :
    400 + (userID % 2).toUInt32 + 1 = getUserServer userID ↔
      userID % 2 = userID / 100 % 2 := by
  unfold getUserServer
  rw [← UInt64.toNat_inj, ← UInt32.toNat_inj]
  simp only [UInt32.toNat_add, UInt64.toNat_toUInt32, UInt64.toNat_mod,
    UInt64.toNat_div, UInt64.reduceToNat, UInt32.reduceToNat]
  omega

theorem ChosenServer.cases
    {userID : UInt64} {serverID : UInt32}
    (hchosen : ChosenServer parsers userID serverID) :
    serverID = 400 + (userID % 2).toUInt32 + 1 ∨
      serverID = getUserServer userID := by
  cases hchosen with
  | registration hmsg => exact Or.inl (connRegister_dstID hmsg)
  | client hmsg hcmd => exact Or.inr (processPkg_dstID hmsg hcmd)
  | friend hcall hpayload =>
      exact Or.inr ((dealAddFriend_places _ _).of_mayCall hcall _ hpayload)
  | friendHere hcall =>
      exact Or.inr ((dealAddFriend_places _ _).of_mayCall hcall)

theorem chosen_registration (parsers : ClientParsers) (userID : UInt64) :
    ChosenServer parsers userID (400 + (userID % 2).toUInt32 + 1) := by
  let header : XYHeaderIn := ⟨201, cmdAuthRegisterRsp, 0, 501, 0, 0, 0⟩
  let rsp : AuthRegisterRsp := ⟨userID, [], 0, 0, [], [], [], 0⟩
  obtain ⟨msg, hmsg, hdst⟩ : ∃ msg,
      connRegister 101 0 ⟨header, .authRegisterRsp rsp⟩ = some msg ∧
        msg.dstID = 400 + (userID % 2).toUInt32 + 1 := ⟨_, rfl, rfl⟩
  rw [← hdst]
  exact ChosenServer.registration hmsg

/-- A `Cmd_User_AddFriend_Req` without a body. -/
def friendPacket : List UInt8 :=
  [0, 0, 0, 17, 0, 4, 0, 3, 0, 0, 0, 0, 0, 0, 0, 0, 0]

theorem exists_mem_processPkg
    (parsers : ClientParsers) (serverID connPos : UInt32) (now : UInt64)
    {conn : ConnInfo} {buff : List UInt8} (hcomplete : Complete buff)
    (hauth : conn.connType = .connAuth)
    (hcmd : (XYHeader.read buff).cmdID >>> 16 = cmdPrefixUser) :
    ∃ msg ∈ (processPkg parsers serverID now connPos conn buff).1,
      msg.header.cmdID >>> 16 = cmdPrefixUser := by
  have hheader : (clientHeader serverID now connPos conn
      (XYHeader.read buff)).cmdID >>> 16 = cmdPrefixUser := hcmd
  rw [processPkg_of_complete _ _ _ _ _ hcomplete,
    dispatch_of_user _ _ _ _ hheader,
    if_neg fun hignored => hignored.2.2 hauth]
  exact ⟨_, List.mem_singleton.mpr rfl, hheader⟩

theorem chosen_client (parsers : ClientParsers) (userID : UInt64) :
    ChosenServer parsers userID (getUserServer userID) := by
  let conn : ConnInfo := ⟨.connAuth, userID⟩
  obtain ⟨msg, hmsg, hcmd⟩ : ∃ msg ∈
      (processPkg parsers 101 0 501 conn friendPacket).1,
      msg.header.cmdID >>> 16 = cmdPrefixUser :=
    exists_mem_processPkg parsers 101 501 0 (by decide) rfl (by decide)
  have hchosen := ChosenServer.client hmsg hcmd
  rwa [processPkg_dstID hmsg hcmd] at hchosen

/-- All code chooses the same server for a user if and only if the last two
digits of the ID leave its parity to the rest: the ID and its hundreds are both
even or both odd. -/
theorem user_server_unique_iff (parsers : ClientParsers) (userID : UInt64) :
    (∀ first second, ChosenServer parsers userID first →
      ChosenServer parsers userID second → first = second) ↔
      userID % 2 = userID / 100 % 2 := by
  rw [← servers_eq_iff]
  constructor
  · intro hunique
    exact hunique _ _ (chosen_registration parsers userID)
      (chosen_client parsers userID)
  · intro hsame first second hfirst hsecond
    have hone (serverID : UInt32)
        (hchosen : ChosenServer parsers userID serverID) :
        serverID = getUserServer userID := by
      rcases hchosen.cases with hregistered | hserved
      · rw [hregistered, hsame]
      · exact hserved
    rw [hone first hfirst, hone second hsecond]

/-- User 1 is registered with server 402 and looked for on server 401. -/
theorem user_one_on_two_servers :
    ChosenServer twoBodies 1 402 ∧ ChosenServer twoBodies 1 401 :=
  ⟨chosen_registration twoBodies 1, chosen_client twoBodies 1⟩

end Placement

/-! ## The record of a user -/

section Record

variable {parsers : ClientParsers} {req : RegisterReq} {userID : UInt64}
  {users after : UserMap}

/-- A registration that has gone through all servers: auth has given it a user
ID, and a user server has inserted a record. -/
inductive Registered (parsers : ClientParsers) (req : RegisterReq)
    (userID : UInt64) (users after : UserMap) : Prop where
  | intro {serverID connPos : UInt32} {now : UInt64} {conn : ConnInfo}
      {buff : List UInt8} {authReq : ServerMsg}
      (hclient : authReq ∈
        (processPkg parsers serverID now connPos conn buff).1)
      (hreq : authReq.payload = .authRegisterReq req)
      {authID : UInt32} {authTime : UInt64} {authRsp : ServerMsg}
      (hauth : authRegister authID authTime userID 0
        ⟨authReq.header, authReq.payload⟩ = some authRsp)
      {connTime : UInt64} {userReq : ServerMsg}
      (hconn : connRegister authRsp.dstID connTime
        ⟨authRsp.header, authRsp.payload⟩ = some userReq)
      {info : ShmUserInfo}
      (hcall : (dealPkg parsers userReq.dstID
        ⟨userReq.header, userReq.payload⟩).MayCall (.insertUserInfo info))
      (hinsert : insertUserInfo users info = (0, after)) :
      Registered parsers req userID users after

/-- A text that has no NUL byte and is not longer than a limit. -/
def TextWithin (limit : ℕ) (text : Text) : Prop :=
  0 ∉ text ∧ text.length ≤ limit

instance (limit : ℕ) (text : Text) : Decidable (TextWithin limit text) :=
  inferInstanceAs (Decidable (_ ∧ _))

/-- A request that keeps to the declared limits. -/
structure WithinLimits (req : RegisterReq) : Prop where
  nickname : TextWithin maxNameLength req.nickname
  telno : TextWithin maxTelnoLength req.telno
  address : TextWithin maxAddrLength req.address
  email : TextWithin maxEmailLength req.email
  sex : req.sex = 0 ∨ req.sex = 1

/-- The record has what the client has sent. -/
structure Keeps (req : RegisterReq) (userID : UInt64) (info : ShmUserInfo) :
    Prop where
  userID : info.userID = userID
  nickName : info.nickName = req.nickname
  sex : info.sex.toInt = req.sex.toInt
  birthday : info.birthday = req.birthday
  telNo : info.telNo = req.telno
  address : info.address = req.address
  eMail : info.eMail = req.email

/-- A text leaves room for the NUL byte of its array. -/
def ShorterThanLimits (req : RegisterReq) : Prop :=
  req.nickname.length < maxNameLength ∧ req.telno.length < maxTelnoLength ∧
    req.address.length < maxAddrLength ∧ req.email.length < maxEmailLength

instance (req : RegisterReq) : Decidable (ShorterThanLimits req) :=
  inferInstanceAs (Decidable (_ ∧ _))

theorem snprintf_eq_iff
    {limit : ℕ} {text : Text} (htext : TextWithin limit text)
    (hlimit : 0 < limit) : snprintf limit text = text ↔ text.length < limit := by
  have hwhole : text.takeWhile (· ≠ 0) = text := by
    rw [List.takeWhile_eq_self_iff]
    intro byte hbyte
    simp only [decide_eq_true_eq]
    rintro rfl
    exact htext.1 hbyte
  unfold snprintf
  rw [hwhole, List.take_eq_self_iff]
  omega

/-- The insertions of a registration. -/
def StoresRecord (req : UserRegisterReq) : Op → Prop
  | .insertUserInfo info => ∃ now, info = registered req now
  | _ => True

theorem dealRegister_stores
    {request : Request} (userReq : UserRegisterReq) (serverID : UInt32)
    (hpayload : request.payload = .userRegisterReq userReq) :
    (dealRegister parsers serverID request).Every (StoresRecord userReq)
      fun _ => True := by
  apply (dealRegister_calls parsers serverID request).imp
  intro op hcall
  cases op with
  | insertUserInfo info =>
      generalize cmdUserRegisterReq = cmdID at hcall
      cases hcall with
      | insertUserInfo now hparse =>
          rw [hpayload] at hparse
          cases hparse
          exact ⟨now, rfl⟩
  | _ => trivial

theorem get_of_insertUserInfo
    {info : ShmUserInfo} (hinsert : insertUserInfo users info = (0, after)) :
    after.get info.userID = some info := by
  cases hget : users.get info.userID with
  | some stored =>
      rw [insertUserInfo_of_present hget] at hinsert
      simp at hinsert
  | none =>
      by_cases hroom : users.size < users.capacity
      · by_cases hid : info.userID = 0
        · simp [insertUserInfo, hid] at hinsert
        · rw [insertUserInfo_of_absent hid hget hroom] at hinsert
          rw [← (Prod.mk.inj hinsert).2, BoundedMap.get_put_self]
      · rw [insertUserInfo_of_full info hroom] at hinsert
        simp at hinsert

/-- The record that a registration inserts. -/
theorem Registered.exists_record
    (hregistered : Registered parsers req userID users after) :
    ∃ now, after.get userID = some (registered
      ⟨userID, req.nickname, req.sex, req.birthday, req.telno, req.address,
        req.email⟩ now) := by
  obtain ⟨-, hreq, hauth, hconn, hcall, hinsert⟩ := hregistered
  rw [hreq] at hauth
  unfold authRegister at hauth
  split at hauth
  · next hcmd hpayload =>
      cases hpayload
      cases hauth
      unfold connRegister at hconn
      simp only [answerHeader, beq_self_eq_true, ne_eq, not_true_eq_false,
        if_false, Option.some.injEq] at hconn
      subst hconn
      unfold dealPkg at hcall
      rw [if_pos rfl] at hcall
      obtain ⟨now, rfl⟩ := (dealRegister_stores _ _ rfl).of_mayCall hcall
      exact ⟨now, get_of_insertUserInfo hinsert⟩
  · cases hauth

theorem sex_registered {sex : Int32} (hsex : sex = 0 ∨ sex = 1) :
    (sex % 2).toInt8.toInt = sex.toInt := by
  obtain rfl | rfl := hsex
  · rfl
  · rfl

/-- For a request within the declared limits, the record that is stored when
the registration succeeds has exactly what the client has sent if and only if
each text is shorter than its limit. -/
theorem registration_kept_iff
    (parsers : ClientParsers) (req : RegisterReq) (userID : UInt64)
    (users after : UserMap) (hlimits : WithinLimits req)
    (hregistered : Registered parsers req userID users after) :
    (∃ info, after.get userID = some info ∧ Keeps req userID info) ↔
      ShorterThanLimits req := by
  obtain ⟨now, hget⟩ := hregistered.exists_record
  have hname := snprintf_eq_iff hlimits.nickname (by decide)
  have htelno := snprintf_eq_iff hlimits.telno (by decide)
  have haddress := snprintf_eq_iff hlimits.address (by decide)
  have hemail := snprintf_eq_iff hlimits.email (by decide)
  constructor
  · rintro ⟨info, hinfo, hkeeps⟩
    rw [hget, Option.some.injEq] at hinfo
    subst hinfo
    exact ⟨hname.mp hkeeps.nickName, htelno.mp hkeeps.telNo,
      haddress.mp hkeeps.address, hemail.mp hkeeps.eMail⟩
  · rintro ⟨hshortName, hshortTelno, hshortAddress, hshortEmail⟩
    refine ⟨_, hget, ?_⟩
    constructor
    · rfl
    · exact hname.mpr hshortName
    · exact sex_registered hlimits.sex
    · rfl
    · exact htelno.mpr hshortTelno
    · exact haddress.mpr hshortAddress
    · exact hemail.mpr hshortEmail

/-- A request with a telephone number, as a client sends it. -/
def telnoRequest (telno : Text) : RegisterReq where
  passwd := [112]
  nickname := [65, 110, 110]
  sex := 1
  birthday := 7
  telno := telno
  address := [97]
  email := [101]

def telnoBody (telno : Text) : List UInt8 :=
  [10, 1, 112, 18, 3, 65, 110, 110, 24, 1, 32, 7,
    42, UInt8.ofNat telno.length] ++ telno ++ [50, 1, 97, 58, 1, 101]

def telnoPacket (telno : Text) : List UInt8 :=
  [0, 0, 0, UInt8.ofNat (17 + (telnoBody telno).length), 0, 2, 0, 1,
    0, 0, 0, 9, 0, 0, 0, 0, 0] ++ telnoBody telno

def telnoParsers (telno : Text) : ClientParsers :=
  { noClientParsers with
    registerReq := fun bytes =>
      if bytes = telnoBody telno then some (telnoRequest telno) else none }

/-- The record of the request as user 10003. -/
def telnoInfo (telno : Text) : ShmUserInfo :=
  registered ⟨10003, [65, 110, 110], 1, 7, telno, [97], [101]⟩ 5

def telnoUsers (telno : Text) : UserMap :=
  (insertUserInfo (BoundedMap.empty UInt64 ShmUserInfo 4)
    (telnoInfo telno)).2

theorem registered_telno
    {telno : Text} (hclient : (processPkg (telnoParsers telno) 101 1 501
        ⟨.connUnauth, 0⟩ (telnoPacket telno)).1 =
      [⟨groupAuth, toGrpRnd, ⟨101, cmdAuthRegisterReq, 9, 501, 0, 1, 0⟩,
        .authRegisterReq (telnoRequest telno)⟩]) :
    Registered (telnoParsers telno) (telnoRequest telno) 10003
      (BoundedMap.empty UInt64 ShmUserInfo 4) (telnoUsers telno) := by
  let userReq : ServerMsg :=
    ⟨400 + (10003 % 2 : UInt64).toUInt32 + 1, toSrv,
      ⟨101, cmdUserRegisterReq, 9, 501, 0, 3, 0⟩,
      .userRegisterReq ⟨10003, [65, 110, 110], 1, 7, telno, [97], [101]⟩⟩
  have hcall : (dealPkg (telnoParsers telno) userReq.dstID
      ⟨userReq.header, userReq.payload⟩).MayCall
        (.insertUserInfo (telnoInfo telno)) := by
    unfold dealPkg
    rw [if_pos rfl]
    exact Or.inr ⟨5, Or.inl rfl⟩
  have hid : (telnoInfo telno).userID ≠ 0 :=
    show (10003 : UInt64) ≠ 0 by decide
  have hinsert : insertUserInfo (BoundedMap.empty UInt64 ShmUserInfo 4)
      (telnoInfo telno) = (0, telnoUsers telno) := by
    have hempty := insertUserInfo_of_absent hid
      (BoundedMap.get_empty 4 (telnoInfo telno).userID) (by decide)
    rw [telnoUsers, hempty]
  have hmem := List.mem_singleton_self (ServerMsg.mk groupAuth toGrpRnd
    ⟨101, cmdAuthRegisterReq, 9, 501, 0, 1, 0⟩
    (.authRegisterReq (telnoRequest telno)))
  rw [← hclient] at hmem
  let authRsp : ServerMsg :=
    ⟨101, toSrv, ⟨201, cmdAuthRegisterRsp, 9, 501, 0, 2, 0⟩,
      .authRegisterRsp
        ⟨10003, [65, 110, 110], 1, 7, telno, [97], [101], 0⟩⟩
  have hauth : authRegister 201 2 10003 0
      ⟨⟨101, cmdAuthRegisterReq, 9, 501, 0, 1, 0⟩,
        .authRegisterReq (telnoRequest telno)⟩ = some authRsp := rfl
  have hconn : connRegister 101 3 ⟨authRsp.header, authRsp.payload⟩ =
      some userReq := rfl
  exact Registered.intro hmem rfl hauth hconn hcall hinsert

def tenDigits : Text := [49, 51, 56, 48, 48, 49, 51, 56, 48, 48]

theorem registration_kept_iff_ten_digits :
    ∃ info, (telnoUsers tenDigits).get 10003 = some info ∧
      Keeps (telnoRequest tenDigits) 10003 info :=
  (registration_kept_iff (telnoParsers tenDigits) _ _ _ _
    ⟨by decide, by decide, by decide, by decide, by decide⟩
    (registered_telno (by decide))).mpr (by decide)

def elevenDigits : Text := tenDigits ++ [48]

/-- A telephone number of eleven digits is cut to ten. -/
theorem eleven_digits_cut :
    WithinLimits (telnoRequest elevenDigits) ∧
      Registered (telnoParsers elevenDigits) (telnoRequest elevenDigits) 10003
        (BoundedMap.empty UInt64 ShmUserInfo 4) (telnoUsers elevenDigits) ∧
      ((telnoUsers elevenDigits).get 10003).map ShmUserInfo.telNo =
        some tenDigits ∧
      ¬ ∃ info, (telnoUsers elevenDigits).get 10003 = some info ∧
        Keeps (telnoRequest elevenDigits) 10003 info := by
  have hcut : ((telnoUsers elevenDigits).get 10003).map ShmUserInfo.telNo =
      some tenDigits := by decide
  refine ⟨⟨by decide, by decide, by decide, by decide, by decide⟩,
    registered_telno (by decide), hcut, ?_⟩
  rintro ⟨info, hinfo, hkeeps⟩
  rw [hinfo, Option.map_some, hkeeps.telNo] at hcut
  exact absurd hcut (by decide)

end Record

end MessageBus.User
