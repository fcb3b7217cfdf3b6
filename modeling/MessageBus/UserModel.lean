import MessageBus.AtomicCalls
import MessageBus.ClientPackets
import MessageBus.HashListRuns

/-!
# The user service

The operations of `CUserShmApi` on the shared map of users, and
`CUser::DealPkg` of `user/user_proc.cpp`.  The map is shared with the loader and
the writer, so `DealPkg` is a program that is cut at its calls of
`CUserShmApi`, of `time` and of the queues.

A `char` array is given by the text it holds.
-/

namespace MessageBus.User

open Bus
open Conn

def cmdUserRegisterReq : UInt32 := 0x00040001
def cmdUserRegisterRsp : UInt32 := 0x00040002
def cmdUserAddFriendReq : UInt32 := 0x00040003
def cmdUserAddFriendRsp : UInt32 := 0x00040004
def cmdUserAddFriendReq2 : UInt32 := 0x00040005

def maxNameLength : ℕ := 24
def maxTelnoLength : ℕ := 11
def maxAddrLength : ℕ := 256
def maxEmailLength : ℕ := 64
def maxRequestNum : ℕ := 50
def userInvalidTime : UInt64 := 86400

/-- What `snprintf` with `"%s"` leaves in an array of a given size. -/
def snprintf (size : ℕ) (text : Text) : Text :=
  (text.takeWhile (· ≠ 0)).take (size - 1)

structure RequestInfo where
  userID : UInt64
  nickName : Text
  requestTime : UInt64
  isValid : UInt8
deriving DecidableEq, Inhabited

/-- `ShmUserInfo`, without the list of friends. -/
structure ShmUserInfo where
  userID : UInt64
  status : Int32
  lastActiveTime : UInt64
  nickName : Text
  level : Int32
  vipLevel : Int32
  sex : Int8
  birthday : UInt64
  telNo : Text
  address : Text
  eMail : Text
  personalNote : Text
  requestList : Fin maxRequestNum → RequestInfo
deriving Inhabited

/-- `m_UserInfoMap`. -/
abbrev UserMap := BoundedMap UInt64 ShmUserInfo

/-! ## `CUserShmApi` -/

def insertUserInfo (users : UserMap) (info : ShmUserInfo) : ℤ × UserMap :=
  if info.userID = 0 then (-1, users)
  else
    let (answer, stored) :=
      HashList.mapCall users (.insert info.userID info)
    if answer.iRetVal ≠ 0 then (-1, users) else (0, stored)

theorem insertUserInfo_of_present
    {users : UserMap} {info stored : ShmUserInfo}
    (hget : users.get info.userID = some stored) :
    insertUserInfo users info = (-1, users) := by
  unfold insertUserInfo
  split_ifs
  · rfl
  · simp [HashList.mapCall, hget, HashList.eHashListNodeExist]

theorem insertUserInfo_of_full
    {users : UserMap} (info : ShmUserInfo)
    (hfull : ¬ users.size < users.capacity) :
    insertUserInfo users info = (-1, users) := by
  cases hget : users.get info.userID with
  | some stored => exact insertUserInfo_of_present hget
  | none =>
      unfold insertUserInfo
      split_ifs
      · rfl
      · simp [HashList.mapCall, hget, HashList.mapInsertNew, hfull,
          HashList.eHashListNoSpace]

theorem insertUserInfo_of_absent
    {users : UserMap} {info : ShmUserInfo} (hid : info.userID ≠ 0)
    (hget : users.get info.userID = none)
    (hroom : users.size < users.capacity) :
    insertUserInfo users info = (0, users.put info.userID info hroom) := by
  simp [insertUserInfo, hid, HashList.mapCall, hget, HashList.mapInsertNew,
    hroom, HashList.success]

def removeUserInfo (users : UserMap) (userID : UInt64) : ℤ × UserMap :=
  let (answer, left) := HashList.mapCall users (.remove userID)
  if answer.iRetVal ≠ 0 then (-1, users) else (0, left)

def removeUserInfoWhenInValid (users : UserMap) (nowTime userID : UInt64) :
    ℤ × UserMap :=
  match users.get userID with
  | none => (-1, users)
  | some info =>
      if nowTime - userInvalidTime ≤ info.lastActiveTime then (0, users)
      else removeUserInfo users userID

/-- `GetUserInfo`: the record, or nothing when -1 is returned. -/
def getUserInfo (users : UserMap) (userID : UInt64) : Option ShmUserInfo :=
  let (answer, _) := HashList.mapCall users (.get userID)
  if answer.iRetVal ≠ 0 then none else answer.data

theorem getUserInfo_eq (users : UserMap) (userID : UInt64) :
    getUserInfo users userID = users.get userID := by
  cases hget : users.get userID with
  | none => simp [getUserInfo, HashList.mapCall, hget, HashList.eHashListNoNode]
  | some info => simp [getUserInfo, HashList.mapCall, hget, HashList.success]

def updateUserInfo (users : UserMap) (info : ShmUserInfo) : ℤ × UserMap :=
  let (answer, stored) := HashList.mapCall users (.update info.userID info)
  if answer.iRetVal ≠ 0 then (-1, users) else (0, stored)

/-- The loop of `AddFriendReq` over the rest of the requests: the place for the
new one. -/
def requestIndex {size : ℕ} :
    List (Fin size × RequestInfo) → UInt64 → Fin size → Fin size
  | [], _, index => index
  | (i, request) :: later, maxRequestTime, index =>
      if request.userID = 0 ∨ request.isValid = 0 then i
      else if maxRequestTime < request.requestTime then
        requestIndex later request.requestTime i
      else requestIndex later maxRequestTime index

/-- The record that `AddFriendReq` leaves; `IsValid` keeps its value. -/
def addRequest (info : ShmUserInfo) (requestTime activeTime userID : UInt64)
    (strNickName : Text) : ShmUserInfo :=
  let index := requestIndex
    (List.ofFn fun i => (i, info.requestList i)) 0 ⟨0, by decide⟩
  { info with
    lastActiveTime := activeTime
    requestList := Function.update info.requestList index
      { info.requestList index with
        userID := userID
        nickName := snprintf maxNameLength strNickName
        requestTime := requestTime } }

def addFriendReq (users : UserMap) (requestTime activeTime : UInt64)
    (userID otherUserID : UInt64) (strNickName : Text) : ℤ × UserMap :=
  match users.get otherUserID with
  | none => (-1, users)
  | some _ =>
      (0, users.modify otherUserID fun info =>
        addRequest info requestTime activeTime userID strNickName)

/-! ## The calls of the main loop -/

/-- A message as `DealPkg` is given it: the header and the body behind it. -/
structure Request where
  header : XYHeaderIn
  payload : Payload
deriving DecidableEq

/-- `mm::LoadUserInfoReq`. -/
structure LoadUserInfoReq where
  userid : UInt64
  request : Request
deriving DecidableEq

/-- The calls of `DealPkg` that others can see. -/
inductive Op where
  | time
  | insertUserInfo (info : ShmUserInfo)
  | getUserInfo (userID : UInt64)
  | addFriendReq (userID otherUserID : UInt64) (strNickName : Text)
  -- `InQueue` on the queues to the loader, to the writer and to the bus
  | loaderSend (req : LoadUserInfoReq)
  | writerSend (userID : UInt64)
  | send (msg : ServerMsg)

/-- What a call answers; the queues return 0 when there was room. -/
@[reducible] def Op.Answer : Op → Type
  | .time => UInt64
  | .insertUserInfo _ => ℤ
  | .getUserInfo _ => Option ShmUserInfo
  | .addFriendReq _ _ _ => ℤ
  | .loaderSend _ => ℤ
  | .writerSend _ => ℤ
  | .send _ => ℤ

/-- What a call finds: the clock, and the return value of `InQueue`. -/
structure Outcome where
  now : UInt64
  later : UInt64
  ret : ℤ

/-- The answer of a call, and the shared map after it. -/
def Op.answer (users : UserMap) (outcome : Outcome) :
    (op : Op) → op.Answer × UserMap
  | .time => (outcome.now, users)
  | .insertUserInfo info => User.insertUserInfo users info
  | .getUserInfo userID => (User.getUserInfo users userID, users)
  | .addFriendReq userID otherUserID strNickName =>
      User.addFriendReq users outcome.now outcome.later userID otherUserID
        strNickName
  | .loaderSend _ => (outcome.ret, users)
  | .writerSend _ => (outcome.ret, users)
  | .send _ => (outcome.ret, users)

abbrev Deal := Program Op Op.Answer

def perform (op : Op) : Deal op.Answer := Program.perform op

def loadUserInfo (userID : UInt64) (request : Request) : Deal ℤ := do
  let ret ← perform (.loaderSend ⟨userID, request⟩)
  if ret ≠ 0 then return -1
  else return 0

/-- `LoadUserInfoWhileNotExist`: 0 if the user is there, 1 while it is being
loaded. -/
def loadUserInfoWhileNotExist (userID : UInt64) (request : Request) :
    Deal ℤ := do
  match ← perform (.getUserInfo userID) with
  | none =>
      let ret ← loadUserInfo userID request
      if ret ≠ 0 then return -1
      else return 1
  | some _ => return 0

def writeUserInfo (userID : UInt64) : Deal ℤ := do
  let ret ← perform (.writerSend userID)
  if ret ≠ 0 then return -1
  else return 0

def send2Server (header : XYHeaderIn) (dstID : UInt32) (sendType : UInt8)
    (payload : Payload) : Deal ℤ := do
  let ret ← perform (.send ⟨dstID, sendType, header, payload⟩)
  if ret ≠ 0 then return -1
  else return 0

/-! ## `DealPkg` -/

section Bodies

variable (parsers : ClientParsers)

/-- `ParseFromArray` of an `mm::UserRegisterReq`. -/
def parseUserRegisterReq : Payload → Option UserRegisterReq
  | .client bytes => parsers.userRegisterReq bytes
  | .userRegisterReq req => some req
  | _ => none

/-- `ParseFromArray` of an `app::AddFriendReq`. -/
def parseAddFriendReq : Payload → Option UInt64
  | .client bytes => parsers.addFriendReq bytes
  | _ => none

/-- `ParseFromArray` of an `mm::UserAddFriendReq`. -/
def parseUserAddFriendReq : Payload → Option UserAddFriendReq
  | .client bytes => parsers.userAddFriendReq bytes
  | .userAddFriendReq req => some req
  | _ => none

end Bodies

/-- The record of a user who has just registered. -/
def registered (req : UserRegisterReq) (now : UInt64) : ShmUserInfo :=
  { (default : ShmUserInfo) with
    userID := req.userid
    lastActiveTime := now
    nickName := snprintf maxNameLength req.nickname
    sex := (req.sex % 2).toInt8
    birthday := req.birthday
    telNo := snprintf maxTelnoLength req.telno
    address := snprintf maxAddrLength req.address
    eMail := snprintf maxEmailLength req.email }

/-- The header of an answer to the conn server that a request came from. -/
def answerHeader (serverID cmdID : UInt32) (headerIn : XYHeaderIn)
    (now : UInt64) : XYHeaderIn where
  srcID := serverID
  cmdID := cmdID
  sn := headerIn.sn
  connPos := headerIn.connPos
  userID := headerIn.userID
  pkgTime := now
  ret := 0

/-- The part of `DealPkg` that both requests for a friend end with. -/
def answerFriend (serverID : UInt32) (headerIn : XYHeaderIn)
    (userID otherUserID : UInt64) (strNickName : Text) : Deal ℤ := do
  let ret ← perform (.addFriendReq userID otherUserID strNickName)
  if ret ≠ 0 then return -1
  else
    let _ ← writeUserInfo otherUserID
    let now ← perform .time
    let _ ← send2Server
      (answerHeader serverID cmdUserAddFriendRsp headerIn now)
      headerIn.srcID toSrv (.addFriendRsp 0)
    return 0

/-- `DealPkg` on a `Cmd_User_Register_Req`. -/
def dealRegister (parsers : ClientParsers) (serverID : UInt32)
    (request : Request) : Deal ℤ :=
  match parseUserRegisterReq parsers request.payload with
  | none => return -1
  | some req => do
      let now ← perform .time
      -- a failed insertion is logged, and the answer is a success
      let _ ← perform (.insertUserInfo (registered req now))
      let _ ← writeUserInfo req.userid
      let now ← perform .time
      let _ ← send2Server
        (answerHeader serverID cmdUserRegisterRsp request.header now)
        request.header.srcID toSrv (.userRegisterRsp req.userid 0)
      return 0

/-- `DealPkg` on a `Cmd_User_AddFriend_Req`. -/
def dealAddFriend (parsers : ClientParsers) (serverID : UInt32)
    (request : Request) : Deal ℤ :=
  match parseAddFriendReq parsers request.payload with
  | none => return -1
  | some otherUserID => do
      let userID := request.header.userID
      let ret ← loadUserInfoWhileNotExist userID request
      if ret = 1 then return 0
      else if ret ≠ 0 then return -1
      else
        match ← perform (.getUserInfo userID) with
        | none => return -1
        | some info =>
            let dstID := getUserServer otherUserID
            if dstID = serverID then
              let ret ← loadUserInfoWhileNotExist otherUserID request
              if ret = 1 then return 0
              else if ret ≠ 0 then return -1
              else
                answerFriend serverID request.header userID otherUserID
                  info.nickName
            else
              -- the other server answers, and needs to know to whom
              let now ← perform .time
              let _ ← send2Server
                { request.header with
                  cmdID := cmdUserAddFriendReq2
                  pkgTime := now
                  ret := 0 }
                dstID toSrv
                (.userAddFriendReq ⟨userID, info.nickName, otherUserID⟩)
              return 0

/-- `DealPkg` on a `Cmd_User_AddFriend_Req2`. -/
def dealAddFriend2 (parsers : ClientParsers) (serverID : UInt32)
    (request : Request) : Deal ℤ :=
  match parseUserAddFriendReq parsers request.payload with
  | none => return -1
  | some req => do
      let ret ← loadUserInfoWhileNotExist req.otheruserid request
      if ret = 1 then return 0
      else if ret ≠ 0 then return -1
      else
        answerFriend serverID request.header req.userid req.otheruserid
          req.nickname

def dealPkg (parsers : ClientParsers) (serverID : UInt32)
    (request : Request) : Deal ℤ :=
  if request.header.cmdID = cmdUserRegisterReq then
    dealRegister parsers serverID request
  else if request.header.cmdID = cmdUserAddFriendReq then
    dealAddFriend parsers serverID request
  else if request.header.cmdID = cmdUserAddFriendReq2 then
    dealAddFriend2 parsers serverID request
  else return 0

end MessageBus.User
