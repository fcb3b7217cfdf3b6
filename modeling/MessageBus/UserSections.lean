import MessageBus.HashListOwnership
import MessageBus.LockDiscipline
import MessageBus.UserModel

/-!
# The critical sections of `CUserShmApi`

The operations of `user/user_shm_api.cpp` with the bytes of the lock file that
they lock (`include/filelock.h`) and their single accesses to the shared map.  A
`char` array of a record is one cell for each of its bytes.
-/

namespace MessageBus.User

open Shared HashList HashList.CHashListNoLock Locked
open Conn

/-! ## Records in shared memory -/

def maxFriendNum : ℕ := 200
def maxPersonalNoteLength : ℕ := 256

/-- The `char` arrays of a record. -/
inductive TextField where
  | nickName
  | telNo
  | address
  | eMail
  | personalNote
  | remarkName (i : Fin maxFriendNum)
  | requestNickName (i : Fin maxRequestNum)
deriving DecidableEq

def TextField.size : TextField → ℕ
  | .nickName => maxNameLength
  | .telNo => maxTelnoLength
  | .address => maxAddrLength
  | .eMail => maxEmailLength
  | .personalNote => maxPersonalNoteLength
  | .remarkName _ => maxNameLength
  | .requestNickName _ => maxNameLength

inductive Field where
  | userID
  | status
  | lastActiveTime
  | level
  | vipLevel
  | sex
  | birthday
  | friendUserID (i : Fin maxFriendNum)
  | seeStatus (i : Fin maxFriendNum)
  | requestUserID (i : Fin maxRequestNum)
  | requestTime (i : Fin maxRequestNum)
  | requestIsValid (i : Fin maxRequestNum)
  | char (place : (text : TextField) × Fin text.size)
deriving DecidableEq

@[reducible] def Field.Value : Field → Type
  | .userID => UInt64
  | .status => Int32
  | .lastActiveTime => UInt64
  | .level => Int32
  | .vipLevel => Int32
  | .sex => Int8
  | .birthday => UInt64
  | .friendUserID _ => UInt64
  | .seeStatus _ => Int8
  | .requestUserID _ => UInt64
  | .requestTime _ => UInt64
  | .requestIsValid _ => UInt8
  | .char _ => UInt8

/-- The texts of a record, in the order of its declaration. -/
def texts : List TextField :=
  [.nickName, .telNo, .address, .eMail, .personalNote] ++
    (List.finRange maxFriendNum).map .remarkName ++
    (List.finRange maxRequestNum).map .requestNickName

def fields : List Field :=
  [.userID, .status, .lastActiveTime, .level, .vipLevel, .sex, .birthday] ++
    (List.finRange maxFriendNum).flatMap
      (fun i => [.friendUserID i, .seeStatus i]) ++
    (List.finRange maxRequestNum).flatMap
      (fun i => [.requestUserID i, .requestTime i, .requestIsValid i]) ++
    texts.flatMap fun text =>
      (List.finRange text.size).map fun i => .char ⟨text, i⟩

theorem mem_texts (text : TextField) : text ∈ texts := by
  cases text <;> simp [texts]

theorem mem_fields (field : Field) : field ∈ fields := by
  cases field with
  | char place =>
      have hplace : Field.char place ∈ texts.flatMap fun text =>
          (List.finRange text.size).map fun i => .char ⟨text, i⟩ :=
        List.mem_flatMap.mpr ⟨place.1, mem_texts place.1,
          List.mem_map.mpr ⟨place.2, List.mem_finRange place.2, rfl⟩⟩
      exact List.mem_append_right _ hplace
  | _ => simp [fields]

abbrev ShmRecord : Type := Record Field.Value

/-- The text in a `char` array. -/
def ShmRecord.text (record : ShmRecord) (text : TextField) : Text :=
  (List.ofFn fun i => record (.char ⟨text, i⟩)).takeWhile (· ≠ 0)

/-- The record as the rest of the development has it. -/
def ShmRecord.info (record : ShmRecord) : ShmUserInfo where
  userID := record .userID
  status := record .status
  lastActiveTime := record .lastActiveTime
  nickName := ShmRecord.text record .nickName
  level := record .level
  vipLevel := record .vipLevel
  sex := record .sex
  birthday := record .birthday
  telNo := ShmRecord.text record .telNo
  address := ShmRecord.text record .address
  eMail := ShmRecord.text record .eMail
  personalNote := ShmRecord.text record .personalNote
  requestList := fun i =>
    { userID := record (.requestUserID i)
      nickName := ShmRecord.text record (.requestNickName i)
      requestTime := record (.requestTime i)
      isValid := record (.requestIsValid i) }

/-! ## The operations -/

abbrev ShmMemory : Type := Cells Field.Value

abbrev ShmCode (α : Type) : Type := SegmentCode Field.Value α

def lockHashListHead : ℕ := 0

def lockIndex (index : ℕ) : ℕ := 2 + index

def lockUser (maxUserNodeNum : ℕ) (userID : UInt64) : ℕ :=
  2 + userID.toNat % maxUserNodeNum

/-- The operations with their arguments; what an operation returns through a
reference or a pointer is given as the caller passes it. -/
inductive ShmCall where
  | insertUserInfo (info : ShmRecord)
  | removeUserInfo (userID : UInt64)
  | removeUserInfoWhenInValid (userID : UInt64)
  | getUserInfo (userID : UInt64) (info : ShmRecord)
  | updateUserInfo (newUserInfo : ShmRecord)
  | addFriendReq (userID otherUserID : UInt64) (strNickName : Text)
  | checkUserIsValid (vct : List UInt64)

inductive ShmAnswer where
  | ret (ret : ℤ)
  | info (ret : ℤ) (info : ShmRecord)
  | vct (ret : ℤ) (vct : List UInt64)

/-- `Ret != 0` is reported as -1. -/
def retOf (ret : ℤ) : ShmAnswer := .ret (if ret ≠ 0 then -1 else 0)

/-- `snprintf` into a `char` array of a data node, from place `i` on. -/
def snprintfCells (ipData : ℤ) (text : TextField) :
    ℕ → Text → ShmCode Unit
  | i, [] =>
      if hi : i < text.size then store (.data ipData (.char ⟨text, i, hi⟩)) 0
      else pure ()
  | i, byte :: bytes =>
      if hi : i < text.size then do
        store (.data ipData (.char ⟨text, i, hi⟩)) byte
        snprintfCells ipData text (i + 1) bytes
      else pure ()

theorem maxRequestNum_pos : 0 < maxRequestNum := by decide

/-- The loop of `AddFriendReq` over the rest of the requests. -/
def requestLoop (ipData : ℤ) :
    List (Fin maxRequestNum) → UInt64 → Fin maxRequestNum →
      ShmCode (Fin maxRequestNum)
  | [], _, index => pure index
  | i :: later, maxRequestTime, index => do
      let userID ← load (.data ipData (.requestUserID i))
      if userID = 0 then pure i
      else
        let isValid ← load (.data ipData (.requestIsValid i))
        if isValid = 0 then pure i
        else
          let requestTime ← load (.data ipData (.requestTime i))
          if maxRequestTime < requestTime then
            let requestTime ← load (.data ipData (.requestTime i))
            requestLoop ipData later requestTime i
          else requestLoop ipData later maxRequestTime index

def memFullCallBack (userID : UInt64) (ipData : ℤ) (vct : List UInt64) :
    ShmCode (List UInt64) := do
  let nowTime ← clock
  let lastActiveTime ← load (.data ipData .lastActiveTime)
  if lastActiveTime < nowTime - userInvalidTime then pure (vct ++ [userID])
  else pure vct

section Operations

variable (maxUserNodeNum : ℕ)

def insertUserInfoCode (info : ShmRecord) : ShmCode ShmAnswer := do
  let ret ← insert maxUserNodeNum fields (info .userID) info
  pure (retOf ret)

def removeUserInfoCode (userID : UInt64) : ShmCode ShmAnswer := do
  let ret ← remove maxUserNodeNum userID
  pure (retOf ret)

def removeUserInfoWhenInValidCode (userID : UInt64) : ShmCode ShmAnswer := do
  let ipData ← get maxUserNodeNum userID
  if ipData = 0 then pure (.ret (-1))
  else
    let nowTime ← clock
    let lastActiveTime ← load (.data ipData .lastActiveTime)
    if nowTime - userInvalidTime ≤ lastActiveTime then pure (.ret 0)
    else removeUserInfoCode maxUserNodeNum userID

def getUserInfoCode (userID : UInt64) (info : ShmRecord) :
    ShmCode ShmAnswer := do
  let (ret, info) ← getData maxUserNodeNum fields userID info
  pure (.info (if ret ≠ 0 then -1 else 0) info)

def updateUserInfoCode (newUserInfo : ShmRecord) : ShmCode ShmAnswer := do
  let ret ← CHashListNoLock.update maxUserNodeNum fields
    (newUserInfo .userID) newUserInfo
  pure (retOf ret)

def addFriendReqCode (userID otherUserID : UInt64) (strNickName : Text) :
    ShmCode ShmAnswer := do
  let ipData ← get maxUserNodeNum otherUserID
  if ipData = 0 then pure (.ret (-1))
  else
    let index ← requestLoop ipData (List.finRange maxRequestNum) 0
      ⟨0, maxRequestNum_pos⟩
    store (.data ipData (.requestUserID index)) userID
    snprintfCells ipData (.requestNickName index) 0
      (snprintf maxNameLength strNickName)
    let requestTime ← clock
    store (.data ipData (.requestTime index)) requestTime
    let lastActiveTime ← clock
    store (.data ipData .lastActiveTime) lastActiveTime
    pure (.ret 0)

theorem succ_mod_lt {maxUserNodeNum : ℕ} (checkUserPos : Fin maxUserNodeNum) :
    (checkUserPos + 1) % maxUserNodeNum < maxUserNodeNum :=
  Nat.mod_lt _ checkUserPos.pos

/-- The section of an operation in a process whose `m_CheckUserPos` is
`checkUserPos`. -/
def shmSection (checkUserPos : Fin maxUserNodeNum) :
    ShmCall → Section ℕ (Cell.Value Field.Value) UInt64 (Fin maxUserNodeNum)
      ShmAnswer
  | .insertUserInfo info =>
      if info .userID = 0 then ⟨[], pure (.ret (-1), checkUserPos)⟩
      else
        ⟨[lockHashListHead, lockUser maxUserNodeNum (info .userID)], do
          let answer ← insertUserInfoCode maxUserNodeNum info
          pure (answer, checkUserPos)⟩
  | .removeUserInfo userID =>
      ⟨[lockHashListHead, lockUser maxUserNodeNum userID], do
        let answer ← removeUserInfoCode maxUserNodeNum userID
        pure (answer, checkUserPos)⟩
  | .removeUserInfoWhenInValid userID =>
      ⟨[lockHashListHead, lockUser maxUserNodeNum userID], do
        let answer ← removeUserInfoWhenInValidCode maxUserNodeNum userID
        pure (answer, checkUserPos)⟩
  | .getUserInfo userID info =>
      ⟨[lockUser maxUserNodeNum userID], do
        let answer ← getUserInfoCode maxUserNodeNum userID info
        pure (answer, checkUserPos)⟩
  | .updateUserInfo newUserInfo =>
      ⟨[lockUser maxUserNodeNum (newUserInfo .userID)], do
        let answer ← updateUserInfoCode maxUserNodeNum newUserInfo
        pure (answer, checkUserPos)⟩
  | .addFriendReq userID otherUserID strNickName =>
      ⟨[lockUser maxUserNodeNum otherUserID], do
        let answer ← addFriendReqCode maxUserNodeNum userID otherUserID
          strNickName
        pure (answer, checkUserPos)⟩
  | .checkUserIsValid vct =>
      ⟨[lockIndex checkUserPos], do
        let vct ← processAll maxUserNodeNum (checkUserPos : ℕ)
          memFullCallBack vct
        pure (.vct 0 vct,
          ⟨(checkUserPos + 1) % maxUserNodeNum, succ_mod_lt checkUserPos⟩)⟩

end Operations

end MessageBus.User
