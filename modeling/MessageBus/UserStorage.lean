import MessageBus.ShmSizes
import MessageBus.UserDealing
import MessageBus.UserLoading
import MessageBus.UserPersistence

/-!
# Users between the memory and the database

The user server, the processes of the loader and of the writer
(`CWriterUser::Entity` with `ProcessWriterUserInfo` of `user/writer_user.cpp`),
as many as their ini files name, and the database, with the queues between them.
The user server drops a user who has been idle for a day; a loader brings the
user back from the row that a writer has stored, but without the birthday.

The protobuf runtime and the client library of the database are not part of
the repository.
-/

namespace MessageBus.User

open Conn
open Transition

/-- The functions of the protobuf runtime and of the database client. -/
structure StorageCodec where
  serializeToString : DBUserInfo → Option (List UInt8)
  parseFromArray : List UInt8 → Option DBUserInfo
  escapeString : List UInt8 → List UInt8

/-- A message is parsed as it was, and one with a user in it is not empty. -/
structure StorageCodec.Lawful (codec : StorageCodec) : Prop where
  parses : ∀ user strProto, codec.serializeToString user = some strProto →
    codec.parseFromArray strProto = some user
  nonempty : ∀ user, user.userid ≠ 0 → codec.serializeToString user ≠ some []

/-! ## What the database keeps of a user -/

/-- What a registration says about a user. -/
structure Profile where
  userID : UInt64
  nickName : Text
  level : Int32
  vipLevel : Int32
  sex : Int8
  birthday : UInt64
  telNo : Text
  address : Text
  eMail : Text
  personalNote : Text

def ShmUserInfo.profile (info : ShmUserInfo) : Profile where
  userID := info.userID
  nickName := info.nickName
  level := info.level
  vipLevel := info.vipLevel
  sex := info.sex
  birthday := info.birthday
  telNo := info.telNo
  address := info.address
  eMail := info.eMail
  personalNote := info.personalNote

/-- What a loader brings back: `UserProtoString2Struct` does not set the
birthday of its record, which has been cleared. -/
def Profile.loaded (profile : Profile) : Profile := { profile with birthday := 0 }

/-- A text that is read back as it was written. -/
structure PlainText (text : TextField) (format : Text) : Prop where
  percent : percent ∉ format
  zero : 0 ∉ format
  length_lt : format.length < text.size

structure Profile.Plain (profile : Profile) : Prop where
  nickName : PlainText .nickName profile.nickName
  telNo : PlainText .telNo profile.telNo
  address : PlainText .address profile.address
  eMail : PlainText .eMail profile.eMail
  personalNote : PlainText .personalNote profile.personalNote

theorem Profile.Plain.loaded {profile : Profile} (h : profile.Plain) :
    profile.loaded.Plain :=
  ⟨h.nickName, h.telNo, h.address, h.eMail, h.personalNote⟩

/-- The record has this profile, or has been loaded since. -/
def ShmUserInfo.Keeps (info : ShmUserInfo) (profile : Profile) : Prop :=
  info.profile = profile ∨ info.profile = profile.loaded

theorem ShmUserInfo.Keeps.loaded {info : ShmUserInfo} {profile : Profile}
    (h : info.Keeps profile) : info.profile.loaded = profile.loaded := by
  obtain hsame | hloaded := h
  · rw [hsame]
  · rw [hloaded]
    rfl

theorem ShmUserInfo.Keeps.plain {info : ShmUserInfo} {profile : Profile}
    (h : info.Keeps profile) (hplain : profile.Plain) : info.profile.Plain := by
  obtain hsame | hloaded := h
  · rw [hsame]
    exact hplain
  · rw [hloaded]
    exact hplain.loaded

/-- The texts of a registration have no percent sign. -/
def ShmUserInfo.NoPercent (info : ShmUserInfo) : Prop :=
  percent ∉ info.nickName ∧ percent ∉ info.telNo ∧ percent ∉ info.address ∧
    percent ∉ info.eMail

section Texts

variable {text : TextField} {format : Text} {record : ShmRecord}
  {undefined : Text → Text}

theorem takeWhile_of_zero (hzero : (0 : UInt8) ∉ format) :
    format.takeWhile (· ≠ 0) = format := by
  rw [List.takeWhile_eq_self_iff]
  intro byte hbyte
  rw [decide_eq_true_eq]
  rintro rfl
  exact hzero hbyte

theorem PlainText.text_printText (h : PlainText text format)
    (record : ShmRecord) (undefined : Text → Text) :
    (record.printText undefined text format).text text = format := by
  have hlength := h.length_lt
  unfold ShmRecord.printText
  rw [text_snprintf_self, takeWhile_of_zero h.zero,
    printFormat_of_plain h.percent, List.take_of_length_le (by omega),
    takeWhile_of_zero h.zero]

theorem plainText_snprintf
    (hpercent : User.percent ∉ snprintf text.size format) :
    PlainText text (snprintf text.size format) := by
  refine ⟨hpercent, ?_, ?_⟩
  · intro hzero
    have hmem := List.mem_of_mem_take hzero
    have hkept := List.mem_takeWhile_imp hmem
    simp at hkept
  · have hsize := text.size_pos
    unfold snprintf
    rw [List.length_take]
    omega

end Texts

theorem plain_registered {req : UserRegisterReq} {now : UInt64}
    (hpercent : (registered req now).NoPercent) :
    (registered req now).profile.Plain where
  nickName := plainText_snprintf hpercent.1
  telNo := plainText_snprintf hpercent.2.1
  address := plainText_snprintf hpercent.2.2.1
  eMail := plainText_snprintf hpercent.2.2.2
  personalNote :=
    ⟨List.not_mem_nil, List.not_mem_nil, TextField.personalNote.size_pos⟩

/-- A plain record comes back from the row that the writer makes of it. -/
theorem profile_reloaded {info : ShmUserInfo} (hplain : info.profile.Plain)
    {parseFromArray : List UInt8 → Option DBUserInfo} {row : List UInt8}
    (hparse : parseFromArray row = some info.message)
    (undefined : Text → Text) (now : UInt64) :
    ∃ record, userProtoString2Struct parseFromArray undefined now
        ShmRecord.zero row = some record ∧
      record.info.profile = info.profile.loaded := by
  refine ⟨_, by unfold userProtoString2Struct; rw [hparse]; rfl, ?_⟩
  unfold Profile.loaded ShmUserInfo.profile ShmRecord.info
  simp only [ne_eq, reduceCtorEq, not_false_eq_true, text_printText_of_ne,
    Profile.mk.injEq]
  exact ⟨rfl, hplain.nickName.text_printText _ _, Int32.toInt32_toUInt32 _,
    Int32.toInt32_toUInt32 _, Int8.toInt8_toInt32 _, rfl,
    hplain.telNo.text_printText _ _, hplain.address.text_printText _ _,
    hplain.eMail.text_printText _ _, hplain.personalNote.text_printText _ _⟩

/-! ## The writer -/

inductive WriterPc where
  | idle
  | get (userID : UInt64)
  | store (userID : UInt64) (info : ShmUserInfo)

/-- The user that the writer is about to look up. -/
def WriterPc.gets : WriterPc → Option UInt64
  | .get userID => some userID
  | _ => none

def checkUserInfoValid (userID : UInt64) (info : ShmUserInfo) : ℤ :=
  if userID ≠ info.userID then 1
  else if info.userID = 0 then 2
  else 0

/-- The processes and the rows of the database.  `loading.loader` stands for the
loader whose turn it is, and is idle between its steps.  `registered` is the
record of every user that a registration has stored. -/
structure Storage (loaderNum writerNum : ℕ) where
  loading : Loading
  loaders : Fin loaderNum → LoaderPc
  writerQueue : List UInt64
  writers : Fin writerNum → WriterPc
  database : UInt64 → Option (List UInt8)
  registered : UInt64 → Option ShmUserInfo

namespace Storage

section Processes

variable {loaderNum writerNum : ℕ}

/-- The call of `DealPkg` that the main loop makes next. -/
def nextOp : MainPc → Option Op
  | .busDeal (.call op _) => some op
  | .loaderDeal (.call op _) => some op
  | _ => none

/-- What a call puts in the queue to the writer. -/
def writes (outcome : Outcome) : Op → List UInt64
  | .writerSend userID => if outcome.ret = 0 then [userID] else []
  | _ => []

def registers (users : UserMap) (registered : UInt64 → Option ShmUserInfo) :
    Op → UInt64 → Option ShmUserInfo
  | .insertUserInfo info =>
      if (insertUserInfo users info).1 = 0 then
        Function.update registered info.userID (some info)
      else registered
  | _ => registered

def mainStep (parsers : ClientParsers) (serverID : UInt32)
    (storage : Storage loaderNum writerNum) (outcome : Outcome)
    (vctUserID : List UInt64) : Storage loaderNum writerNum :=
  let op := nextOp storage.loading.main
  { storage with
    loading := storage.loading.mainStep parsers serverID outcome vctUserID
    writerQueue := storage.writerQueue ++ (op.map (writes outcome)).getD []
    registered :=
      (op.map (registers storage.loading.users storage.registered)).getD
        storage.registered }

/-- What the loader gets from the database for a user. -/
def query (codec : StorageCodec) (database : UInt64 → Option (List UInt8))
    (undefined : Text → Text) (now : UInt64) (userID : UInt64) : LoadQuery :=
  match database userID with
  | none => .recNum 0
  | some row =>
      if row.length = 0 then .empty
      else
        match userProtoString2Struct codec.parseFromArray undefined now
            ShmRecord.zero row with
        | none => .unparsable
        | some record => .record record.info

/-- A step of a loader, whose query may fail. -/
def loaderStep (codec : StorageCodec) (undefined : Text → Text)
    (storage : Storage loaderNum writerNum) (index : Fin loaderNum)
    (now : UInt64) (queryRet ret : ℤ) : Storage loaderNum writerNum :=
  let answer :=
    match storage.loaders index with
    | .query req =>
        if queryRet ≠ 0 then .failed
        else query codec storage.database undefined now req.userid
    | _ => .failed
  let turn := { storage.loading with loader := storage.loaders index }
  let loading := turn.loaderStep answer ret
  { storage with
    loading := { loading with loader := .idle }
    loaders := Function.update storage.loaders index loading.loader }

/-- A step of a writer, whose statement may fail. -/
def writerStep (codec : StorageCodec) (storage : Storage loaderNum writerNum)
    (index : Fin writerNum) (queryRet : ℤ) : Storage loaderNum writerNum :=
  let goTo pc := Function.update storage.writers index pc
  match storage.writers index with
  | .idle =>
      match storage.writerQueue with
      | [] => storage
      | userID :: later =>
          { storage with
            writerQueue := later
            writers := goTo (.get userID) }
  | .get userID =>
      match getUserInfo storage.loading.users userID with
      | none => { storage with writers := goTo .idle }
      | some info =>
          if checkUserInfoValid userID info ≠ 0 then
            { storage with writers := goTo .idle }
          else { storage with writers := goTo (.store userID info) }
  | .store userID info =>
      match codec.serializeToString info.message with
      | none => { storage with writers := goTo .idle }
      | some strProto =>
          if ShmSizes.shmUserInfoSize ≤ (codec.escapeString strProto).length then
            { storage with writers := goTo .idle }
          else if queryRet ≠ 0 then { storage with writers := goTo .idle }
          else
            { storage with
              writers := goTo .idle
              database :=
                Function.update storage.database userID (some strProto) }

inductive Action (loaderNum writerNum : ℕ) where
  | arrive (request : Request)
  | main (outcome : Outcome) (vctUserID : List UInt64)
  | loader (index : Fin loaderNum) (now : UInt64) (queryRet ret : ℤ)
  | writer (index : Fin writerNum) (queryRet : ℤ)

def step (codec : StorageCodec) (undefined : Text → Text)
    (parsers : ClientParsers) (serverID : UInt32)
    (storage : Storage loaderNum writerNum) :
    Action loaderNum writerNum → Option (Storage loaderNum writerNum)
  | .arrive request =>
      some { storage with
        loading := storage.loading.step parsers serverID (.arrive request) }
  | .main outcome vctUserID =>
      some (storage.mainStep parsers serverID outcome vctUserID)
  | .loader index now queryRet ret =>
      some (storage.loaderStep codec undefined index now queryRet ret)
  | .writer index queryRet => some (storage.writerStep codec index queryRet)

end Processes

/-! ## A registration is written back -/

/-- A record that is inserted is that of a registration, and the next call puts
the user in the queue to the writer. -/
def Announces : (op : Op) → (op.Answer → Deal ℤ) → Prop
  | .insertUserInfo info, next =>
      (∃ req now, info = User.registered req now) ∧
        ∀ ret, ∃ later, next ret = .call (.writerSend info.userID) later
  | _, _ => True

def WritesBack : Deal ℤ → Prop
  | .done _ => True
  | .call op next => Announces op next ∧ ∀ answer, WritesBack (next answer)

def MainWritesBack : MainPc → Prop
  | .busDeal program => WritesBack program
  | .loaderDeal program => WritesBack program
  | _ => True

section Programs

variable {parsers : ClientParsers} {serverID : UInt32} {request : Request}
  {program : Deal ℤ}

theorem writesBack_of_every
    (hevery : program.Every (fun op => ∀ info, op ≠ .insertUserInfo info)
      fun _ => True) : WritesBack program := by
  induction program with
  | done value => trivial
  | call op next ih =>
      refine ⟨?_, fun answer => ih answer (hevery.2 answer)⟩
      cases op with
      | insertUserInfo info => exact absurd rfl (hevery.1 info)
      | _ => trivial

theorem cmdID_of_insert {cmdID : UInt32} {info : ShmUserInfo}
    (hcall : DealCall parsers serverID request cmdID
      (.insertUserInfo info)) : cmdID = cmdUserRegisterReq := by
  cases hcall with
  | insertUserInfo now hparse => rfl

theorem writesBack_of_calls
    {cmdID : UInt32} (hcmd : cmdID ≠ cmdUserRegisterReq)
    (hevery : program.Every (DealCall parsers serverID request cmdID)
      fun _ => True) : WritesBack program := by
  apply writesBack_of_every
  apply hevery.imp
  rintro op hcall info rfl
  exact hcmd (cmdID_of_insert hcall)

theorem dealRegister_writesBack :
    WritesBack (dealRegister parsers serverID request) := by
  unfold dealRegister perform
  cases parseUserRegisterReq parsers request.payload with
  | none => trivial
  | some req =>
      refine ⟨trivial, fun now => ⟨⟨⟨req, now, rfl⟩, fun ret => ⟨_, rfl⟩⟩,
        fun ret => ?_⟩⟩
      apply writesBack_of_every
      change Program.Every _ _ (writeUserInfo req.userid >>= _)
      rw [Program.every_bind]
      apply (writeUserInfo_every (fun _ => Op.noConfusion)).mono
      intro _ _
      refine ⟨fun _ => Op.noConfusion, fun now => ?_⟩
      change Program.Every _ _ (send2Server _ _ _ _ >>= _)
      rw [Program.every_bind]
      apply (send2Server_every (fun _ => Op.noConfusion)).mono
      exact fun _ _ => trivial

theorem dealPkg_writesBack :
    WritesBack (dealPkg parsers serverID request) := by
  unfold dealPkg
  split_ifs
  · exact dealRegister_writesBack
  · exact writesBack_of_calls (by decide)
      (dealAddFriend_calls parsers serverID request)
  · exact writesBack_of_calls (by decide)
      (dealAddFriend2_calls parsers serverID request)
  · trivial

end Programs

/-! ## Users in the memory -/

section Memory

variable {users : UserMap} {info : ShmUserInfo} {userID : UInt64}

theorem insertUserInfo_cases (users : UserMap) (info : ShmUserInfo) :
    insertUserInfo users info = (-1, users) ∨
      info.userID ≠ 0 ∧ users.get info.userID = none ∧
        ∃ hroom, insertUserInfo users info =
          (0, users.put info.userID info hroom) := by
  by_cases hid : info.userID = 0
  · left
    rw [insertUserInfo, if_pos hid]
  cases hget : users.get info.userID with
  | some stored => exact .inl (insertUserInfo_of_present hget)
  | none =>
      by_cases hroom : users.size < users.capacity
      · exact .inr ⟨hid, rfl, hroom, insertUserInfo_of_absent hid hget hroom⟩
      · exact .inl (insertUserInfo_of_full info hroom)

theorem get_insertUserInfo {stored : ShmUserInfo}
    (hget : (insertUserInfo users info).2.get userID = some stored) :
    users.get userID = some stored ∨
      (insertUserInfo users info).1 = 0 ∧ userID = info.userID ∧
        stored = info := by
  obtain hsame | ⟨-, -, hroom, hput⟩ := insertUserInfo_cases users info
  · rw [hsame] at hget
    exact .inl hget
  · rw [hput] at hget
    by_cases huser : userID = info.userID
    · subst huser
      rw [BoundedMap.get_put_self, Option.some.injEq] at hget
      rw [hput]
      exact .inr ⟨rfl, rfl, hget.symm⟩
    · rw [BoundedMap.get_put_of_ne hroom huser] at hget
      exact .inl hget

/-- A call leaves the profile of a user as it was, or inserts the user. -/
theorem get_answer {outcome : Outcome} {op : Op} {after : ShmUserInfo}
    (hget : (op.answer users outcome).2.get userID = some after) :
    (∃ before, users.get userID = some before ∧
        after.profile = before.profile) ∨
      op = .insertUserInfo after ∧ (insertUserInfo users after).1 = 0 ∧
        userID = after.userID := by
  cases op with
  | insertUserInfo info =>
      obtain hold | ⟨hret, huser, rfl⟩ := get_insertUserInfo hget
      · exact .inl ⟨after, hold, rfl⟩
      · exact .inr ⟨rfl, hret, huser⟩
  | addFriendReq user otherUserID strNickName =>
      left
      simp only [Op.answer, addFriendReq] at hget
      split at hget
      · exact ⟨after, hget, rfl⟩
      · by_cases hother : userID = otherUserID
        · subst hother
          rw [BoundedMap.get_modify_self, Option.map_eq_some_iff] at hget
          obtain ⟨before, hbefore, rfl⟩ := hget
          exact ⟨before, hbefore, rfl⟩
        · rw [BoundedMap.get_modify_of_ne _ hother] at hget
          exact ⟨after, hget, rfl⟩
  | time => exact .inl ⟨after, hget, rfl⟩
  | getUserInfo user => exact .inl ⟨after, hget, rfl⟩
  | loaderSend req => exact .inl ⟨after, hget, rfl⟩
  | writerSend user => exact .inl ⟨after, hget, rfl⟩
  | send msg => exact .inl ⟨after, hget, rfl⟩

/-- A user is left alone, or is removed after a day without activity. -/
theorem get_removeUserInfoWhenInValid
    (users : UserMap) (nowTime removed userID : UInt64) :
    (removeUserInfoWhenInValid users nowTime removed).2.get userID =
        users.get userID ∨
      (removeUserInfoWhenInValid users nowTime removed).2.get userID = none ∧
        userID = removed ∧ ∃ info, users.get removed = some info ∧
          ¬ nowTime - userInvalidTime ≤ info.lastActiveTime := by
  unfold removeUserInfoWhenInValid removeUserInfo
  cases hget : users.get removed with
  | none => exact .inl rfl
  | some info =>
      have herase : HashList.mapCall users (.remove removed) =
          (⟨HashList.success, none⟩, users.erase removed) := by
        simp [HashList.mapCall, hget]
      rw [herase]
      dsimp only
      split_ifs with hactive hret
      · exact .inl rfl
      · exact absurd rfl hret
      · by_cases huser : userID = removed
        · subst huser
          exact .inr ⟨BoundedMap.get_erase_self, rfl, info, rfl, hactive⟩
        · exact .inl (BoundedMap.get_erase_of_ne huser)

end Memory

/-! ## What every step keeps -/

section Kept

variable {loaderNum writerNum : ℕ}

/-- The record has the profile that the user has been registered with. -/
structure Known (registered : UInt64 → Option ShmUserInfo) (userID : UInt64)
    (info : ShmUserInfo) : Prop where
  named : info.userID = userID
  same : ∃ stored, registered userID = some stored ∧
    info.Keeps stored.profile

/-- A writer is going to look the user up. -/
def Pending (storage : Storage loaderNum writerNum) (userID : UInt64) : Prop :=
  userID ∈ storage.writerQueue ∨
    (∃ index, (storage.writers index).gets = some userID) ∨
    nextOp storage.loading.main = some (.writerSend userID)

structure Kept (codec : StorageCodec) (storage : Storage loaderNum writerNum) :
    Prop where
  plain : ∀ userID stored, storage.registered userID = some stored →
    stored.userID = userID ∧ userID ≠ 0 ∧ stored.profile.Plain
  memory : ∀ userID info, storage.loading.users.get userID = some info →
    Known storage.registered userID info
  rows : ∀ userID row, storage.database userID = some row →
    ∃ info, codec.serializeToString info.message = some row ∧
      Known storage.registered userID info
  writing : ∀ index userID info, storage.writers index = .store userID info →
    Known storage.registered userID info
  inserting : ∀ index req info, storage.loaders index = .insert req info →
    Known storage.registered req.userid info
  programs : MainWritesBack storage.loading.main
  kept : ∀ userID stored, storage.registered userID = some stored →
    (storage.database userID).isSome ∨
      (∃ index info, storage.writers index = .store userID info) ∨
      (storage.loading.users.get userID).isSome ∧ storage.Pending userID

/-! ## What the processes can rely on -/

/-- The queue to the writer has room, and a user registers once, without a
percent sign. -/
def OrderlyCall (storage : Storage loaderNum writerNum) (outcome : Outcome) :
    Op → Prop
  | .writerSend _ => outcome.ret = 0
  | .insertUserInfo info =>
      (storage.registered info.userID).isNone ∧ info.NoPercent
  | _ => True

/-- A user who is dropped is not waiting for a writer. -/
def OrderlyDrop (storage : Storage loaderNum writerNum)
    (nowTime userID : UInt64) : Option ShmUserInfo → Prop
  | none => True
  | some info =>
      nowTime - userInvalidTime ≤ info.lastActiveTime ∨
        (∀ waiting ∈ storage.writerQueue, waiting ≠ userID) ∧
          ∀ index, (storage.writers index).gets ≠ some userID

def OrderlyMain (storage : Storage loaderNum writerNum) (outcome : Outcome) :
    MainPc → Prop
  | .busDeal (.call op _) => storage.OrderlyCall outcome op
  | .loaderDeal (.call op _) => storage.OrderlyCall outcome op
  | .removeInValid (userID :: _) =>
      storage.OrderlyDrop outcome.now userID
        (storage.loading.users.get userID)
  | _ => True

/-- The writer's statement has room for the row, and the database takes it. -/
def Fits (codec : StorageCodec) (queryRet : ℤ) : Option (List UInt8) → Prop
  | none => False
  | some strProto =>
      ((codec.escapeString strProto).length : ℤ) < ShmSizes.shmUserInfoSize ∧
        queryRet = 0

def OrderlyWrite (codec : StorageCodec) (queryRet : ℤ) : WriterPc → Prop
  | .store _ info => Fits codec queryRet (codec.serializeToString info.message)
  | _ => True

def Orderly (codec : StorageCodec) (storage : Storage loaderNum writerNum) :
    Action loaderNum writerNum → Prop
  | .main outcome _ => storage.OrderlyMain outcome storage.loading.main
  | .writer index queryRet =>
      OrderlyWrite codec queryRet (storage.writers index)
  | _ => True

end Kept

/-! ## Every step keeps the users -/

section Steps

variable {loaderNum writerNum : ℕ} {codec : StorageCodec}
  {undefined : Text → Text} {parsers : ClientParsers} {serverID : UInt32}
  {storage : Storage loaderNum writerNum}

theorem Known.of_profile
    {registered : UInt64 → Option ShmUserInfo} {userID : UInt64}
    {before after : ShmUserInfo} (h : Known registered userID before)
    (hprofile : after.profile = before.profile) :
    Known registered userID after := by
  obtain ⟨stored, hstored, hsame⟩ := h.same
  have hnamed : after.userID = before.userID :=
    congrArg Profile.userID hprofile
  refine ⟨hnamed.trans h.named, stored, hstored, ?_⟩
  rw [ShmUserInfo.Keeps, hprofile]
  exact hsame

/-- A record that has been loaded from the row of another one. -/
theorem Known.loaded
    {registered : UInt64 → Option ShmUserInfo} {userID : UInt64}
    {before after : ShmUserInfo} (h : Known registered userID before)
    (hprofile : after.profile = before.profile.loaded) :
    Known registered userID after := by
  obtain ⟨stored, hstored, hsame⟩ := h.same
  have hnamed : after.userID = before.userID :=
    congrArg Profile.userID hprofile
  exact ⟨hnamed.trans h.named, stored, hstored,
    .inr (hprofile.trans hsame.loaded)⟩

theorem update_cases
    {registered : UInt64 → Option ShmUserInfo} {userID newcomer : UInt64}
    {record stored : ShmUserInfo}
    (hstored : Function.update registered newcomer (some record) userID =
      some stored) :
    userID = newcomer ∧ stored = record ∨
      userID ≠ newcomer ∧ registered userID = some stored := by
  by_cases huser : userID = newcomer
  · subst huser
    rw [Function.update_self, Option.some.injEq] at hstored
    exact .inl ⟨rfl, hstored.symm⟩
  · rw [Function.update_of_ne huser] at hstored
    exact .inr ⟨huser, hstored⟩

/-- Another registration leaves the users who are known as they are. -/
theorem Known.update
    {registered : UInt64 → Option ShmUserInfo} {userID newcomer : UInt64}
    {info : ShmUserInfo} (h : Known registered userID info)
    (hfresh : registered newcomer = none) (record : ShmUserInfo) :
    Known (Function.update registered newcomer (some record)) userID info := by
  obtain ⟨stored, hstored, hsame⟩ := h.same
  have hne : userID ≠ newcomer := by
    rintro rfl
    rw [hfresh] at hstored
    cases hstored
  exact ⟨h.named, stored, by rwa [Function.update_of_ne hne], hsame⟩

/-- A process is where it has just gone, or has not moved. -/
theorem place_of_update {Pc : Type} {procNum : ℕ} {procs : Fin procNum → Pc}
    {index other : Fin procNum} {pc place : Pc}
    (hplace : Function.update procs index pc other = place) :
    pc = place ∨ procs other = place := by
  by_cases hindex : other = index
  · left
    rwa [hindex, Function.update_self] at hplace
  · right
    rwa [Function.update_of_ne hindex] at hplace

theorem mainStep_of_none (hnext : nextOp storage.loading.main = none)
    (outcome : Outcome) (vctUserID : List UInt64) :
    storage.mainStep parsers serverID outcome vctUserID =
      { storage with
        loading := storage.loading.mainStep parsers serverID outcome
          vctUserID } := by
  unfold mainStep
  rw [hnext]
  simp

theorem mainStep_of_call {op : Op} {next : op.Answer → Deal ℤ}
    {pc : Deal ℤ → MainPc} {outcome : Outcome} {vctUserID : List UInt64}
    (hnext : nextOp storage.loading.main = some op)
    (hcall : storage.loading.mainStep parsers serverID outcome vctUserID =
      storage.loading.call outcome pc op next) :
    storage.mainStep parsers serverID outcome vctUserID =
      { storage with
        loading := storage.loading.call outcome pc op next
        writerQueue := storage.writerQueue ++ writes outcome op
        registered :=
          registers storage.loading.users storage.registered op } := by
  unfold mainStep
  rw [hnext, hcall]
  rfl

/-- The steps of the main loop that make no call and drop no user. -/
theorem mainStep_quiet {loading : Loading}
    (hnext : nextOp loading.main = none)
    (hdrop : ∀ userID later, loading.main ≠ .removeInValid (userID :: later))
    (outcome : Outcome) (vctUserID : List UInt64) :
    (loading.mainStep parsers serverID outcome vctUserID).users =
        loading.users ∧
      MainWritesBack
        (loading.mainStep parsers serverID outcome vctUserID).main := by
  unfold Loading.mainStep
  split
  · split
    · exact ⟨rfl, trivial⟩
    · exact ⟨rfl, dealPkg_writesBack⟩
  · split_ifs
    · exact ⟨rfl, trivial⟩
    · exact ⟨rfl, trivial⟩
  · next hmain =>
      rw [hmain] at hnext
      cases hnext
  · split
    · exact ⟨rfl, trivial⟩
    · split_ifs
      · exact ⟨rfl, trivial⟩
      · exact ⟨rfl, dealPkg_writesBack⟩
  · split_ifs
    · exact ⟨rfl, trivial⟩
    · exact ⟨rfl, trivial⟩
  · next hmain =>
      rw [hmain] at hnext
      cases hnext
  · exact ⟨rfl, trivial⟩
  · exact ⟨rfl, trivial⟩
  · next hmain => exact absurd hmain (hdrop _ _)

namespace Kept

/-- A step of the main loop that leaves the users as they are. -/
theorem of_main
    (h : Kept codec storage) {loading : Loading}
    (hnext : ∀ userID, nextOp storage.loading.main ≠ some (.writerSend userID))
    (husers : loading.users = storage.loading.users)
    (hmain : MainWritesBack loading.main) :
    Kept codec { storage with loading := loading } where
  plain := h.plain
  memory := by
    rw [husers]
    exact h.memory
  rows := h.rows
  writing := h.writing
  inserting := h.inserting
  programs := hmain
  kept := by
    intro userID stored hstored
    obtain hrow | hwriting | ⟨hhere, hpending⟩ := h.kept userID stored hstored
    · exact .inl hrow
    · exact .inr (.inl hwriting)
    · rw [husers]
      obtain hqueue | hgets | hcall := hpending
      · exact .inr (.inr ⟨hhere, .inl hqueue⟩)
      · exact .inr (.inr ⟨hhere, .inr (.inl hgets)⟩)
      · exact absurd hcall (hnext userID)

theorem drop
    (h : Kept codec storage) {userID : UInt64} {later : List UInt64}
    (hmain : storage.loading.main = .removeInValid (userID :: later))
    {nowTime : UInt64}
    (horderly : storage.OrderlyDrop nowTime userID
      (storage.loading.users.get userID)) :
    Kept codec { storage with
      loading := { storage.loading with
        users := (removeUserInfoWhenInValid storage.loading.users nowTime
          userID).2
        main := .removeInValid later } } where
  plain := h.plain
  memory := by
    intro other info hget
    obtain hsame | ⟨hgone, -⟩ := get_removeUserInfoWhenInValid
      storage.loading.users nowTime userID other
    · exact h.memory other info (hsame.symm.trans hget)
    · rw [hgone] at hget
      cases hget
  rows := h.rows
  writing := h.writing
  inserting := h.inserting
  programs := trivial
  kept := by
    intro other stored hstored
    obtain hrow | hwriting | ⟨hhere, hpending⟩ := h.kept other stored hstored
    · exact .inl hrow
    · exact .inr (.inl hwriting)
    have hwaiting : other ∈ storage.writerQueue ∨
        ∃ index, (storage.writers index).gets = some other := by
      obtain hqueue | hgets | hcall := hpending
      · exact .inl hqueue
      · exact .inr hgets
      · rw [hmain] at hcall
        cases hcall
    obtain hsame | ⟨-, rfl, info, hinfo, hactive⟩ :=
      get_removeUserInfoWhenInValid storage.loading.users nowTime userID other
    · refine .inr (.inr ⟨?_, hwaiting.imp_right .inl⟩)
      rw [hsame]
      exact hhere
    · -- the user would be dropped while waiting for the writer
      rw [hinfo] at horderly
      obtain hstill | ⟨hqueue, hgets⟩ := horderly
      · exact absurd hstill hactive
      · obtain hmem | ⟨index, hget⟩ := hwaiting
        · exact absurd rfl (hqueue other hmem)
        · exact absurd hget (hgets index)

/-- The calls other than `InsertUserInfo`. -/
theorem call
    (h : Kept codec storage) {op : Op} {next : op.Answer → Deal ℤ}
    {pc : Deal ℤ → MainPc} {outcome : Outcome}
    (hnext : nextOp storage.loading.main = some op)
    (hpc : ∀ program, MainWritesBack (pc program) ↔ WritesBack program)
    (hprogram : ∀ answer, WritesBack (next answer))
    (hop : ∀ info, op ≠ .insertUserInfo info)
    (horderly : storage.OrderlyCall outcome op) :
    Kept codec { storage with
      loading := storage.loading.call outcome pc op next
      writerQueue := storage.writerQueue ++ writes outcome op } where
  plain := h.plain
  memory := by
    intro userID info hget
    obtain ⟨before, hbefore, hprofile⟩ | ⟨hinsert, -⟩ := get_answer hget
    · exact (h.memory userID before hbefore).of_profile hprofile
    · exact absurd hinsert (hop info)
  rows := h.rows
  writing := h.writing
  inserting := h.inserting
  programs := (hpc _).mpr (hprogram _)
  kept := by
    intro userID stored hstored
    obtain hrow | hwriting | ⟨hhere, hpending⟩ := h.kept userID stored hstored
    · exact .inl hrow
    · exact .inr (.inl hwriting)
    have hstays : (op.answer storage.loading.users outcome).2.get userID ≠
        none :=
      Loading.answer_present op (Option.isSome_iff_ne_none.mp hhere)
    refine .inr (.inr ⟨Option.isSome_iff_ne_none.mpr hstays, ?_⟩)
    obtain hqueue | hgets | hcall := hpending
    · exact .inl (List.mem_append_left _ hqueue)
    · exact .inr (.inl hgets)
    · -- the call puts the user in the queue
      rw [hnext, Option.some.injEq] at hcall
      subst hcall
      have hret : outcome.ret = 0 := horderly
      refine .inl (List.mem_append_right _ ?_)
      rw [writes, if_pos hret]
      exact List.mem_singleton_self userID

/-- A registration: the user is in the memory, and the next call is the one
that tells the writer. -/
theorem insert
    (h : Kept codec storage) {info : ShmUserInfo}
    {next : (Op.insertUserInfo info).Answer → Deal ℤ}
    {pc : Deal ℤ → MainPc} {outcome : Outcome}
    (hnext : nextOp storage.loading.main = some (.insertUserInfo info))
    (hpc : ∀ program, MainWritesBack (pc program) ↔ WritesBack program)
    (hpcNext : ∀ op later, nextOp (pc (.call op later)) = some op)
    (hannounces : Announces (.insertUserInfo info) next)
    (hprogram : ∀ answer, WritesBack (next answer))
    (horderly : storage.OrderlyCall outcome (.insertUserInfo info)) :
    Kept codec { storage with
      loading := storage.loading.call outcome pc (.insertUserInfo info) next
      registered := registers storage.loading.users storage.registered
        (.insertUserInfo info) } := by
  obtain ⟨hfresh, hpercent⟩ := horderly
  rw [Option.isNone_iff_eq_none] at hfresh
  obtain ⟨⟨req, now, hinfo⟩, hthen⟩ := hannounces
  obtain ⟨later, hlater⟩ :=
    hthen (insertUserInfo storage.loading.users info).1
  obtain hfailed | ⟨hid, habsent, hroom, hinserted⟩ :=
    insertUserInfo_cases storage.loading.users info
  · have hunchanged : registers storage.loading.users storage.registered
        (.insertUserInfo info) = storage.registered := by
      rw [registers, hfailed]
      rfl
    rw [hunchanged]
    refine h.of_main ?_ ?_ ((hpc _).mpr (hprogram _))
    · intro userID hcall
      rw [hnext] at hcall
      cases hcall
    · exact congrArg Prod.snd hfailed
  have hregisters : registers storage.loading.users storage.registered
      (.insertUserInfo info) =
        Function.update storage.registered info.userID (some info) := by
    rw [registers, hinserted, if_pos rfl]
  have husers : (storage.loading.call outcome pc (.insertUserInfo info)
      next).users = storage.loading.users.put info.userID info hroom :=
    congrArg Prod.snd hinserted
  have hmain : nextOp (storage.loading.call outcome pc
      (.insertUserInfo info) next).main =
        some (.writerSend info.userID) := by
    change nextOp (pc (next (insertUserInfo storage.loading.users info).1)) = _
    rw [hlater, hpcNext]
  rw [hregisters]
  exact
    { plain := by
        intro userID stored hstored
        obtain ⟨rfl, rfl⟩ | ⟨-, hold⟩ := update_cases hstored
        · refine ⟨rfl, hid, ?_⟩
          rw [hinfo] at hpercent ⊢
          exact plain_registered hpercent
        · exact h.plain userID stored hold
      memory := by
        intro userID other hget
        rw [husers] at hget
        by_cases huser : userID = info.userID
        · subst huser
          rw [BoundedMap.get_put_self, Option.some.injEq] at hget
          subst hget
          exact ⟨rfl, info, Function.update_self .., .inl rfl⟩
        · rw [BoundedMap.get_put_of_ne hroom huser] at hget
          exact (h.memory userID other hget).update hfresh info
      rows := by
        intro userID row hrow
        obtain ⟨other, hserialize, hknown⟩ := h.rows userID row hrow
        exact ⟨other, hserialize, hknown.update hfresh info⟩
      writing := fun index userID other hwriter =>
        (h.writing index userID other hwriter).update hfresh info
      inserting := fun index req other hloader =>
        (h.inserting index req other hloader).update hfresh info
      programs := (hpc _).mpr (hprogram _)
      kept := by
        intro userID stored hstored
        obtain ⟨rfl, -⟩ | ⟨huser, hold⟩ := update_cases hstored
        · refine .inr (.inr ⟨?_, .inr (.inr hmain)⟩)
          rw [husers, BoundedMap.get_put_self]
          rfl
        · obtain hrow | hwriting | ⟨hhere, hpending⟩ :=
            h.kept userID stored hold
          · exact .inl hrow
          · exact .inr (.inl hwriting)
          · refine .inr (.inr ⟨?_, ?_⟩)
            · rw [husers, BoundedMap.get_put_of_ne hroom huser]
              exact hhere
            · refine hpending.imp_right (Or.imp_right fun hcall => ?_)
              rw [hnext] at hcall
              cases hcall }

theorem quiet
    (h : Kept codec storage) (hnext : nextOp storage.loading.main = none)
    (hdrop : ∀ userID later,
      storage.loading.main ≠ .removeInValid (userID :: later))
    {outcome : Outcome} {vctUserID : List UInt64} :
    Kept codec (storage.mainStep parsers serverID outcome vctUserID) := by
  obtain ⟨husers, hprograms⟩ := mainStep_quiet hnext hdrop outcome vctUserID
  rw [mainStep_of_none hnext]
  refine h.of_main ?_ husers hprograms
  intro userID hcall
  rw [hnext] at hcall
  cases hcall

theorem deal
    (h : Kept codec storage) {op : Op} {next : op.Answer → Deal ℤ}
    {pc : Deal ℤ → MainPc} {outcome : Outcome} {vctUserID : List UInt64}
    (hnext : nextOp storage.loading.main = some op)
    (hstep : storage.loading.mainStep parsers serverID outcome vctUserID =
      storage.loading.call outcome pc op next)
    (hpc : ∀ program, MainWritesBack (pc program) ↔ WritesBack program)
    (hpcNext : ∀ op later, nextOp (pc (.call op later)) = some op)
    (hprogram : WritesBack (.call op next))
    (horderly : storage.OrderlyCall outcome op) :
    Kept codec (storage.mainStep parsers serverID outcome vctUserID) := by
  obtain ⟨hannounces, hlater⟩ := hprogram
  rw [mainStep_of_call hnext hstep]
  by_cases hinsert : ∃ info, op = .insertUserInfo info
  · obtain ⟨info, rfl⟩ := hinsert
    have hwrites : writes outcome (.insertUserInfo info) = [] := rfl
    rw [hwrites, List.append_nil]
    exact h.insert hnext hpc hpcNext hannounces hlater horderly
  · push Not at hinsert
    have hregisters : registers storage.loading.users storage.registered op =
        storage.registered := by
      cases op with
      | insertUserInfo info => exact absurd rfl (hinsert info)
      | _ => rfl
    rw [hregisters]
    exact h.call hnext hpc hlater hinsert horderly

theorem mainStep
    (h : Kept codec storage) {outcome : Outcome} {vctUserID : List UInt64}
    (horderly : Orderly codec storage (.main outcome vctUserID)) :
    Kept codec (storage.mainStep parsers serverID outcome vctUserID) := by
  have hprograms := h.programs
  cases hmain : storage.loading.main with
  | busDeal program =>
      cases program with
      | done ret => exact h.quiet (by rw [hmain]; rfl) (by simp [hmain])
      | call op next =>
          change storage.OrderlyMain outcome storage.loading.main at horderly
          rw [hmain] at horderly
          rw [hmain] at hprograms
          exact h.deal (by rw [hmain]; rfl)
            (by rw [Loading.mainStep, hmain]) (fun _ => Iff.rfl)
            (fun _ _ => rfl) hprograms horderly
  | loaderDeal program =>
      cases program with
      | done ret => exact h.quiet (by rw [hmain]; rfl) (by simp [hmain])
      | call op next =>
          change storage.OrderlyMain outcome storage.loading.main at horderly
          rw [hmain] at horderly
          rw [hmain] at hprograms
          exact h.deal (by rw [hmain]; rfl)
            (by rw [Loading.mainStep, hmain]) (fun _ => Iff.rfl)
            (fun _ _ => rfl) hprograms horderly
  | removeInValid users =>
      cases users with
      | nil => exact h.quiet (by rw [hmain]; rfl) (by simp [hmain])
      | cons userID later =>
          change storage.OrderlyMain outcome storage.loading.main at horderly
          rw [hmain] at horderly
          rw [mainStep_of_none (by rw [hmain]; rfl), Loading.mainStep, hmain]
          exact h.drop hmain horderly
  | recv => exact h.quiet (by rw [hmain]; rfl) (by simp [hmain])
  | loaderRecv => exact h.quiet (by rw [hmain]; rfl) (by simp [hmain])
  | checkValid => exact h.quiet (by rw [hmain]; rfl) (by simp [hmain])

/-- The row of a user leads to the record that is inserted. -/
theorem query_of_row
    (h : Kept codec storage) (hcodec : codec.Lawful) {userID : UInt64}
    {row : List UInt8} (hrow : storage.database userID = some row)
    (undefined : Text → Text) (now : UInt64) :
    ∃ info, query codec storage.database undefined now userID =
        .record info ∧ Known storage.registered userID info ∧
      ∀ stored, storage.registered userID = some stored →
        info.profile = stored.profile.loaded := by
  obtain ⟨info, hserialize, hknown⟩ := h.rows userID row hrow
  obtain ⟨stored, hstored, hsame⟩ := hknown.same
  obtain ⟨-, hid, hplain⟩ := h.plain userID stored hstored
  have hnonempty : row.length ≠ 0 := by
    intro hempty
    apply hcodec.nonempty info.message fun hzero =>
      hid (hknown.named.symm.trans hzero)
    rw [hserialize, List.length_eq_zero_iff.mp hempty]
  obtain ⟨record, hrecord, hprofile⟩ := profile_reloaded (hsame.plain hplain)
    (hcodec.parses info.message row hserialize) undefined now
  refine ⟨record.info, ?_, hknown.loaded hprofile, ?_⟩
  · rw [query, hrow]
    dsimp only
    rw [if_neg hnonempty, hrecord]
  · intro other hother
    rw [hstored, Option.some.injEq] at hother
    rw [hprofile, hsame.loaded, hother]

theorem known_of_query
    (h : Kept codec storage) (hcodec : codec.Lawful) {userID now : UInt64}
    {info : ShmUserInfo}
    (hquery : query codec storage.database undefined now userID =
      .record info) : Known storage.registered userID info := by
  cases hrow : storage.database userID with
  | none =>
      rw [query, hrow] at hquery
      cases hquery
  | some row =>
      obtain ⟨loaded, hloaded, hknown, -⟩ :=
        h.query_of_row hcodec hrow undefined now
      rw [hloaded, LoadQuery.record.injEq] at hquery
      rwa [← hquery]

/-- A step of a loader that leaves the users as they are. -/
theorem of_loader
    (h : Kept codec storage) {loading : Loading} {index : Fin loaderNum}
    {loader : LoaderPc}
    (husers : loading.users = storage.loading.users)
    (hmain : loading.main = storage.loading.main)
    (hinserting : ∀ req info, loader = .insert req info →
      Known storage.registered req.userid info) :
    Kept codec { storage with
      loading := loading
      loaders := Function.update storage.loaders index loader } where
  plain := h.plain
  memory := by
    rw [husers]
    exact h.memory
  rows := h.rows
  writing := h.writing
  inserting := by
    intro other req info hinsert
    obtain hnew | hold := place_of_update hinsert
    · exact hinserting req info hnew
    · exact h.inserting other req info hold
  programs := by
    rw [hmain]
    exact h.programs
  kept := by
    unfold Pending
    rw [husers, hmain]
    exact h.kept

/-- Loading a user who is known. -/
theorem load
    (h : Kept codec storage) {info : ShmUserInfo}
    (hknown : Known storage.registered info.userID info) :
    Kept codec { storage with
      loading := { storage.loading with
        users := (insertUserInfo storage.loading.users info).2 } } where
  plain := h.plain
  memory := by
    intro userID other hget
    obtain hold | ⟨-, rfl, rfl⟩ := get_insertUserInfo hget
    · exact h.memory userID other hold
    · exact hknown
  rows := h.rows
  writing := h.writing
  inserting := h.inserting
  programs := h.programs
  kept := by
    intro userID stored hstored
    obtain hrow | hwriting | ⟨hhere, hpending⟩ := h.kept userID stored hstored
    · exact .inl hrow
    · exact .inr (.inl hwriting)
    · refine .inr (.inr ⟨?_, hpending⟩)
      rw [Option.isSome_iff_ne_none] at hhere ⊢
      exact Loading.insertUserInfo_present hhere

theorem loaderStep
    (h : Kept codec storage) (hcodec : codec.Lawful) (index : Fin loaderNum)
    (now : UInt64) (queryRet ret : ℤ) :
    Kept codec (storage.loaderStep codec undefined index now queryRet ret) := by
  unfold Storage.loaderStep Loading.loaderStep
  cases hloader : storage.loaders index with
  | idle =>
      dsimp only
      split
      · exact h.of_loader rfl rfl (by simp)
      · exact h.of_loader rfl rfl (by simp)
  | query req =>
      dsimp only
      split
      · next info hanswer =>
          refine h.of_loader rfl rfl fun other stored hinsert => ?_
          cases hinsert
          split_ifs at hanswer
          exact h.known_of_query hcodec hanswer
      · exact h.of_loader rfl rfl (by simp)
  | insert req info =>
      have hknown := h.inserting index req info hloader
      have hloaded := h.load (hknown.named ▸ hknown)
      exact hloaded.of_loader rfl rfl (by simp)
  | reply req result => exact h.of_loader rfl rfl (by simp)

/-- A step of a writer that leaves the database as it is. -/
theorem of_writer
    (h : Kept codec storage) {index : Fin writerNum} {writer : WriterPc}
    {writerQueue : List UInt64}
    (hwriting : ∀ userID info, writer = .store userID info →
      Known storage.registered userID info)
    (hkept : ∀ userID, (storage.loading.users.get userID).isSome →
      userID ∈ storage.writerQueue ∨
          (storage.writers index).gets = some userID →
      (∃ info, writer = .store userID info) ∨ userID ∈ writerQueue ∨
        writer.gets = some userID)
    (hstore : ∀ userID info, storage.writers index ≠ .store userID info) :
    Kept codec { storage with
      writers := Function.update storage.writers index writer
      writerQueue := writerQueue } where
  plain := h.plain
  memory := h.memory
  rows := h.rows
  writing := by
    intro other userID info hother
    obtain hnew | hold := place_of_update hother
    · exact hwriting userID info hnew
    · exact h.writing other userID info hold
  inserting := h.inserting
  programs := h.programs
  kept := by
    intro userID stored hstored
    obtain hrow | ⟨other, info, hinfo⟩ | ⟨hhere, hpending⟩ :=
      h.kept userID stored hstored
    · exact .inl hrow
    · have hindex : other ≠ index := by
        rintro rfl
        exact hstore userID info hinfo
      exact .inr (.inl ⟨other, info,
        (Function.update_of_ne hindex _ _).trans hinfo⟩)
    · obtain hwaiting | ⟨other, hindex, hgets⟩ | hcall :
          (userID ∈ storage.writerQueue ∨
            (storage.writers index).gets = some userID) ∨
          (∃ other, other ≠ index ∧
            (storage.writers other).gets = some userID) ∨
          nextOp storage.loading.main = some (.writerSend userID) := by
        obtain hqueue | ⟨other, hgets⟩ | hcall := hpending
        · exact .inl (.inl hqueue)
        · by_cases hindex : other = index
          · exact .inl (.inr (hindex ▸ hgets))
          · exact .inr (.inl ⟨other, hindex, hgets⟩)
        · exact .inr (.inr hcall)
      · obtain ⟨info, hinfo⟩ | hqueue | hgets := hkept userID hhere hwaiting
        · exact .inr (.inl ⟨index, info,
            (Function.update_self index _ _).trans hinfo⟩)
        · exact .inr (.inr ⟨hhere, .inl hqueue⟩)
        · exact .inr (.inr ⟨hhere, .inr (.inl ⟨index,
            (congrArg WriterPc.gets (Function.update_self index _ _)).trans
              hgets⟩)⟩)
      · exact .inr (.inr ⟨hhere, .inr (.inl ⟨other,
          (congrArg WriterPc.gets (Function.update_of_ne hindex _ _)).trans
            hgets⟩)⟩)
      · exact .inr (.inr ⟨hhere, .inr (.inr hcall)⟩)

theorem store
    (h : Kept codec storage) {index : Fin writerNum} {userID : UInt64}
    {info : ShmUserInfo} {strProto : List UInt8}
    (hwriter : storage.writers index = .store userID info)
    (hserialize : codec.serializeToString info.message = some strProto) :
    Kept codec { storage with
      writers := Function.update storage.writers index .idle
      database := Function.update storage.database userID
        (some strProto) } where
  plain := h.plain
  memory := h.memory
  rows := by
    intro other row hrow
    by_cases huser : other = userID
    · subst huser
      simp only [Function.update_self, Option.some.injEq] at hrow
      subst hrow
      exact ⟨info, hserialize, h.writing index other info hwriter⟩
    · simp only [Function.update_of_ne huser] at hrow
      exact h.rows other row hrow
  writing := by
    intro other user stored hstore
    obtain hnew | hold := place_of_update hstore
    · cases hnew
    · exact h.writing other user stored hold
  inserting := h.inserting
  programs := h.programs
  kept := by
    intro other stored hstored
    by_cases huser : other = userID
    · subst huser
      left
      simp only [Function.update_self, Option.isSome_some]
    · simp only [Function.update_of_ne huser]
      obtain hrow | ⟨place, waiting, hstoring⟩ | ⟨hhere, hpending⟩ :=
        h.kept other stored hstored
      · exact .inl hrow
      · have hindex : place ≠ index := by
          rintro rfl
          rw [hwriter] at hstoring
          exact huser (WriterPc.store.inj hstoring).1.symm
        exact .inr (.inl ⟨place, waiting,
          (Function.update_of_ne hindex _ _).trans hstoring⟩)
      · obtain hqueue | ⟨place, hgets⟩ | hcall := hpending
        · exact .inr (.inr ⟨hhere, .inl hqueue⟩)
        · have hindex : place ≠ index := by
            rintro rfl
            rw [hwriter] at hgets
            cases hgets
          exact .inr (.inr ⟨hhere, .inr (.inl ⟨place,
            (congrArg WriterPc.gets (Function.update_of_ne hindex _ _)).trans
              hgets⟩)⟩)
        · exact .inr (.inr ⟨hhere, .inr (.inr hcall)⟩)

/-- The record of a user in the memory passes the check of the writer. -/
theorem checkUserInfoValid_eq
    (h : Kept codec storage) {userID : UInt64} {info : ShmUserInfo}
    (hget : storage.loading.users.get userID = some info) :
    checkUserInfoValid userID info = 0 := by
  have hknown := h.memory userID info hget
  obtain ⟨stored, hstored, -⟩ := hknown.same
  obtain ⟨-, hid, -⟩ := h.plain userID stored hstored
  rw [checkUserInfoValid, if_neg (not_not.mpr hknown.named.symm),
    if_neg (hknown.named ▸ hid)]

theorem writerStep
    (h : Kept codec storage) {index : Fin writerNum} {queryRet : ℤ}
    (horderly : OrderlyWrite codec queryRet (storage.writers index)) :
    Kept codec (storage.writerStep codec index queryRet) := by
  unfold Storage.writerStep
  cases hwriter : storage.writers index with
  | idle =>
      dsimp only
      cases hqueue : storage.writerQueue with
      | nil => exact h
      | cons userID later =>
          apply h.of_writer (by simp) _ (by simp [hwriter])
          intro other _ hwaiting
          rw [hwriter, hqueue, List.mem_cons] at hwaiting
          obtain (rfl | hlater) | hgets := hwaiting
          · exact .inr (.inr rfl)
          · exact .inr (.inl hlater)
          · cases hgets
  | get userID =>
      dsimp only
      rw [getUserInfo_eq]
      cases hget : storage.loading.users.get userID with
      | none =>
          apply h.of_writer (by simp) _ (by simp [hwriter])
          intro other hhere hwaiting
          rw [hwriter] at hwaiting
          obtain hqueue | hgets := hwaiting
          · exact .inr (.inl hqueue)
          · cases hgets
            rw [hget] at hhere
            cases hhere
      | some info =>
          dsimp only
          rw [h.checkUserInfoValid_eq hget, if_neg (not_not.mpr rfl)]
          apply h.of_writer _ _ (by simp [hwriter])
          · intro other stored hstore
            cases hstore
            exact h.memory userID info hget
          · intro other _ hwaiting
            rw [hwriter] at hwaiting
            obtain hqueue | hgets := hwaiting
            · exact .inr (.inl hqueue)
            · cases hgets
              exact .inl ⟨info, rfl⟩
  | store userID info =>
      rw [hwriter] at horderly
      change Fits codec queryRet (codec.serializeToString info.message)
        at horderly
      dsimp only
      cases hserialize : codec.serializeToString info.message with
      | none =>
          rw [hserialize] at horderly
          exact horderly.elim
      | some strProto =>
          rw [hserialize] at horderly
          obtain ⟨hlength, hret⟩ := horderly
          dsimp only
          rw [if_neg (not_le.mpr hlength), if_neg (not_not.mpr hret)]
          exact h.store hwriter hserialize

theorem keep
    (h : Kept codec storage) (hcodec : codec.Lawful)
    {action : Action loaderNum writerNum} {after : Storage loaderNum writerNum}
    (horderly : Orderly codec storage action)
    (hstep : step codec undefined parsers serverID storage action =
      some after) : Kept codec after := by
  cases action with
  | arrive request =>
      cases hstep
      exact ⟨h.plain, h.memory, h.rows, h.writing, h.inserting, h.programs,
        h.kept⟩
  | main outcome vctUserID =>
      cases hstep
      exact h.mainStep horderly
  | loader index now queryRet ret =>
      cases hstep
      exact h.loaderStep hcodec index now queryRet ret
  | writer index queryRet =>
      cases hstep
      exact h.writerStep horderly

end Kept

end Steps

/-! ## The users of every run -/

/-- What the database holds of the users registered before. -/
structure Stored (codec : StorageCodec)
    (registered : UInt64 → Option ShmUserInfo)
    (database : UInt64 → Option (List UInt8)) : Prop where
  plain : ∀ userID stored, registered userID = some stored →
    stored.userID = userID ∧ userID ≠ 0 ∧ stored.profile.Plain
  rows : ∀ userID row, database userID = some row →
    ∃ info, codec.serializeToString info.message = some row ∧
      Known registered userID info
  present : ∀ userID, (registered userID).isSome → (database userID).isSome

def start {loaderNum writerNum : ℕ} (capacity : ℕ)
    (registered : UInt64 → Option ShmUserInfo)
    (database : UInt64 → Option (List UInt8)) :
    Storage loaderNum writerNum where
  loading := Loading.start (BoundedMap.empty UInt64 ShmUserInfo capacity)
  loaders := fun _ => .idle
  writerQueue := []
  writers := fun _ => .idle
  database := database
  registered := registered

theorem Stored.kept
    {loaderNum writerNum : ℕ} {codec : StorageCodec}
    {registered : UInt64 → Option ShmUserInfo}
    {database : UInt64 → Option (List UInt8)}
    (h : Stored codec registered database) (capacity : ℕ) :
    Kept codec (start capacity registered database :
      Storage loaderNum writerNum) where
  plain := h.plain
  memory := by
    intro userID info hget
    change (BoundedMap.empty UInt64 ShmUserInfo capacity).get userID =
      some info at hget
    rw [BoundedMap.get_empty] at hget
    cases hget
  rows := h.rows
  writing := by
    intro index userID info hstore
    cases hstore
  inserting := by
    intro index req info hinsert
    cases hinsert
  programs := trivial
  kept := by
    intro userID stored hstored
    left
    apply h.present
    rw [show registered userID = some stored from hstored]
    rfl

section Example

variable {loaderNum writerNum : ℕ}

instance (info : ShmUserInfo) : Decidable info.NoPercent :=
  inferInstanceAs (Decidable (_ ∧ _))

instance (storage : Storage loaderNum writerNum) (outcome : Outcome) (op : Op) :
    Decidable (storage.OrderlyCall outcome op) :=
  match op with
  | .writerSend _ => inferInstanceAs (Decidable (_ = _))
  | .insertUserInfo _ => inferInstanceAs (Decidable (_ ∧ _))
  | .time => isTrue trivial
  | .getUserInfo _ => isTrue trivial
  | .addFriendReq _ _ _ => isTrue trivial
  | .loaderSend _ => isTrue trivial
  | .send _ => isTrue trivial

instance (storage : Storage loaderNum writerNum) (nowTime userID : UInt64)
    (found : Option ShmUserInfo) :
    Decidable (storage.OrderlyDrop nowTime userID found) :=
  match found with
  | none => isTrue trivial
  | some _ =>
      -- not one by one over all user IDs
      haveI : Decidable (∀ waiting ∈ storage.writerQueue, waiting ≠ userID) :=
        List.decidableBAll (· ≠ userID) storage.writerQueue
      haveI : Decidable (∀ index,
          (storage.writers index).gets ≠ some userID) :=
        Nat.decidableForallFin _
      inferInstanceAs (Decidable (_ ∨ _))

instance (storage : Storage loaderNum writerNum) (outcome : Outcome)
    (pc : MainPc) :
    Decidable (storage.OrderlyMain outcome pc) :=
  match pc with
  | .busDeal (.call op _) =>
      inferInstanceAs (Decidable (storage.OrderlyCall outcome op))
  | .loaderDeal (.call op _) =>
      inferInstanceAs (Decidable (storage.OrderlyCall outcome op))
  | .removeInValid (userID :: _) =>
      inferInstanceAs (Decidable (storage.OrderlyDrop outcome.now userID
        (storage.loading.users.get userID)))
  | .busDeal (.done _) => isTrue trivial
  | .loaderDeal (.done _) => isTrue trivial
  | .removeInValid [] => isTrue trivial
  | .recv => isTrue trivial
  | .loaderRecv => isTrue trivial
  | .checkValid => isTrue trivial

instance (codec : StorageCodec) (queryRet : ℤ) (row : Option (List UInt8)) :
    Decidable (Fits codec queryRet row) :=
  match row with
  | none => isFalse id
  | some _ => inferInstanceAs (Decidable (_ ∧ _))

instance (codec : StorageCodec) (queryRet : ℤ) (pc : WriterPc) :
    Decidable (OrderlyWrite codec queryRet pc) :=
  match pc with
  | .store _ info => inferInstanceAs (Decidable (Fits codec queryRet
      (codec.serializeToString info.message)))
  | .idle => isTrue trivial
  | .get _ => isTrue trivial

instance (codec : StorageCodec) (storage : Storage loaderNum writerNum)
    (action : Action loaderNum writerNum) :
    Decidable (Orderly codec storage action) :=
  match action with
  | .main outcome _ => inferInstanceAs (Decidable
      (storage.OrderlyMain outcome storage.loading.main))
  | .writer index queryRet => inferInstanceAs (Decidable
      (OrderlyWrite codec queryRet (storage.writers index)))
  | .arrive _ => isTrue trivial
  | .loader _ _ _ _ => isTrue trivial

def turn (now : UInt64) : Action 2 2 := .main ⟨now, now, 0⟩ [10003]

end Example

end Storage

end MessageBus.User
