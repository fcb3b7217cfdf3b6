import Mathlib.Data.List.TakeWhile
import MessageBus.UserSections

/-!
# Records in the database

The writer turns a record into an `mm::DBUserInfo` (`Struct2ProtoStringUser` of
`user/writer_user.cpp`), the loader turns it back (`UserProtoString2Struct` of
`user/loader_user.cpp`).  The loader has no place for some of the fields, and it
gives the texts to `snprintf` as formats, so that a percent sign in a text is
taken as the start of a conversion.
-/

namespace MessageBus.User

open Conn

/-! ## Messages -/

/-- `mm::FriendInfo`. -/
structure DBFriendInfo where
  userid : UInt64
  remarkname : Text
  seestatus : Int32
deriving DecidableEq

/-- `mm::RequestInfo`. -/
structure DBRequestInfo where
  userid : UInt64
  nickname : Text
  requesttime : UInt64
deriving DecidableEq

/-- `mm::DBUserInfo`. -/
structure DBUserInfo where
  userid : UInt64
  nickname : Text
  level : UInt32
  viplevel : UInt32
  sex : Int32
  birthday : UInt64
  telno : Text
  address : Text
  email : Text
  personalnote : Text
  friendlist : List DBFriendInfo
  requestlist : List DBRequestInfo
deriving DecidableEq

/-- The message that `Struct2ProtoStringUser` fills in, from the texts of a
record. -/
def ShmUserInfo.message (info : ShmUserInfo) : DBUserInfo where
  userid := info.userID
  nickname := info.nickName
  level := info.level.toUInt32
  viplevel := info.vipLevel.toUInt32
  sex := info.sex.toInt32
  birthday := info.birthday
  telno := info.telNo
  address := info.address
  email := info.eMail
  personalnote := info.personalNote
  friendlist := []
  requestlist := []

def dbUserInfo (record : ShmRecord) : DBUserInfo := record.info.message

/-- `Struct2ProtoStringUser`, for a `SerializeToString`. -/
def struct2ProtoStringUser
    (serializeToString : DBUserInfo → Option (List UInt8))
    (record : ShmRecord) : Option (List UInt8) :=
  serializeToString (dbUserInfo record)

/-! ## Texts as formats -/

def percent : UInt8 := 37

/-- What `snprintf` prints for a format and no arguments: two percent signs are
one, and from any other conversion on the result is undefined. -/
def printFormat (undefined : Text → Text) : Text → Text
  | [] => []
  | [byte] => if byte = percent then undefined [byte] else [byte]
  | byte :: next :: rest =>
      if byte = percent then
        if next = percent then percent :: printFormat undefined rest
        else undefined (byte :: next :: rest)
      else byte :: printFormat undefined (next :: rest)

/-- `snprintf` into a `char` array with the size of the array: the bytes that
fit, a NUL behind them, and the rest as it was. -/
def ShmRecord.snprintf (record : ShmRecord) (text : TextField)
    (printed : Text) : ShmRecord
  | .char ⟨place, i⟩ =>
      if place = text then
        (printed.take (text.size - 1) ++ [0]).getD i
          (record (.char ⟨place, i⟩))
      else record (.char ⟨place, i⟩)
  | field => record field

/-- `snprintf` of a `std::string`, up to its first NUL, as the format. -/
def ShmRecord.printText (record : ShmRecord) (undefined : Text → Text)
    (text : TextField) (format : Text) : ShmRecord :=
  record.snprintf text (printFormat undefined (format.takeWhile (· ≠ 0)))

/-- A `ShmUserInfo` as its constructor leaves it. -/
def ShmRecord.zero : ShmRecord
  | .userID => (0 : UInt64)
  | .status => (0 : Int32)
  | .lastActiveTime => (0 : UInt64)
  | .level => (0 : Int32)
  | .vipLevel => (0 : Int32)
  | .sex => (0 : Int8)
  | .birthday => (0 : UInt64)
  | .friendUserID _ => (0 : UInt64)
  | .seeStatus _ => (0 : Int8)
  | .requestUserID _ => (0 : UInt64)
  | .requestTime _ => (0 : UInt64)
  | .requestIsValid _ => (0 : UInt8)
  | .char _ => (0 : UInt8)

def userStatusLoaded : Int32 := 2

/-- The assignments of `UserProtoString2Struct` that are not texts. -/
def assignScalars (record : ShmRecord) (now : UInt64) (user : DBUserInfo) :
    ShmRecord
  | .userID => user.userid
  | .status => userStatusLoaded
  | .lastActiveTime => now
  | .level => user.level.toInt32
  | .vipLevel => user.viplevel.toInt32
  | .sex => user.sex.toInt8
  | field => record field

/-- `UserProtoString2Struct` on a record, for a `ParseFromArray`. -/
def userProtoString2Struct
    (parseFromArray : List UInt8 → Option DBUserInfo)
    (undefined : Text → Text) (now : UInt64) (record : ShmRecord)
    (strProto : List UInt8) : Option ShmRecord :=
  (parseFromArray strProto).map fun user =>
    let record := assignScalars record now user
    let record := record.printText undefined .nickName user.nickname
    let record := record.printText undefined .telNo user.telno
    let record := record.printText undefined .address user.address
    let record := record.printText undefined .eMail user.email
    record.printText undefined .personalNote user.personalnote

/-! ## What a text becomes -/

section Texts

variable {undefined : Text → Text} {format : Text} {record : ShmRecord}
  {text other : TextField} {printed : Text}

theorem printFormat_of_plain (hplain : percent ∉ format) :
    printFormat undefined format = format := by
  induction format using printFormat.induct with
  | case1 => rfl
  | case2 => simp at hplain
  | case3 byte hbyte => rw [printFormat, if_neg hbyte]
  | case4 => simp at hplain
  | case5 => simp at hplain
  | case6 byte next rest hbyte ih =>
      rw [printFormat, if_neg hbyte, ih fun hmem => hplain (by simp [hmem])]

theorem length_printFormat_le (format : Text) :
    (printFormat (fun _ => []) format).length ≤ format.length := by
  induction format using printFormat.induct with
  | case1 => simp [printFormat]
  | case2 => simp [printFormat]
  | case3 byte hbyte => simp [printFormat, hbyte]
  | case4 rest ih =>
      simp only [printFormat, if_true, List.length_cons]
      omega
  | case5 next rest hnext => simp [printFormat, hnext]
  | case6 byte next rest hbyte ih =>
      rw [printFormat, if_neg hbyte, List.length_cons, List.length_cons]
      omega

/-- A percent sign costs at least one byte if undefined conversions print
nothing. -/
theorem length_printFormat_lt (hpercent : percent ∈ format) :
    (printFormat (fun _ => []) format).length < format.length := by
  induction format using printFormat.induct with
  | case1 => simp at hpercent
  | case2 => simp [printFormat]
  | case3 byte hbyte =>
      exact absurd (List.mem_singleton.mp hpercent).symm hbyte
  | case4 rest ih =>
      have hle := length_printFormat_le rest
      simp only [printFormat, if_true, List.length_cons]
      omega
  | case5 next rest hnext => simp [printFormat, hnext]
  | case6 byte next rest hbyte ih =>
      have hrest := ih (List.mem_of_ne_of_mem (Ne.symm hbyte) hpercent)
      rw [printFormat, if_neg hbyte, List.length_cons, List.length_cons]
      omega

theorem TextField.size_pos (text : TextField) : 0 < text.size := by
  cases text <;> exact Nat.succ_pos _

/-- An array whose first bytes have been overwritten by a text and a NUL. -/
theorem ofFn_getD_eq
    {size : ℕ} {front : Text} (old : Fin size → UInt8)
    (hfront : front.length < size) :
    ∃ rest, (List.ofFn fun i => (front ++ [0]).getD i (old i)) =
      front ++ 0 :: rest := by
  let array := List.ofFn fun i => (front ++ [0]).getD i (old i)
  have htake : array.take (front.length + 1) = front ++ [0] := by
    apply List.ext_getElem
    · rw [List.length_take, List.length_ofFn, List.length_append,
        List.length_singleton]
      omega
    · intro i hi hi'
      rw [List.getElem_take, List.getElem_ofFn, List.getD_eq_getElem?_getD,
        List.getElem?_eq_getElem hi', Option.getD_some]
  refine ⟨array.drop (front.length + 1), ?_⟩
  change array = _
  conv_lhs => rw [← List.take_append_drop (front.length + 1) array, htake]
  simp

theorem text_snprintf_self :
    (record.snprintf text printed).text text =
      (printed.take (text.size - 1)).takeWhile (· ≠ 0) := by
  have hsize := text.size_pos
  have hfront : (printed.take (text.size - 1)).length < text.size := by
    rw [List.length_take]
    omega
  obtain ⟨rest, hrest⟩ := ofFn_getD_eq
    (fun i => record (.char ⟨text, i⟩)) hfront
  have harray : (List.ofFn fun i =>
      record.snprintf text printed (.char ⟨text, i⟩)) =
      printed.take (text.size - 1) ++ 0 :: rest := by
    rw [← hrest]
    simp only [ShmRecord.snprintf, if_true]
  unfold ShmRecord.text
  rw [harray, List.takeWhile_append]
  split_ifs with hall
  · rw [List.takeWhile_cons_of_neg (by simp), List.append_nil]
    exact ((List.takeWhile_sublist _).eq_of_length hall).symm
  · rfl

theorem text_snprintf_of_ne (hne : other ≠ text) :
    (record.snprintf text printed).text other = record.text other := by
  unfold ShmRecord.text
  simp only [ShmRecord.snprintf, if_neg hne]

@[simp] theorem text_printText_of_ne (hne : other ≠ text) :
    (record.printText undefined text format).text other =
      record.text other :=
  text_snprintf_of_ne hne

/-- The array has a NUL. -/
def ShmRecord.Terminated (record : ShmRecord) (text : TextField) : Prop :=
  ∃ i, record (.char ⟨text, i⟩) = 0

theorem zero_notMem_text (record : ShmRecord) (text : TextField) :
    0 ∉ record.text text := by
  intro hmem
  have hzero := List.mem_takeWhile_imp hmem
  simp at hzero

theorem takeWhile_text (record : ShmRecord) (text : TextField) :
    (record.text text).takeWhile (· ≠ 0) = record.text text := by
  rw [List.takeWhile_eq_self_iff]
  intro byte hbyte
  simp only [decide_eq_true_eq]
  rintro rfl
  exact zero_notMem_text record text hbyte

theorem ShmRecord.Terminated.length_lt (hterminated : record.Terminated text) :
    (record.text text).length < text.size := by
  obtain ⟨i, hi⟩ := hterminated
  have hsublist : List.Sublist (record.text text)
      (List.ofFn fun i => record (.char ⟨text, i⟩)) :=
    List.takeWhile_sublist _
  have hle := hsublist.length_le
  rw [List.length_ofFn] at hle
  apply lt_of_le_of_ne hle
  intro hlength
  have hwhole := hsublist.eq_of_length (by rw [List.length_ofFn, hlength])
  apply zero_notMem_text record text
  rw [hwhole, List.mem_ofFn]
  exact ⟨i, hi⟩

theorem text_printText_of_plain
    {source : ShmRecord} (hterminated : source.Terminated text)
    (hplain : percent ∉ source.text text) :
    (record.printText undefined text (source.text text)).text text =
      source.text text := by
  have hlength := hterminated.length_lt
  unfold ShmRecord.printText
  rw [text_snprintf_self, takeWhile_text, printFormat_of_plain hplain,
    List.take_of_length_le (by omega), takeWhile_text]

theorem text_printText_of_percent
    {source : ShmRecord} (hpercent : percent ∈ source.text text) :
    (record.printText (fun _ => []) text (source.text text)).text text ≠
      source.text text := by
  unfold ShmRecord.printText
  rw [text_snprintf_self, takeWhile_text]
  intro heq
  have hshorter := length_printFormat_lt hpercent
  have hkept : List.Sublist (source.text text)
      ((printFormat (fun _ => []) (source.text text)).take
        (text.size - 1)) := by
    conv_lhs => rw [← heq]
    exact List.takeWhile_sublist _
  have hle := hkept.length_le
  rw [List.length_take] at hle
  omega

end Texts

/-! ## The way through the database -/

/-- The requests that `IsValid` marks. -/
def ShmRecord.validRequests (record : ShmRecord) : List RequestInfo :=
  (List.ofFn (ShmRecord.info record).requestList).filter (·.isValid ≠ 0)

/-- Two records that agree on everything but `Status` and `LastActiveTime`. -/
structure SameData (record loaded : ShmRecord) : Prop where
  userID : loaded .userID = record .userID
  nickName : loaded.text .nickName = record.text .nickName
  level : loaded .level = record .level
  vipLevel : loaded .vipLevel = record .vipLevel
  sex : loaded .sex = record .sex
  birthday : loaded .birthday = record .birthday
  telNo : loaded.text .telNo = record.text .telNo
  address : loaded.text .address = record.text .address
  eMail : loaded.text .eMail = record.text .eMail
  personalNote : loaded.text .personalNote = record.text .personalNote
  friendList : ∀ i, loaded (.friendUserID i) = record (.friendUserID i) ∧
    loaded.text (.remarkName i) = record.text (.remarkName i) ∧
    loaded (.seeStatus i) = record (.seeStatus i)
  requestList : loaded.validRequests = record.validRequests

/-- A record that the database keeps: no birthday, no friends, no pending
request, and no percent sign in a text. -/
structure Persistable (record : ShmRecord) : Prop where
  birthday : record .birthday = 0
  friendList : ∀ i, record (.friendUserID i) = 0 ∧
    record.text (.remarkName i) = [] ∧ record (.seeStatus i) = 0
  requestList : ∀ i, record (.requestIsValid i) = 0
  nickName : percent ∉ record.text .nickName
  telNo : percent ∉ record.text .telNo
  address : percent ∉ record.text .address
  eMail : percent ∉ record.text .eMail
  personalNote : percent ∉ record.text .personalNote

section Loading

variable {record : ShmRecord} {undefined : Text → Text} {now : UInt64}

/-- The record that the loader makes of the message of the writer. -/
def reloaded (undefined : Text → Text) (now : UInt64) (record : ShmRecord) :
    ShmRecord :=
  let user := dbUserInfo record
  ((((assignScalars ShmRecord.zero now user).printText undefined .nickName
    user.nickname).printText undefined .telNo user.telno).printText undefined
    .address user.address).printText undefined .eMail user.email |>.printText
    undefined .personalNote user.personalnote

theorem text_zero (now : UInt64) (user : DBUserInfo) (text : TextField) :
    (assignScalars ShmRecord.zero now user).text text = [] := by
  unfold ShmRecord.text
  simp [assignScalars, ShmRecord.zero]

/-- The texts that the writer and the loader both know. -/
def storedTexts : List TextField :=
  [.nickName, .telNo, .address, .eMail, .personalNote]

theorem exists_text_reloaded
    {text : TextField} (undefined : Text → Text) (now : UInt64)
    (record : ShmRecord) (htext : text ∈ storedTexts) :
    ∃ before : ShmRecord, (reloaded undefined now record).text text =
      (before.printText undefined text (record.text text)).text text := by
  simp only [storedTexts, List.mem_cons, List.not_mem_nil, or_false] at htext
  rcases htext with rfl | rfl | rfl | rfl | rfl
  all_goals
    simp only [reloaded, ne_eq, reduceCtorEq, not_false_eq_true,
      text_printText_of_ne]
    exact ⟨_, rfl⟩

theorem text_reloaded_of_plain
    {text : TextField} (htext : text ∈ storedTexts)
    (hterminated : record.Terminated text)
    (hplain : percent ∉ record.text text) :
    (reloaded undefined now record).text text = record.text text := by
  obtain ⟨before, hbefore⟩ := exists_text_reloaded undefined now record htext
  rw [hbefore, text_printText_of_plain hterminated hplain]

theorem notMem_of_text_reloaded
    {text : TextField} (htext : text ∈ storedTexts)
    (hsame : (reloaded (fun _ => []) now record).text text =
      record.text text) :
    percent ∉ record.text text := by
  obtain ⟨before, hbefore⟩ :=
    exists_text_reloaded (fun _ => []) now record htext
  rw [hbefore] at hsame
  exact fun hpercent => text_printText_of_percent hpercent hsame

theorem text_remarkName_reloaded (i : Fin maxFriendNum) :
    (reloaded undefined now record).text (.remarkName i) = [] := by
  simp only [reloaded, ne_eq, reduceCtorEq, not_false_eq_true,
    text_printText_of_ne]
  rw [text_zero]

theorem validRequests_eq_nil_iff :
    record.validRequests = [] ↔ ∀ i, record (.requestIsValid i) = 0 := by
  unfold ShmRecord.validRequests
  rw [List.filter_eq_nil_iff, List.forall_mem_ofFn_iff]
  apply forall_congr'
  intro i
  change ¬ decide (record (.requestIsValid i) ≠ 0) = true ↔ _
  rw [decide_eq_true_eq, not_not]

theorem validRequests_reloaded :
    (reloaded undefined now record).validRequests = [] :=
  validRequests_eq_nil_iff.mpr fun _ => rfl

theorem sameData_of_persistable
    (hterminated : ∀ text, record.Terminated text)
    (hpersistable : Persistable record) :
    SameData record (reloaded undefined now record) where
  userID := rfl
  nickName := text_reloaded_of_plain (by decide) (hterminated _)
    hpersistable.nickName
  level := rfl
  vipLevel := rfl
  sex := Int8.toInt8_toInt32 _
  birthday := hpersistable.birthday.symm
  telNo := text_reloaded_of_plain (by decide) (hterminated _)
    hpersistable.telNo
  address := text_reloaded_of_plain (by decide) (hterminated _)
    hpersistable.address
  eMail := text_reloaded_of_plain (by decide) (hterminated _)
    hpersistable.eMail
  personalNote := text_reloaded_of_plain (by decide) (hterminated _)
    hpersistable.personalNote
  friendList := by
    intro i
    obtain ⟨huser, hremark, hstatus⟩ := hpersistable.friendList i
    exact ⟨huser.symm, (text_remarkName_reloaded i).trans hremark.symm,
      hstatus.symm⟩
  requestList := by
    rw [validRequests_reloaded,
      validRequests_eq_nil_iff.mpr hpersistable.requestList]

/-- If undefined conversions print nothing, a record that comes back is one
that the database keeps. -/
theorem persistable_of_sameData
    (hsame : SameData record (reloaded (fun _ => []) now record)) :
    Persistable record where
  birthday := hsame.birthday.symm
  friendList := by
    intro i
    obtain ⟨huser, hremark, hstatus⟩ := hsame.friendList i
    exact ⟨huser.symm, hremark.symm.trans (text_remarkName_reloaded i),
      hstatus.symm⟩
  requestList := by
    rw [← validRequests_eq_nil_iff, ← hsame.requestList,
      validRequests_reloaded]
  nickName := notMem_of_text_reloaded (by decide) hsame.nickName
  telNo := notMem_of_text_reloaded (by decide) hsame.telNo
  address := notMem_of_text_reloaded (by decide) hsame.address
  eMail := notMem_of_text_reloaded (by decide) hsame.eMail
  personalNote := notMem_of_text_reloaded (by decide) hsame.personalNote

/-- A record whose texts are terminated comes back from the database with all
its data, whatever undefined conversions print, if and only if it has no
birthday, no friends, no pending request and no percent sign in a text. -/
theorem persisted_record_kept_iff
    (serializeToString : DBUserInfo → Option (List UInt8))
    (parseFromArray : List UInt8 → Option DBUserInfo)
    (now : UInt64) (record : ShmRecord) (strProto : List UInt8)
    (hterminated : ∀ text, record.Terminated text)
    (hserialize : struct2ProtoStringUser serializeToString record =
      some strProto)
    (hinverse : ∀ user, serializeToString user = some strProto →
      parseFromArray strProto = some user) :
    (∀ undefined, ∃ loaded,
      userProtoString2Struct parseFromArray undefined now ShmRecord.zero
        strProto = some loaded ∧ SameData record loaded) ↔
      Persistable record := by
  have hparse := hinverse (dbUserInfo record) hserialize
  have hloaded (undefined : Text → Text) :
      userProtoString2Struct parseFromArray undefined now ShmRecord.zero
        strProto = some (reloaded undefined now record) := by
    unfold userProtoString2Struct
    rw [hparse]
    rfl
  constructor
  · intro hkept
    obtain ⟨loaded, hresult, hsame⟩ := hkept fun _ => []
    rw [hloaded, Option.some.injEq] at hresult
    subst hresult
    exact persistable_of_sameData hsame
  · intro hpersistable undefined
    exact ⟨_, hloaded undefined,
      sameData_of_persistable hterminated hpersistable⟩

end Loading

/-- The record of user 10003 with the nickname "Ann". -/
def annRecord (birthday : UInt64) : ShmRecord
  | .userID => (10003 : UInt64)
  | .sex => (1 : Int8)
  | .birthday => birthday
  | field => ShmRecord.zero.snprintf .nickName [65, 110, 110] field

/-- Its `DBUserInfo` on the wire, for a birthday below 128. -/
def annProto (birthday : UInt64) : List UInt8 :=
  [8, 147, 78, 18, 3, 65, 110, 110, 24, 0, 32, 0, 40, 1,
    48, birthday.toUInt8, 58, 0, 66, 0, 74, 0, 82, 0]

def annSerialize (birthday : UInt64) (user : DBUserInfo) :
    Option (List UInt8) :=
  if user = dbUserInfo (annRecord birthday) then some (annProto birthday)
  else none

def annParse (birthday : UInt64) (strProto : List UInt8) : Option DBUserInfo :=
  if strProto = annProto birthday then some (dbUserInfo (annRecord birthday))
  else none

theorem annRecord_terminated (birthday : UInt64) (text : TextField) :
    (annRecord birthday).Terminated text := by
  cases text with
  | nickName => exact ⟨⟨3, by decide⟩, rfl⟩
  | telNo => exact ⟨⟨0, by decide⟩, rfl⟩
  | address => exact ⟨⟨0, by decide⟩, rfl⟩
  | eMail => exact ⟨⟨0, by decide⟩, rfl⟩
  | personalNote => exact ⟨⟨0, by decide⟩, rfl⟩
  | remarkName i => exact ⟨⟨0, Nat.succ_pos _⟩, rfl⟩
  | requestNickName i => exact ⟨⟨0, Nat.succ_pos _⟩, rfl⟩

theorem annSerialize_eq (birthday : UInt64) :
    struct2ProtoStringUser (annSerialize birthday) (annRecord birthday) =
      some (annProto birthday) := by
  rw [struct2ProtoStringUser, annSerialize, if_pos rfl]

theorem annParse_of_annSerialize
    {birthday : UInt64} {user : DBUserInfo} {strProto : List UInt8}
    (hserialize : annSerialize birthday user = some strProto) :
    annParse birthday strProto = some user := by
  unfold annSerialize at hserialize
  split_ifs at hserialize with huser
  cases hserialize
  rw [annParse, if_pos rfl, huser]

theorem persisted_record_kept_iff_ann :
    ∃ loaded,
      userProtoString2Struct (annParse 0) (fun _ => []) 5 ShmRecord.zero
        (annProto 0) = some loaded ∧ SameData (annRecord 0) loaded :=
  (persisted_record_kept_iff (annSerialize 0) (annParse 0) 5 (annRecord 0)
    (annProto 0) (annRecord_terminated 0) (annSerialize_eq 0)
    (fun _ => annParse_of_annSerialize)).mpr
    ⟨rfl, fun _ => ⟨rfl, rfl, rfl⟩, fun _ => rfl, by decide, by decide,
      by decide, by decide, by decide⟩ (fun _ => [])

/-- The birthday of a user is written and not loaded again. -/
theorem birthday_not_loaded :
    (∀ text, (annRecord 7).Terminated text) ∧
      struct2ProtoStringUser (annSerialize 7) (annRecord 7) =
        some (annProto 7) ∧
      (∀ user, annSerialize 7 user = some (annProto 7) →
        annParse 7 (annProto 7) = some user) ∧
      ∃ loaded,
        userProtoString2Struct (annParse 7) (fun _ => []) 5 ShmRecord.zero
          (annProto 7) = some loaded ∧
        loaded .birthday = 0 ∧ ¬ SameData (annRecord 7) loaded := by
  refine ⟨annRecord_terminated 7, annSerialize_eq 7,
    fun _ => annParse_of_annSerialize, reloaded (fun _ => []) 5 (annRecord 7),
    ?_, rfl, ?_⟩
  · unfold userProtoString2Struct
    rw [annParse, if_pos rfl]
    rfl
  · intro hsame
    exact absurd hsame.birthday (by decide)

end MessageBus.User
