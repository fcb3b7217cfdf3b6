import MessageBus.ProtoWire
import MessageBus.ReplyOrigins
import MessageBus.WireHeaders

/-!
# What a conn server answers to its clients

The branches of `DealPkg` of `conn/conn.cpp` that call `Send2Client`.  Header
and message are written into `m_pSendBuff` one behind the other, and as many
bytes of it are sent as the header says.  The parsers of `mm.proto` are
parameters, and so is the parser of the client, of which only the rule of the
required fields is used.
-/

namespace MessageBus.Replies

open Wire
open ProtoWire
open Receive (xyPkgMaxLen)
open User (cmdAuthRegisterRsp cmdAuthLoginRsp cmdUserRegisterRsp
  cmdUserAddFriendRsp)

def cmdDisconnect : UInt32 := 0x00010003
def cmdLoginNotice : UInt32 := 0x00010004
def cmdLoginSyncReq : UInt32 := 0x00010005
def cmdLoginSyncRsp : UInt32 := 0x00010006

/-! ## Messages -/

/-- `mm::UserRegisterRsp`. -/
structure UserRegisterRsp where
  userid : UInt64
  ret : Int32

/-- `mm::AuthLoginRsp`. -/
structure AuthLoginRsp where
  userid : Int32
  ret : Int32

/-- `ParseFromArray` of the answers of the other servers. -/
structure ResponseParsers where
  authRegisterRsp : List UInt8 → Option Conn.AuthRegisterRsp
  userRegisterRsp : List UInt8 → Option UserRegisterRsp
  authLoginRsp : List UInt8 → Option AuthLoginRsp

namespace App

/-- `app::LoginRsp`; a field is there once it has been set. -/
structure LoginRsp where
  userid : Option Int32 := none
  ret : Option Int32 := none

/-- `app::RegisterRsp`. -/
structure RegisterRsp where
  ret : Option Int32 := none
  userid : Option UInt64 := none

/-- `app::AddFriendRsp`. -/
structure AddFriendRsp where
  ret : Option Int32 := none

def LoginRsp.fields (rsp : LoginRsp) : List Field :=
  rsp.userid.toList.map (fun userid => ⟨1, .int32 userid⟩) ++
    rsp.ret.toList.map fun ret => ⟨2, .int32 ret⟩

def RegisterRsp.fields (rsp : RegisterRsp) : List Field :=
  rsp.ret.toList.map (fun ret => ⟨1, .int32 ret⟩) ++
    rsp.userid.toList.map fun userid => ⟨2, .varint userid⟩

def AddFriendRsp.fields (rsp : AddFriendRsp) : List Field :=
  rsp.ret.toList.map fun ret => ⟨1, .int32 ret⟩

def LoginRsp.required : Descriptor := [(1, .varint), (2, .varint)]
def RegisterRsp.required : Descriptor := [(1, .varint), (2, .varint)]
def AddFriendRsp.required : Descriptor := [(1, .varint)]

/-- The message of `app.proto` that answers a client under a command. -/
def rspOf (cmdID : UInt32) : Option Descriptor :=
  if cmdID = cmdAuthRegisterRsp then some RegisterRsp.required
  else if cmdID = cmdAuthLoginRsp then some LoginRsp.required
  else if cmdID = cmdUserAddFriendRsp then some AddFriendRsp.required
  else none

end App

/-! ## `DealPkg` -/

/-- The arguments of a call of `Send2Client`. -/
structure ClientPacket where
  connPos : UInt32
  pSendBuff : Buffer
  sendBuffLen : ℕ

def coverToXYHeader (header : XYHeaderIn) (pkgLen : ℕ) : XYHeader where
  pkgLen := UInt32.ofNat
    (pkgLen - XYHeaderIn.getHeaderLen + XYHeader.getHeadLen)
  cmdID := header.cmdID
  sn := header.sn
  ckSum := 0
  ret := header.ret
  compresse := 0

/-- Header and body in `m_pSendBuff`. -/
def fill (sendBuff : Buffer) (header : XYHeader) (body : List UInt8) : Buffer :=
  (copyTo body (header.write sendBuff 0).2 XYHeader.getHeadLen).2

/-- `CurHeader` of the branches that build their own message. -/
def rspHeader (request : XYHeaderIn) (cmdID : UInt32)
    (message : List UInt8) : XYHeader where
  pkgLen := UInt32.ofNat (message.length + XYHeader.getHeadLen)
  cmdID := cmdID
  sn := request.sn
  ckSum := 0
  ret := request.ret
  compresse := 0

/-- The end of these branches. -/
def answer (sendBuff : Buffer) (request : XYHeaderIn) (cmdID : UInt32)
    (message : List UInt8) : Option ClientPacket :=
  let header := rspHeader request cmdID message
  -- SerializeToArray
  if message.length ≤ xyPkgMaxLen - XYHeader.getHeadLen then
    some ⟨request.connPos, fill sendBuff header message, header.pkgLen.toNat⟩
  else none

/-- The `default` branch. -/
def passThrough (sendBuff : Buffer) (request : XYHeaderIn)
    (body : List UInt8) : Option ClientPacket :=
  let header :=
    coverToXYHeader request (XYHeaderIn.getHeaderLen + body.length)
  if request.connPos = 0 then none
  else some ⟨request.connPos, fill sendBuff header body, header.pkgLen.toNat⟩

section DealPkg

variable (parsers : ResponseParsers) (posConnMap : UInt32 → Bool)
  (sendBuff : Buffer)

/-- What `DealPkg` gives to `Send2Client` for a message with the given header
and body.  `posConnMap` says which positions have a connection. -/
def dealMessage (header : XYHeaderIn) (body : List UInt8) :
    Option ClientPacket :=
  if header.cmdID = cmdAuthRegisterRsp then
    match parsers.authRegisterRsp body with
    | none => none
    | some rsp =>
        if rsp.ret ≠ 0 then
          let rsp2 : App.RegisterRsp :=
            { ret := some rsp.ret, userid := some rsp.userid }
          answer sendBuff header cmdAuthRegisterRsp (encode rsp2.fields)
        else none -- goes on to the user server
  else if header.cmdID = cmdUserRegisterRsp then
    match parsers.userRegisterRsp body with
    | none => none
    | some rsp =>
        let rsp2 : App.RegisterRsp :=
          { userid := some rsp.userid, ret := some rsp.ret }
        answer sendBuff header cmdAuthRegisterRsp (encode rsp2.fields)
  else if header.cmdID = cmdAuthLoginRsp then
    match parsers.authLoginRsp body with
    | none => none
    | some rsp =>
        if rsp.ret = 0 ∧ ¬ posConnMap header.connPos then none
        else
          let rsp2 : App.LoginRsp := { ret := some rsp.ret }
          answer sendBuff header cmdAuthLoginRsp (encode rsp2.fields)
  else if header.cmdID = cmdLoginNotice ∨ header.cmdID = cmdDisconnect ∨
      header.cmdID = cmdLoginSyncReq ∨ header.cmdID = cmdLoginSyncRsp then
    none
  else passThrough sendBuff header body

/-- `DealPkg` on the `pkgLen` bytes at the start of a buffer. -/
def dealPkg (pCurBuffPos : Buffer) (pkgLen : ℕ) : Option ClientPacket :=
  let header := (XYHeaderIn.read pCurBuffPos 0).1
  dealMessage parsers posConnMap sendBuff header
    (bytesAt pCurBuffPos XYHeaderIn.getHeaderLen
      (pkgLen - XYHeaderIn.getHeaderLen))

end DealPkg

/-- A packet as `Run` takes it from `m_RecvQueue` into a buffer of
`XY_PKG_MAX_LEN` bytes, without its `BusHeader`. -/
structure IsResponse (pkgLen : ℕ) : Prop where
  header : XYHeaderIn.getHeaderLen ≤ pkgLen
  fits : Bus.BusHeader.getHeaderLen + pkgLen ≤ xyPkgMaxLen

/-! ## Well-formed packets -/

/-- What a client relies on: as many bytes as the header says, the sequence
number of its request, and the message of the command behind the header. -/
structure WellFormed (Parses : Descriptor → List UInt8 → Prop) (sn : UInt32)
    (packet : ClientPacket) : Prop where
  head : XYHeader.getHeadLen ≤ packet.sendBuffLen
  pkgLen :
    (XYHeader.read packet.pSendBuff 0).1.pkgLen.toNat = packet.sendBuffLen
  sn : (XYHeader.read packet.pSendBuff 0).1.sn = sn
  body : ∃ descriptor ∈
      App.rspOf (XYHeader.read packet.pSendBuff 0).1.cmdID,
    Parses descriptor (bytesAt packet.pSendBuff XYHeader.getHeadLen
      (packet.sendBuffLen - XYHeader.getHeadLen))

theorem read_fill (sendBuff : Buffer) (header : XYHeader)
    (body : List UInt8) :
    (XYHeader.read (fill sendBuff header body) 0).1 = header := by
  have hsame : bytesAt (fill sendBuff header body) 0 17 =
      bytesAt (header.write sendBuff 0).2 0 17 := by
    apply List.map_congr_left
    intro address haddress
    rw [List.mem_range'_1] at haddress
    apply copyTo_outside
    left
    unfold XYHeader.getHeadLen
    omega
  have hread := lawful_xyHeader.read_write header sendBuff 0
  rw [read_xyHeader] at hread ⊢
  exact (congrArg xyHeader.decode hsame).trans hread

theorem bytesAt_fill (sendBuff : Buffer) (header : XYHeader)
    (body : List UInt8) :
    bytesAt (fill sendBuff header body) XYHeader.getHeadLen body.length =
      body :=
  bytesAt_copyTo body _ _

/-- A header that counts itself and the body behind it: the packet is well
formed if and only if the body is the message of the command. -/
theorem wellFormed_fill_iff {Parses : Descriptor → List UInt8 → Prop}
    {sendBuff : Buffer} {header : XYHeader} {body : List UInt8}
    {connPos : UInt32}
    (hlen : header.pkgLen.toNat = body.length + XYHeader.getHeadLen) :
    WellFormed Parses header.sn
        ⟨connPos, fill sendBuff header body, header.pkgLen.toNat⟩ ↔
      ∃ descriptor ∈ App.rspOf header.cmdID, Parses descriptor body := by
  have hread := read_fill sendBuff header body
  have hbody := bytesAt_fill sendBuff header body
  have hrest : header.pkgLen.toNat - XYHeader.getHeadLen = body.length := by
    omega
  constructor
  · intro hwell
    have hparses := hwell.body
    rwa [hread, hrest, hbody] at hparses
  · intro hparses
    exact
      { head := hlen ▸ Nat.le_add_left _ _
        pkgLen := by rw [hread]
        sn := by rw [hread]
        body := by rwa [hread, hrest, hbody] }

/-! ## The branches -/

section Branches

variable {Parses : Descriptor → List UInt8 → Prop}

theorem parses_iff (hrule : RequiredFieldsRule Parses)
    {fields : List Field} (hfields : ∀ field ∈ fields, field.IsInteger)
    (hfew : fields.length ≤ 2) (descriptor : Descriptor) :
    Parses descriptor (encode fields) ↔
      ∀ required ∈ descriptor, ∃ field ∈ fields, field.Is required := by
  have hlength := encode_length_le
    fun field hfield => (hfields field hfield).encode_length_le
  exact hrule descriptor fields (fun field hfield => (hfields field hfield).valid)
    (by omega)

/-- A branch that builds its own message sends a well-formed packet if and only
if all the fields that the command's message requires have been set. -/
theorem answer_wellFormed_iff (hrule : RequiredFieldsRule Parses)
    {fields : List Field} (hfields : ∀ field ∈ fields, field.IsInteger)
    (hfew : fields.length ≤ 2) (sendBuff : Buffer) (request : XYHeaderIn)
    (cmdID : UInt32) :
    (∀ packet ∈ answer sendBuff request cmdID (encode fields),
        WellFormed Parses request.sn packet) ↔
      ∃ descriptor ∈ App.rspOf cmdID,
        ∀ required ∈ descriptor, ∃ field ∈ fields, field.Is required := by
  have hlength := encode_length_le
    fun field hfield => (hfields field hfield).encode_length_le
  have hfits : (encode fields).length ≤
      xyPkgMaxLen - XYHeader.getHeadLen := by
    unfold xyPkgMaxLen XYHeader.getHeadLen
    omega
  have hpkgLen : (rspHeader request cmdID (encode fields)).pkgLen.toNat =
      (encode fields).length + XYHeader.getHeadLen := by
    unfold rspHeader XYHeader.getHeadLen
    rw [UInt32.toNat_ofNat']
    omega
  simp only [answer, if_pos hfits, Option.mem_def, Option.some.injEq,
    forall_eq']
  simp only [← parses_iff hrule hfields hfew]
  exact wellFormed_fill_iff hpkgLen

theorem passThrough_wellFormed_iff {request : XYHeaderIn}
    {body : List UInt8} (sendBuff : Buffer)
    (hfits : XYHeaderIn.getHeaderLen + body.length ≤ xyPkgMaxLen)
    (hconn : request.connPos ≠ 0) :
    (∀ packet ∈ passThrough sendBuff request body,
        WellFormed Parses request.sn packet) ↔
      ∃ descriptor ∈ App.rspOf request.cmdID, Parses descriptor body := by
  have hpkgLen : (coverToXYHeader request
      (XYHeaderIn.getHeaderLen + body.length)).pkgLen.toNat =
        body.length + XYHeader.getHeadLen := by
    unfold XYHeaderIn.getHeaderLen xyPkgMaxLen at hfits
    unfold coverToXYHeader XYHeaderIn.getHeaderLen XYHeader.getHeadLen
    simp only [Nat.add_sub_cancel_left]
    rw [UInt32.toNat_ofNat']
    omega
  simp only [passThrough, if_neg hconn, Option.mem_def, Option.some.injEq,
    forall_eq']
  exact wellFormed_fill_iff hpkgLen

theorem registerRsp_isInteger (ret : Int32) (userid : UInt64) :
    ∀ field ∈ App.RegisterRsp.fields ⟨some ret, some userid⟩,
      field.IsInteger := by
  intro field hfield
  simp only [App.RegisterRsp.fields, Option.toList_some, List.map_cons,
    List.map_nil, List.cons_append, List.nil_append, List.mem_cons,
    List.not_mem_nil, or_false] at hfield
  obtain rfl | rfl := hfield
  · exact Field.isInteger (by decide) (by decide) _
  · exact Field.isInteger (by decide) (by decide) _

theorem registerRsp_wellFormed (hrule : RequiredFieldsRule Parses)
    (sendBuff : Buffer) (request : XYHeaderIn) (ret : Int32)
    (userid : UInt64) :
    ∀ packet ∈ answer sendBuff request cmdAuthRegisterRsp
        (encode (App.RegisterRsp.fields ⟨some ret, some userid⟩)),
      WellFormed Parses request.sn packet := by
  rw [answer_wellFormed_iff hrule (registerRsp_isInteger ret userid)
    (le_refl 2)]
  refine ⟨App.RegisterRsp.required, rfl, ?_⟩
  intro required hrequired
  obtain rfl | rfl : required = (1, .varint) ∨ required = (2, .varint) := by
    simpa [App.RegisterRsp.required] using hrequired
  · exact ⟨_, List.mem_cons_self, rfl, rfl⟩
  · exact ⟨_, List.mem_cons_of_mem _ List.mem_cons_self, rfl, rfl⟩

theorem loginRsp_not_wellFormed (hrule : RequiredFieldsRule Parses)
    (sendBuff : Buffer) (request : XYHeaderIn) (ret : Int32) :
    ¬ ∀ packet ∈ answer sendBuff request cmdAuthLoginRsp
        (encode (App.LoginRsp.fields { ret := some ret })),
      WellFormed Parses request.sn packet := by
  have hinteger : ∀ field ∈ App.LoginRsp.fields { ret := some ret },
      field.IsInteger := by
    intro field hfield
    obtain rfl : field = ⟨2, .int32 ret⟩ := by
      simpa [App.LoginRsp.fields] using hfield
    exact Field.isInteger (by decide) (by decide) _
  rw [answer_wellFormed_iff hrule hinteger (by decide : 1 ≤ 2)]
  rintro ⟨descriptor, hdescriptor, hset⟩
  obtain rfl : App.LoginRsp.required = descriptor :=
    Option.some.inj hdescriptor
  obtain ⟨field, hfield, hnumber, -⟩ := hset (1, .varint) List.mem_cons_self
  obtain rfl : field = ⟨2, .int32 ret⟩ := by
    simpa [App.LoginRsp.fields] using hfield
  exact absurd hnumber (show ¬ 2 = 1 by decide)

/-- What the user servers answer to a friend request is the message of its
command. -/
theorem addFriendRsp_parses (hrule : RequiredFieldsRule Parses)
    (ret : Int32) :
    Parses App.AddFriendRsp.required
      (encode (App.AddFriendRsp.fields ⟨some ret⟩)) := by
  have hinteger : ∀ field ∈ App.AddFriendRsp.fields ⟨some ret⟩,
      field.IsInteger := by
    intro field hfield
    obtain rfl : field = ⟨1, .int32 ret⟩ := by
      simpa [App.AddFriendRsp.fields] using hfield
    exact Field.isInteger (by decide) (by decide) _
  rw [parses_iff hrule hinteger (show 1 ≤ 2 by decide)]
  intro required hrequired
  obtain rfl : required = (1, .varint) := by
    simpa [App.AddFriendRsp.required] using hrequired
  exact ⟨_, List.mem_cons_self, rfl, rfl⟩

end Branches

/-! ## All branches -/

/-- A command with a branch of its own. -/
def HasBranch (cmdID : UInt32) : Prop :=
  cmdID ∈ [cmdAuthRegisterRsp, cmdUserRegisterRsp, cmdAuthLoginRsp,
    cmdLoginNotice, cmdDisconnect, cmdLoginSyncReq, cmdLoginSyncRsp]

instance (cmdID : UInt32) : Decidable (HasBranch cmdID) :=
  inferInstanceAs (Decidable (_ ∈ _))

/-- A `Cmd_Auth_Login_Rsp` that parses, and reports a failure or is for a
position with a connection. -/
def AnswersLogin (parsers : ResponseParsers) (posConnMap : UInt32 → Bool)
    (header : XYHeaderIn) (body : List UInt8) : Prop :=
  header.cmdID = cmdAuthLoginRsp ∧
    ∃ rsp ∈ parsers.authLoginRsp body,
      rsp.ret = 0 → posConnMap header.connPos

/-- A body that is passed through is the message of its command. -/
def PassesAppMessage (Parses : Descriptor → List UInt8 → Prop)
    (header : XYHeaderIn) (body : List UInt8) : Prop :=
  ¬ HasBranch header.cmdID → header.connPos ≠ 0 →
    ∃ descriptor ∈ App.rspOf header.cmdID, Parses descriptor body

section DealMessage

variable {Parses : Descriptor → List UInt8 → Prop}
  {parsers : ResponseParsers} {posConnMap : UInt32 → Bool}
  {header : XYHeaderIn} {body : List UInt8}

theorem no_condition (hbranch : HasBranch header.cmdID)
    (hother : header.cmdID ≠ cmdAuthLoginRsp) :
    ¬ AnswersLogin parsers posConnMap header body ∧
      PassesAppMessage Parses header body :=
  ⟨fun hanswers => hother hanswers.1,
    fun hdefault => absurd hbranch hdefault⟩

theorem dealMessage_wellFormed_iff (hrule : RequiredFieldsRule Parses)
    (sendBuff : Buffer)
    (hfits : XYHeaderIn.getHeaderLen + body.length ≤ xyPkgMaxLen) :
    (∀ packet ∈ dealMessage parsers posConnMap sendBuff header body,
        WellFormed Parses header.sn packet) ↔
      ¬ AnswersLogin parsers posConnMap header body ∧
        PassesAppMessage Parses header body := by
  unfold dealMessage
  split_ifs with hregister huser hlogin hconn
  · refine iff_of_true ?_
      (no_condition (hregister ▸ by decide) (hregister ▸ by decide))
    cases hparse : parsers.authRegisterRsp body with
    | none => simp
    | some rsp =>
        simp only
        split_ifs
        · exact registerRsp_wellFormed hrule sendBuff header rsp.ret rsp.userid
        · simp
  · refine iff_of_true ?_
      (no_condition (huser ▸ by decide) (huser ▸ by decide))
    cases hparse : parsers.userRegisterRsp body with
    | none => simp
    | some rsp =>
        exact registerRsp_wellFormed hrule sendBuff header rsp.ret rsp.userid
  · have hbranch : HasBranch header.cmdID := by
      rw [hlogin]
      decide
    have hpasses : PassesAppMessage Parses header body :=
      fun hdefault => absurd hbranch hdefault
    rw [and_iff_left hpasses, AnswersLogin, and_iff_right hlogin]
    cases hparse : parsers.authLoginRsp body with
    | none => simp
    | some rsp =>
        simp only [Option.mem_def, Option.some.injEq, exists_eq_left']
        split_ifs with hlost
        · simp [hlost.1, hlost.2]
        · refine iff_of_false
            (loginRsp_not_wellFormed hrule sendBuff header rsp.ret) ?_
          tauto
  · have hbranch : HasBranch header.cmdID := by
      simp only [HasBranch, List.mem_cons]
      tauto
    exact iff_of_true (by simp) (no_condition hbranch hlogin)
  · have hdefault : ¬ HasBranch header.cmdID := by
      simp only [HasBranch, List.mem_cons, List.not_mem_nil]
      tauto
    have hnot : ¬ AnswersLogin parsers posConnMap header body :=
      fun hanswers => hlogin hanswers.1
    rw [and_iff_right hnot, PassesAppMessage, forall_prop_of_true hdefault]
    by_cases hconn : header.connPos = 0
    · simp [passThrough, hconn]
    · rw [passThrough_wellFormed_iff sendBuff hfits hconn,
        forall_prop_of_true hconn]

end DealMessage

/-! ## Packets from the other servers -/

/-- A header and a body as the other servers put them into a packet. -/
def responsePkg (header : XYHeaderIn) (body : List UInt8) : Buffer :=
  (copyTo body (header.write (fun _ => 0) 0).2 XYHeaderIn.getHeaderLen).2

theorem read_responsePkg (header : XYHeaderIn) (body : List UInt8) :
    (XYHeaderIn.read (responsePkg header body) 0).1 = header := by
  have hsame : bytesAt (responsePkg header body) 0 34 =
      bytesAt (header.write (fun _ => 0) 0).2 0 34 := by
    apply List.map_congr_left
    intro address haddress
    rw [List.mem_range'_1] at haddress
    apply copyTo_outside
    left
    unfold XYHeaderIn.getHeaderLen
    omega
  have hread := lawful_xyHeaderIn.read_write header (fun _ => 0) 0
  rw [read_xyHeaderIn] at hread ⊢
  exact (congrArg xyHeaderIn.decode hsame).trans hread

theorem dealPkg_responsePkg (parsers : ResponseParsers)
    (posConnMap : UInt32 → Bool) (sendBuff : Buffer) (header : XYHeaderIn)
    (body : List UInt8) :
    dealPkg parsers posConnMap sendBuff (responsePkg header body)
        (XYHeaderIn.getHeaderLen + body.length) =
      dealMessage parsers posConnMap sendBuff header body := by
  have hbody : bytesAt (responsePkg header body) XYHeaderIn.getHeaderLen
      body.length = body :=
    bytesAt_copyTo body _ _
  rw [dealPkg, read_responsePkg, Nat.add_sub_cancel_left, hbody]

/-- The packets that `DealPkg` sends to a client are well formed if and only if
the message is no answer to a login, and the body of a message that is passed
through is itself the message of its command. -/
theorem client_packets_well_formed_iff
    {Parses : Descriptor → List UInt8 → Prop}
    (hrule : RequiredFieldsRule Parses) (parsers : ResponseParsers)
    (posConnMap : UInt32 → Bool) (sendBuff pCurBuffPos : Buffer) {pkgLen : ℕ}
    (hresponse : IsResponse pkgLen) :
    (∀ packet ∈ dealPkg parsers posConnMap sendBuff pCurBuffPos pkgLen,
        WellFormed Parses (XYHeaderIn.read pCurBuffPos 0).1.sn packet) ↔
      ¬ AnswersLogin parsers posConnMap (XYHeaderIn.read pCurBuffPos 0).1
          (bytesAt pCurBuffPos XYHeaderIn.getHeaderLen
            (pkgLen - XYHeaderIn.getHeaderLen)) ∧
        PassesAppMessage Parses (XYHeaderIn.read pCurBuffPos 0).1
          (bytesAt pCurBuffPos XYHeaderIn.getHeaderLen
            (pkgLen - XYHeaderIn.getHeaderLen)) := by
  have hheader := hresponse.header
  have hfits := hresponse.fits
  apply dealMessage_wellFormed_iff hrule
  rw [bytesAt_length]
  omega

/-- Parsers that know a login answered with 1 for user 7. -/
def loginParsers : ResponseParsers where
  authRegisterRsp := fun _ => none
  userRegisterRsp := fun _ => none
  authLoginRsp := fun bytes =>
    if bytes = encode [⟨1, .int32 7⟩, ⟨2, .int32 1⟩] then some ⟨7, 1⟩
    else none

def rspHeaderIn (cmdID : UInt32) : XYHeaderIn where
  srcID := 201
  cmdID := cmdID
  sn := 9
  connPos := 500
  userID := 7
  pkgTime := 1700000000
  ret := 0

/-- An answer to a friend request. -/
theorem client_packets_well_formed_iff_addFriend :
    ∃ packet,
      dealPkg loginParsers (fun _ => true) (fun _ => 0)
        (responsePkg (rspHeaderIn cmdUserAddFriendRsp)
          (encode (App.AddFriendRsp.fields ⟨some 0⟩))) 36 = some packet ∧
      WellFormed Parses 9 packet := by
  have hresponse : IsResponse 36 := ⟨by decide, by decide⟩
  have hwell := (client_packets_well_formed_iff requiredFieldsRule_parses
    loginParsers (fun _ => true) (fun _ => 0)
    (responsePkg (rspHeaderIn cmdUserAddFriendRsp)
      (encode (App.AddFriendRsp.fields ⟨some 0⟩))) hresponse).mpr
  have hbody : bytesAt (responsePkg (rspHeaderIn cmdUserAddFriendRsp)
      (encode (App.AddFriendRsp.fields ⟨some 0⟩))) XYHeaderIn.getHeaderLen
        (36 - XYHeaderIn.getHeaderLen) =
      encode (App.AddFriendRsp.fields ⟨some 0⟩) :=
    bytesAt_copyTo _ _ _
  have hdeal := dealPkg_responsePkg loginParsers (fun _ => true) (fun _ => 0)
    (rspHeaderIn cmdUserAddFriendRsp)
    (encode (App.AddFriendRsp.fields ⟨some 0⟩))
  rw [hbody, read_responsePkg] at hwell
  refine ⟨_, hdeal, hwell ⟨?_, ?_⟩ _ hdeal⟩
  · intro hanswers
    exact absurd hanswers.1 (by decide)
  · intro _ _
    exact ⟨App.AddFriendRsp.required, rfl,
      addFriendRsp_parses requiredFieldsRule_parses 0⟩

/-- User 7 tries to log in with a wrong password. -/
theorem login_packet_not_well_formed :
    ¬ ∀ (parsers : ResponseParsers) (posConnMap : UInt32 → Bool)
        (sendBuff pCurBuffPos : Buffer) (pkgLen : ℕ),
      IsResponse pkgLen →
      ∀ packet ∈ dealPkg parsers posConnMap sendBuff pCurBuffPos pkgLen,
        WellFormed Parses (XYHeaderIn.read pCurBuffPos 0).1.sn packet := by
  intro hall
  have hlogin := hall loginParsers (fun _ => true) (fun _ => 0)
    (responsePkg (rspHeaderIn cmdAuthLoginRsp)
      (encode [⟨1, .int32 7⟩, ⟨2, .int32 1⟩])) 38 ⟨by decide, by decide⟩
  rw [read_responsePkg] at hlogin
  have hdeal := dealPkg_responsePkg loginParsers (fun _ => true) (fun _ => 0)
    (rspHeaderIn cmdAuthLoginRsp) (encode [⟨1, .int32 7⟩, ⟨2, .int32 1⟩])
  apply loginRsp_not_wellFormed requiredFieldsRule_parses (fun _ => 0)
    (rspHeaderIn cmdAuthLoginRsp) 1
  intro packet hpacket
  apply hlogin packet
  exact hdeal.trans hpacket

end MessageBus.Replies
