import MessageBus.BusHeader
import MessageBus.ReceivePath
import MessageBus.LoginModel

/-!
# The packets of a client

`ProcessPkg` of `conn/conn.cpp`: the checks of the header that a client sends,
and the messages that go to the auth and user servers.  What `ProcessPkg`
returns depends on the bytes alone, not on the state of the connection, and so
the packets of a client, and the place where its connection is closed, do not
depend on the pieces in which the bytes arrive.

The bodies are protobuf messages; the parsers of `app.proto` are parameters.
-/

namespace MessageBus.Conn

open Bus
open Framing
open Receive

def cmdAuthRegisterReq : UInt32 := 0x00020001
def cmdAuthLoginReq : UInt32 := 0x00020003

def cmdPrefixConn : UInt32 := 0x0001
def cmdPrefixAuth : UInt32 := 0x0002
def cmdPrefixUser : UInt32 := 0x0004

def groupAuth : UInt32 := 200

def getUserServer (userID : UInt64) : UInt32 :=
  400 + ((userID / 100) % 2).toUInt32 + 1

/-! ## Headers -/

/-- The fields of `XYHeader` that `ProcessPkg` reads. -/
structure XYHeader where
  pkgLen : UInt32
  cmdID : UInt32
  sn : UInt32
  ret : UInt32

namespace XYHeader

def getHeadLen : ℕ := 17

/-- `Read` on a buffer of at least `GetHeadLen` bytes. -/
def read (buff : List UInt8) : XYHeader where
  pkgLen := readInt (buff.take 4)
  cmdID := readInt ((buff.drop 4).take 4)
  sn := readInt ((buff.drop 8).take 4)
  ret := readInt ((buff.drop 14).take 2)

theorem read_append
    {front : List UInt8} (hfront : getHeadLen ≤ front.length)
    (more : List UInt8) : read (front ++ more) = read front := by
  unfold getHeadLen at hfront
  have htake (start count : ℕ) (hcount : start + count ≤ 17) :
      ((front ++ more).drop start).take count =
        (front.drop start).take count := by
    rw [List.drop_append_of_le_length (by omega),
      List.take_append_of_le_length (by simp only [List.length_drop]; omega)]
  have hfirst := htake 0 4 (by omega)
  simp only [List.drop_zero] at hfirst
  unfold read
  rw [hfirst, htake 4 4 (by omega), htake 8 4 (by omega),
    htake 14 2 (by omega)]

end XYHeader

structure XYHeaderIn where
  srcID : UInt32
  cmdID : UInt32
  sn : UInt32
  connPos : UInt32
  userID : UInt64
  pkgTime : UInt64
  ret : UInt32
deriving DecidableEq

/-- `GetHeaderLen` of `XYHeaderIn`. -/
def headerInLen : ℕ := 34

/-! ## Messages -/

/-- The bytes of a `std::string`. -/
abbrev Text := List UInt8

/-- `app::RegisterReq`. -/
structure RegisterReq where
  passwd : Text
  nickname : Text
  sex : Int32
  birthday : UInt64
  telno : Text
  address : Text
  email : Text
deriving DecidableEq

/-- `mm::AuthRegisterRsp`. -/
structure AuthRegisterRsp where
  userid : UInt64
  nickname : Text
  sex : Int32
  birthday : UInt64
  telno : Text
  address : Text
  email : Text
  ret : Int32
deriving DecidableEq

/-- `mm::UserRegisterReq`. -/
structure UserRegisterReq where
  userid : UInt64
  nickname : Text
  sex : Int32
  birthday : UInt64
  telno : Text
  address : Text
  email : Text
deriving DecidableEq

/-- `mm::UserAddFriendReq`. -/
structure UserAddFriendReq where
  userid : UInt64
  nickname : Text
  otheruserid : UInt64
deriving DecidableEq

/-- The body of a message between servers: bytes that were copied from a packet
of a client, or a message that a server has built. -/
inductive Payload where
  | client (bytes : List UInt8)
  | authLoginReq (req : LoginReq)
  | authRegisterReq (req : RegisterReq)
  | authRegisterRsp (rsp : AuthRegisterRsp)
  | userRegisterReq (req : UserRegisterReq)
  | userRegisterRsp (userid : UInt64) (ret : Int32)
  | userAddFriendReq (req : UserAddFriendReq)
  | addFriendRsp (ret : Int32)
  | authLoginRsp (userid : Int32) (ret : ℤ)
deriving DecidableEq

/-- A message given to `Send2Server`. -/
structure ServerMsg where
  dstID : UInt32
  sendType : UInt8
  header : XYHeaderIn
  payload : Payload
deriving DecidableEq

/-- `ParseFromArray` of the messages that clients may send. -/
structure ClientParsers where
  loginReq : List UInt8 → Option LoginReq
  registerReq : List UInt8 → Option RegisterReq
  addFriendReq : List UInt8 → Option UInt64
  userRegisterReq : List UInt8 → Option UserRegisterReq
  userAddFriendReq : List UInt8 → Option UserAddFriendReq

/-! ## `ProcessPkg` -/

/-- The part of `ProcessPkg` that looks at a complete packet: the messages it
sends and its return value. -/
def dispatch (parsers : ClientParsers) (conn : ConnInfo)
    (headerIn : XYHeaderIn) (pkgLen : ℤ) (body : List UInt8) :
    List ServerMsg × ℤ :=
  if headerIn.cmdID ≠ cmdAuthLoginReq ∧
      headerIn.cmdID ≠ cmdAuthRegisterReq ∧ conn.connType ≠ .connAuth then
    ([], pkgLen)
  else if headerIn.cmdID >>> 16 = cmdPrefixConn then ([], pkgLen)
  else if headerIn.cmdID >>> 16 = cmdPrefixAuth then
    if headerIn.cmdID = cmdAuthLoginReq then
      match parsers.loginReq body with
      | none => ([], -1)
      | some req =>
          ([⟨groupAuth, toGrpRnd, headerIn, .authLoginReq req⟩], pkgLen)
    else if headerIn.cmdID = cmdAuthRegisterReq then
      match parsers.registerReq body with
      | none => ([], -1)
      | some req =>
          ([⟨groupAuth, toGrpRnd, headerIn, .authRegisterReq req⟩], pkgLen)
    else ([⟨groupAuth, toGrpRnd, headerIn, .client body⟩], pkgLen)
  else if headerIn.cmdID >>> 16 = cmdPrefixUser then
    ([⟨getUserServer headerIn.userID, toSrv, headerIn, .client body⟩], pkgLen)
  else ([], pkgLen)

/-- `ProcessPkg` on the bytes from `pCurBuffPos` on, for a client at a
position. -/
def processPkg (parsers : ClientParsers) (serverID : UInt32) (now : UInt64)
    (connPos : UInt32) (conn : ConnInfo) (pCurBuffPos : List UInt8) :
    List ServerMsg × ℤ :=
  if pCurBuffPos.length < XYHeader.getHeadLen then
    ([], XYHeader.getHeadLen)
  else
    let header := XYHeader.read pCurBuffPos
    if asInt header.pkgLen < XYHeader.getHeadLen then ([], -1)
    else if (xyPkgMaxLen : ℤ) - headerInLen <
        asInt header.pkgLen - XYHeader.getHeadLen then ([], -1)
    else if pCurBuffPos.length < header.pkgLen.toNat then
      ([], asInt header.pkgLen)
    else
      let pkgInLen := header.pkgLen.toNat - XYHeader.getHeadLen
      dispatch parsers conn
        { srcID := serverID
          cmdID := header.cmdID
          sn := header.sn
          connPos := connPos
          userID := conn.userID
          pkgTime := now
          ret := header.ret }
        (asInt header.pkgLen)
        ((pCurBuffPos.drop XYHeader.getHeadLen).take pkgInLen)

/-- A complete packet that closes the connection: a login or a registration
that cannot be parsed. -/
def Unparsable (parsers : ClientParsers) (cmdID : UInt32)
    (body : List UInt8) : Prop :=
  cmdID = cmdAuthLoginReq ∧ parsers.loginReq body = none ∨
    cmdID = cmdAuthRegisterReq ∧ parsers.registerReq body = none

instance (parsers : ClientParsers) (cmdID : UInt32) (body : List UInt8) :
    Decidable (Unparsable parsers cmdID body) :=
  have : Decidable (parsers.loginReq body = none) :=
    decidable_of_iff _ Option.isNone_iff_eq_none
  have : Decidable (parsers.registerReq body = none) :=
    decidable_of_iff _ Option.isNone_iff_eq_none
  inferInstanceAs (Decidable (_ ∨ _))

/-- What `ProcessPkg` returns, which depends on the bytes alone. -/
def clientLen (parsers : ClientParsers) (buff : List UInt8) : ℤ :=
  if buff.length < XYHeader.getHeadLen then XYHeader.getHeadLen
  else
    let header := XYHeader.read buff
    if asInt header.pkgLen < XYHeader.getHeadLen then -1
    else if (xyPkgMaxLen : ℤ) - headerInLen <
        asInt header.pkgLen - XYHeader.getHeadLen then -1
    else if buff.length < header.pkgLen.toNat then asInt header.pkgLen
    else if Unparsable parsers header.cmdID
        ((buff.drop XYHeader.getHeadLen).take
          (header.pkgLen.toNat - XYHeader.getHeadLen)) then -1
    else asInt header.pkgLen

theorem dispatch_ret
    (parsers : ClientParsers) (conn : ConnInfo) (headerIn : XYHeaderIn)
    (pkgLen : ℤ) (body : List UInt8) :
    (dispatch parsers conn headerIn pkgLen body).2 =
      if Unparsable parsers headerIn.cmdID body then -1 else pkgLen := by
  by_cases hbad : Unparsable parsers headerIn.cmdID body
  · rw [if_pos hbad]
    unfold dispatch
    obtain ⟨hcmd, hnone⟩ | ⟨hcmd, hnone⟩ := hbad
    · simp only [hcmd, hnone, ne_eq, not_true_eq_false, false_and, if_false]
      rw [if_neg (by decide), if_pos (by decide), if_true]
    · simp only [hcmd, hnone, ne_eq, not_true_eq_false, false_and, and_false,
        if_false]
      rw [if_neg (by decide), if_pos (by decide), if_neg (by decide), if_true]
  · rw [if_neg hbad]
    unfold dispatch
    split_ifs with hignored hconn hauth hlogin hregister huser
    · rfl
    · rfl
    · cases hparse : parsers.loginReq body with
      | none => exact absurd (Or.inl ⟨hlogin, hparse⟩) hbad
      | some req => rfl
    · cases hparse : parsers.registerReq body with
      | none => exact absurd (Or.inr ⟨hregister, hparse⟩) hbad
      | some req => rfl
    · rfl
    · rfl
    · rfl

theorem processPkg_ret
    (parsers : ClientParsers) (serverID : UInt32) (now : UInt64)
    (connPos : UInt32) (conn : ConnInfo) (buff : List UInt8) :
    (processPkg parsers serverID now connPos conn buff).2 =
      clientLen parsers buff := by
  unfold processPkg clientLen
  split_ifs with hshort
  · rfl
  · dsimp only
    split_ifs with hsmall hlarge hpart hbad
    · rfl
    · rfl
    · rfl
    · rw [dispatch_ret, if_pos hbad]
    · rw [dispatch_ret, if_neg hbad]

/-! ## Cutting the stream of a client -/

section Cutting

variable {parsers : ClientParsers} {buff more : List UInt8}

theorem clientLen_of_short (hshort : buff.length < XYHeader.getHeadLen) :
    clientLen parsers buff = XYHeader.getHeadLen := if_pos hshort

/-- The length field of a client's header is one that `ProcessPkg` accepts. -/
def AcceptedLen (pkgLen : UInt32) : Prop :=
  (XYHeader.getHeadLen : ℤ) ≤ asInt pkgLen ∧
    asInt pkgLen - XYHeader.getHeadLen ≤ (xyPkgMaxLen : ℤ) - headerInLen

instance (pkgLen : UInt32) : Decidable (AcceptedLen pkgLen) :=
  inferInstanceAs (Decidable (_ ∧ _))

theorem AcceptedLen.asInt_eq {pkgLen : UInt32} (haccepted : AcceptedLen pkgLen) :
    asInt pkgLen = pkgLen.toNat := by
  have hlow := haccepted.1
  have hvalue := pkgLen.toNat_lt
  unfold asInt XYHeader.getHeadLen at *
  split_ifs at hlow ⊢ <;> omega

theorem clientLen_of_refused
    (hheader : XYHeader.getHeadLen ≤ buff.length)
    (hrefused : ¬ AcceptedLen (XYHeader.read buff).pkgLen) :
    clientLen parsers buff = -1 := by
  unfold clientLen
  rw [if_neg (by omega)]
  dsimp only
  by_cases hsmall :
      asInt (XYHeader.read buff).pkgLen < XYHeader.getHeadLen
  · rw [if_pos hsmall]
  · rw [if_neg hsmall, if_pos]
    by_contra hlarge
    exact hrefused ⟨by omega, by omega⟩

theorem clientLen_of_accepted
    (parsers : ClientParsers)
    (hheader : XYHeader.getHeadLen ≤ buff.length)
    (haccepted : AcceptedLen (XYHeader.read buff).pkgLen) :
    clientLen parsers buff =
      if buff.length < (XYHeader.read buff).pkgLen.toNat then
        ((XYHeader.read buff).pkgLen.toNat : ℤ)
      else if Unparsable parsers (XYHeader.read buff).cmdID
          ((buff.drop XYHeader.getHeadLen).take
            ((XYHeader.read buff).pkgLen.toNat - XYHeader.getHeadLen)) then -1
      else ((XYHeader.read buff).pkgLen.toNat : ℤ) := by
  have hlow := haccepted.1
  have hhigh := haccepted.2
  unfold clientLen
  rw [if_neg (by omega)]
  dsimp only
  rw [if_neg (by omega), if_neg (by omega), haccepted.asInt_eq]

/-- A length that takes or refuses stays when more bytes come. -/
theorem clientLen_stable : Stable (clientLen parsers) := by
  intro buff more _ hdecided
  by_cases hshort : buff.length < XYHeader.getHeadLen
  · unfold Takes Refuses at hdecided
    rw [clientLen_of_short hshort] at hdecided
    omega
  have hheader : XYHeader.getHeadLen ≤ buff.length := by omega
  have hlonger : XYHeader.getHeadLen ≤ (buff ++ more).length := by
    rw [List.length_append]
    omega
  have hread := XYHeader.read_append hheader more
  by_cases haccepted : AcceptedLen (XYHeader.read buff).pkgLen
  · have hbefore := clientLen_of_accepted parsers hheader haccepted
    by_cases hpart : buff.length < (XYHeader.read buff).pkgLen.toNat
    · -- an incomplete packet neither takes nor refuses
      rw [if_pos hpart] at hbefore
      unfold Takes Refuses at hdecided
      omega
    · have hafter := clientLen_of_accepted parsers hlonger
        (by rw [hread]; exact haccepted)
      have hbody :
          ((buff ++ more).drop XYHeader.getHeadLen).take
              ((XYHeader.read buff).pkgLen.toNat - XYHeader.getHeadLen) =
            (buff.drop XYHeader.getHeadLen).take
              ((XYHeader.read buff).pkgLen.toNat - XYHeader.getHeadLen) := by
        rw [List.drop_append_of_le_length hheader,
          List.take_append_of_le_length
            (by simp only [List.length_drop]; omega)]
      rw [hafter, hbefore, hread, hbody, if_neg hpart,
        if_neg (by rw [List.length_append]; omega)]
  · rw [clientLen_of_refused hheader haccepted,
      clientLen_of_refused hlonger (by rw [hread]; exact haccepted)]

theorem length_lt_of_waits (hwaits : Waits (clientLen parsers) buff) :
    buff.length < xyMaxbuffLen := by
  unfold Waits at hwaits
  by_cases hshort : buff.length < XYHeader.getHeadLen
  · unfold XYHeader.getHeadLen at hshort
    unfold xyMaxbuffLen
    omega
  have hheader : XYHeader.getHeadLen ≤ buff.length := by omega
  by_cases haccepted : AcceptedLen (XYHeader.read buff).pkgLen
  · have hlen := clientLen_of_accepted parsers hheader haccepted
    obtain ⟨hlow, hhigh⟩ := haccepted
    have hvalue := AcceptedLen.asInt_eq ⟨hlow, hhigh⟩
    unfold XYHeader.getHeadLen at hlow
    unfold XYHeader.getHeadLen xyPkgMaxLen headerInLen at hhigh
    unfold xyMaxbuffLen
    by_cases hpart : buff.length < (XYHeader.read buff).pkgLen.toNat
    · omega
    · rw [if_neg hpart] at hlen
      split_ifs at hlen with hbad
      · omega
      · omega
  · rw [clientLen_of_refused hheader haccepted] at hwaits
    omega

end Cutting

/-! ## Receiving from a client -/

/-- The gateway while it reads from one client: how often `ProcessPkg` has been
called, and the complete packets it has been given. -/
structure Gateway where
  called : ℕ
  packets : List (List UInt8)

/-- What a call of `ProcessPkg` finds besides the bytes: the clock and the
connection, which the replies of the auth server change between two reads. -/
structure Surroundings where
  now : ℕ → UInt64
  conn : ℕ → ConnInfo

section Receiving

variable {parsers : ClientParsers} {serverID connPos : UInt32}
  {around : Surroundings}

/-- A call of `ProcessPkg`, with the packet it has taken. -/
def serve (parsers : ClientParsers) (serverID connPos : UInt32)
    (around : Surroundings) (gateway : Gateway) (buff : List UInt8) :
    Gateway × ℤ :=
  let procLen := (processPkg parsers serverID (around.now gateway.called)
    connPos (around.conn gateway.called) buff).2
  (⟨gateway.called + 1,
    if 0 < procLen ∧ procLen ≤ buff.length then
      gateway.packets ++ [buff.take procLen.toNat]
    else gateway.packets⟩, procLen)

theorem serve_ret (gateway : Gateway) (buff : List UInt8) :
    (serve parsers serverID connPos around gateway buff).2 =
      clientLen parsers buff :=
  processPkg_ret _ _ _ _ _ _

theorem processAll_packets (gateway : Gateway) (buffs : List (List UInt8)) :
    (processAll (serve parsers serverID connPos around) gateway
        buffs).packets =
      buffs.foldl (fun packets buff =>
        if Takes (clientLen parsers) buff then
          packets ++ [buff.take (clientLen parsers buff).toNat]
        else packets) gateway.packets := by
  induction buffs generalizing gateway with
  | nil => rfl
  | cons buff buffs ih =>
      have hlater := ih (serve parsers serverID connPos around gateway buff).1
      simp only [processAll, List.foldl_cons] at hlater ⊢
      rw [hlater]
      simp only [serve, processPkg_ret]
      rfl

/-- After a run of reads the gateway has taken the packets of the stream and
keeps what the stream leaves. -/
theorem pollAll_serve
    {results : List ReadResult}
    (hfit : ReadsFit (serve parsers serverID connPos around)
      ⟨⟨0, []⟩, some []⟩ results) :
    ∃ final, pollAll (serve parsers serverID connPos around)
        ⟨⟨0, []⟩, some []⟩ results = some final ∧
      final.state.packets = (split (clientLen parsers)
        (results.map ReadResult.piece).flatten).packets ∧
      final.remainRecvData = (split (clientLen parsers)
        (results.map ReadResult.piece).flatten).rest := by
  refine ⟨_, pollAll_eq_split clientLen_stable serve_ret hfit, ?_, rfl⟩
  have hwork := calls_foldl clientLen_stable
    (fun packets buff =>
      if Takes (clientLen parsers) buff then
        packets ++ [buff.take (clientLen parsers buff).toNat]
      else packets)
    (fun packets packet => packets ++ [packet]) results
    (fun packets buff _ htakes => if_pos htakes)
    (fun packets buff _ htakes => if_neg htakes) []
  rw [List.foldl_append_eq_append, List.nil_append, ← List.flatMap_def,
    List.flatMap_singleton'] at hwork
  rw [processAll_packets, hwork]

/-- Two ways of cutting the stream of a client into reads, at whatever times
and whatever has become of the connection meanwhile, give the same packets and
the same end: the same stash while the connection is open, or the connection
closed behind the same packets.  The stash is the incomplete end of the stream
and leaves room for the next read. -/
theorem receive_chunking_independent
    (parsers : ClientParsers) (serverID connPos : UInt32)
    (around around' : Surroundings) (results results' : List ReadResult)
    (hstream : (results.map ReadResult.piece).flatten =
      (results'.map ReadResult.piece).flatten)
    (hfit : ReadsFit (serve parsers serverID connPos around)
      ⟨⟨0, []⟩, some []⟩ results)
    (hfit' : ReadsFit (serve parsers serverID connPos around')
      ⟨⟨0, []⟩, some []⟩ results') :
    ∃ final final',
      pollAll (serve parsers serverID connPos around) ⟨⟨0, []⟩, some []⟩
        results = some final ∧
      pollAll (serve parsers serverID connPos around') ⟨⟨0, []⟩, some []⟩
        results' = some final' ∧
      final.state.packets = final'.state.packets ∧
      final.remainRecvData = final'.remainRecvData ∧
      (∀ stash, final.remainRecvData = some stash →
        final.state.packets.flatten ++ stash =
            (results.map ReadResult.piece).flatten ∧
          (stash = [] ∨ Waits (clientLen parsers) stash) ∧
          stash.length < xyMaxbuffLen ∧ 0 < recvBuffLen stash) ∧
      (final.remainRecvData = none → ∃ refused, refused ≠ [] ∧
        Refuses (clientLen parsers) refused ∧
        final.state.packets.flatten ++ refused =
          (results.map ReadResult.piece).flatten) := by
  obtain ⟨final, hfinal, hpackets, hremain⟩ := pollAll_serve hfit
  obtain ⟨final', hfinal', hpackets', hremain'⟩ := pollAll_serve hfit'
  refine ⟨final, final', hfinal, hfinal', ?_, ?_, ?_, ?_⟩
  · rw [hpackets, hpackets', hstream]
  · rw [hremain, hremain', hstream]
  · intro stash hstash
    rw [hremain] at hstash
    have hwaits := split_rest _ _ hstash
    have hlength : stash.length < xyMaxbuffLen := by
      cases hwaits with
      | inl hnil =>
          rw [hnil]
          exact Nat.succ_pos _
      | inr hwaits => exact length_lt_of_waits hwaits
    have hflatten := split_flatten _ _ hstash
    rw [← hpackets] at hflatten
    exact ⟨hflatten, hwaits, hlength, Nat.sub_pos_of_lt hlength⟩
  · intro hclosed
    rw [hremain] at hclosed
    obtain ⟨refused, hne, hrefuses, hflatten⟩ := split_refused _ _ hclosed
    rw [← hpackets] at hflatten
    exact ⟨refused, hne, hrefuses, hflatten⟩

/-- Parsers that know no message. -/
def noClientParsers : ClientParsers where
  loginReq := fun _ => none
  registerReq := fun _ => none
  addFriendReq := fun _ => none
  userRegisterReq := fun _ => none
  userAddFriendReq := fun _ => none

/-- A packet of 17 bytes and five bytes more, in one read and in three, before
and after the login. -/
theorem receive_chunking_independent_login :
    ∃ final final',
      pollAll (serve noClientParsers 1 300001
          ⟨fun _ => 5, fun _ => ⟨.connUnauth, 0⟩⟩) ⟨⟨0, []⟩, some []⟩
        [.bytes [0, 0, 0, 17, 0, 1, 0, 1, 0, 0, 0, 0, 0, 0, 0, 0, 0,
          0, 0, 0, 17, 0]] = some final ∧
      pollAll (serve noClientParsers 1 300001
          ⟨fun _ => 9, fun _ => ⟨.connAuth, 42⟩⟩) ⟨⟨0, []⟩, some []⟩
        [.bytes [0, 0, 0, 17, 0, 1], .again,
          .bytes [0, 1, 0, 0, 0, 0, 0, 0, 0, 0, 0, 0, 0, 0, 17, 0]] =
        some final' ∧
      final.state.packets = final'.state.packets ∧
      final.remainRecvData = final'.remainRecvData ∧
      (∀ stash, final.remainRecvData = some stash →
        final.state.packets.flatten ++ stash =
            ([ReadResult.bytes [0, 0, 0, 17, 0, 1, 0, 1, 0, 0, 0, 0, 0, 0, 0,
              0, 0, 0, 0, 0, 17, 0]].map ReadResult.piece).flatten ∧
          (stash = [] ∨ Waits (clientLen noClientParsers) stash) ∧
          stash.length < xyMaxbuffLen ∧ 0 < recvBuffLen stash) ∧
      (final.remainRecvData = none → ∃ refused, refused ≠ [] ∧
        Refuses (clientLen noClientParsers) refused ∧
        final.state.packets.flatten ++ refused =
          ([ReadResult.bytes [0, 0, 0, 17, 0, 1, 0, 1, 0, 0, 0, 0, 0, 0, 0,
            0, 0, 0, 0, 0, 17, 0]].map ReadResult.piece).flatten) :=
  receive_chunking_independent _ 1 300001 _ _ _ _ (by decide) (by decide)
    (by decide)

end Receiving

end MessageBus.Conn
