import MessageBus.ClientPackets
import MessageBus.WireHeaders

/-!
# The buffers of a conn server

What `ProcessPkg` and the two `Send2Server` write into `m_pProcessBuff` and
`m_pSendBuff`, both of `XY_PKG_MAX_LEN` bytes, and the packets they put into
`m_SendQueue`.  The bytes that protobuf makes of a message are a parameter;
`SerializeToArray` writes nothing when they do not fit.
-/

namespace MessageBus.Conn

open Bus
open Receive

inductive Buffer where
  | processBuff
  | sendBuff
deriving DecidableEq

/-- Bytes copied to a place of a buffer. -/
structure BufferWrite where
  buffer : Buffer
  offset : ℕ
  bytes : List UInt8

/-- What a call does to the buffers and to `m_SendQueue`. -/
structure Effects where
  writes : List BufferWrite
  queued : List (List UInt8)

namespace Effects

def append (first second : Effects) : Effects :=
  ⟨first.writes ++ second.writes, first.queued ++ second.queued⟩

end Effects

def cmdTransfer : UInt32 := 0x00000003

/-- The bytes of `XYHeaderIn`. -/
def XYHeaderIn.bytes (header : XYHeaderIn) : List UInt8 :=
  Wire.xyHeaderIn.encode
    { srcID := header.srcID
      cmdID := header.cmdID
      sn := header.sn
      connPos := header.connPos
      userID := header.userID
      pkgTime := header.pkgTime
      ret := header.ret.toUInt16 }

section Send

variable (serialize : Payload → List UInt8) (serverID : UInt32)

/-- The `BusHeader` the two `Send2Server` write, for a packet of `pkgLen`
bytes. -/
def sendHeader (dstID : UInt32) (sendType : UInt8) (pkgLen : ℕ) :
    List UInt8 :=
  BusHeader.write
    { pkgLen := UInt32.ofNat pkgLen
      cmdID := cmdTransfer
      srcID := serverID
      dstID := dstID
      pkgTime := 0
      sendType := sendType
      flag := 0 }

/-- `Send2Server` with a protobuf message. -/
def send2ServerMessage (msg : ServerMsg) : Effects :=
  let headerLen := BusHeader.getHeaderLen + headerInLen
  let message := serialize msg.payload
  let busHeader :=
    sendHeader serverID msg.dstID msg.sendType (headerLen + message.length)
  let headers : List BufferWrite :=
    [⟨.sendBuff, 0, busHeader⟩,
      ⟨.sendBuff, BusHeader.getHeaderLen, msg.header.bytes⟩]
  if message.length ≤ xyPkgMaxLen - headerLen then
    { writes := headers ++ [⟨.sendBuff, headerLen, message⟩]
      queued := [busHeader ++ msg.header.bytes ++ message] }
  else { writes := headers, queued := [] }

/-- `Send2Server` with the bytes at `pCurBuff`. -/
def send2ServerBytes (dstID : UInt32) (sendType : UInt8)
    (pCurBuff : List UInt8) : Effects :=
  let headerLen := BusHeader.getHeaderLen
  let busHeader :=
    sendHeader serverID dstID sendType (headerLen + pCurBuff.length)
  { writes := [⟨.sendBuff, 0, busHeader⟩, ⟨.sendBuff, headerLen, pCurBuff⟩]
    queued := [busHeader ++ pCurBuff] }

/-- Sending a message of `ProcessPkg`; a body that was copied from a client's
packet is sent as it lies in `m_pProcessBuff`, behind its header. -/
def send2Server (msg : ServerMsg) : Effects :=
  match msg.payload with
  | .client body =>
      send2ServerBytes serverID msg.dstID msg.sendType (msg.header.bytes ++ body)
  | _ => send2ServerMessage serialize serverID msg

end Send

/-- A complete packet whose length `ProcessPkg` accepts is at the front. -/
def AcceptedPkg (pCurBuffPos : List UInt8) : Prop :=
  XYHeader.getHeadLen ≤ pCurBuffPos.length ∧
    AcceptedLen (XYHeader.read pCurBuffPos).pkgLen ∧
    (XYHeader.read pCurBuffPos).pkgLen.toNat ≤ pCurBuffPos.length

instance (pCurBuffPos : List UInt8) : Decidable (AcceptedPkg pCurBuffPos) :=
  inferInstanceAs (Decidable (_ ∧ _))

/-- The header that `ProcessPkg` puts in the place of the client's. -/
def serverHeader (serverID : UInt32) (now : UInt64) (connPos : UInt32)
    (conn : ConnInfo) (header : XYHeader) : XYHeaderIn where
  srcID := serverID
  cmdID := header.cmdID
  sn := header.sn
  connPos := connPos
  userID := conn.userID
  pkgTime := now
  ret := header.ret

/-- `ProcessPkg` on the buffers.  An accepted packet is moved to
`m_pProcessBuff` with the other header in front, and then the messages are
sent. -/
def processPkgEffects (parsers : ClientParsers)
    (serialize : Payload → List UInt8) (serverID : UInt32) (now : UInt64)
    (connPos : UInt32) (conn : ConnInfo) (pCurBuffPos : List UInt8) : Effects :=
  if AcceptedPkg pCurBuffPos then
    let header := XYHeader.read pCurBuffPos
    let pkgInLen := header.pkgLen.toNat - XYHeader.getHeadLen
    let headerIn := serverHeader serverID now connPos conn header
    let messages :=
      (processPkg parsers serverID now connPos conn pCurBuffPos).1
    Effects.append
      { writes := [⟨.processBuff, headerInLen,
            (pCurBuffPos.drop XYHeader.getHeadLen).take pkgInLen⟩,
          ⟨.processBuff, 0, headerIn.bytes⟩]
        queued := [] }
      ((messages.map (send2Server serialize serverID)).foldr Effects.append
        ⟨[], []⟩)
  else ⟨[], []⟩

/-! ## What fits -/

/-- Every write stays in its buffer, and the bus can read every packet. -/
def Effects.Fit (effects : Effects) : Prop :=
  (∀ write ∈ effects.writes, write.offset + write.bytes.length ≤ xyPkgMaxLen) ∧
    ∀ packet ∈ effects.queued, packet.length ≤ xyPkgMaxLen

/-- `ProcessPkg` forwards the packet as it is. -/
def Forwarded (conn : ConnInfo) (cmdID : UInt32) : Prop :=
  conn.connType = .connAuth ∧ cmdID ≠ cmdAuthLoginReq ∧
    cmdID ≠ cmdAuthRegisterReq ∧
    (cmdID >>> 16 = cmdPrefixAuth ∨ cmdID >>> 16 = cmdPrefixUser)

section Fit

variable {serialize : Payload → List UInt8} {serverID : UInt32}
  {parsers : ClientParsers} {conn : ConnInfo} {msg : ServerMsg}

theorem fit_append (first second : Effects) :
    (first.append second).Fit ↔ first.Fit ∧ second.Fit := by
  unfold Effects.Fit Effects.append
  simp only [List.forall_mem_append]
  tauto

theorem fit_nil : (⟨[], []⟩ : Effects).Fit := by
  simp [Effects.Fit]

theorem headerIn_bytes_length (header : XYHeaderIn) :
    header.bytes.length = headerInLen :=
  Wire.xyHeaderIn.encode_length _

theorem sendHeader_length (dstID : UInt32) (sendType : UInt8) (pkgLen : ℕ) :
    (sendHeader serverID dstID sendType pkgLen).length =
      BusHeader.getHeaderLen :=
  BusHeader.write_length _

/-- A message that protobuf serializes is not written when it does not fit. -/
theorem fit_message (msg : ServerMsg) :
    (send2ServerMessage serialize serverID msg).Fit := by
  unfold send2ServerMessage Effects.Fit
  dsimp only
  have hheaderLen : BusHeader.getHeaderLen + headerInLen ≤ xyPkgMaxLen := by
    decide
  split_ifs with hfits
  · simp only [List.cons_append, List.nil_append, List.forall_mem_cons,
      List.length_append, sendHeader_length, headerIn_bytes_length]
    simp only [List.not_mem_nil, false_implies, implies_true, and_true]
    omega
  · simp only [List.forall_mem_cons, sendHeader_length, headerIn_bytes_length]
    simp only [List.not_mem_nil, false_implies, implies_true, and_true]
    omega

theorem fit_bytes_iff (dstID : UInt32) (sendType : UInt8)
    (pCurBuff : List UInt8) :
    (send2ServerBytes serverID dstID sendType pCurBuff).Fit ↔
      BusHeader.getHeaderLen + pCurBuff.length ≤ xyPkgMaxLen := by
  unfold send2ServerBytes Effects.Fit
  simp only [List.forall_mem_cons, List.length_append, sendHeader_length,
    List.not_mem_nil, false_implies, implies_true, and_true]
  omega

theorem dispatch_of_forwarded (parsers : ClientParsers)
    (headerIn : XYHeaderIn) (pkgLen : ℤ) (body : List UInt8)
    (hforwarded : Forwarded conn headerIn.cmdID) :
    ∃ dstID sendType, (dispatch parsers conn headerIn pkgLen body).1 =
      [⟨dstID, sendType, headerIn, .client body⟩] := by
  obtain ⟨htype, hlogin, hregister, hprefix⟩ := hforwarded
  unfold dispatch
  rw [if_neg (by simp [htype])]
  obtain hauth | huser := hprefix
  · have hconn : ¬ headerIn.cmdID >>> 16 = cmdPrefixConn := by
      rw [hauth]
      decide
    rw [if_neg hconn, if_pos hauth, if_neg hlogin, if_neg hregister]
    exact ⟨_, _, rfl⟩
  · have hconn : ¬ headerIn.cmdID >>> 16 = cmdPrefixConn := by
      rw [huser]
      decide
    have hauth : ¬ headerIn.cmdID >>> 16 = cmdPrefixAuth := by
      rw [huser]
      decide
    rw [if_neg hconn, if_neg hauth, if_pos huser]
    exact ⟨_, _, rfl⟩

theorem dispatch_of_not_forwarded {headerIn : XYHeaderIn} {pkgLen : ℤ}
    {body : List UInt8} (hforwarded : ¬ Forwarded conn headerIn.cmdID) :
    ∀ msg ∈ (dispatch parsers conn headerIn pkgLen body).1,
      ∀ bytes, msg.payload ≠ .client bytes := by
  unfold dispatch
  split_ifs with hignored hconn hauth hlogin hregister huser
  · simp
  · simp
  · cases parsers.loginReq body <;> simp
  · cases parsers.registerReq body <;> simp
  · exact absurd ⟨by tauto, hlogin, hregister, Or.inl hauth⟩ hforwarded
  · have hlogin : headerIn.cmdID ≠ cmdAuthLoginReq := by
      intro heq
      rw [heq] at hauth
      exact hauth (by decide)
    have hregister : headerIn.cmdID ≠ cmdAuthRegisterReq := by
      intro heq
      rw [heq] at hauth
      exact hauth (by decide)
    exact absurd ⟨by tauto, hlogin, hregister, Or.inr huser⟩ hforwarded
  · simp

theorem fit_messages {messages : List ServerMsg}
    (hpayload : ∀ msg ∈ messages, ∀ bytes, msg.payload ≠ .client bytes) :
    ((messages.map (send2Server serialize serverID)).foldr Effects.append
      ⟨[], []⟩).Fit := by
  induction messages with
  | nil => exact fit_nil
  | cons msg messages ih =>
      rw [List.forall_mem_cons] at hpayload
      rw [List.map_cons, List.foldr_cons, fit_append]
      refine ⟨?_, ih hpayload.2⟩
      unfold send2Server
      split
      · next bytes hbytes => exact absurd hbytes (hpayload.1 bytes)
      · exact fit_message msg

theorem processPkg_of_accepted {now : UInt64} {connPos : UInt32}
    {buff : List UInt8} (haccepted : AcceptedPkg buff) :
    processPkg parsers serverID now connPos conn buff =
      dispatch parsers conn
        (serverHeader serverID now connPos conn (XYHeader.read buff))
        (asInt (XYHeader.read buff).pkgLen)
        ((buff.drop XYHeader.getHeadLen).take
          ((XYHeader.read buff).pkgLen.toNat - XYHeader.getHeadLen)) := by
  obtain ⟨hheader, ⟨hlow, hhigh⟩, hcomplete⟩ := haccepted
  unfold processPkg
  rw [if_neg (by omega)]
  dsimp only
  rw [if_neg (by omega), if_neg (by omega), if_neg (by omega)]
  rfl

theorem accepted_length {buff : List UInt8} (haccepted : AcceptedPkg buff) :
    ((buff.drop XYHeader.getHeadLen).take
        ((XYHeader.read buff).pkgLen.toNat - XYHeader.getHeadLen)).length =
      (XYHeader.read buff).pkgLen.toNat - XYHeader.getHeadLen ∧
    XYHeader.getHeadLen ≤ (XYHeader.read buff).pkgLen.toNat ∧
    (XYHeader.read buff).pkgLen.toNat - XYHeader.getHeadLen + headerInLen ≤
      xyPkgMaxLen := by
  obtain ⟨hheader, hlen, hcomplete⟩ := haccepted
  have hvalue := hlen.asInt_eq
  obtain ⟨hlow, hhigh⟩ := hlen
  rw [hvalue] at hlow hhigh
  have hmax : headerInLen ≤ xyPkgMaxLen := by decide
  refine ⟨?_, by omega, by omega⟩
  rw [List.length_take, List.length_drop]
  omega

/-- The packet as it is moved to `m_pProcessBuff` always fits. -/
theorem fit_processPkg_iff (serialize : Payload → List UInt8)
    (now : UInt64) (connPos : UInt32) {buff : List UInt8}
    (haccepted : AcceptedPkg buff) :
    (processPkgEffects parsers serialize serverID now connPos conn buff).Fit ↔
      (((processPkg parsers serverID now connPos conn buff).1.map
        (send2Server serialize serverID)).foldr Effects.append
          ⟨[], []⟩).Fit := by
  obtain ⟨hbody, -, hfits⟩ := accepted_length haccepted
  unfold processPkgEffects
  rw [if_pos haccepted, fit_append, and_iff_right]
  refine ⟨?_, by simp⟩
  simp only [List.forall_mem_cons, hbody, headerIn_bytes_length]
  simp only [List.not_mem_nil, false_implies, implies_true, and_true]
  omega

/-- A packet that is forwarded gets a second header in `m_pSendBuff`. -/
theorem fit_iff_of_forwarded (parsers : ClientParsers)
    (serialize : Payload → List UInt8) (now : UInt64) (connPos : UInt32)
    {buff : List UInt8} (haccepted : AcceptedPkg buff)
    (hforwarded : Forwarded conn (XYHeader.read buff).cmdID) :
    (processPkgEffects parsers serialize serverID now connPos conn buff).Fit ↔
      BusHeader.getHeaderLen + headerInLen +
        ((XYHeader.read buff).pkgLen.toNat - XYHeader.getHeadLen) ≤
          xyPkgMaxLen := by
  obtain ⟨hbody, -, -⟩ := accepted_length haccepted
  obtain ⟨dstID, sendType, hmessages⟩ := dispatch_of_forwarded parsers
    (serverHeader serverID now connPos conn (XYHeader.read buff))
    (asInt (XYHeader.read buff).pkgLen)
    ((buff.drop XYHeader.getHeadLen).take
      ((XYHeader.read buff).pkgLen.toNat - XYHeader.getHeadLen)) hforwarded
  rw [fit_processPkg_iff serialize now connPos haccepted,
    processPkg_of_accepted haccepted, hmessages]
  simp only [List.map_cons, List.map_nil, List.foldr_cons, List.foldr_nil,
    send2Server, fit_append, and_iff_left fit_nil, fit_bytes_iff,
    List.length_append, headerIn_bytes_length, hbody, Nat.add_assoc]

end Fit

/-- A packet that `ProcessPkg` accepts keeps to the buffers, and gives a packet
the bus can read, unless it is forwarded as it is and leaves no room for both
headers. -/
theorem conn_buffers_fit_iff (parsers : ClientParsers)
    (serialize : Payload → List UInt8) (serverID : UInt32) (now : UInt64)
    (connPos : UInt32) (conn : ConnInfo) {buff : List UInt8}
    (haccepted : AcceptedPkg buff) :
    (processPkgEffects parsers serialize serverID now connPos conn buff).Fit ↔
      (Forwarded conn (XYHeader.read buff).cmdID →
        BusHeader.getHeaderLen + headerInLen +
          ((XYHeader.read buff).pkgLen.toNat - XYHeader.getHeadLen) ≤
            xyPkgMaxLen) := by
  by_cases hforwarded : Forwarded conn (XYHeader.read buff).cmdID
  · rw [fit_iff_of_forwarded parsers serialize now connPos haccepted hforwarded,
      forall_prop_of_true hforwarded]
  · rw [fit_processPkg_iff serialize now connPos haccepted,
      processPkg_of_accepted haccepted]
    exact iff_of_true (fit_messages (dispatch_of_not_forwarded hforwarded))
      fun h => absurd h hforwarded

theorem conn_buffers_fit_iff_small :
    (processPkgEffects ⟨fun _ => none, fun _ => none, fun _ => none,
      fun _ => none, fun _ => none⟩ (fun _ => []) 301 0 501 ⟨.connAuth, 42⟩
      [0, 0, 0, 18, 0, 4, 0, 1, 0, 0, 0, 9, 0, 0, 0, 0, 0, 7]).Fit := by
  have haccepted : AcceptedPkg
      [0, 0, 0, 18, 0, 4, 0, 1, 0, 0, 0, 9, 0, 0, 0, 0, 0, 7] := by decide
  exact (conn_buffers_fit_iff _ _ _ _ _ _ haccepted).mpr fun _ => by decide

/-- The longest packet that `ProcessPkg` accepts, for a user server. -/
theorem longest_packet_overflows :
    ∃ (parsers : ClientParsers) (serialize : Payload → List UInt8)
      (conn : ConnInfo) (buff : List UInt8),
      AcceptedPkg buff ∧ buff.length = 2047983 ∧
      ¬ (processPkgEffects parsers serialize 301 0 501 conn buff).Fit := by
  let front : List UInt8 :=
    [0x00, 0x1f, 0x3f, 0xef, 0, 4, 0, 1, 0, 0, 0, 9, 0, 0, 0, 0, 0]
  have hread (more : List UInt8) :
      XYHeader.read (front ++ more) = XYHeader.read front :=
    XYHeader.read_append (by decide) more
  have hfront : (XYHeader.read front).pkgLen.toNat = 2047983 ∧
      AcceptedLen (XYHeader.read front).pkgLen ∧
      (XYHeader.read front).cmdID = 0x00040001 := by decide
  have hoverflows (more : List UInt8) (hmore : more.length = 2047966) :
      AcceptedPkg (front ++ more) ∧ (front ++ more).length = 2047983 ∧
      ¬ (processPkgEffects ⟨fun _ => none, fun _ => none, fun _ => none,
        fun _ => none, fun _ => none⟩ (fun _ => []) 301 0 501 ⟨.connAuth, 42⟩
        (front ++ more)).Fit := by
    have hlength : (front ++ more).length = 2047983 := by
      have hheader : front.length = 17 := rfl
      rw [List.length_append, hmore, hheader]
    have haccepted : AcceptedPkg (front ++ more) := by
      unfold AcceptedPkg
      rw [hread, hlength, hfront.1]
      exact ⟨by decide, hfront.2.1, le_refl _⟩
    refine ⟨haccepted, hlength, ?_⟩
    rw [fit_iff_of_forwarded _ _ _ _ haccepted, hread, hfront.1]
    · decide
    · rw [hread, hfront.2.2]
      exact ⟨rfl, by decide, by decide, Or.inr (by decide)⟩
  exact ⟨_, _, _, _, hoverflows (List.replicate 2047966 0)
    (List.length_replicate ..)⟩

end MessageBus.Conn
