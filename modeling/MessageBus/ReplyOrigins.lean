import MessageBus.UserRequests

/-!
# Replies go back to where the request came from

A packet of a client leaves its conn server with the number of the server, the
position of the connection and the sequence number in its header.  From there on
the messages that are made of it are followed through auth, back through the conn
server, and through user servers, which may have a request loaded or pass it on,
any number of times and whatever the calls on the way are answered.
-/

namespace MessageBus.User

open Bus
open Conn

def cmdAuthLoginRsp : UInt32 := 0x00020004

/-- `DealPkg` of auth on a `Cmd_Auth_Login_Req`. -/
def authLogin (serverID : UInt32) (now : UInt64) (query : QueryResult)
    (request : Request) : Option ServerMsg :=
  match request.header.cmdID == cmdAuthLoginReq, request.payload with
  | true, .authLoginReq req =>
      some ⟨request.header.srcID, toSrv,
        answerHeader serverID cmdAuthLoginRsp request.header now,
        .authLoginRsp (narrow req.userid) (loginCheck query req.passwd)⟩
  | _, _ => none

/-! ## What comes of a packet -/

/-- The service a message was built by. -/
inductive Producer where
  | conn
  | auth
  | user
deriving DecidableEq

/-- A message that was sent, or a request in `DealPkg` of a user server. -/
inductive Hop where
  | sent (producer : Producer) (msg : ServerMsg)
  | dealt (serverID : UInt32) (request : Request)

/-- What the servers may make of the messages that a packet was turned into. -/
inductive Derived (parsers : ClientParsers) (packet : List ServerMsg) :
    Hop → Prop where
  | accepted {msg : ServerMsg} (hmsg : msg ∈ packet) :
      Derived parsers packet (.sent .conn msg)
  | authRegister {producer : Producer} {msg reply : ServerMsg}
      {serverID : UInt32} {now userID : UInt64} {ret : Int32}
      (hsource : Derived parsers packet (.sent producer msg))
      (hreply : authRegister serverID now userID ret
        ⟨msg.header, msg.payload⟩ = some reply) :
      Derived parsers packet (.sent .auth reply)
  | authLogin {producer : Producer} {msg reply : ServerMsg}
      {serverID : UInt32} {now : UInt64} {query : QueryResult}
      (hsource : Derived parsers packet (.sent producer msg))
      (hreply : authLogin serverID now query
        ⟨msg.header, msg.payload⟩ = some reply) :
      Derived parsers packet (.sent .auth reply)
  | connRegister {producer : Producer} {msg next : ServerMsg} {now : UInt64}
      (hsource : Derived parsers packet (.sent producer msg))
      (hnext : connRegister msg.dstID now ⟨msg.header, msg.payload⟩ =
        some next) :
      Derived parsers packet (.sent .conn next)
  | taken {producer : Producer} {msg : ServerMsg}
      (hsource : Derived parsers packet (.sent producer msg)) :
      Derived parsers packet (.dealt msg.dstID ⟨msg.header, msg.payload⟩)
  -- the loader hands back the bytes that it was given
  | reloaded {serverID : UInt32} {request : Request} {req : LoadUserInfoReq}
      (hdealt : Derived parsers packet (.dealt serverID request))
      (hcall : (dealPkg parsers serverID request).MayCall (.loaderSend req)) :
      Derived parsers packet (.dealt serverID req.request)
  | userSend {serverID : UInt32} {request : Request} {next : ServerMsg}
      (hdealt : Derived parsers packet (.dealt serverID request))
      (hcall : (dealPkg parsers serverID request).MayCall (.send next)) :
      Derived parsers packet (.sent .user next)

/-! ## Where it belongs -/

/-- The commands of replies, on which auth and the user servers do nothing. -/
def IsRsp (cmdID : UInt32) : Prop :=
  cmdID = cmdAuthRegisterRsp ∨ cmdID = cmdAuthLoginRsp ∨
    cmdID = cmdUserRegisterRsp ∨ cmdID = cmdUserAddFriendRsp

instance (cmdID : UInt32) : Decidable (IsRsp cmdID) :=
  inferInstanceAs (Decidable (_ ∨ _))

/-- The connection that a packet came in on, and its sequence number. -/
structure Origin where
  serverID : UInt32
  connPos : UInt32
  sn : UInt32

/-- A header with which the servers find back to the origin. -/
structure Origin.Marks (origin : Origin) (header : XYHeaderIn) : Prop where
  connPos : header.connPos = origin.connPos
  sn : header.sn = origin.sn
  srcID : ¬ IsRsp header.cmdID → header.srcID = origin.serverID

/-- A message of the origin; what auth and the user servers do not pass on they
send to its server. -/
structure Origin.Tracks (origin : Origin) (producer : Producer)
    (msg : ServerMsg) : Prop where
  marks : origin.Marks msg.header
  back : producer ≠ .conn → msg.header.cmdID ≠ cmdUserAddFriendReq2 →
    msg.dstID = origin.serverID ∧ msg.sendType = toSrv
  registered : ∀ rsp, msg.payload = .authRegisterRsp rsp →
    msg.dstID = origin.serverID

def Origin.TracksHop (origin : Origin) : Hop → Prop
  | .sent producer msg => origin.Tracks producer msg
  | .dealt _ request => origin.Marks request.header

section Hops

variable {origin : Origin}

theorem Origin.Marks.answer
    {header : XYHeaderIn} (hmarks : origin.Marks header)
    {serverID cmdID : UInt32} (now : UInt64) (hcmd : IsRsp cmdID) :
    origin.Marks (answerHeader serverID cmdID header now) where
  connPos := hmarks.connPos
  sn := hmarks.sn
  srcID := fun hnot => absurd hcmd hnot

/-- A reply to the server that a marked request names. -/
theorem Origin.Marks.reply
    {header : XYHeaderIn} (hmarks : origin.Marks header)
    (hreq : ¬ IsRsp header.cmdID) {producer : Producer}
    {serverID cmdID : UInt32} (now : UInt64) (hcmd : IsRsp cmdID)
    (payload : Payload) :
    origin.Tracks producer ⟨header.srcID, toSrv,
      answerHeader serverID cmdID header now, payload⟩ where
  marks := hmarks.answer now hcmd
  back := fun _ _ => ⟨hmarks.srcID hreq, rfl⟩
  registered := fun _ _ => hmarks.srcID hreq

theorem tracks_authRegister
    {serverID : UInt32} {now userID : UInt64} {ret : Int32}
    {request : Request} {reply : ServerMsg}
    (hmarks : origin.Marks request.header)
    (hreply : authRegister serverID now userID ret request = some reply) :
    origin.Tracks .auth reply := by
  unfold authRegister at hreply
  split at hreply
  · next hcmd _ =>
      cases hreply
      have hreq : ¬ IsRsp request.header.cmdID := by
        rw [beq_iff_eq.mp hcmd]
        decide
      exact hmarks.reply hreq now (Or.inl rfl) _
  · cases hreply

theorem tracks_authLogin
    {serverID : UInt32} {now : UInt64} {query : QueryResult}
    {request : Request} {reply : ServerMsg}
    (hmarks : origin.Marks request.header)
    (hreply : authLogin serverID now query request = some reply) :
    origin.Tracks .auth reply := by
  unfold authLogin at hreply
  split at hreply
  · next hcmd _ =>
      cases hreply
      have hreq : ¬ IsRsp request.header.cmdID := by
        rw [beq_iff_eq.mp hcmd]
        decide
      exact hmarks.reply hreq now (by decide) _
  · cases hreply

/-- The second hop of a registration starts from the server that the first one
came back to. -/
theorem tracks_connRegister
    {producer : Producer} {now : UInt64} {msg next : ServerMsg}
    (htracks : origin.Tracks producer msg)
    (hnext : connRegister msg.dstID now ⟨msg.header, msg.payload⟩ =
      some next) :
    origin.Tracks .conn next := by
  unfold connRegister at hnext
  split at hnext
  · next rsp hcmd hpayload =>
      split_ifs at hnext
      cases hnext
      exact
        { marks :=
            { connPos := htracks.marks.connPos
              sn := htracks.marks.sn
              srcID := fun _ => htracks.registered _ hpayload }
          back := fun hconn => absurd rfl hconn
          registered := fun rsp heq => Payload.noConfusion heq }
  · cases hnext

theorem tracks_userSend
    {parsers : ClientParsers} {serverID : UInt32} {request : Request}
    {next : ServerMsg} (hmarks : origin.Marks request.header)
    (hcall : (dealPkg parsers serverID request).MayCall (.send next)) :
    origin.Tracks .user next := by
  have hsend := (dealPkg_calls parsers serverID request).of_mayCall hcall
  generalize hcmd : request.header.cmdID = cmdID at hsend
  cases hsend with
  | registerRsp now =>
      refine hmarks.reply ?_ now (by decide) _
      rw [hcmd]
      decide
  | addFriendRsp hfriend now =>
      refine hmarks.reply ?_ now (by decide) _
      rw [hcmd]
      rcases hfriend with rfl | rfl
      · decide
      · decide
  | forward now otherUserID strNickName =>
      have hsrc : request.header.srcID = origin.serverID := by
        apply hmarks.srcID
        rw [hcmd]
        decide
      exact
        { marks :=
            { connPos := hmarks.connPos
              sn := hmarks.sn
              srcID := fun _ => hsrc }
          back := fun _ hother => absurd rfl hother
          registered := fun rsp heq => Payload.noConfusion heq }

theorem loaderSend_request
    {parsers : ClientParsers} {serverID : UInt32} {request : Request}
    {req : LoadUserInfoReq}
    (hcall : (dealPkg parsers serverID request).MayCall (.loaderSend req)) :
    req.request = request := by
  have hload := (dealPkg_calls parsers serverID request).of_mayCall hcall
  generalize request.header.cmdID = cmdID at hload
  cases hload with
  | loaderSend hfriend userID => rfl

theorem Derived.tracks
    {parsers : ClientParsers} {packet : List ServerMsg} {hop : Hop}
    (hpacket : ∀ msg ∈ packet, origin.Tracks .conn msg)
    (hderived : Derived parsers packet hop) : origin.TracksHop hop := by
  induction hderived with
  | accepted hmsg => exact hpacket _ hmsg
  | authRegister _ hreply ih => exact tracks_authRegister ih.marks hreply
  | authLogin _ hreply ih => exact tracks_authLogin ih.marks hreply
  | connRegister _ hnext ih => exact tracks_connRegister ih hnext
  | taken _ ih => exact ih.marks
  | reloaded _ hcall ih =>
      rw [loaderSend_request hcall]
      exact ih
  | userSend _ hcall ih => exact tracks_userSend ih hcall

end Hops

theorem tracks_processPkg
    {parsers : ClientParsers} {serverID connPos : UInt32} {now : UInt64}
    {conn : ConnInfo} {buff : List UInt8} {msg : ServerMsg}
    (hmsg : msg ∈ (processPkg parsers serverID now connPos conn buff).1) :
    Origin.Tracks ⟨serverID, connPos, (XYHeader.read buff).sn⟩ .conn msg := by
  by_cases hcomplete : Complete buff
  · rw [processPkg_of_complete _ _ _ _ _ hcomplete] at hmsg
    obtain ⟨hheader, hpayload⟩ := dispatch_message hmsg
    exact
      { marks :=
          { connPos := by rw [hheader]; rfl
            sn := by rw [hheader]; rfl
            srcID := fun _ => by rw [hheader]; rfl }
        back := fun hconn => absurd rfl hconn
        registered := fun rsp heq => absurd heq (hpayload rsp) }
  · rw [processPkg_of_incomplete _ _ _ _ _ hcomplete] at hmsg
    simp at hmsg

/-- Whatever comes of a packet that a client at a position of a conn server has
sent: each message of auth or a user server, other than a request for a friend
that is passed on to the friend's server, goes to that conn server and carries
the position and the sequence number of the packet. -/
theorem replies_go_back
    (parsers : ClientParsers) (serverID connPos : UInt32) (now : UInt64)
    (conn : ConnInfo) (buff : List UInt8) (producer : Producer)
    (reply : ServerMsg)
    (hderived : Derived parsers
      (processPkg parsers serverID now connPos conn buff).1
      (.sent producer reply))
    (hproducer : producer ≠ .conn)
    (hreply : reply.header.cmdID ≠ cmdUserAddFriendReq2) :
    reply.dstID = serverID ∧ reply.sendType = toSrv ∧
      reply.header.connPos = connPos ∧
      reply.header.sn = (XYHeader.read buff).sn := by
  have htracks : Origin.Tracks ⟨serverID, connPos, (XYHeader.read buff).sn⟩
      producer reply :=
    hderived.tracks fun msg hmsg => tracks_processPkg hmsg
  obtain ⟨hdst, htype⟩ := htracks.back hproducer hreply
  exact ⟨hdst, htype, htracks.marks.connPos, htracks.marks.sn⟩

/-- User 7 at position 300001 of server 101 asks for user 150 as a friend, in
packet 9. -/
def askForFriend : List UInt8 :=
  [0, 0, 0, 19, 0, 4, 0, 3, 0, 0, 0, 9, 0, 0, 0, 0, 0, 8, 150]

def friendParsers : ClientParsers :=
  { noClientParsers with
    addFriendReq := fun bytes => if bytes = [8, 150] then some 150 else none }

/-- The header of the request as server 401 gets it, and after it is passed on
to server 402. -/
def friendHeader (cmdID : UInt32) : XYHeaderIn :=
  ⟨101, cmdID, 9, 300001, 7, 5, 0⟩

def friendReply : ServerMsg :=
  ⟨101, toSrv, answerHeader 402 cmdUserAddFriendRsp
    (friendHeader cmdUserAddFriendReq2) 5, .addFriendRsp 0⟩

/-- The request is passed on, waits until user 150 is loaded, and is answered. -/
theorem friendReply_derived :
    Derived friendParsers
      (processPkg friendParsers 101 5 300001 ⟨.connAuth, 7⟩ askForFriend).1
      (.sent .user friendReply) := by
  have hfirst : Derived friendParsers
      (processPkg friendParsers 101 5 300001 ⟨.connAuth, 7⟩ askForFriend).1
      (.sent .conn ⟨401, toSrv, friendHeader cmdUserAddFriendReq,
        .client [8, 150]⟩) := .accepted (by decide)
  have hforward : Derived friendParsers
      (processPkg friendParsers 101 5 300001 ⟨.connAuth, 7⟩ askForFriend).1
      (.sent .user ⟨402, toSrv, friendHeader cmdUserAddFriendReq2,
        .userAddFriendReq ⟨7, [], 150⟩⟩) := by
    refine .userSend (.taken hfirst) ?_
    exact Or.inr ⟨some default, Or.inr ⟨some default, Or.inr ⟨5, Or.inl rfl⟩⟩⟩
  have hload : (dealPkg friendParsers 402 ⟨friendHeader cmdUserAddFriendReq2,
      .userAddFriendReq ⟨7, [], 150⟩⟩).MayCall (.loaderSend ⟨150, ⟨friendHeader
        cmdUserAddFriendReq2, .userAddFriendReq ⟨7, [], 150⟩⟩⟩) :=
    Or.inr ⟨none, Or.inl rfl⟩
  refine .userSend (.reloaded (.taken hforward) hload) ?_
  exact Or.inr ⟨some default, Or.inr ⟨0, Or.inr ⟨0, Or.inr ⟨5, Or.inl rfl⟩⟩⟩⟩

theorem replies_go_back_friend :
    friendReply.dstID = 101 ∧ friendReply.sendType = toSrv ∧
      friendReply.header.connPos = 300001 ∧ friendReply.header.sn = 9 :=
  replies_go_back friendParsers 101 300001 5 ⟨.connAuth, 7⟩ askForFriend .user
    friendReply friendReply_derived (by decide) (by decide)

end MessageBus.User
