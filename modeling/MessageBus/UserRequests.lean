import MessageBus.UserDealing
import MessageBus.Transition

/-!
# Requests of clients on their way through the servers

Packets of clients go through `ProcessPkg` of the conn servers, registrations go
on through auth and `DealPkg` of the conn servers, and the user servers run
`DealPkg` one call at a time, possibly after a detour through the loader or
through another user server.

Each message also carries the user whose packet it comes from.  No server looks
at this; it is there to say where a friend request that is stored comes from.
-/

namespace MessageBus.User

open Bus
open Conn
open Framing

def cmdAuthRegisterRsp : UInt32 := 0x00020002

/-- A message on the bus and the user whose packet it goes back to. -/
structure Tracked where
  msg : ServerMsg
  sender : UInt64

def Tracked.request (tracked : Tracked) : Request :=
  ⟨tracked.msg.header, tracked.msg.payload⟩

/-- A request that a server works on. -/
structure Dealing where
  request : Request
  sender : UInt64
  program : Deal ℤ

/-- A user server: its shared map, the request in `DealPkg`, and the requests
that are with the loader. -/
structure Worker where
  users : UserMap
  dealing : Option Dealing
  loading : List (LoadUserInfoReq × UInt64)

/-- The servers together, with the friend requests that have been stored, as
requesting user and sender, and the bodies on which the handlers of internal
commands have been run. -/
structure System where
  inFlight : List Tracked
  workers : UInt32 → Worker
  stored : List (UInt64 × UInt64)
  internal : List Payload

def System.start (users : UInt32 → UserMap) : System where
  inFlight := []
  workers := fun serverID => ⟨users serverID, none, []⟩
  stored := []
  internal := []

/-! ## Registration -/

/-- `DealPkg` of auth on a `Cmd_Auth_Register_Req`, with what `Register` has
made of it. -/
def authRegister (serverID : UInt32) (now userID : UInt64) (ret : Int32)
    (request : Request) : Option ServerMsg :=
  match request.header.cmdID == cmdAuthRegisterReq, request.payload with
  | true, .authRegisterReq req =>
      some ⟨request.header.srcID, toSrv,
        answerHeader serverID cmdAuthRegisterRsp request.header now,
        .authRegisterRsp
          { userid := userID
            nickname := req.nickname
            sex := req.sex
            birthday := req.birthday
            telno := req.telno
            address := req.address
            email := req.email
            ret := ret }⟩
  | _, _ => none

/-- `DealPkg` of the conn server on a `Cmd_Auth_Register_Rsp`: the message for
the user server. -/
def connRegister (serverID : UInt32) (now : UInt64) (request : Request) :
    Option ServerMsg :=
  match request.header.cmdID == cmdAuthRegisterRsp, request.payload with
  | true, .authRegisterRsp rsp =>
      if rsp.ret ≠ 0 then none
      else
        some ⟨400 + (rsp.userid % 2).toUInt32 + 1, toSrv,
          answerHeader serverID cmdUserRegisterReq request.header now,
          .userRegisterReq
            { userid := rsp.userid
              nickname := rsp.nickname
              sex := rsp.sex
              birthday := rsp.birthday
              telno := rsp.telno
              address := rsp.address
              email := rsp.email }⟩
  | _, _ => none

/-! ## Steps -/

inductive Action where
  | client (serverID connPos : UInt32) (now : UInt64) (conn : ConnInfo)
      (buff : List UInt8)
  | auth (index : ℕ) (serverID : UInt32) (now userID : UInt64) (ret : Int32)
  | connDeal (index : ℕ) (now : UInt64)
  | take (serverID : UInt32) (index : ℕ)
  | reload (serverID : UInt32) (index : ℕ)
  | call (serverID : UInt32) (outcome : Outcome)
  -- what the loader, the writer and `CheckValid` do to the shared map
  | share (serverID : UInt32) (users : UserMap)
  | lose (index : ℕ)

def isInternal (cmdID : UInt32) : Bool :=
  cmdID = cmdUserRegisterReq ∨ cmdID = cmdUserAddFriendReq2

def System.setWorker (system : System) (serverID : UInt32)
    (worker : Worker) : System :=
  { system with workers := Function.update system.workers serverID worker }

/-- Begin `DealPkg`. -/
def System.begin (system : System) (parsers : ClientParsers)
    (serverID : UInt32) (worker : Worker) (request : Request)
    (sender : UInt64) : System :=
  { system.setWorker serverID
      { worker with
        dealing := some
          ⟨request, sender, dealPkg parsers serverID request⟩ } with
    internal :=
      if isInternal request.header.cmdID then
        system.internal ++ [request.payload]
      else system.internal }

/-- What a call of `DealPkg` leaves besides the shared map. -/
def System.note (system : System) (serverID : UInt32) (sender : UInt64) :
    (op : Op) → op.Answer → System
  | .addFriendReq userID _ _, ret =>
      if ret = 0 then
        { system with stored := system.stored ++ [(userID, sender)] }
      else system
  | .loaderSend req, ret =>
      if ret = 0 then
        system.setWorker serverID
          { system.workers serverID with
            loading :=
              (system.workers serverID).loading ++ [(req, sender)] }
      else system
  | .send msg, ret =>
      if ret = 0 then
        { system with inFlight := system.inFlight ++ [⟨msg, sender⟩] }
      else system
  | _, _ => system

/-- The next call of the server, or the end of `DealPkg`. -/
def System.call (system : System) (serverID : UInt32) (outcome : Outcome) :
    Option System :=
  let worker := system.workers serverID
  match worker.dealing with
  | none => none
  | some ⟨_, _, .done _⟩ =>
      some (system.setWorker serverID { worker with dealing := none })
  | some ⟨request, sender, .call op next⟩ =>
      let (answer, users) := op.answer worker.users outcome
      some ((system.setWorker serverID
        { worker with
          users := users
          dealing := some ⟨request, sender, next answer⟩ }).note serverID
            sender op answer)

def System.drop (system : System) (index : ℕ) : System :=
  { system with inFlight := system.inFlight.eraseIdx index }

def System.post (system : System) (sender : UInt64) (msgs : List ServerMsg) :
    System :=
  { system with
    inFlight := system.inFlight ++ msgs.map fun msg => ⟨msg, sender⟩ }

def step (parsers : ClientParsers) (system : System) :
    Action → Option System
  | .client serverID connPos now conn buff =>
      some (system.post conn.userID
        (processPkg parsers serverID now connPos conn buff).1)
  | .auth index serverID now userID ret =>
      system.inFlight[index]?.map fun tracked =>
        (system.drop index).post tracked.sender
          (authRegister serverID now userID ret tracked.request).toList
  | .connDeal index now =>
      system.inFlight[index]?.map fun tracked =>
        (system.drop index).post tracked.sender
          (connRegister tracked.msg.dstID now tracked.request).toList
  | .take serverID index =>
      match system.inFlight[index]?, (system.workers serverID).dealing with
      | some tracked, none =>
          if tracked.msg.dstID = serverID then
            some ((system.drop index).begin parsers serverID
              (system.workers serverID) tracked.request tracked.sender)
          else none
      | _, _ => none
  | .reload serverID index =>
      match (system.workers serverID).loading[index]?,
          (system.workers serverID).dealing with
      | some (req, sender), none =>
          some (system.begin parsers serverID
            { system.workers serverID with
              loading := (system.workers serverID).loading.eraseIdx index }
            req.request sender)
      | _, _ => none
  | .call serverID outcome => system.call serverID outcome
  | .share serverID users =>
      some (system.setWorker serverID
        { system.workers serverID with users := users })
  | .lose index => some (system.drop index)

/-! ## Messages that come from where they say -/

/-- A request whose body has not been chosen by a client if its command is an
internal one, and which names its sender. -/
structure Clean (request : Request) (sender : UInt64) : Prop where
  userID : request.header.userID = sender
  register : request.header.cmdID = cmdUserRegisterReq →
    ∀ bytes, request.payload ≠ .client bytes
  addFriend : request.header.cmdID = cmdUserAddFriendReq2 →
    ∃ nickname otheruserid, request.payload =
      .userAddFriendReq ⟨sender, nickname, otheruserid⟩

theorem clean_of_external
    {header : XYHeaderIn} {sender : UInt64} (payload : Payload)
    (huser : header.userID = sender)
    (hcmd : isInternal header.cmdID = false) :
    Clean ⟨header, payload⟩ sender := by
  simp only [isInternal, decide_eq_false_iff_not, not_or] at hcmd
  exact ⟨huser, fun heq => absurd heq hcmd.1, fun heq => absurd heq hcmd.2⟩

/-- A call that a server may make for a sender. -/
def GoodOp (sender : UInt64) : Op → Prop
  | .addFriendReq userID _ _ => userID = sender
  | .loaderSend req => Clean req.request sender
  | .send msg => Clean ⟨msg.header, msg.payload⟩ sender
  | _ => True

section Deal

variable {parsers : ClientParsers} {serverID : UInt32} {request : Request}
  {sender : UInt64}

/-- An answer to a client says nothing that a user server acts on. -/
theorem clean_answer
    {cmdID : UInt32} {payload : Payload} (now : UInt64)
    (hsender : request.header.userID = sender)
    (hcmd : isInternal cmdID = false) :
    Clean ⟨answerHeader serverID cmdID request.header now, payload⟩
      sender :=
  clean_of_external payload hsender hcmd

/-- All that `DealPkg` does for a clean request is done for its sender. -/
theorem dealPkg_every (hclean : Clean request sender) :
    (dealPkg parsers serverID request).Every (GoodOp sender)
      fun _ => True := by
  apply (dealPkg_calls parsers serverID request).imp
  intro op hcall
  generalize hcmd : request.header.cmdID = cmdID at hcall
  cases hcall with
  | time => trivial
  | getUserInfo userID => trivial
  | writerSend userID => trivial
  | insertUserInfo now hparse => trivial
  | loaderSend hfriend userID => exact hclean
  | registerRsp now => exact clean_answer now hclean.userID (by decide)
  | addFriendRsp hfriend now => exact clean_answer now hclean.userID (by decide)
  | addFriendReq strNickName hhere => exact hclean.userID
  | addFriendReq2 hparse =>
      obtain ⟨nickname, otheruserid, hpayload⟩ := hclean.addFriend hcmd
      rw [hpayload] at hparse
      cases hparse
      rfl
  | forward now otherUserID strNickName =>
      -- the user named to the other server is the one of the header
      refine ⟨hclean.userID, ?_, fun _ => ?_⟩
      · exact fun _ bytes heq => Payload.noConfusion heq
      · change ∃ nickname otheruserid,
          Payload.userAddFriendReq _ = .userAddFriendReq _
        rw [hclean.userID]
        exact ⟨strNickName, otherUserID, rfl⟩

end Deal

/-! ## Packets of clients -/

/-- A buffer that begins with a complete packet of acceptable length. -/
def Complete (buff : List UInt8) : Prop :=
  XYHeader.getHeadLen ≤ buff.length ∧
    AcceptedLen (XYHeader.read buff).pkgLen ∧
    (XYHeader.read buff).pkgLen.toNat ≤ buff.length

instance (buff : List UInt8) : Decidable (Complete buff) :=
  inferInstanceAs (Decidable (_ ∧ _ ∧ _))

/-- A packet of an authenticated client does not carry a command that is for
servers only. -/
def SpeaksAppCommands (_ : System) : Action → Prop
  | .client _ _ _ conn buff =>
      conn.connType = .connAuth → Complete buff →
        isInternal (XYHeader.read buff).cmdID = false
  | _ => True

instance (system : System) (action : Action) :
    Decidable (SpeaksAppCommands system action) :=
  match action with
  | .client _ _ _ conn buff =>
      inferInstanceAs (Decidable (conn.connType = .connAuth →
        Complete buff → isInternal (XYHeader.read buff).cmdID = false))
  | .auth _ _ _ _ _ => isTrue trivial
  | .connDeal _ _ => isTrue trivial
  | .take _ _ => isTrue trivial
  | .reload _ _ => isTrue trivial
  | .call _ _ => isTrue trivial
  | .share _ _ => isTrue trivial
  | .lose _ => isTrue trivial

/-- The header that `ProcessPkg` puts before the body of a packet. -/
def clientHeader (serverID : UInt32) (now : UInt64) (connPos : UInt32)
    (conn : ConnInfo) (header : XYHeader) : XYHeaderIn where
  srcID := serverID
  cmdID := header.cmdID
  sn := header.sn
  connPos := connPos
  userID := conn.userID
  pkgTime := now
  ret := header.ret

theorem processPkg_of_complete
    (parsers : ClientParsers) (serverID connPos : UInt32) (now : UInt64)
    (conn : ConnInfo) {buff : List UInt8} (hcomplete : Complete buff) :
    processPkg parsers serverID now connPos conn buff =
      dispatch parsers conn
        (clientHeader serverID now connPos conn (XYHeader.read buff))
        (asInt (XYHeader.read buff).pkgLen)
        ((buff.drop XYHeader.getHeadLen).take
          ((XYHeader.read buff).pkgLen.toNat - XYHeader.getHeadLen)) := by
  obtain ⟨hlong, ⟨hlow, hhigh⟩, hwhole⟩ := hcomplete
  unfold processPkg
  rw [if_neg (by omega)]
  dsimp only
  rw [if_neg (by omega), if_neg (by omega), if_neg (by omega)]
  rfl

theorem processPkg_of_incomplete
    (parsers : ClientParsers) (serverID connPos : UInt32) (now : UInt64)
    (conn : ConnInfo) {buff : List UInt8} (hincomplete : ¬ Complete buff) :
    (processPkg parsers serverID now connPos conn buff).1 = [] := by
  unfold processPkg
  split_ifs with hshort
  · rfl
  dsimp only
  split_ifs with hsmall hlarge hpart
  · rfl
  · rfl
  · rfl
  · exact absurd ⟨by omega, ⟨by omega, by omega⟩, by omega⟩ hincomplete

/-- The messages for a complete packet carry its header, and none is the reply
that completes a registration. -/
theorem dispatch_message
    {parsers : ClientParsers} {conn : ConnInfo} {headerIn : XYHeaderIn}
    {pkgLen : ℤ} {body : List UInt8} {msg : ServerMsg}
    (hmsg : msg ∈ (dispatch parsers conn headerIn pkgLen body).1) :
    msg.header = headerIn ∧ ∀ rsp, msg.payload ≠ .authRegisterRsp rsp := by
  unfold dispatch at hmsg
  split_ifs at hmsg with hignored hconn hauth hlogin hregister huser
  · simp at hmsg
  · simp at hmsg
  · cases hparse : parsers.loginReq body with
    | none => simp [hparse] at hmsg
    | some req => simp_all
  · cases hparse : parsers.registerReq body with
    | none => simp [hparse] at hmsg
    | some req => simp_all
  · simp_all
  · simp_all
  · simp at hmsg

/-- A client that is not authenticated is heard only when it registers or logs
in. -/
theorem dispatch_of_unauth
    {parsers : ClientParsers} {conn : ConnInfo} {headerIn : XYHeaderIn}
    {pkgLen : ℤ} {body : List UInt8} {msg : ServerMsg}
    (hmsg : msg ∈ (dispatch parsers conn headerIn pkgLen body).1)
    (hunauth : conn.connType ≠ .connAuth) :
    isInternal headerIn.cmdID = false := by
  by_cases hlogin : headerIn.cmdID = cmdAuthLoginReq
  · rw [hlogin]
    decide
  by_cases hregister : headerIn.cmdID = cmdAuthRegisterReq
  · rw [hregister]
    decide
  unfold dispatch at hmsg
  rw [if_pos ⟨hlogin, hregister, hunauth⟩] at hmsg
  simp at hmsg

theorem processPkg_clean
    {parsers : ClientParsers} {serverID connPos : UInt32} {now : UInt64}
    {conn : ConnInfo} {buff : List UInt8}
    (happ : conn.connType = .connAuth → Complete buff →
      isInternal (XYHeader.read buff).cmdID = false)
    {msg : ServerMsg}
    (hmsg : msg ∈ (processPkg parsers serverID now connPos conn buff).1) :
    Clean ⟨msg.header, msg.payload⟩ conn.userID := by
  by_cases hcomplete : Complete buff
  · rw [processPkg_of_complete _ _ _ _ _ hcomplete] at hmsg
    rw [(dispatch_message hmsg).1]
    apply clean_of_external _ rfl
    by_cases hauth : conn.connType = .connAuth
    · exact happ hauth hcomplete
    · exact dispatch_of_unauth hmsg hauth
  · rw [processPkg_of_incomplete _ _ _ _ _ hcomplete] at hmsg
    simp at hmsg

/-! ## Runs -/

/-- What a user server works on and waits for is clean. -/
structure Worker.Clean (worker : Worker) : Prop where
  loading : ∀ entry ∈ worker.loading, User.Clean entry.1.request entry.2
  dealing : ∀ dealing ∈ worker.dealing,
    dealing.program.Every (GoodOp dealing.sender) fun _ => True

/-- All messages are clean, and what has been done was done for clean ones. -/
structure System.Clean (system : System) : Prop where
  inFlight : ∀ tracked ∈ system.inFlight,
    User.Clean tracked.request tracked.sender
  workers : ∀ serverID, (system.workers serverID).Clean
  stored : ∀ entry ∈ system.stored, entry.1 = entry.2
  internal : ∀ payload ∈ system.internal, ∀ bytes, payload ≠ .client bytes

namespace System.Clean

variable {parsers : ClientParsers} {system : System} {serverID : UInt32}
  {worker : Worker} {request : Request} {sender : UInt64}

theorem setWorker (h : system.Clean) (hworker : worker.Clean) :
    (system.setWorker serverID worker).Clean where
  inFlight := h.inFlight
  workers := by
    intro other
    simp only [System.setWorker]
    by_cases hother : other = serverID
    · subst hother
      rw [Function.update_self]
      exact hworker
    · rw [Function.update_of_ne hother]
      exact h.workers other
  stored := h.stored
  internal := h.internal

theorem drop (h : system.Clean) (index : ℕ) : (system.drop index).Clean where
  inFlight := fun tracked htracked =>
    h.inFlight tracked (List.mem_of_mem_eraseIdx htracked)
  workers := h.workers
  stored := h.stored
  internal := h.internal

theorem post
    (h : system.Clean) {msgs : List ServerMsg}
    (hmsgs : ∀ msg ∈ msgs, User.Clean ⟨msg.header, msg.payload⟩ sender) :
    (system.post sender msgs).Clean where
  inFlight := by
    intro tracked htracked
    simp only [System.post, List.mem_append, List.mem_map] at htracked
    obtain hold | ⟨msg, hmsg, rfl⟩ := htracked
    · exact h.inFlight tracked hold
    · exact hmsgs msg hmsg
  workers := h.workers
  stored := h.stored
  internal := h.internal

theorem begin
    (h : system.Clean) (hworker : worker.Clean)
    (hclean : User.Clean request sender) :
    (system.begin parsers serverID worker request sender).Clean where
  inFlight := h.inFlight
  workers := by
    apply (h.setWorker _).workers
    refine ⟨hworker.loading, ?_⟩
    intro dealing hdealing
    rw [Option.mem_some_iff] at hdealing
    subst hdealing
    exact dealPkg_every hclean
  stored := h.stored
  internal := by
    intro payload hpayload
    simp only [System.begin] at hpayload
    split_ifs at hpayload with hinternal
    · rw [List.mem_append, List.mem_singleton] at hpayload
      obtain hold | rfl := hpayload
      · exact h.internal payload hold
      · rw [isInternal, decide_eq_true_eq] at hinternal
        obtain hregister | haddFriend := hinternal
        · exact hclean.register hregister
        · obtain ⟨nickname, otheruserid, heq⟩ := hclean.addFriend haddFriend
          rw [heq]
          exact fun bytes heq => Payload.noConfusion heq
    · exact h.internal payload hpayload

theorem note
    (h : system.Clean) {op : Op} (hop : GoodOp sender op)
    (answer : op.Answer) :
    (system.note serverID sender op answer).Clean := by
  cases op with
  | addFriendReq userID otherUserID strNickName =>
      simp only [System.note]
      split_ifs
      · refine ⟨h.inFlight, h.workers, ?_, h.internal⟩
        intro entry hentry
        rw [List.mem_append, List.mem_singleton] at hentry
        obtain hold | rfl := hentry
        · exact h.stored entry hold
        · exact hop
      · exact h
  | loaderSend req =>
      simp only [System.note]
      split_ifs
      · have hworker := h.workers serverID
        apply h.setWorker
        refine ⟨?_, hworker.dealing⟩
        intro entry hentry
        rw [List.mem_append, List.mem_singleton] at hentry
        obtain hold | rfl := hentry
        · exact hworker.loading entry hold
        · exact hop
      · exact h
  | send msg =>
      simp only [System.note]
      split_ifs
      · have hpost : (system.post sender [msg]).Clean := by
          apply h.post
          intro other hother
          rw [List.mem_singleton] at hother
          subst hother
          exact hop
        exact hpost
      · exact h
  | time => exact h
  | insertUserInfo info => exact h
  | getUserInfo userID => exact h
  | writerSend userID => exact h

theorem call
    (h : system.Clean) {outcome : Outcome} {after : System}
    (hcall : system.call serverID outcome = some after) : after.Clean := by
  have hworker := h.workers serverID
  unfold System.call at hcall
  dsimp only at hcall
  split at hcall
  · cases hcall
  · cases hcall
    exact h.setWorker ⟨hworker.loading, by simp⟩
  · next request sender op next hdealing =>
      cases hcall
      have hevery := hworker.dealing _ hdealing
      apply note _ hevery.1
      apply h.setWorker
      refine ⟨hworker.loading, ?_⟩
      intro dealing hnext
      rw [Option.mem_some_iff] at hnext
      subst hnext
      exact hevery.2 _

theorem authRegister_clean
    {now userID : UInt64} {ret : Int32} {msg : ServerMsg}
    (hclean : User.Clean request sender)
    (hmsg : msg ∈ (authRegister serverID now userID ret request).toList) :
    User.Clean ⟨msg.header, msg.payload⟩ sender := by
  unfold authRegister at hmsg
  split at hmsg
  · rw [Option.toList_some, List.mem_singleton] at hmsg
    subst hmsg
    exact clean_answer now hclean.userID (by decide)
  · simp at hmsg

theorem connRegister_clean
    {now : UInt64} {msg : ServerMsg} (hclean : User.Clean request sender)
    (hmsg : msg ∈ (connRegister serverID now request).toList) :
    User.Clean ⟨msg.header, msg.payload⟩ sender := by
  unfold connRegister at hmsg
  split at hmsg
  · split_ifs at hmsg
    · simp at hmsg
    · rw [Option.toList_some, List.mem_singleton] at hmsg
      subst hmsg
      refine ⟨hclean.userID, ?_, ?_⟩
      · exact fun _ bytes heq => Payload.noConfusion heq
      · exact fun (heq : cmdUserRegisterReq = cmdUserAddFriendReq2) =>
          absurd heq (by decide)
  · simp at hmsg

theorem keep
    (h : system.Clean) {action : Action} {after : System}
    (happ : SpeaksAppCommands system action)
    (hstep : step parsers system action = some after) : after.Clean := by
  cases action with
  | client serverID connPos now conn buff =>
      cases hstep
      exact h.post fun msg hmsg => processPkg_clean happ hmsg
  | auth index serverID now userID ret =>
      obtain ⟨tracked, htracked, rfl⟩ := Option.map_eq_some_iff.mp hstep
      have hclean := h.inFlight tracked (List.mem_of_getElem? htracked)
      exact (h.drop index).post fun msg hmsg =>
        authRegister_clean hclean hmsg
  | connDeal index now =>
      obtain ⟨tracked, htracked, rfl⟩ := Option.map_eq_some_iff.mp hstep
      have hclean := h.inFlight tracked (List.mem_of_getElem? htracked)
      exact (h.drop index).post fun msg hmsg =>
        connRegister_clean hclean hmsg
  | take serverID index =>
      simp only [step] at hstep
      split at hstep
      · next tracked htracked _ =>
          split_ifs at hstep
          cases hstep
          exact (h.drop index).begin (h.workers serverID)
            (h.inFlight tracked (List.mem_of_getElem? htracked))
      · cases hstep
  | reload serverID index =>
      simp only [step] at hstep
      split at hstep
      · next req sender hentry _ =>
          cases hstep
          have hworker := h.workers serverID
          apply h.begin
          · exact ⟨fun entry hmem => hworker.loading entry
              (List.mem_of_mem_eraseIdx hmem), hworker.dealing⟩
          · exact hworker.loading _ (List.mem_of_getElem? hentry)
      · cases hstep
  | call serverID outcome => exact h.call hstep
  | share serverID users =>
      cases hstep
      have hworker := h.workers serverID
      exact h.setWorker ⟨hworker.loading, hworker.dealing⟩
  | lose index =>
      cases hstep
      exact h.drop index

end System.Clean

/-- As long as no packet of an authenticated client carries an internal
command, the friend requests that are stored name their senders, and the
handlers of internal commands are run on messages that servers have built. -/
theorem internal_commands_of_servers
    (parsers : ClientParsers) (users : UInt32 → UserMap) {system : System}
    (hreach : Transition.Reaches (step parsers) SpeaksAppCommands
      (System.start users) system) :
    (∀ entry ∈ system.stored, entry.1 = entry.2) ∧
      ∀ payload ∈ system.internal, ∀ bytes, payload ≠ .client bytes := by
  have hclean : system.Clean := by
    apply hreach.invariant System.Clean
    · exact ⟨by simp [System.start], fun _ => ⟨by simp [System.start],
        by simp [System.start]⟩, by simp [System.start],
        by simp [System.start]⟩
    · exact fun before after action h happ hstep => h.keep happ hstep
  exact ⟨hclean.stored, hclean.internal⟩

/-- A server's map with two users. -/
def twoUsers (_ : UInt32) : UserMap :=
  (insertUserInfo
    (insertUserInfo (BoundedMap.empty UInt64 ShmUserInfo 10)
      { (default : ShmUserInfo) with userID := 7 }).2
    { (default : ShmUserInfo) with userID := 8 }).2

/-- Parsers that know the two bodies below, an `app::AddFriendReq` for user 8
and an `mm::UserAddFriendReq` from 9 to 8. -/
def twoBodies : ClientParsers :=
  { noClientParsers with
    addFriendReq := fun bytes => if bytes = [8, 8] then some 8 else none
    userAddFriendReq := fun bytes =>
      if bytes = [8, 9, 18, 1, 120, 24, 8] then some ⟨9, [120], 8⟩
      else none }

/-- User 7 asks for user 8 as a friend. -/
theorem internal_commands_of_servers_friend :
    ∃ system, Transition.Reaches (step twoBodies) SpeaksAppCommands
        (System.start twoUsers) system ∧
      system.stored = [(7, 7)] ∧
      (∀ entry ∈ system.stored, entry.1 = entry.2) ∧
      ∀ payload ∈ system.internal, ∀ bytes, payload ≠ .client bytes := by
  rcases Option.map_eq_some_iff.mp
    (show (Transition.replay (step twoBodies) SpeaksAppCommands
        (System.start twoUsers)
        [.client 101 300001 5 ⟨.connAuth, 7⟩
            [0, 0, 0, 19, 0, 4, 0, 3, 0, 0, 0, 1, 0, 0, 0, 0, 0, 8, 8],
          .take 401 0, .call 401 ⟨5, 5, 0⟩, .call 401 ⟨5, 5, 0⟩,
          .call 401 ⟨5, 5, 0⟩, .call 401 ⟨5, 5, 0⟩]).map
        System.stored = some [(7, 7)] by decide) with
    ⟨system, hreplay, hstored⟩
  have hreach := Transition.reaches_of_replay hreplay
  exact ⟨system, hreach, hstored,
    internal_commands_of_servers twoBodies twoUsers hreach⟩

/-- User 7 sends a `Cmd_User_AddFriend_Req2` that names user 9, and a friend
request of user 9 is stored. -/
theorem internal_command_of_client :
    ∃ system, Transition.Reaches (step twoBodies) (fun _ _ => True)
        (System.start twoUsers) system ∧
      (9, 7) ∈ system.stored ∧
      Payload.client [8, 9, 18, 1, 120, 24, 8] ∈ system.internal := by
  rcases Option.map_eq_some_iff.mp
    (show (Transition.replay (step twoBodies) (fun _ _ => True)
        (System.start twoUsers)
        [.client 101 300001 5 ⟨.connAuth, 7⟩
            [0, 0, 0, 24, 0, 4, 0, 5, 0, 0, 0, 1, 0, 0, 0, 0, 0,
              8, 9, 18, 1, 120, 24, 8],
          .take 401 0, .call 401 ⟨5, 5, 0⟩, .call 401 ⟨5, 5, 0⟩]).map
        (fun system => (system.stored, system.internal)) =
          some ([(9, 7)], [.client [8, 9, 18, 1, 120, 24, 8]])
      by decide) with
    ⟨system, hreplay, hvalues⟩
  obtain ⟨hstored, hinternal⟩ := Prod.mk.inj hvalues
  refine ⟨system, Transition.reaches_of_replay hreplay, ?_, ?_⟩
  · rw [hstored]
    exact List.mem_singleton.mpr rfl
  · rw [hinternal]
    exact List.mem_singleton.mpr rfl

end MessageBus.User
