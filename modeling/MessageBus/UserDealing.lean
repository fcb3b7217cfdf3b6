import MessageBus.UserModel

/-!
# The calls of `CUser::DealPkg`

Whatever its calls are answered, `DealPkg` makes only the calls that are listed
here for its command.  All that is said elsewhere about what a user server does
with a request is read off this list.
-/

namespace MessageBus.User

open Bus
open Conn

/-- The two requests for a friend. -/
def IsFriendCmd (cmdID : UInt32) : Prop :=
  cmdID = cmdUserAddFriendReq ∨ cmdID = cmdUserAddFriendReq2

/-- The calls that `DealPkg` may make on a request, by its command. -/
inductive DealCall (parsers : ClientParsers) (serverID : UInt32)
    (request : Request) : UInt32 → Op → Prop where
  | time {cmdID : UInt32} : DealCall parsers serverID request cmdID .time
  | getUserInfo {cmdID : UInt32} (userID : UInt64) :
      DealCall parsers serverID request cmdID (.getUserInfo userID)
  | writerSend {cmdID : UInt32} (userID : UInt64) :
      DealCall parsers serverID request cmdID (.writerSend userID)
  -- the loader is given the request as it came
  | loaderSend {cmdID : UInt32} (hcmd : IsFriendCmd cmdID)
      (userID : UInt64) :
      DealCall parsers serverID request cmdID (.loaderSend ⟨userID, request⟩)
  | insertUserInfo {req : UserRegisterReq} (now : UInt64)
      (hparse : parseUserRegisterReq parsers request.payload = some req) :
      DealCall parsers serverID request cmdUserRegisterReq
        (.insertUserInfo (registered req now))
  | registerRsp {req : UserRegisterReq} (now : UInt64) :
      DealCall parsers serverID request cmdUserRegisterReq
        (.send ⟨request.header.srcID, toSrv,
          answerHeader serverID cmdUserRegisterRsp request.header now,
          .userRegisterRsp req.userid 0⟩)
  | addFriendReq {otherUserID : UInt64} (strNickName : Text)
      (hhere : getUserServer otherUserID = serverID) :
      DealCall parsers serverID request cmdUserAddFriendReq
        (.addFriendReq request.header.userID otherUserID strNickName)
  | addFriendReq2 {req : UserAddFriendReq}
      (hparse : parseUserAddFriendReq parsers request.payload = some req) :
      DealCall parsers serverID request cmdUserAddFriendReq2
        (.addFriendReq req.userid req.otheruserid req.nickname)
  | addFriendRsp {cmdID : UInt32} (hcmd : IsFriendCmd cmdID) (now : UInt64) :
      DealCall parsers serverID request cmdID
        (.send ⟨request.header.srcID, toSrv,
          answerHeader serverID cmdUserAddFriendRsp request.header now,
          .addFriendRsp 0⟩)
  -- the other server answers in place of this one
  | forward (now otherUserID : UInt64) (strNickName : Text) :
      DealCall parsers serverID request cmdUserAddFriendReq
        (.send ⟨getUserServer otherUserID, toSrv,
          { request.header with
            cmdID := cmdUserAddFriendReq2
            pkgTime := now
            ret := 0 },
          .userAddFriendReq
            ⟨request.header.userID, strNickName, otherUserID⟩⟩)

section Parts

variable {good : Op → Prop}

theorem loadUserInfoWhileNotExist_every
    {userID : UInt64} {request : Request}
    (hget : good (.getUserInfo userID))
    (hload : good (.loaderSend ⟨userID, request⟩)) :
    (loadUserInfoWhileNotExist userID request).Every good fun _ => True := by
  unfold loadUserInfoWhileNotExist loadUserInfo perform
  simp only [Program.every_bind, Program.every_perform]
  refine ⟨hget, fun found => ?_⟩
  cases found with
  | some info => trivial
  | none =>
      simp only [Program.every_bind, Program.every_perform]
      refine ⟨hload, fun ret => ?_⟩
      apply Program.Every.ite
      all_goals
        intro _
        apply Program.Every.ite
        all_goals exact fun _ => trivial

theorem writeUserInfo_every
    {userID : UInt64} (hwrite : good (.writerSend userID)) :
    (writeUserInfo userID).Every good fun _ => True := by
  unfold writeUserInfo perform
  simp only [Program.every_bind, Program.every_perform]
  refine ⟨hwrite, fun ret => ?_⟩
  apply Program.Every.ite
  all_goals exact fun _ => trivial

theorem send2Server_every
    {header : XYHeaderIn} {dstID : UInt32} {sendType : UInt8}
    {payload : Payload} (hsend : good (.send ⟨dstID, sendType, header, payload⟩)) :
    (send2Server header dstID sendType payload).Every good fun _ => True := by
  unfold send2Server perform
  simp only [Program.every_bind, Program.every_perform]
  refine ⟨hsend, fun ret => ?_⟩
  apply Program.Every.ite
  all_goals exact fun _ => trivial

end Parts

section Calls

variable (parsers : ClientParsers) (serverID : UInt32) (request : Request)

theorem answerFriend_calls
    {cmdID : UInt32} (hcmd : IsFriendCmd cmdID)
    {userID otherUserID : UInt64} {strNickName : Text}
    (hadd : DealCall parsers serverID request cmdID
      (.addFriendReq userID otherUserID strNickName)) :
    (answerFriend serverID request.header userID otherUserID
      strNickName).Every (DealCall parsers serverID request cmdID)
        fun _ => True := by
  unfold answerFriend perform
  simp only [Program.every_bind, Program.every_perform]
  refine ⟨hadd, fun ret => Program.Every.ite (fun _ => trivial) fun _ => ?_⟩
  simp only [Program.every_bind, Program.every_perform]
  apply (writeUserInfo_every (.writerSend otherUserID)).mono
  intro _ _
  refine ⟨.time, fun now => ?_⟩
  apply (send2Server_every (.addFriendRsp hcmd now)).mono
  exact fun _ _ => trivial

theorem dealRegister_calls :
    (dealRegister parsers serverID request).Every
      (DealCall parsers serverID request cmdUserRegisterReq)
      fun _ => True := by
  unfold dealRegister perform
  cases hparse : parseUserRegisterReq parsers request.payload with
  | none => trivial
  | some req =>
      simp only [Program.every_bind, Program.every_perform]
      refine ⟨.time, fun now => ⟨.insertUserInfo now hparse, fun _ => ?_⟩⟩
      apply (writeUserInfo_every (.writerSend req.userid)).mono
      intro _ _
      refine ⟨.time, fun now => ?_⟩
      apply (send2Server_every (.registerRsp now)).mono
      exact fun _ _ => trivial

theorem dealAddFriend_calls :
    (dealAddFriend parsers serverID request).Every
      (DealCall parsers serverID request cmdUserAddFriendReq)
      fun _ => True := by
  unfold dealAddFriend perform
  cases parseAddFriendReq parsers request.payload with
  | none => trivial
  | some otherUserID =>
      simp only [Program.every_bind]
      apply (loadUserInfoWhileNotExist_every (.getUserInfo _)
        (.loaderSend (.inl rfl) _)).mono
      intro ret _
      refine Program.Every.ite (fun _ => trivial) fun _ =>
        Program.Every.ite (fun _ => trivial) fun _ => ?_
      simp only [Program.every_bind, Program.every_perform]
      refine ⟨.getUserInfo _, fun found => ?_⟩
      cases found with
      | none => trivial
      | some info =>
          refine Program.Every.ite (fun hhere => ?_) fun _ => ?_
          · simp only [Program.every_bind]
            apply (loadUserInfoWhileNotExist_every (.getUserInfo _)
              (.loaderSend (.inl rfl) _)).mono
            intro ret _
            refine Program.Every.ite (fun _ => trivial) fun _ =>
              Program.Every.ite (fun _ => trivial) fun _ => ?_
            exact answerFriend_calls _ _ _ (.inl rfl) (.addFriendReq _ hhere)
          · simp only [Program.every_bind, Program.every_perform]
            refine ⟨.time, fun now => ?_⟩
            apply (send2Server_every (.forward now _ _)).mono
            exact fun _ _ => trivial

theorem dealAddFriend2_calls :
    (dealAddFriend2 parsers serverID request).Every
      (DealCall parsers serverID request cmdUserAddFriendReq2)
      fun _ => True := by
  unfold dealAddFriend2
  cases hparse : parseUserAddFriendReq parsers request.payload with
  | none => trivial
  | some req =>
      simp only [Program.every_bind]
      apply (loadUserInfoWhileNotExist_every (.getUserInfo _)
        (.loaderSend (.inr rfl) _)).mono
      intro ret _
      refine Program.Every.ite (fun _ => trivial) fun _ =>
        Program.Every.ite (fun _ => trivial) fun _ => ?_
      exact answerFriend_calls _ _ _ (.inr rfl) (.addFriendReq2 hparse)

theorem dealPkg_calls :
    (dealPkg parsers serverID request).Every
      (DealCall parsers serverID request request.header.cmdID)
      fun _ => True := by
  unfold dealPkg
  apply Program.Every.ite
  · intro hcmd
    rw [hcmd]
    exact dealRegister_calls parsers serverID request
  intro _
  apply Program.Every.ite
  · intro hcmd
    rw [hcmd]
    exact dealAddFriend_calls parsers serverID request
  intro _
  apply Program.Every.ite
  · intro hcmd
    rw [hcmd]
    exact dealAddFriend2_calls parsers serverID request
  · exact fun _ => trivial

end Calls

end MessageBus.User
