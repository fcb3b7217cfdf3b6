import MessageBus.UserModel
import MessageBus.Transition

/-!
# Loading users on a miss

The main loop of the user server, `CUser::Run`, and the loader process,
`CLoaderUser::Entity` with `ProcessLoaderUserInfo`, with the queues between
them and the map of users that they share.  The steps are the calls that the
other process can see, so that the two interleave as they like.

The logs say which requests have been sent to the loader, how these were
answered, and which answers made `DealPkg` run again.
-/

namespace MessageBus.User

open Conn

/-- What the query of `ProcessLoaderUserInfo` comes to, down to the record that
`UserProtoString2Struct` makes of a row. -/
inductive LoadQuery where
  | failed
  -- no row, or more than one
  | recNum (number : ℕ)
  | empty
  | unparsable
  | record (info : ShmUserInfo)

/-- `mm::LoadUserInfoRsp`. -/
structure LoadUserInfoRsp where
  ret : ℤ
  request : Request
deriving DecidableEq

/-- Where the main loop is. -/
inductive MainPc where
  | recv
  | busDeal (program : Deal ℤ)
  | loaderRecv
  | loaderDeal (program : Deal ℤ)
  | checkValid
  | removeInValid (users : List UInt64)

/-- Where the loader is. -/
inductive LoaderPc where
  | idle
  | query (req : LoadUserInfoReq)
  | insert (req : LoadUserInfoReq) (info : ShmUserInfo)
  | reply (req : LoadUserInfoReq) (result : ℤ)

structure Loading where
  users : UserMap
  recvQueue : List Request
  loaderSendQueue : List LoadUserInfoReq
  loaderRecvQueue : List LoadUserInfoRsp
  main : MainPc
  loader : LoaderPc
  -- the requests sent to the loader, their answers, and the requests run again
  sent : List LoadUserInfoReq
  answered : List (LoadUserInfoReq × ℤ)
  rerun : List Request

namespace Loading

def start (users : UserMap) : Loading where
  users := users
  recvQueue := []
  loaderSendQueue := []
  loaderRecvQueue := []
  main := .recv
  loader := .idle
  sent := []
  answered := []
  rerun := []

/-! ## Steps -/

/-- What a call of `DealPkg` puts in the queue to the loader. -/
def loads : (op : Op) → op.Answer → List LoadUserInfoReq
  | .loaderSend req, ret => if ret = 0 then [req] else []
  | _, _ => []

/-- One call of `DealPkg`; `pc` says where the rest of it is run. -/
def call (loading : Loading) (outcome : Outcome) (pc : Deal ℤ → MainPc)
    (op : Op) (next : op.Answer → Deal ℤ) : Loading :=
  let (answer, users) := op.answer loading.users outcome
  { loading with
    users := users
    loaderSendQueue := loading.loaderSendQueue ++ loads op answer
    main := pc (next answer)
    sent := loading.sent ++ loads op answer }

/-- A step of `CUser::Run`.  `vctUserID` are the users that `CheckUserIsValid`
has found. -/
def mainStep (parsers : ClientParsers) (serverID : UInt32)
    (loading : Loading) (outcome : Outcome) (vctUserID : List UInt64) :
    Loading :=
  match loading.main with
  | .recv =>
      match loading.recvQueue with
      | [] => { loading with main := .loaderRecv }
      | request :: later =>
          { loading with
            recvQueue := later
            main := .busDeal (dealPkg parsers serverID request) }
  | .busDeal (.done ret) =>
      -- a request that fails goes back to the top, past the loader's queue
      if ret ≠ 0 then { loading with main := .recv }
      else { loading with main := .loaderRecv }
  | .busDeal (.call op next) => loading.call outcome .busDeal op next
  | .loaderRecv =>
      match loading.loaderRecvQueue with
      | [] => { loading with main := .checkValid }
      | rsp :: later =>
          if rsp.ret ≠ 0 then
            { loading with
              loaderRecvQueue := later
              main := .recv }
          else
            { loading with
              loaderRecvQueue := later
              main := .loaderDeal (dealPkg parsers serverID rsp.request)
              rerun := loading.rerun ++ [rsp.request] }
  | .loaderDeal (.done ret) =>
      if ret ≠ 0 then { loading with main := .recv }
      else { loading with main := .checkValid }
  | .loaderDeal (.call op next) => loading.call outcome .loaderDeal op next
  | .checkValid => { loading with main := .removeInValid vctUserID }
  | .removeInValid [] => { loading with main := .recv }
  | .removeInValid (userID :: later) =>
      { loading with
        users := (removeUserInfoWhenInValid loading.users outcome.now
          userID).2
        main := .removeInValid later }

/-- A step of the loader. -/
def loaderStep (loading : Loading) (query : LoadQuery) (ret : ℤ) : Loading :=
  match loading.loader with
  | .idle =>
      match loading.loaderSendQueue with
      | [] => loading
      | req :: later =>
          { loading with
            loaderSendQueue := later
            loader := .query req }
  | .query req =>
      match query with
      | .record info => { loading with loader := .insert req info }
      | _ => { loading with loader := .reply req (-1) }
  | .insert req info =>
      let (ret, users) := insertUserInfo loading.users info
      { loading with
        users := users
        loader := .reply req (if ret ≠ 0 then -1 else 0) }
  | .reply req result =>
      { loading with
        loaderRecvQueue :=
          if ret = 0 then
            loading.loaderRecvQueue ++ [⟨result, req.request⟩]
          else loading.loaderRecvQueue
        answered := loading.answered ++ [(req, result)]
        loader := .idle }

inductive Action where
  | arrive (request : Request)
  | main (outcome : Outcome) (vctUserID : List UInt64)
  | loader (query : LoadQuery) (ret : ℤ)

def Action.IsMain : Action → Prop
  | .main _ _ => True
  | _ => False

def Action.IsLoader : Action → Prop
  | .loader _ _ => True
  | _ => False

def step (parsers : ClientParsers) (serverID : UInt32)
    (loading : Loading) : Action → Loading
  | .arrive request =>
      { loading with recvQueue := loading.recvQueue ++ [request] }
  | .main outcome vctUserID =>
      loading.mainStep parsers serverID outcome vctUserID
  | .loader query ret => loading.loaderStep query ret

/-! ## No request is lost -/

/-- The database has a valid record of the user it is asked for, and there is
a free node when a user is inserted. -/
def SuppliedLoader (users : UserMap) : LoaderPc → LoadQuery → Prop
  | .query req, .record info => info.userID = req.userid ∧ info.userID ≠ 0
  | .query _, _ => False
  | .insert _ _, _ => users.size < users.capacity
  | _, _ => True

/-- The queues have room, and the loader is supplied. -/
def Supplied (loading : Loading) : Action → Prop
  | .arrive _ => True
  | .main outcome _ => outcome.ret = 0
  | .loader query ret =>
      ret = 0 ∧ SuppliedLoader loading.users loading.loader query

def FirstInsert (users : UserMap) : LoaderPc → Prop
  | .insert _ info => users.get info.userID = none
  | _ => True

/-- A user who is inserted by the loader is not in the shared map yet. -/
def FirstLoad (loading : Loading) : Action → Prop
  | .loader _ _ => FirstInsert loading.users loading.loader
  | _ => True

/-- The request that the loader works on. -/
def pending (loading : Loading) : List LoadUserInfoReq :=
  match loading.loader with
  | .idle => []
  | .query req => [req]
  | .insert req _ => [req]
  | .reply req _ => [req]

/-- Every request sent to the loader has been answered, is worked on or waits;
every answer is a success, and has been used or waits. -/
structure Conserved (loading : Loading) : Prop where
  sent : loading.sent = loading.answered.map Prod.fst ++ loading.pending ++
    loading.loaderSendQueue
  answered : loading.answered.map (fun entry => entry.1.request) =
    loading.rerun ++ loading.loaderRecvQueue.map LoadUserInfoRsp.request
  succeeded : ∀ entry ∈ loading.answered, entry.2 = 0
  waiting : ∀ rsp ∈ loading.loaderRecvQueue, rsp.ret = 0
  inserting : ∀ req info, loading.loader = .insert req info →
    info.userID ≠ 0
  replying : ∀ req result, loading.loader = .reply req result → result = 0

namespace Conserved

variable {parsers : ClientParsers} {serverID : UInt32} {loading : Loading}

/-- The map and the place of the main loop do not matter here. -/
theorem of_main (h : loading.Conserved) (users : UserMap) (main : MainPc) :
    { loading with
      users := users
      main := main }.Conserved :=
  ⟨h.sent, h.answered, h.succeeded, h.waiting, h.inserting, h.replying⟩

theorem call
    (h : loading.Conserved) (outcome : Outcome) (pc : Deal ℤ → MainPc)
    (op : Op) (next : op.Answer → Deal ℤ) :
    (loading.call outcome pc op next).Conserved := by
  refine ⟨?_, h.answered, h.succeeded, h.waiting, h.inserting, h.replying⟩
  simp only [Loading.call, h.sent, pending, List.append_assoc]

theorem loaderRecv
    (h : loading.Conserved) {rsp : LoadUserInfoRsp}
    {later : List LoadUserInfoRsp} (main : MainPc)
    (hqueue : loading.loaderRecvQueue = rsp :: later) :
    { loading with
      loaderRecvQueue := later
      main := main
      rerun := loading.rerun ++ [rsp.request] }.Conserved := by
  refine ⟨h.sent, ?_, h.succeeded, ?_, h.inserting, h.replying⟩
  · have hanswered := h.answered
    rw [hqueue] at hanswered
    simpa using hanswered
  · intro other hother
    apply h.waiting
    rw [hqueue]
    exact List.mem_cons_of_mem rsp hother

/-- The main loop takes requests and answers off the queues and nothing
else. -/
theorem of_recv
    (h : loading.Conserved) (recvQueue : List Request) (main : MainPc) :
    { loading with
      recvQueue := recvQueue
      main := main }.Conserved :=
  ⟨h.sent, h.answered, h.succeeded, h.waiting, h.inserting, h.replying⟩

theorem mainStep
    (h : loading.Conserved) (outcome : Outcome) (vctUserID : List UInt64) :
    (loading.mainStep parsers serverID outcome vctUserID).Conserved := by
  unfold Loading.mainStep
  cases hmain : loading.main with
  | recv =>
      dsimp only
      split
      · exact h.of_main _ _
      · exact h.of_recv _ _
  | busDeal program =>
      cases program with
      | done ret =>
          dsimp only
          split_ifs
          · exact h.of_main _ _
          · exact h.of_main _ _
      | call op next => exact h.call outcome .busDeal op next
  | loaderRecv =>
      dsimp only
      split
      · exact h.of_main _ _
      · next rsp later hqueue =>
          have hret : rsp.ret = 0 := by
            apply h.waiting
            rw [hqueue]
            exact List.mem_cons_self
          rw [if_neg (by simp [hret])]
          exact h.loaderRecv _ hqueue
  | loaderDeal program =>
      cases program with
      | done ret =>
          dsimp only
          split_ifs
          · exact h.of_main _ _
          · exact h.of_main _ _
      | call op next => exact h.call outcome .loaderDeal op next
  | checkValid => exact h.of_main _ _
  | removeInValid users =>
      cases users with
      | nil => exact h.of_main _ _
      | cons userID later => exact h.of_main _ _

theorem loaderStep
    (h : loading.Conserved) {query : LoadQuery} {ret : ℤ}
    (hsupplied : loading.Supplied (.loader query ret))
    (hfirst : loading.FirstLoad (.loader query ret)) :
    (loading.loaderStep query ret).Conserved := by
  obtain ⟨hret, hsupplied⟩ := hsupplied
  simp only [FirstLoad] at hfirst
  unfold Loading.loaderStep
  cases hloader : loading.loader with
  | idle =>
      have hsent := h.sent
      rw [pending, hloader] at hsent
      dsimp only
      split
      · exact h
      · next req later hqueue =>
          rw [hqueue] at hsent
          refine ⟨?_, h.answered, h.succeeded, h.waiting, ?_, ?_⟩
          · simpa [pending] using hsent
          · intro req info hcase
            cases hcase
          · intro req result hcase
            cases hcase
  | query req =>
      have hsent := h.sent
      rw [pending, hloader] at hsent
      rw [hloader] at hsupplied
      cases query with
      | record info =>
          refine ⟨hsent, h.answered, h.succeeded, h.waiting, ?_, ?_⟩
          · intro other stored hcase
            cases hcase
            exact (show info.userID = req.userid ∧ info.userID ≠ 0 from
              hsupplied).2
          · intro other result hcase
            cases hcase
      | failed => exact hsupplied.elim
      | recNum number => exact hsupplied.elim
      | empty => exact hsupplied.elim
      | unparsable => exact hsupplied.elim
  | insert req info =>
      have hsent := h.sent
      rw [pending, hloader] at hsent
      rw [hloader] at hsupplied hfirst
      have hinserted := insertUserInfo_of_absent
        (h.inserting req info hloader) hfirst hsupplied
      dsimp only
      rw [hinserted]
      refine ⟨hsent, h.answered, h.succeeded, h.waiting, ?_, ?_⟩
      · intro other stored hcase
        cases hcase
      · intro other result hcase
        exact (LoaderPc.reply.inj hcase).2.symm
  | reply req result =>
      have hsent := h.sent
      rw [pending, hloader] at hsent
      have hresult := h.replying req result hloader
      dsimp only
      rw [if_pos hret]
      refine ⟨?_, ?_, ?_, ?_, ?_, ?_⟩
      · simpa [pending] using hsent
      · simp [h.answered]
      · intro entry hentry
        rw [List.mem_append, List.mem_singleton] at hentry
        obtain hold | rfl := hentry
        · exact h.succeeded entry hold
        · exact hresult
      · intro rsp hrsp
        rw [List.mem_append, List.mem_singleton] at hrsp
        obtain hold | rfl := hrsp
        · exact h.waiting rsp hold
        · exact hresult
      · intro other stored hcase
        cases hcase
      · intro other result hcase
        cases hcase

theorem keep
    (h : loading.Conserved) {action : Action}
    (hsupplied : loading.Supplied action)
    (hfirst : loading.FirstLoad action) :
    (step parsers serverID loading action).Conserved := by
  cases action with
  | arrive request =>
      exact ⟨h.sent, h.answered, h.succeeded, h.waiting, h.inserting,
        h.replying⟩
  | main outcome vctUserID => exact h.mainStep outcome vctUserID
  | loader query ret => exact h.loaderStep hsupplied hfirst

end Conserved

/-! ## Requests that do not fail -/

/-- The body of a request is what its command asks for. -/
def Parsable (parsers : ClientParsers) (request : Request) : Prop :=
  (request.header.cmdID = cmdUserRegisterReq →
      parseUserRegisterReq parsers request.payload ≠ none) ∧
    (request.header.cmdID = cmdUserAddFriendReq →
      parseAddFriendReq parsers request.payload ≠ none) ∧
    (request.header.cmdID = cmdUserAddFriendReq2 →
      parseUserAddFriendReq parsers request.payload ≠ none)

/-- `DealPkg` will return 0 if the queues have room and the users who are known
to be in the map stay there. -/
def Succeeds : (UInt64 → Prop) → Deal ℤ → Prop
  | _, .done ret => ret = 0
  | known, .call .time next => ∀ now, Succeeds known (next now)
  | known, .call (.insertUserInfo _) next =>
      ∀ ret, Succeeds known (next ret)
  | known, .call (.getUserInfo userID) next =>
      (∀ info, Succeeds (fun other => other = userID ∨ known other)
        (next (some info))) ∧
        (¬ known userID → Succeeds known (next none))
  | known, .call (.addFriendReq _ otherUserID _) next =>
      known otherUserID ∧ Succeeds known (next 0)
  | known, .call (.loaderSend _) next => Succeeds known (next 0)
  | known, .call (.writerSend _) next => Succeeds known (next 0)
  | known, .call (.send _) next => Succeeds known (next 0)

section Succeeds

variable {parsers : ClientParsers} {serverID : UInt32} {request : Request}

theorem answerFriend_succeeds
    {known : UInt64 → Prop} {otherUserID : UInt64} (hknown : known otherUserID)
    (headerIn : XYHeaderIn) (userID : UInt64) (strNickName : Text) :
    Succeeds known
      (answerFriend serverID headerIn userID otherUserID strNickName) :=
  ⟨hknown, fun _ => rfl⟩

theorem dealPkg_succeeds (hparsable : Parsable parsers request) :
    Succeeds (fun _ => False) (dealPkg parsers serverID request) := by
  obtain ⟨hregister, haddFriend, haddFriend2⟩ := hparsable
  unfold dealPkg
  split_ifs with hcmd hcmd hcmd
  · obtain ⟨req, hreq⟩ := Option.ne_none_iff_exists'.mp (hregister hcmd)
    rw [dealRegister, hreq]
    exact fun _ _ _ => rfl
  · obtain ⟨other, hother⟩ := Option.ne_none_iff_exists'.mp (haddFriend hcmd)
    rw [dealAddFriend, hother]
    refine ⟨fun _ => ⟨fun info => ?_, fun hunknown => ?_⟩, fun _ => rfl⟩
    · -- the user is there: on to the friend, on this server or another one
      change Succeeds _ (if getUserServer other = serverID then _ else _)
      split_ifs
      · refine ⟨fun _ => ?_, fun _ => rfl⟩
        exact answerFriend_succeeds (Or.inl rfl) _ _ _
      · exact fun _ => rfl
    · exact absurd (Or.inl rfl) hunknown
  · obtain ⟨req, hreq⟩ := Option.ne_none_iff_exists'.mp (haddFriend2 hcmd)
    rw [dealAddFriend2, hreq]
    refine ⟨fun info => ?_, fun _ => rfl⟩
    exact answerFriend_succeeds (Or.inl rfl) _ _ _
  · rfl

/-- A call that is answered as it should be leaves a program that succeeds. -/
theorem Succeeds.answer
    {known : UInt64 → Prop} {op : Op} {next : op.Answer → Deal ℤ}
    (h : Succeeds known (.call op next)) {users : UserMap}
    {outcome : Outcome} (hret : outcome.ret = 0)
    (hknown : ∀ userID, known userID → users.get userID ≠ none) :
    ∃ known', (∀ userID, known' userID → users.get userID ≠ none) ∧
      Succeeds known' (next (op.answer users outcome).1) := by
  cases op with
  | time => exact ⟨known, hknown, h outcome.now⟩
  | insertUserInfo info => exact ⟨known, hknown, h _⟩
  | getUserInfo userID =>
      simp only [Op.answer, getUserInfo_eq]
      cases hget : users.get userID with
      | none => exact ⟨known, hknown, h.2 fun huser => hknown userID huser hget⟩
      | some info =>
          refine ⟨fun other => other = userID ∨ known other, ?_, h.1 info⟩
          rintro other (rfl | hother)
          · simp [hget]
          · exact hknown other hother
  | addFriendReq userID otherUserID strNickName =>
      obtain ⟨info, hinfo⟩ :=
        Option.ne_none_iff_exists'.mp (hknown otherUserID h.1)
      refine ⟨known, hknown, ?_⟩
      simp only [Op.answer, addFriendReq, hinfo]
      exact h.2
  | loaderSend req => exact ⟨known, hknown, by rw [Op.answer, hret]; exact h⟩
  | writerSend userID =>
      exact ⟨known, hknown, by rw [Op.answer, hret]; exact h⟩
  | send msg => exact ⟨known, hknown, by rw [Op.answer, hret]; exact h⟩

end Succeeds

/-! ## What the other process leaves alone -/

/-- The logs only grow. -/
structure Grows (before after : Loading) : Prop where
  sent : before.sent <+: after.sent
  answered : before.answered.length ≤ after.answered.length
  rerun : before.rerun.length ≤ after.rerun.length

theorem Grows.trans
    {first second third : Loading} (h : Grows first second)
    (h' : Grows second third) : Grows first third :=
  ⟨h.sent.trans h'.sent, h.answered.trans h'.answered,
    h.rerun.trans h'.rerun⟩

theorem Grows.of_logs
    {before after : Loading} (hsent : after.sent = before.sent)
    (hanswered : after.answered = before.answered)
    (hrerun : after.rerun = before.rerun) : Grows before after := by
  constructor
  · rw [hsent]
  · rw [hanswered]
  · rw [hrerun]

section Frame

variable {parsers : ClientParsers} {serverID : UInt32} {loading : Loading}
  {action : Action}

/-- A step of the main loop leaves the loader where it is and lets its queue
grow. -/
theorem mainStep_frame (outcome : Outcome) (vctUserID : List UInt64) :
    Grows loading (loading.mainStep parsers serverID outcome vctUserID) ∧
      (loading.mainStep parsers serverID outcome vctUserID).loader =
        loading.loader ∧
      loading.loaderSendQueue <+:
        (loading.mainStep parsers serverID outcome
          vctUserID).loaderSendQueue := by
  have hcall (pc : Deal ℤ → MainPc) (op : Op) (next : op.Answer → Deal ℤ) :
      Grows loading (loading.call outcome pc op next) ∧
        (loading.call outcome pc op next).loader = loading.loader ∧
        loading.loaderSendQueue <+:
          (loading.call outcome pc op next).loaderSendQueue :=
    ⟨⟨List.prefix_append _ _, le_rfl, le_rfl⟩, rfl, List.prefix_append _ _⟩
  unfold mainStep
  split
  · split
    · exact ⟨.of_logs rfl rfl rfl, rfl, List.prefix_refl _⟩
    · exact ⟨.of_logs rfl rfl rfl, rfl, List.prefix_refl _⟩
  · split_ifs
    · exact ⟨.of_logs rfl rfl rfl, rfl, List.prefix_refl _⟩
    · exact ⟨.of_logs rfl rfl rfl, rfl, List.prefix_refl _⟩
  · exact hcall _ _ _
  · split
    · exact ⟨.of_logs rfl rfl rfl, rfl, List.prefix_refl _⟩
    · split_ifs
      · exact ⟨.of_logs rfl rfl rfl, rfl, List.prefix_refl _⟩
      · exact ⟨⟨List.prefix_refl _, le_rfl, by simp⟩, rfl,
          List.prefix_refl _⟩
  · split_ifs
    · exact ⟨.of_logs rfl rfl rfl, rfl, List.prefix_refl _⟩
    · exact ⟨.of_logs rfl rfl rfl, rfl, List.prefix_refl _⟩
  · exact hcall _ _ _
  · exact ⟨.of_logs rfl rfl rfl, rfl, List.prefix_refl _⟩
  · exact ⟨.of_logs rfl rfl rfl, rfl, List.prefix_refl _⟩
  · exact ⟨.of_logs rfl rfl rfl, rfl, List.prefix_refl _⟩

theorem insertUserInfo_present
    {users : UserMap} {info : ShmUserInfo} {userID : UInt64}
    (hpresent : users.get userID ≠ none) :
    (insertUserInfo users info).2.get userID ≠ none := by
  cases hget : users.get info.userID with
  | some stored => rwa [insertUserInfo_of_present hget]
  | none =>
      by_cases hid : info.userID = 0
      · rwa [insertUserInfo, if_pos hid]
      by_cases hroom : users.size < users.capacity
      · have hne : userID ≠ info.userID := fun heq =>
          hpresent (heq ▸ hget)
        rw [insertUserInfo_of_absent hid hget hroom]
        exact BoundedMap.get_put_of_ne hroom hne ▸ hpresent
      · rwa [insertUserInfo_of_full info hroom]

/-- A step of the loader leaves the main loop where it is and takes no user
out of the map. -/
theorem loaderStep_frame (query : LoadQuery) (ret : ℤ) :
    Grows loading (loading.loaderStep query ret) ∧
      (loading.loaderStep query ret).main = loading.main ∧
      ∀ userID, loading.users.get userID ≠ none →
        (loading.loaderStep query ret).users.get userID ≠ none := by
  unfold loaderStep
  split
  · split
    · exact ⟨.of_logs rfl rfl rfl, rfl, fun _ hpresent => hpresent⟩
    · exact ⟨.of_logs rfl rfl rfl, rfl, fun _ hpresent => hpresent⟩
  · split
    · exact ⟨.of_logs rfl rfl rfl, rfl, fun _ hpresent => hpresent⟩
    · exact ⟨.of_logs rfl rfl rfl, rfl, fun _ hpresent => hpresent⟩
  · exact ⟨.of_logs rfl rfl rfl, rfl, fun _ hpresent => insertUserInfo_present hpresent⟩
  · exact ⟨⟨List.prefix_refl _, by simp, le_rfl⟩, rfl,
      fun _ hpresent => hpresent⟩

theorem step_grows :
    Grows loading (step parsers serverID loading action) := by
  cases action with
  | arrive request => exact .of_logs rfl rfl rfl
  | main outcome vctUserID => exact (mainStep_frame _ _).1
  | loader query ret => exact (loaderStep_frame _ _).1

theorem main_of_not_isMain (haction : ¬ action.IsMain) :
    (step parsers serverID loading action).main = loading.main := by
  cases action with
  | arrive request => rfl
  | main outcome vctUserID => exact absurd trivial haction
  | loader query ret => exact (loaderStep_frame _ _).2.1

theorem present_of_not_isMain
    (haction : ¬ action.IsMain) {userID : UInt64}
    (hpresent : loading.users.get userID ≠ none) :
    (step parsers serverID loading action).users.get userID ≠ none := by
  cases action with
  | arrive request => exact hpresent
  | main outcome vctUserID => exact absurd trivial haction
  | loader query ret => exact (loaderStep_frame _ _).2.2 userID hpresent

theorem loader_of_not_isLoader (haction : ¬ action.IsLoader) :
    (step parsers serverID loading action).loader = loading.loader ∧
      loading.loaderSendQueue <+:
        (step parsers serverID loading action).loaderSendQueue := by
  cases action with
  | arrive request => exact ⟨rfl, List.prefix_refl _⟩
  | main outcome vctUserID => exact (mainStep_frame _ _).2
  | loader query ret => exact absurd trivial haction

theorem answer_present
    {users : UserMap} {outcome : Outcome} {userID : UInt64} (op : Op)
    (hpresent : users.get userID ≠ none) :
    (op.answer users outcome).2.get userID ≠ none := by
  cases op with
  | insertUserInfo info => exact insertUserInfo_present hpresent
  | addFriendReq user otherUserID strNickName =>
      simp only [Op.answer, addFriendReq]
      split
      · exact hpresent
      · by_cases hother : userID = otherUserID
        · subst hother
          dsimp only
          rw [BoundedMap.get_modify_self]
          simpa using hpresent
        · dsimp only
          rwa [BoundedMap.get_modify_of_ne _ hother]
  | time => exact hpresent
  | getUserInfo user => exact hpresent
  | loaderSend req => exact hpresent
  | writerSend user => exact hpresent
  | send msg => exact hpresent

end Frame

/-! ## Every request is run again at last -/

section Progress

variable {parsers : ClientParsers} {serverID : UInt32} {users : UserMap}
  {actions : ℕ → Action}

/-- The states of a run. -/
def run (parsers : ClientParsers) (serverID : UInt32) (users : UserMap)
    (actions : ℕ → Action) : ℕ → Loading :=
  Transition.path (step parsers serverID) (start users) actions

theorem run_grows {n m : ℕ} (hle : n ≤ m) :
    Grows (run parsers serverID users actions n)
      (run parsers serverID users actions m) :=
  Transition.path_grows Grows (fun _ => .of_logs rfl rfl rfl)
    (fun _ _ _ => Grows.trans) (fun _ _ => step_grows) hle

section Main

variable (hfair : ∀ n, ∃ m, n ≤ m ∧ (actions m).IsMain)
include hfair

/-- The next step of the main loop, which finds the loop where it was and the
users that are known to be in the map still there. -/
theorem exists_main_step
    (parsers : ClientParsers) (serverID : UInt32) (users : UserMap) (n : ℕ)
    (known : UInt64 → Prop)
    (hknown : ∀ userID, known userID →
      (run parsers serverID users actions n).users.get userID ≠ none) :
    ∃ m outcome vctUserID, n ≤ m ∧ actions m = .main outcome vctUserID ∧
      (run parsers serverID users actions m).main =
        (run parsers serverID users actions n).main ∧
      ∀ userID, known userID →
        (run parsers serverID users actions m).users.get userID ≠ none := by
  obtain ⟨m, hle, hown, hmain, hpresent⟩ :=
    Transition.exists_next_step (step parsers serverID) (start users) hfair
      (fun loading => loading.main =
          (run parsers serverID users actions n).main ∧
        ∀ userID, known userID → loading.users.get userID ≠ none)
      (fun loading action haction hkept =>
        ⟨(main_of_not_isMain haction).trans hkept.1, fun userID huser =>
          present_of_not_isMain haction (hkept.2 userID huser)⟩)
      ⟨rfl, hknown⟩
  cases haction : actions m with
  | main outcome vctUserID =>
      exact ⟨m, outcome, vctUserID, hle, haction, hmain, hpresent⟩
  | arrive request =>
      rw [haction] at hown
      exact hown.elim
  | loader query ret =>
      rw [haction] at hown
      exact hown.elim

/-- The state before the next step of the main loop, and the one after it. -/
theorem exists_mainStep
    (parsers : ClientParsers) (serverID : UInt32) (users : UserMap)
    (n : ℕ) :
    ∃ m outcome vctUserID, n ≤ m ∧
      (run parsers serverID users actions m).main =
        (run parsers serverID users actions n).main ∧
      run parsers serverID users actions (m + 1) =
        (run parsers serverID users actions m).mainStep parsers serverID
          outcome vctUserID := by
  obtain ⟨m, outcome, vctUserID, hle, haction, hsame, -⟩ :=
    exists_main_step hfair parsers serverID users n (fun _ => False) (by simp)
  refine ⟨m, outcome, vctUserID, hle, hsame, ?_⟩
  rw [run, Transition.path, haction]
  rfl

/-- A request from the bus that succeeds leads to the loader's queue. -/
theorem busDeal_leads_to_loaderRecv
    (hroom : ∀ n, Supplied (run parsers serverID users actions n)
      (actions n))
    {program : Deal ℤ} (known : UInt64 → Prop) {n : ℕ}
    (hmain : (run parsers serverID users actions n).main = .busDeal program)
    (hknown : ∀ userID, known userID →
      (run parsers serverID users actions n).users.get userID ≠ none)
    (hsucceeds : Succeeds known program) :
    ∃ m, n ≤ m ∧ (run parsers serverID users actions m).main =
      .loaderRecv := by
  induction program generalizing known n with
  | done ret =>
      obtain ⟨m, outcome, vctUserID, hle, hsame, hstep⟩ :=
        exists_mainStep hfair parsers serverID users n
      refine ⟨m + 1, by omega, ?_⟩
      have hret : ret = 0 := hsucceeds
      rw [hstep]
      simp [mainStep, hsame, hmain, hret]
  | call op next ih =>
      obtain ⟨m, outcome, vctUserID, hle, haction, hsame, hpresent⟩ :=
        exists_main_step hfair parsers serverID users n known hknown
      have hret : outcome.ret = 0 := by
        have hsupplied := hroom m
        rw [haction] at hsupplied
        exact hsupplied
      obtain ⟨known', hknown', hnext⟩ := hsucceeds.answer hret hpresent
      have hstep : run parsers serverID users actions (m + 1) =
          (run parsers serverID users actions m).call outcome .busDeal op
            next := by
        rw [run, Transition.path, haction]
        change mainStep _ _ _ _ _ = _
        unfold mainStep
        rw [← run, hsame, hmain]
      obtain ⟨later, hlater, hdone⟩ := ih _ known' (n := m + 1)
        (by rw [hstep]; rfl)
        (fun userID huser => by
          rw [hstep]
          exact answer_present op (hknown' userID huser)) hnext
      exact ⟨later, by omega, hdone⟩

theorem deal_ends
    {pc : Deal ℤ → MainPc} (hpc : pc = .busDeal ∨ pc = .loaderDeal)
    {program : Deal ℤ} {n : ℕ}
    (hmain : (run parsers serverID users actions n).main = pc program) :
    ∃ m ret, n ≤ m ∧
      (run parsers serverID users actions m).main = pc (.done ret) := by
  induction program generalizing n with
  | done ret => exact ⟨n, ret, le_rfl, hmain⟩
  | call op next ih =>
      obtain ⟨m, outcome, vctUserID, hle, hsame, hstep⟩ :=
        exists_mainStep hfair parsers serverID users n
      have hcall : run parsers serverID users actions (m + 1) =
          (run parsers serverID users actions m).call outcome pc op
            next := by
        rw [hstep]
        obtain rfl | rfl := hpc
        · simp [mainStep, hsame, hmain]
        · simp [mainStep, hsame, hmain]
      obtain ⟨later, ret, hlater, hdone⟩ := ih _ (n := m + 1)
        (by rw [hcall]; rfl)
      exact ⟨later, ret, by omega, hdone⟩

theorem recv_leads_to_loaderRecv
    (hroom : ∀ n, Supplied (run parsers serverID users actions n)
      (actions n))
    {n : ℕ}
    (hparsable : ∀ m, n ≤ m →
      ∀ request ∈ (run parsers serverID users actions m).recvQueue,
        Parsable parsers request)
    (hmain : (run parsers serverID users actions n).main = .recv) :
    ∃ m, n ≤ m ∧ (run parsers serverID users actions m).main =
      .loaderRecv := by
  obtain ⟨m, outcome, vctUserID, hle, hsame, hstep⟩ :=
    exists_mainStep hfair parsers serverID users n
  simp only [mainStep, hsame, hmain] at hstep
  cases hqueue : (run parsers serverID users actions m).recvQueue with
  | nil =>
      rw [hqueue] at hstep
      exact ⟨m + 1, by omega, by rw [hstep]⟩
  | cons request later =>
      rw [hqueue] at hstep
      have hrequest : Parsable parsers request := by
        apply hparsable m hle
        rw [hqueue]
        exact List.mem_cons_self
      obtain ⟨last, hlast, hdone⟩ := busDeal_leads_to_loaderRecv hfair hroom
        (fun _ => False) (n := m + 1) (by rw [hstep]) (by simp)
        (dealPkg_succeeds hrequest)
      exact ⟨last, by omega, hdone⟩

theorem removeInValid_leads_to_recv
    {vctUserID : List UInt64} {n : ℕ}
    (hmain : (run parsers serverID users actions n).main =
      .removeInValid vctUserID) :
    ∃ m, n ≤ m ∧ (run parsers serverID users actions m).main = .recv := by
  induction vctUserID generalizing n with
  | nil =>
      obtain ⟨m, outcome, found, hle, hsame, hstep⟩ :=
        exists_mainStep hfair parsers serverID users n
      refine ⟨m + 1, by omega, ?_⟩
      rw [hstep]
      simp [mainStep, hsame, hmain]
  | cons userID later ih =>
      obtain ⟨m, outcome, found, hle, hsame, hstep⟩ :=
        exists_mainStep hfair parsers serverID users n
      have hnext : (run parsers serverID users actions (m + 1)).main =
          .removeInValid later := by
        rw [hstep]
        simp [mainStep, hsame, hmain]
      obtain ⟨last, hlast, hrecv⟩ := ih hnext
      exact ⟨last, by omega, hrecv⟩

/-- A request that has been dealt with leads back to the top or on to the
loader's queue. -/
theorem busDeal_leads_on
    {program : Deal ℤ} {n : ℕ}
    (hmain : (run parsers serverID users actions n).main =
      .busDeal program) :
    ∃ m, n ≤ m ∧
      ((run parsers serverID users actions m).main = .recv ∨
        (run parsers serverID users actions m).main = .loaderRecv) := by
  obtain ⟨first, ret, hfirst, hdone⟩ := deal_ends hfair (Or.inl rfl) hmain
  obtain ⟨m, outcome, found, hle, hsame, hstep⟩ :=
    exists_mainStep hfair parsers serverID users first
  refine ⟨m + 1, by omega, ?_⟩
  rw [hstep]
  by_cases hret : ret = 0
  · right
    simp [mainStep, hsame, hdone, hret]
  · left
    simp [mainStep, hsame, hdone, hret]

/-- From everywhere behind the loader's queue the loop comes to the top. -/
theorem leads_to_recv
    {n : ℕ}
    (hmain : (∃ program, (run parsers serverID users actions n).main =
        .loaderDeal program) ∨
      (run parsers serverID users actions n).main = .checkValid ∨
      ∃ vctUserID, (run parsers serverID users actions n).main =
        .removeInValid vctUserID) :
    ∃ m, n ≤ m ∧ (run parsers serverID users actions m).main = .recv := by
  have hcheck {n : ℕ}
      (hmain : (run parsers serverID users actions n).main = .checkValid) :
      ∃ m, n ≤ m ∧ (run parsers serverID users actions m).main = .recv := by
    obtain ⟨m, outcome, found, hle, hsame, hstep⟩ :=
      exists_mainStep hfair parsers serverID users n
    have hnext : (run parsers serverID users actions (m + 1)).main =
        .removeInValid found := by
      rw [hstep]
      simp [mainStep, hsame, hmain]
    obtain ⟨last, hlast, hrecv⟩ := removeInValid_leads_to_recv hfair hnext
    exact ⟨last, by omega, hrecv⟩
  obtain ⟨program, hdeal⟩ | hvalid | ⟨vctUserID, hremove⟩ := hmain
  · obtain ⟨first, ret, hfirst, hdone⟩ := deal_ends hfair (Or.inr rfl) hdeal
    obtain ⟨m, outcome, found, hle, hsame, hstep⟩ :=
      exists_mainStep hfair parsers serverID users first
    by_cases hret : ret = 0
    · have hnext : (run parsers serverID users actions (m + 1)).main =
          .checkValid := by
        rw [hstep]
        simp [mainStep, hsame, hdone, hret]
      obtain ⟨last, hlast, hrecv⟩ := hcheck hnext
      exact ⟨last, by omega, hrecv⟩
    · refine ⟨m + 1, by omega, ?_⟩
      rw [hstep]
      simp [mainStep, hsame, hdone, hret]
  · exact hcheck hvalid
  · exact removeInValid_leads_to_recv hfair hremove

/-- The main loop comes to the loader's queue again and again. -/
theorem leads_to_loaderRecv
    (hroom : ∀ n, Supplied (run parsers serverID users actions n)
      (actions n))
    {n : ℕ}
    (hparsable : ∀ m, n ≤ m →
      ∀ request ∈ (run parsers serverID users actions m).recvQueue,
        Parsable parsers request) :
    ∃ m, n ≤ m ∧ (run parsers serverID users actions m).main =
      .loaderRecv := by
  have hrecv {first : ℕ} (hfirst : n ≤ first)
      (hmain : (run parsers serverID users actions first).main = .recv) :
      ∃ m, n ≤ m ∧ (run parsers serverID users actions m).main =
        .loaderRecv := by
    obtain ⟨m, hle, hdone⟩ := recv_leads_to_loaderRecv hfair hroom
      (fun m hm => hparsable m (hfirst.trans hm)) hmain
    exact ⟨m, hfirst.trans hle, hdone⟩
  cases hmain : (run parsers serverID users actions n).main with
  | recv => exact hrecv le_rfl hmain
  | busDeal program =>
      obtain ⟨m, hle, htop | hdone⟩ := busDeal_leads_on hfair hmain
      · exact hrecv hle htop
      · exact ⟨m, hle, hdone⟩
  | loaderRecv => exact ⟨n, le_rfl, hmain⟩
  | loaderDeal program =>
      obtain ⟨m, hle, htop⟩ := leads_to_recv hfair (Or.inl ⟨_, hmain⟩)
      exact hrecv hle htop
  | checkValid =>
      obtain ⟨m, hle, htop⟩ := leads_to_recv hfair (Or.inr (Or.inl hmain))
      exact hrecv hle htop
  | removeInValid vctUserID =>
      obtain ⟨m, hle, htop⟩ :=
        leads_to_recv hfair (Or.inr (Or.inr ⟨_, hmain⟩))
      exact hrecv hle htop

theorem answered_leads_to_rerun
    (hroom : ∀ n, Supplied (run parsers serverID users actions n)
      (actions n))
    (hconserved : ∀ n, (run parsers serverID users actions n).Conserved)
    {n k : ℕ}
    (hparsable : ∀ m, n ≤ m →
      ∀ request ∈ (run parsers serverID users actions m).recvQueue,
        Parsable parsers request)
    (hk : k < (run parsers serverID users actions n).answered.length) :
    ∃ m, k < (run parsers serverID users actions m).rerun.length := by
  -- each visit to the loader's queue uses one answer
  induction hleft : k + 1 -
      (run parsers serverID users actions n).rerun.length
      using Nat.strong_induction_on generalizing n with
  | _ left ih =>
      obtain ⟨first, hfirst, hqueue⟩ :=
        leads_to_loaderRecv hfair hroom hparsable
      obtain ⟨m, outcome, found, hle, hsame, hstep⟩ :=
        exists_mainStep hfair parsers serverID users first
      have hgrows : Grows (run parsers serverID users actions n)
          (run parsers serverID users actions m) :=
        run_grows (hfirst.trans hle)
      have hrerun := hgrows.rerun
      have hanswered := hgrows.answered
      by_cases hdone :
          k < (run parsers serverID users actions m).rerun.length
      · exact ⟨m, hdone⟩
      have hlengths := congrArg List.length (hconserved m).answered
      simp only [List.length_map, List.length_append] at hlengths
      have hmore : (run parsers serverID users actions (m + 1)).rerun.length =
          (run parsers serverID users actions m).rerun.length + 1 := by
        rw [hstep]
        simp only [mainStep, hsame, hqueue]
        cases hrecv :
            (run parsers serverID users actions m).loaderRecvQueue with
        | nil =>
            rw [hrecv, List.length_nil] at hlengths
            omega
        | cons rsp later =>
            have hret : rsp.ret = 0 := by
              apply (hconserved m).waiting
              rw [hrecv]
              exact List.mem_cons_self
            simp [hret]
      have hgrows' : Grows (run parsers serverID users actions m)
          (run parsers serverID users actions (m + 1)) :=
        run_grows (Nat.le_succ m)
      have hanswered' := hgrows'.answered
      apply ih _ _ (n := m + 1) _ _ rfl
      · omega
      · exact fun later hlater => hparsable later (by omega)
      · omega

end Main

section Loader

variable (hfair : ∀ n, ∃ m, n ≤ m ∧ (actions m).IsLoader)
include hfair

/-- The state before the next step of the loader, which finds the loader where
it was and nothing missing in its queue, and the state after it. -/
theorem exists_loaderStep
    (parsers : ClientParsers) (serverID : UInt32) (users : UserMap)
    (n : ℕ) :
    ∃ m query ret, n ≤ m ∧
      (run parsers serverID users actions m).loader =
        (run parsers serverID users actions n).loader ∧
      (run parsers serverID users actions n).loaderSendQueue <+:
        (run parsers serverID users actions m).loaderSendQueue ∧
      run parsers serverID users actions (m + 1) =
        (run parsers serverID users actions m).loaderStep query ret := by
  obtain ⟨m, hle, hown, hloader, hqueue⟩ :=
    Transition.exists_next_step (step parsers serverID) (start users) hfair
      (fun loading => loading.loader =
          (run parsers serverID users actions n).loader ∧
        (run parsers serverID users actions n).loaderSendQueue <+:
          loading.loaderSendQueue)
      (fun loading action haction hkept =>
        ⟨(loader_of_not_isLoader haction).1.trans hkept.1,
          hkept.2.trans (loader_of_not_isLoader haction).2⟩)
      ⟨rfl, List.prefix_refl _⟩
  cases haction : actions m with
  | loader query ret =>
      refine ⟨m, query, ret, hle, hloader, hqueue, ?_⟩
      rw [run, Transition.path, haction]
      rfl
  | arrive request =>
      rw [haction] at hown
      exact hown.elim
  | main outcome vctUserID =>
      rw [haction] at hown
      exact hown.elim

theorem pending_leads_to_answered
    {n : ℕ}
    (hpending : (run parsers serverID users actions n).pending ≠ []) :
    ∃ m, n ≤ m ∧ (run parsers serverID users actions n).answered.length <
      (run parsers serverID users actions m).answered.length := by
  have hreply {n : ℕ} {req : LoadUserInfoReq} {result : ℤ}
      (hloader : (run parsers serverID users actions n).loader =
        .reply req result) :
      ∃ m, n ≤ m ∧ (run parsers serverID users actions n).answered.length <
        (run parsers serverID users actions m).answered.length := by
    obtain ⟨m, query, ret, hle, hsame, -, hstep⟩ :=
      exists_loaderStep hfair parsers serverID users n
    have hgrows : Grows (run parsers serverID users actions n)
        (run parsers serverID users actions m) := run_grows hle
    have hanswered := hgrows.answered
    refine ⟨m + 1, by omega, ?_⟩
    rw [hstep]
    simp only [loaderStep, hsame, hloader, List.length_append,
      List.length_singleton]
    omega
  have hinsert {n : ℕ} {req : LoadUserInfoReq} {info : ShmUserInfo}
      (hloader : (run parsers serverID users actions n).loader =
        .insert req info) :
      ∃ m, n ≤ m ∧ (run parsers serverID users actions n).answered.length <
        (run parsers serverID users actions m).answered.length := by
    obtain ⟨m, query, ret, hle, hsame, -, hstep⟩ :=
      exists_loaderStep hfair parsers serverID users n
    have hgrows : Grows (run parsers serverID users actions n)
        (run parsers serverID users actions (m + 1)) :=
      run_grows (by omega)
    have hanswered := hgrows.answered
    have hnext : ∃ result, (run parsers serverID users actions
        (m + 1)).loader = .reply req result := by
      rw [hstep]
      simp only [loaderStep, hsame, hloader]
      exact ⟨_, rfl⟩
    obtain ⟨result, hnext⟩ := hnext
    obtain ⟨last, hlast, hmore⟩ := hreply hnext
    exact ⟨last, by omega, by omega⟩
  cases hloader : (run parsers serverID users actions n).loader with
  | idle =>
      rw [pending, hloader] at hpending
      exact absurd rfl hpending
  | query req =>
      obtain ⟨m, query, ret, hle, hsame, -, hstep⟩ :=
        exists_loaderStep hfair parsers serverID users n
      have hgrows : Grows (run parsers serverID users actions n)
          (run parsers serverID users actions (m + 1)) :=
        run_grows (by omega)
      have hanswered := hgrows.answered
      have hnext : (∃ info, (run parsers serverID users actions
            (m + 1)).loader = .insert req info) ∨
          ∃ result, (run parsers serverID users actions
            (m + 1)).loader = .reply req result := by
        rw [hstep]
        simp only [loaderStep, hsame, hloader]
        cases query with
        | record info => exact Or.inl ⟨info, rfl⟩
        | failed => exact Or.inr ⟨-1, rfl⟩
        | recNum number => exact Or.inr ⟨-1, rfl⟩
        | empty => exact Or.inr ⟨-1, rfl⟩
        | unparsable => exact Or.inr ⟨-1, rfl⟩
      obtain ⟨info, hnext⟩ | ⟨result, hnext⟩ := hnext
      · obtain ⟨last, hlast, hmore⟩ := hinsert hnext
        exact ⟨last, by omega, by omega⟩
      · obtain ⟨last, hlast, hmore⟩ := hreply hnext
        exact ⟨last, by omega, by omega⟩
  | insert req info => exact hinsert hloader
  | reply req result => exact hreply hloader

theorem sent_leads_to_answered
    (hconserved : ∀ n, (run parsers serverID users actions n).Conserved)
    {n k : ℕ}
    (hk : k < (run parsers serverID users actions n).sent.length) :
    ∃ m, n ≤ m ∧
      k < (run parsers serverID users actions m).answered.length := by
  induction hleft : k + 1 -
      (run parsers serverID users actions n).answered.length
      using Nat.strong_induction_on generalizing n with
  | _ left ih =>
      by_cases hdone :
          k < (run parsers serverID users actions n).answered.length
      · exact ⟨n, le_rfl, hdone⟩
      have hmore : ∃ m, n ≤ m ∧
          (run parsers serverID users actions n).answered.length <
            (run parsers serverID users actions m).answered.length := by
        by_cases hpending :
            (run parsers serverID users actions n).pending = []
        · -- an idle loader takes the request at the front of its queue
          have hlengths := congrArg List.length (hconserved n).sent
          rw [hpending] at hlengths
          simp only [List.length_append, List.length_map,
            List.length_nil] at hlengths
          have hidle : (run parsers serverID users actions n).loader =
              .idle := by
            unfold pending at hpending
            split at hpending
            · assumption
            all_goals simp at hpending
          obtain ⟨m, query, ret, hle, hsame, hfront, hstep⟩ :=
            exists_loaderStep hfair parsers serverID users n
          have hgrows : Grows (run parsers serverID users actions n)
              (run parsers serverID users actions (m + 1)) :=
            run_grows (by omega)
          have hanswered := hgrows.answered
          have hbusy : (run parsers serverID users actions
              (m + 1)).pending ≠ [] := by
            have hqueue := hfront.length_le
            rw [hstep]
            simp only [loaderStep, hsame, hidle]
            cases hsend :
                (run parsers serverID users actions m).loaderSendQueue with
            | nil =>
                rw [hsend, List.length_nil] at hqueue
                omega
            | cons req later => simp [pending]
          obtain ⟨last, hlast, hmore⟩ :=
            pending_leads_to_answered hfair hbusy
          exact ⟨last, by omega, by omega⟩
        · exact pending_leads_to_answered hfair hpending
      obtain ⟨m, hle, hmore⟩ := hmore
      have hgrows : Grows (run parsers serverID users actions n)
          (run parsers serverID users actions m) := run_grows hle
      obtain ⟨last, hlast, hdone⟩ := ih _ (by omega) (n := m)
        (hk.trans_le hgrows.sent.length_le) rfl
      exact ⟨last, by omega, hdone⟩

end Loader

end Progress

/-- The request run again as the `k`-th one is the `k`-th one sent. -/
theorem Conserved.rerun_eq
    {loading : Loading} (h : loading.Conserved) {k : ℕ}
    (hk : k < loading.rerun.length) :
    loading.rerun[k]? = loading.sent[k]?.map LoadUserInfoReq.request := by
  have hlengths := congrArg List.length h.answered
  simp only [List.length_map, List.length_append] at hlengths
  calc
    loading.rerun[k]? =
        (loading.rerun ++ loading.loaderRecvQueue.map
          LoadUserInfoRsp.request)[k]? :=
      (List.getElem?_append_left hk).symm
    _ = (loading.answered.map fun entry => entry.1.request)[k]? := by
      rw [h.answered]
    _ = (loading.answered.map Prod.fst)[k]?.map LoadUserInfoReq.request := by
      simp only [List.getElem?_map, Option.map_map]
      rfl
    _ = loading.sent[k]?.map LoadUserInfoReq.request := by
      rw [h.sent, List.append_assoc, List.getElem?_append_left]
      rw [List.length_map]
      omega

/-- With a valid record of every user, enough nodes and queue space, and as long
as the loader never inserts a user who is there already: every load is answered
with 0, and every request that was sent to the loader is run again, if in the
end the requests waiting on the bus can be parsed. -/
theorem load_on_miss_loses_no_request
    (parsers : ClientParsers) (serverID : UInt32) (users : UserMap)
    (actions : ℕ → Action)
    (hmain : ∀ n, ∃ m, n ≤ m ∧ (actions m).IsMain)
    (hloader : ∀ n, ∃ m, n ≤ m ∧ (actions m).IsLoader)
    (hsupplied : ∀ n, Supplied (run parsers serverID users actions n)
      (actions n))
    (hfirst : ∀ n, FirstLoad (run parsers serverID users actions n)
      (actions n))
    (hparsable : ∃ n, ∀ m, n ≤ m →
      ∀ request ∈ (run parsers serverID users actions m).recvQueue,
        Parsable parsers request) :
    (∀ n, ∀ entry ∈ (run parsers serverID users actions n).answered,
      entry.2 = 0) ∧
      ∀ (n k : ℕ) (req : LoadUserInfoReq),
        (run parsers serverID users actions n).sent[k]? = some req →
        ∃ m, (run parsers serverID users actions m).rerun[k]? =
          some req.request := by
  have hconserved (n : ℕ) :
      (run parsers serverID users actions n).Conserved := by
    apply Transition.path_invariant Conserved
    · exact ⟨rfl, rfl, by simp [start], by simp [start], by simp [start],
        by simp [start]⟩
    · exact fun n h => h.keep (hsupplied n) (hfirst n)
  refine ⟨fun n => (hconserved n).succeeded, ?_⟩
  intro n k req hsent
  obtain ⟨last, hlast⟩ := hparsable
  obtain ⟨hk, -⟩ := List.getElem?_eq_some_iff.mp hsent
  -- the request is answered, at the latest when the others can be parsed
  obtain ⟨first, hfirst, hanswered⟩ :=
    sent_leads_to_answered hloader hconserved hk
  have hgrows : Grows (run parsers serverID users actions first)
      (run parsers serverID users actions (max first last)) :=
    run_grows (le_max_left _ _)
  obtain ⟨m, hm⟩ := answered_leads_to_rerun hmain hsupplied hconserved
    (fun m hle => hlast m ((le_max_right first last).trans hle))
    (hanswered.trans_le hgrows.answered)
  refine ⟨max n m, ?_⟩
  have hrerun : Grows (run parsers serverID users actions m)
      (run parsers serverID users actions (max n m)) :=
    run_grows (le_max_right _ _)
  have hsame : Grows (run parsers serverID users actions n)
      (run parsers serverID users actions (max n m)) :=
    run_grows (le_max_left _ _)
  rw [(hconserved _).rerun_eq (hm.trans_le hrerun.rerun)]
  obtain ⟨more, hmore⟩ := hsame.sent
  rw [← hmore, List.getElem?_append_left hk, hsent]
  rfl

/-! ## Two runs -/

section Runs

/-- The main loop is between two requests, with nobody left to remove. -/
def isFree : MainPc → Bool
  | .recv => true
  | .loaderRecv => true
  | .checkValid => true
  | .removeInValid [] => true
  | _ => false

def isIdle : LoaderPc → Bool
  | .idle => true
  | _ => false

/-- Nothing is queued, loaded or dealt with. -/
def Idle (loading : Loading) : Prop :=
  loading.recvQueue = [] ∧ loading.loaderSendQueue = [] ∧
    loading.loaderRecvQueue = [] ∧ isIdle loading.loader = true ∧
    isFree loading.main = true

instance (loading : Loading) : Decidable (Idle loading) :=
  inferInstanceAs (Decidable (_ ∧ _ ∧ _ ∧ _ ∧ _))

theorem eq_idle {pc : LoaderPc} (hidle : isIdle pc = true) : pc = .idle := by
  cases pc with
  | idle => rfl
  | query req => cases hidle
  | insert req info => cases hidle
  | reply req result => cases hidle

/-- The two processes take turns and find nothing to do. -/
def turns (n : ℕ) : Action :=
  if n % 2 = 0 then .main ⟨0, 0, 0⟩ [] else .loader .failed 0

variable {parsers : ClientParsers} {serverID : UInt32} {loading : Loading}

theorem Idle.turns (h : loading.Idle) (n : ℕ) :
    (step parsers serverID loading (turns n)).Idle ∧
      (step parsers serverID loading (Loading.turns n)).rerun =
        loading.rerun := by
  obtain ⟨hrecv, hsend, hback, hloader, hmain⟩ := h
  unfold Loading.turns
  split_ifs
  · simp only [step, mainStep]
    cases hpc : loading.main with
    | recv => simp [Idle, hrecv, hsend, hback, hloader, isFree]
    | busDeal program => simp [hpc, isFree] at hmain
    | loaderRecv => simp [Idle, hrecv, hsend, hback, hloader, isFree]
    | loaderDeal program => simp [hpc, isFree] at hmain
    | checkValid => simp [Idle, hrecv, hsend, hback, hloader, isFree]
    | removeInValid vctUserID =>
        cases vctUserID with
        | nil => simp [Idle, hrecv, hsend, hback, hloader, isFree]
        | cons userID later => simp [hpc, isFree] at hmain
  · simp [step, loaderStep, Idle, eq_idle hloader, hrecv, hsend, hback,
      hmain, isIdle]

theorem Idle.path (h : loading.Idle) (n : ℕ) :
    (Transition.path (step parsers serverID) loading Loading.turns n).Idle ∧
      (Transition.path (step parsers serverID) loading
        Loading.turns n).rerun = loading.rerun := by
  induction n with
  | zero => exact ⟨h, rfl⟩
  | succ n ih =>
      exact ⟨(ih.1.turns n).1, (ih.1.turns n).2.trans ih.2⟩

/-- What the claims on the surroundings say of one step. -/
def Orderly (parsers : ClientParsers) (loading : Loading)
    (action : Action) : Prop :=
  Supplied loading action ∧
    ∀ request ∈ loading.recvQueue, Parsable parsers request

theorem Idle.orderly (h : loading.Idle) (n : ℕ) :
    Orderly parsers loading (Loading.turns n) ∧
      FirstLoad loading (Loading.turns n) := by
  obtain ⟨hrecv, -, -, hloader, -⟩ := h
  unfold Loading.turns
  split_ifs
  · simp [Orderly, Supplied, FirstLoad, hrecv]
  · simp [Orderly, Supplied, SuppliedLoader, FirstLoad, FirstInsert, hrecv,
      eq_idle hloader]

instance (users : UserMap) (pc : LoaderPc) (query : LoadQuery) :
    Decidable (SuppliedLoader users pc query) :=
  match pc, query with
  | .idle, _ => isTrue trivial
  | .query _, .record _ => inferInstanceAs (Decidable (_ ∧ _))
  | .query _, .failed => isFalse id
  | .query _, .recNum _ => isFalse id
  | .query _, .empty => isFalse id
  | .query _, .unparsable => isFalse id
  | .insert _ _, _ => inferInstanceAs (Decidable (_ < _))
  | .reply _ _, _ => isTrue trivial

instance (loading : Loading) (action : Action) :
    Decidable (Supplied loading action) :=
  match action with
  | .arrive _ => isTrue trivial
  | .main _ _ => inferInstanceAs (Decidable (_ = _))
  | .loader _ _ => inferInstanceAs (Decidable (_ ∧ _))

instance (users : UserMap) (pc : LoaderPc) :
    Decidable (FirstInsert users pc) :=
  match pc with
  | .idle => isTrue trivial
  | .query _ => isTrue trivial
  | .insert _ _ => decidable_of_iff _ Option.isNone_iff_eq_none
  | .reply _ _ => isTrue trivial

instance (loading : Loading) (action : Action) :
    Decidable (FirstLoad loading action) :=
  match action with
  | .arrive _ => isTrue trivial
  | .main _ _ => isTrue trivial
  | .loader _ _ => inferInstanceAs (Decidable (FirstInsert _ _))

instance (parsers : ClientParsers) (request : Request) :
    Decidable (Parsable parsers request) :=
  have hparse {α : Type} (parsed : Option α) : Decidable (parsed ≠ none) :=
    decidable_of_iff _ Option.isSome_iff_ne_none
  have := hparse (parseUserRegisterReq parsers request.payload)
  have := hparse (parseAddFriendReq parsers request.payload)
  have := hparse (parseUserAddFriendReq parsers request.payload)
  inferInstanceAs (Decidable (_ ∧ _ ∧ _))

instance (parsers : ClientParsers) (loading : Loading) (action : Action) :
    Decidable (Orderly parsers loading action) :=
  have : Decidable (∀ request ∈ loading.recvQueue,
      Parsable parsers request) := List.decidableBAll _ _
  inferInstanceAs (Decidable (_ ∧ _))

theorem follow_turns_isMain (front : List Action) (n : ℕ) :
    ∃ m, n ≤ m ∧ (Transition.follow front turns m).IsMain := by
  refine ⟨front.length + 2 * n, by omega, ?_⟩
  rw [Transition.follow_length_add]
  simp [turns, Action.IsMain]

theorem follow_turns_isLoader (front : List Action) (n : ℕ) :
    ∃ m, n ≤ m ∧ (Transition.follow front turns m).IsLoader := by
  refine ⟨front.length + (2 * n + 1), by omega, ?_⟩
  rw [Transition.follow_length_add]
  simp [turns, Action.IsLoader, Nat.add_mod]

/-- Parsers that know an `app::AddFriendReq` for user 108, who is on the other
server. -/
def oneFriend : ClientParsers :=
  { noClientParsers with
    addFriendReq := fun bytes => if bytes = [8, 108] then some 108 else none }

/-- A request of user 7 for user 108 as a friend. -/
def friendRequest : Request where
  header := ⟨101, cmdUserAddFriendReq, 1, 300001, 7, 5, 0⟩
  payload := .client [8, 108]

def userSeven : ShmUserInfo :=
  { (default : ShmUserInfo) with userID := 7 }

/-- The main loop goes on, with all it needs. -/
def goOn : Action := .main ⟨5, 5, 0⟩ []

/-- The loader goes on, and finds user 7 in the database. -/
def load : Action := .loader (.record userSeven) 0

/-- User 7 is loaded and the request is sent on to the other server. -/
def loadOnce : List Action :=
  [.arrive friendRequest, goOn, goOn, goOn, goOn, load, load, load, load,
    goOn, goOn, goOn, goOn, goOn, goOn]

/-- A second request comes before user 7 is loaded. -/
def loadTwice : List Action :=
  [.arrive friendRequest, .arrive friendRequest, goOn, goOn, goOn, goOn,
    goOn, goOn, goOn, goOn, goOn, goOn, goOn,
    load, load, load, load, load, load, load, load,
    goOn, goOn, goOn, goOn, goOn, goOn, goOn, goOn, goOn, goOn, goOn]

/-- One request for a user who is not in the map. -/
theorem load_on_miss_loses_no_request_once :
    ∃ actions : ℕ → Action,
      (run oneFriend 401 (BoundedMap.empty UInt64 ShmUserInfo 10) actions
        15).sent = [⟨7, friendRequest⟩] ∧
      (∀ n, ∀ entry ∈ (run oneFriend 401
          (BoundedMap.empty UInt64 ShmUserInfo 10) actions n).answered,
        entry.2 = 0) ∧
      ∀ (n k : ℕ) (req : LoadUserInfoReq),
        (run oneFriend 401 (BoundedMap.empty UInt64 ShmUserInfo 10) actions
          n).sent[k]? = some req →
        ∃ m, (run oneFriend 401 (BoundedMap.empty UInt64 ShmUserInfo 10)
          actions m).rerun[k]? = some req.request := by
  obtain ⟨final, hreplay, hfinal⟩ := Option.map_eq_some_iff.mp
    (show (Transition.replay
        (fun loading action => some (step oneFriend 401 loading action))
        (fun loading action => Orderly oneFriend loading action ∧
          FirstLoad loading action)
        (start (BoundedMap.empty UInt64 ShmUserInfo 10)) loadOnce).map
        (fun loading => (decide (Idle loading), loading.sent)) =
      some (true, [⟨7, friendRequest⟩]) by decide)
  obtain ⟨hidle, hsent⟩ := Prod.mk.inj hfinal
  rw [decide_eq_true_eq] at hidle
  have hallowed := Transition.allowed_of_replay hreplay
    fun n => (hidle.path n).1.orderly n
  have hlast : run oneFriend 401 (BoundedMap.empty UInt64 ShmUserInfo 10)
      (Transition.follow loadOnce turns) 15 = final :=
    Transition.path_of_replay hreplay 0
  refine ⟨Transition.follow loadOnce turns, by rw [hlast, hsent], ?_⟩
  exact load_on_miss_loses_no_request _ _ _ _
    (follow_turns_isMain loadOnce) (follow_turns_isLoader loadOnce)
    (fun n => (hallowed n).1.1) (fun n => (hallowed n).2)
    ⟨0, fun n _ => (hallowed n).1.2⟩

/-- Two requests for a user who is not in the map: the second load is answered
with -1, and the second request is never run again. -/
theorem second_load_lost :
    ∃ actions : ℕ → Action,
      (∀ n, ∃ m, n ≤ m ∧ (actions m).IsMain) ∧
      (∀ n, ∃ m, n ≤ m ∧ (actions m).IsLoader) ∧
      (∀ n, Orderly oneFriend (run oneFriend 401
        (BoundedMap.empty UInt64 ShmUserInfo 10) actions n) (actions n)) ∧
      (∃ n, (⟨7, friendRequest⟩, -1) ∈ (run oneFriend 401
        (BoundedMap.empty UInt64 ShmUserInfo 10) actions n).answered) ∧
      (∃ n, (run oneFriend 401 (BoundedMap.empty UInt64 ShmUserInfo 10)
        actions n).sent[1]? = some ⟨7, friendRequest⟩) ∧
      ∀ n, (run oneFriend 401 (BoundedMap.empty UInt64 ShmUserInfo 10)
        actions n).rerun[1]? = none := by
  obtain ⟨final, hreplay, hfinal⟩ := Option.map_eq_some_iff.mp
    (show (Transition.replay
        (fun loading action => some (step oneFriend 401 loading action))
        (Orderly oneFriend)
        (start (BoundedMap.empty UInt64 ShmUserInfo 10)) loadTwice).map
        (fun loading => (decide (Idle loading), loading.answered,
          loading.sent, loading.rerun)) =
      some (true, [(⟨7, friendRequest⟩, 0), (⟨7, friendRequest⟩, -1)],
        [⟨7, friendRequest⟩, ⟨7, friendRequest⟩], [friendRequest])
      by decide)
  simp only [Prod.mk.injEq, decide_eq_true_eq] at hfinal
  obtain ⟨hidle, hanswered, hsent, hrerun⟩ := hfinal
  have hallowed := Transition.allowed_of_replay hreplay
    fun n => ((hidle.path n).1.orderly n).1
  have hlater (n : ℕ) : run oneFriend 401
      (BoundedMap.empty UInt64 ShmUserInfo 10)
      (Transition.follow loadTwice turns) (loadTwice.length + n) =
        Transition.path (step oneFriend 401) final turns n :=
    Transition.path_of_replay hreplay n
  refine ⟨Transition.follow loadTwice turns,
    follow_turns_isMain loadTwice, follow_turns_isLoader loadTwice,
    hallowed, ⟨loadTwice.length + 0, ?_⟩, ⟨loadTwice.length + 0, ?_⟩, ?_⟩
  · rw [hlater, Transition.path, hanswered]
    exact List.mem_cons_of_mem _ (List.mem_singleton.mpr rfl)
  · rw [hlater, Transition.path, hsent]
    rfl
  · intro n
    have hgrows : Grows
        (run oneFriend 401 (BoundedMap.empty UInt64 ShmUserInfo 10)
          (Transition.follow loadTwice turns) n)
        (run oneFriend 401 (BoundedMap.empty UInt64 ShmUserInfo 10)
          (Transition.follow loadTwice turns) (loadTwice.length + n)) :=
      run_grows (Nat.le_add_left _ _)
    have hlong := hgrows.rerun
    rw [hlater, (hidle.path n).2, hrerun] at hlong
    exact List.getElem?_eq_none hlong

end Runs

end Loading

end MessageBus.User
