import MessageBus.UserModel

/-!
# The answer to a registration

`DealPkg` logs a failed `InsertUserInfo` and goes on: it queues the write to
the database and answers with `ret` 0 whether the record was stored or not.
-/

namespace MessageBus.User

open Bus
open Conn

/-- A program run while no other process touches the map: its calls with their
answers, and the map after them. -/
def runAlone {α : Type} :
    Deal α → (ℕ → Outcome) → UserMap →
      List ((op : Op) × op.Answer) × UserMap
  | .done _, _, users => ([], users)
  | .call op next, outcomes, users =>
      let (answer, after) := op.answer users (outcomes 0)
      let (calls, final) :=
        runAlone (next answer) (fun n => outcomes (n + 1)) after
      (⟨op, answer⟩ :: calls, final)

@[simp] theorem runAlone_call
    {α : Type} (op : Op) (next : op.Answer → Deal α) (outcomes : ℕ → Outcome)
    (users : UserMap) :
    runAlone (.call op next) outcomes users =
      (⟨op, (op.answer users (outcomes 0)).1⟩ ::
        (runAlone (next (op.answer users (outcomes 0)).1)
          (fun n => outcomes (n + 1)) (op.answer users (outcomes 0)).2).1,
      (runAlone (next (op.answer users (outcomes 0)).1)
          (fun n => outcomes (n + 1)) (op.answer users (outcomes 0)).2).2) :=
  rfl

/-- A `UserRegisterRsp` with `ret` 0 has been handed to the bus. -/
def Confirms (calls : List ((op : Op) × op.Answer)) : Prop :=
  ∃ msg userid, ⟨.send msg, (0 : ℤ)⟩ ∈ calls ∧
    msg.payload = .userRegisterRsp userid 0

/-- A write of the user has been handed to the writer. -/
def Queues (calls : List ((op : Op) × op.Answer)) (userID : UInt64) : Prop :=
  ⟨.writerSend userID, (0 : ℤ)⟩ ∈ calls

/-- The registration is confirmed and written only if it is stored. -/
def ConfirmedOnlyIfStored
    (parsers : ClientParsers) (serverID : UInt32) (outcomes : ℕ → Outcome)
    (users : UserMap) (request : Request) (req : UserRegisterReq) : Prop :=
  let (calls, after) :=
    runAlone (dealPkg parsers serverID request) outcomes users
  Confirms calls ∨ Queues calls req.userid →
    after.get req.userid = some (registered req (outcomes 0).now)

/-- `InsertUserInfo` leaves the record in the map when it stores it, or when it
was there. -/
theorem get_insertUserInfo_iff (users : UserMap) (info : ShmUserInfo) :
    (insertUserInfo users info).2.get info.userID = some info ↔
      users.get info.userID = some info ∨
        (info.userID ≠ 0 ∧ users.get info.userID = none ∧
          users.size < users.capacity) := by
  by_cases hid : info.userID = 0
  · simp [insertUserInfo, hid]
  cases hget : users.get info.userID with
  | some stored =>
      rw [insertUserInfo_of_present hget]
      simp [hget]
  | none =>
      by_cases hroom : users.size < users.capacity
      · rw [insertUserInfo_of_absent hid hget hroom]
        simp [hid, hroom]
      · rw [insertUserInfo_of_full info hroom]
        simp [hget, hroom]

section

variable {parsers : ClientParsers} {serverID : UInt32}
  {outcomes : ℕ → Outcome} {users : UserMap} {request : Request}
  {req : UserRegisterReq}

theorem runAlone_dealRegister
    (hparse : parseUserRegisterReq parsers request.payload = some req) :
    runAlone (dealRegister parsers serverID request) outcomes users =
      ([⟨.time, (outcomes 0).now⟩,
        ⟨.insertUserInfo (registered req (outcomes 0).now),
          (insertUserInfo users (registered req (outcomes 0).now)).1⟩,
        ⟨.writerSend req.userid, (outcomes 2).ret⟩,
        ⟨.time, (outcomes 3).now⟩,
        ⟨.send ⟨request.header.srcID, toSrv,
            answerHeader serverID cmdUserRegisterRsp request.header
              (outcomes 3).now,
            .userRegisterRsp req.userid 0⟩, (outcomes 4).ret⟩],
        (insertUserInfo users (registered req (outcomes 0).now)).2) := by
  -- what the queues return decides only what is logged
  have hreturn : ∀ (ret : ℤ) (later : ℤ → Deal ℤ) (rest : Deal ℤ),
      (∀ value, later value = rest) →
      ((if ret ≠ 0 then return -1 else return 0 : Deal ℤ) >>= later) = rest := by
    intro ret later rest hlater
    split_ifs
    · exact hlater (-1)
    · exact hlater 0
  have hwrite : ∀ (userID : UInt64) (rest : Deal ℤ),
      (writeUserInfo userID >>= fun _ => rest) =
        .call (.writerSend userID) fun _ => rest := by
    intro userID rest
    exact congrArg (Program.call (Op.writerSend userID))
      (funext fun ret => hreturn ret _ rest fun _ => rfl)
  have hsend : ∀ (header : XYHeaderIn) (dstID : UInt32) (sendType : UInt8)
      (payload : Payload) (rest : Deal ℤ),
      (send2Server header dstID sendType payload >>= fun _ => rest) =
        .call (.send ⟨dstID, sendType, header, payload⟩) fun _ => rest := by
    intro header dstID sendType payload rest
    exact congrArg
      (Program.call (Op.send ⟨dstID, sendType, header, payload⟩))
      (funext fun ret => hreturn ret _ rest fun _ => rfl)
  simp only [dealRegister, hparse, perform, Program.perform_bind, hwrite,
    hsend, runAlone_call, Op.answer]
  rfl

variable {ret answer : ℤ} {now later : UInt64} {write : ℤ} {header : XYHeaderIn}
  {dstID : UInt32} {userID : UInt64} {info : ShmUserInfo}

theorem confirms_iff :
    Confirms [⟨.time, now⟩, ⟨.insertUserInfo info, ret⟩,
      ⟨.writerSend userID, write⟩, ⟨.time, later⟩,
      ⟨.send ⟨dstID, toSrv, header, .userRegisterRsp userID 0⟩, answer⟩] ↔
      answer = 0 := by
  constructor
  · rintro ⟨msg, userid, hmem, -⟩
    simp only [List.mem_cons, List.not_mem_nil, or_false, Sigma.mk.injEq,
      reduceCtorEq, false_and, false_or] at hmem
    exact (eq_of_heq hmem.2).symm
  · rintro rfl
    exact ⟨⟨dstID, toSrv, header, .userRegisterRsp userID 0⟩, userID,
      by simp, rfl⟩

theorem queues_iff :
    Queues [⟨.time, now⟩, ⟨.insertUserInfo info, ret⟩,
      ⟨.writerSend userID, write⟩, ⟨.time, later⟩,
      ⟨.send ⟨dstID, toSrv, header, .userRegisterRsp userID 0⟩, answer⟩] userID ↔
      write = 0 := by
  simp only [Queues, List.mem_cons, List.not_mem_nil, or_false, Sigma.mk.injEq,
    reduceCtorEq, false_and, false_or, true_and, heq_eq_eq, eq_comm]

/-- A registration is confirmed and written only if it is stored exactly when
the map has no record of the user and room for one (or has this very record),
or when the queues take neither message. -/
theorem register_confirmed_iff
    (hcmd : request.header.cmdID = cmdUserRegisterReq)
    (hparse : parseUserRegisterReq parsers request.payload = some req) :
    ConfirmedOnlyIfStored parsers serverID outcomes users request req ↔
      users.get req.userid = some (registered req (outcomes 0).now) ∨
        (req.userid ≠ 0 ∧ users.get req.userid = none ∧
          users.size < users.capacity) ∨
        ((outcomes 2).ret ≠ 0 ∧ (outcomes 4).ret ≠ 0) := by
  have hstored :=
    get_insertUserInfo_iff users (registered req (outcomes 0).now)
  unfold ConfirmedOnlyIfStored dealPkg
  rw [if_pos hcmd, runAlone_dealRegister hparse]
  dsimp only
  rw [confirms_iff, queues_iff]
  constructor
  · intro hconfirmed
    by_cases hqueued : (outcomes 4).ret = 0 ∨ (outcomes 2).ret = 0
    · rcases hstored.mp (hconfirmed hqueued) with hsame | hroom
      · exact Or.inl hsame
      · exact Or.inr (Or.inl hroom)
    · obtain ⟨hsend, hwrite⟩ := not_or.mp hqueued
      exact Or.inr (Or.inr ⟨hwrite, hsend⟩)
  · rintro (hsame | hroom | ⟨hwrite, hsend⟩) hqueued
    · exact hstored.mpr (Or.inl hsame)
    · exact hstored.mpr (Or.inr hroom)
    · exact (hqueued.elim hsend hwrite).elim

end

/-! ## A full map -/

/-- The registration of user 5. -/
def registration : Request where
  header := ⟨300001, cmdUserRegisterReq, 1, 7, 0, 1700000000, 0⟩
  payload := .userRegisterReq ⟨5, [97], 1, 0, [], [], []⟩

/-- Queues that take everything. -/
def allTaken : ℕ → Outcome := fun _ => ⟨1700000000, 1700000000, 0⟩

theorem register_confirmed :
    ConfirmedOnlyIfStored noClientParsers 400002 allTaken
      (BoundedMap.empty UInt64 ShmUserInfo 1) registration
      ⟨5, [97], 1, 0, [], [], []⟩ :=
  (register_confirmed_iff rfl rfl).mpr
    (Or.inr (Or.inl ⟨by decide, BoundedMap.get_empty _ _,
      show 0 < 1 by decide⟩))

/-- A map without room. -/
theorem register_confirmed_unstored :
    ¬ ∀ (parsers : ClientParsers) (serverID : UInt32) (outcomes : ℕ → Outcome)
        (users : UserMap) (request : Request) (req : UserRegisterReq),
      request.header.cmdID = cmdUserRegisterReq →
      parseUserRegisterReq parsers request.payload = some req →
      ConfirmedOnlyIfStored parsers serverID outcomes users request req := by
  intro hall
  have hconfirmed := hall noClientParsers 400002 allTaken
    (BoundedMap.empty UInt64 ShmUserInfo 0) registration _ rfl rfl
  unfold ConfirmedOnlyIfStored dealPkg at hconfirmed
  rw [if_pos (show registration.header.cmdID = cmdUserRegisterReq from rfl),
    runAlone_dealRegister rfl] at hconfirmed
  have hfull : ¬ (BoundedMap.empty UInt64 ShmUserInfo 0).size <
      (BoundedMap.empty UInt64 ShmUserInfo 0).capacity := Nat.lt_irrefl 0
  have hstored := hconfirmed (Or.inl (confirms_iff.mpr rfl))
  rw [insertUserInfo_of_full _ hfull, BoundedMap.get_empty] at hstored
  cases hstored

end MessageBus.User
