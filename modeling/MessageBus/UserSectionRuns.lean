import MessageBus.UserSections

/-!
# The sections of `CUserShmApi` alone

Run without interruption, the body of every operation ends and does to the
shared map what the operation does in `UserModel`.
-/

namespace MessageBus.User

open Shared HashList HashList.CHashListNoLock Locked
open Conn

/-- The shared memory holds the map. -/
def Holds (maxUserNodeNum : ℕ) (memory : ShmMemory) (users : UserMap) : Prop :=
  Valid (view ShmRecord.info memory) maxUserNodeNum maxUserNodeNum users

/-! ## What an operation does -/

/-- The users among some entries that `MemFullCallBack` collects, given the
readings of the clock. -/
def expired : List (Σ _ : UInt64, ShmUserInfo) → List UInt64 → List UInt64
  | entry :: entries, nowTime :: readings =>
      if entry.2.lastActiveTime < nowTime - userInvalidTime then
        entry.1 :: expired entries readings
      else expired entries readings
  | _, _ => []

/-- The entries of a bucket, in the order of its chain. -/
def bucketEntries (maxUserNodeNum : ℕ) (users : UserMap) (iIndex : ℕ) :
    List (Σ _ : UInt64, ShmUserInfo) :=
  users.store.entries.filter fun entry =>
    hashVal maxUserNodeNum entry.1 = iIndex

/-- What an operation does to the map when it runs alone: the readings of the
clock it takes, its answer and the map it leaves. -/
inductive Effect (maxUserNodeNum : ℕ) (users : UserMap) (checkUserPos : ℕ) :
    ShmCall → List UInt64 → ShmAnswer → UserMap → Prop where
  | insertUserInfo (info : ShmRecord) :
      Effect maxUserNodeNum users checkUserPos (.insertUserInfo info) []
        (.ret (insertUserInfo users (ShmRecord.info info)).1)
        (insertUserInfo users (ShmRecord.info info)).2
  | removeUserInfo (userID : UInt64) :
      Effect maxUserNodeNum users checkUserPos (.removeUserInfo userID) []
        (.ret (removeUserInfo users userID).1) (removeUserInfo users userID).2
  | nothingToRemove {userID : UInt64} (hget : users.get userID = none) :
      Effect maxUserNodeNum users checkUserPos
        (.removeUserInfoWhenInValid userID) [] (.ret (-1)) users
  | removeUserInfoWhenInValid {userID : UInt64} {info : ShmUserInfo}
      (nowTime : UInt64) (hget : users.get userID = some info) :
      Effect maxUserNodeNum users checkUserPos
        (.removeUserInfoWhenInValid userID) [nowTime]
        (.ret (removeUserInfoWhenInValid users nowTime userID).1)
        (removeUserInfoWhenInValid users nowTime userID).2
  | getUserInfo {userID : UInt64} {info record : ShmRecord} {ret : ℤ}
      (hget : ret = 0 ∧
          getUserInfo users userID = some (ShmRecord.info record) ∨
        ret = -1 ∧ getUserInfo users userID = none ∧ record = info) :
      Effect maxUserNodeNum users checkUserPos (.getUserInfo userID info) []
        (.info ret record) users
  | updateUserInfo (newUserInfo : ShmRecord) :
      Effect maxUserNodeNum users checkUserPos (.updateUserInfo newUserInfo) []
        (.ret (updateUserInfo users (ShmRecord.info newUserInfo)).1)
        (updateUserInfo users (ShmRecord.info newUserInfo)).2
  | nobodyToAsk {userID otherUserID : UInt64} {strNickName : Text}
      (hget : users.get otherUserID = none) :
      Effect maxUserNodeNum users checkUserPos
        (.addFriendReq userID otherUserID strNickName) [] (.ret (-1)) users
  | addFriendReq {userID otherUserID : UInt64} {strNickName : Text}
      {info : ShmUserInfo} (requestTime lastActiveTime : UInt64)
      (hget : users.get otherUserID = some info) :
      Effect maxUserNodeNum users checkUserPos
        (.addFriendReq userID otherUserID strNickName)
        [requestTime, lastActiveTime]
        (.ret (addFriendReq users requestTime lastActiveTime userID otherUserID
          strNickName).1)
        (addFriendReq users requestTime lastActiveTime userID otherUserID
          strNickName).2
  | checkUserIsValid {vct readings : List UInt64}
      (hlength : readings.length =
        (bucketEntries maxUserNodeNum users checkUserPos).length) :
      Effect maxUserNodeNum users checkUserPos (.checkUserIsValid vct) readings
        (.vct 0 (vct ++
          expired (bucketEntries maxUserNodeNum users checkUserPos) readings))
        users

section Calls

variable {maxUserNodeNum : ℕ} {memory : ShmMemory} {users : UserMap}
  {checkUserPos : ℕ}

/-! ## Operations of the map -/

theorem mapCall_of_fail
    {Data : Type} {map : BoundedMap UInt64 Data} {call : HashList.Call Data}
    (hfail : (mapCall map call).1.iRetVal ≠ success) :
    (mapCall map call).2 = map := by
  cases call with
  | insert key data =>
      simp only [mapCall, mapInsertNew] at hfail ⊢
      split at hfail
      · rfl
      · split_ifs at hfail ⊢
        · exact (hfail rfl).elim
        · rfl
  | insertWithRet key data =>
      simp only [mapCall, mapInsertNew] at hfail ⊢
      split at hfail
      · rfl
      · split_ifs at hfail ⊢
        · exact (hfail rfl).elim
        · rfl
  | update key data =>
      simp only [mapCall] at hfail ⊢
      split at hfail
      · exact (hfail rfl).elim
      · rfl
  | remove key =>
      simp only [mapCall] at hfail ⊢
      split at hfail
      · exact (hfail rfl).elim
      · rfl
  | get key =>
      simp only [mapCall]
      split <;> rfl

/-- An operation of the map behind a return code. -/
theorem exists_run_of_outcome
    (hholds : Holds maxUserNodeNum memory users)
    {code : ShmCode ℤ} {call : HashList.Call ShmUserInfo}
    {readings : List UInt64}
    (houtcome : outcome ShmRecord.info (run code memory readings) =
      ((view ShmRecord.info memory).call maxUserNodeNum call).map
        fun (answer, segment) => (answer.iRetVal, segment, readings)) :
    ∃ after, run code memory readings =
        some ((mapCall users call).1.iRetVal, after, readings) ∧
      Holds maxUserNodeNum after (mapCall users call).2 := by
  obtain ⟨next, hcall, hvalid, -⟩ := call_simulates hholds le_rfl call
  rw [hcall, Option.map_some, outcome, Option.map_eq_some_iff] at houtcome
  obtain ⟨⟨ret, after, left⟩, hrun, heq⟩ := houtcome
  simp only [Prod.mk.injEq] at heq
  obtain ⟨rfl, hview, rfl⟩ := heq
  refine ⟨after, hrun, ?_⟩
  rw [Holds, hview]
  exact hvalid

/-- What the wrappers of `CUserShmApi` make of a return code. -/
theorem exists_run_retOf
    (hholds : Holds maxUserNodeNum memory users)
    {code : ShmCode ℤ} {call : HashList.Call ShmUserInfo}
    (houtcome : ∀ readings, outcome ShmRecord.info (run code memory readings) =
      ((view ShmRecord.info memory).call maxUserNodeNum call).map
        fun (answer, segment) => (answer.iRetVal, segment, readings))
    (readings : List UInt64) :
    ∃ after, run (do
          let ret ← code
          pure (retOf ret)) memory readings =
        some (.ret (if (mapCall users call).1.iRetVal ≠ 0 then -1 else 0),
          after, readings) ∧
      Holds maxUserNodeNum after
        (if (mapCall users call).1.iRetVal ≠ 0 then users
          else (mapCall users call).2) := by
  obtain ⟨after, hrun, hafter⟩ :=
    exists_run_of_outcome hholds (houtcome readings)
  refine ⟨after, ?_, ?_⟩
  · rw [run_bind, hrun]
    rfl
  · split_ifs with hret
    · rw [mapCall_of_fail hret] at hafter
      exact hafter
    · exact hafter

theorem insertUserInfo_eq {info : ShmUserInfo} (hid : info.userID ≠ 0) :
    insertUserInfo users info =
      (if (mapCall users (.insert info.userID info)).1.iRetVal ≠ 0 then -1
        else 0,
      if (mapCall users (.insert info.userID info)).1.iRetVal ≠ 0 then users
        else (mapCall users (.insert info.userID info)).2) := by
  simp only [insertUserInfo, if_neg hid]
  split_ifs <;> rfl

theorem removeUserInfo_eq (userID : UInt64) :
    removeUserInfo users userID =
      (if (mapCall users (.remove userID)).1.iRetVal ≠ 0 then -1 else 0,
      if (mapCall users (.remove userID)).1.iRetVal ≠ 0 then users
        else (mapCall users (.remove userID)).2) := by
  simp only [removeUserInfo]
  split_ifs <;> rfl

theorem updateUserInfo_eq (info : ShmUserInfo) :
    updateUserInfo users info =
      (if (mapCall users (.update info.userID info)).1.iRetVal ≠ 0 then -1
        else 0,
      if (mapCall users (.update info.userID info)).1.iRetVal ≠ 0 then users
        else (mapCall users (.update info.userID info)).2) := by
  simp only [updateUserInfo]
  split_ifs <;> rfl

theorem run_insertUserInfoCode
    (hholds : Holds maxUserNodeNum memory users) {info : ShmRecord}
    (hid : info .userID ≠ 0) (readings : List UInt64) :
    ∃ after, run (insertUserInfoCode maxUserNodeNum info) memory readings =
        some (.ret (insertUserInfo users (ShmRecord.info info)).1, after,
          readings) ∧
      Holds maxUserNodeNum after
        (insertUserInfo users (ShmRecord.info info)).2 := by
  have hid' : (ShmRecord.info info).userID ≠ 0 := hid
  rw [insertUserInfo_eq hid']
  exact exists_run_retOf hholds (fun _ =>
    outcome_run_insert ShmRecord.info mem_fields maxUserNodeNum
      (info .userID) info) readings

theorem run_removeUserInfoCode
    (hholds : Holds maxUserNodeNum memory users) (userID : UInt64)
    (readings : List UInt64) :
    ∃ after, run (removeUserInfoCode maxUserNodeNum userID) memory readings =
        some (.ret (removeUserInfo users userID).1, after, readings) ∧
      Holds maxUserNodeNum after (removeUserInfo users userID).2 := by
  rw [removeUserInfo_eq]
  exact exists_run_retOf hholds (fun _ =>
    outcome_run_remove ShmRecord.info maxUserNodeNum userID) readings

theorem run_updateUserInfoCode
    (hholds : Holds maxUserNodeNum memory users) (info : ShmRecord)
    (readings : List UInt64) :
    ∃ after, run (updateUserInfoCode maxUserNodeNum info) memory readings =
        some (.ret (updateUserInfo users (ShmRecord.info info)).1, after,
          readings) ∧
      Holds maxUserNodeNum after
        (updateUserInfo users (ShmRecord.info info)).2 := by
  rw [updateUserInfo_eq]
  exact exists_run_retOf hholds (fun _ =>
    outcome_run_update ShmRecord.info mem_fields maxUserNodeNum
      (info .userID) info) readings

theorem run_get_of_none
    (hholds : Holds maxUserNodeNum memory users) {userID : UInt64}
    (hget : users.get userID = none) (readings : List UInt64) :
    run (CHashListNoLock.get maxUserNodeNum userID) memory readings =
      some (0, memory, readings) := by
  obtain ⟨chains, free, h⟩ := hholds
  rw [run_get ShmRecord.info, h.findKey_of_get_none le_rfl hget]
  rfl

theorem run_get_of_some
    (hholds : Holds maxUserNodeNum memory users) {userID : UInt64}
    {info : ShmUserInfo} (hget : users.get userID = some info) :
    ∃ ipData, ipData ≠ 0 ∧
      (∀ readings, run (CHashListNoLock.get maxUserNodeNum userID) memory
        readings = some (ipData, memory, readings)) ∧
      ShmRecord.info (fun field => memory (.data ipData field)) = info ∧
      ∀ record, Valid ((view ShmRecord.info memory).perform
          [.nodeData ipData record]) maxUserNodeNum maxUserNodeNum
        (users.modify userID fun _ => record) := by
  obtain ⟨chains, free, h⟩ := hholds
  obtain ⟨ipData, hmem, hfind, hpos, hkey, hdata⟩ :=
    h.findKey_of_get_some le_rfl hget
  refine ⟨ipData, hpos.ne', fun readings => ?_, hdata, fun record => ?_⟩
  · rw [run_get ShmRecord.info, hfind, Option.map_some, if_pos hpos]
  · exact ⟨chains, free,
      h.represents_update (h.hashVal_lt userID) hmem hkey⟩

theorem run_getUserInfoCode
    (hholds : Holds maxUserNodeNum memory users) (userID : UInt64)
    (info : ShmRecord) (readings : List UInt64) :
    ∃ ret record, run (getUserInfoCode maxUserNodeNum userID info) memory
        readings = some (.info ret record, memory, readings) ∧
      (ret = 0 ∧ getUserInfo users userID = some (ShmRecord.info record) ∨
        ret = -1 ∧ getUserInfo users userID = none ∧ record = info) := by
  obtain ⟨chains, free, h⟩ := hholds
  rw [getUserInfo_eq, getUserInfoCode, run_bind,
    run_getData ShmRecord.info mem_fields]
  cases hget : users.get userID with
  | none =>
      rw [h.findKey_of_get_none le_rfl hget]
      exact ⟨-1, info, rfl, Or.inr ⟨rfl, rfl, rfl⟩⟩
  | some stored =>
      obtain ⟨ipData, -, hfind, hpos, -, hdata⟩ :=
        h.findKey_of_get_some le_rfl hget
      rw [hfind, Option.map_some, if_pos hpos]
      refine ⟨0, fun field => memory (.data ipData field), rfl,
        Or.inl ⟨rfl, ?_⟩⟩
      rw [← hdata]
      rfl

theorem performs_removeUserInfoWhenInValidCode
    (hholds : Holds maxUserNodeNum memory users) (userID : UInt64) :
    ∃ count, Performs (removeUserInfoWhenInValidCode maxUserNodeNum userID)
      memory count fun readings answer after => ∃ users',
        Effect maxUserNodeNum users checkUserPos
          (.removeUserInfoWhenInValid userID) readings answer users' ∧
        Holds maxUserNodeNum after users' := by
  cases hget : users.get userID with
  | none =>
      refine ⟨0, performs_of_run fun readings => ⟨.ret (-1), memory, ?_,
        users, .nothingToRemove hget, hholds⟩⟩
      rw [removeUserInfoWhenInValidCode,
        run_bind_of_run (run_get_of_none hholds hget _)]
      rfl
  | some info =>
      obtain ⟨ipData, hnull, hrun, hinfo, -⟩ := run_get_of_some hholds hget
      have hlast : memory (.data ipData .lastActiveTime) =
          info.lastActiveTime := by
        rw [← hinfo]
        rfl
      refine ⟨1, fun readings => ?_⟩
      rw [removeUserInfoWhenInValidCode, run_bind_of_run (hrun readings),
        if_neg hnull, clock_bind]
      cases readings with
      | nil => exact ⟨fun _ => run_clock_nil _, fun hcount => by simp at hcount⟩
      | cons nowTime readings =>
          refine ⟨fun hless => by simp at hless, fun _ => ?_⟩
          have heffect : Effect maxUserNodeNum users checkUserPos
              (.removeUserInfoWhenInValid userID) [nowTime] _ _ :=
            .removeUserInfoWhenInValid nowTime hget
          rw [run_clock_cons, load_bind, run_load, hlast]
          simp only [removeUserInfoWhenInValid, hget] at heffect
          by_cases hvalid : nowTime - userInvalidTime ≤ info.lastActiveTime
          · rw [if_pos hvalid]
            simp only [if_pos hvalid] at heffect
            exact ⟨.ret 0, memory, rfl, users, heffect, hholds⟩
          · obtain ⟨after, hremove, hafter⟩ :=
              run_removeUserInfoCode hholds userID readings
            rw [if_neg hvalid]
            simp only [if_neg hvalid] at heffect
            exact ⟨_, after, hremove, _, heffect, hafter⟩

/-! ## The scan -/

def nodeEntry (memory : ShmMemory) (ipData : ℤ) : Σ _ : UInt64, ShmUserInfo :=
  ⟨memory (.keyVal ipData),
    ShmRecord.info fun field => memory (.data ipData field)⟩

theorem run_memFullCallBack
    (userID : UInt64) (ipData : ℤ) (vct : List UInt64) (nowTime : UInt64)
    (readings : List UInt64) :
    run (memFullCallBack userID ipData vct) memory (nowTime :: readings) =
      some (if memory (.data ipData .lastActiveTime) <
          nowTime - userInvalidTime then vct ++ [userID] else vct,
        memory, readings) := by
  rw [memFullCallBack, clock_bind, run_clock_cons, load_bind, run_load]
  split_ifs <;> rfl

theorem performs_processChain
    {fuel : ℕ} {ipData : ℤ} {nodes : List ℤ} (vct : List UInt64)
    (hchain : IndexChain.ChainFrom (successor memory) 0 ipData nodes)
    (hfuel : nodes.length < fuel) :
    Performs (processChain memFullCallBack fuel ipData vct) memory
      nodes.length fun readings found after =>
        after = memory ∧
          found = vct ++ expired (nodes.map (nodeEntry memory)) readings := by
  induction nodes generalizing fuel ipData vct with
  | nil =>
      obtain ⟨fuel, rfl⟩ := Nat.exists_eq_add_one_of_ne_zero
        (Nat.ne_of_gt hfuel)
      have hnull : ipData = 0 := hchain
      refine performs_of_run fun readings =>
        ⟨vct, memory, ?_, rfl, (List.append_nil vct).symm⟩
      rw [processChain, if_pos hnull]
      rfl
  | cons node nodes ih =>
      obtain ⟨fuel, rfl⟩ := Nat.exists_eq_add_one_of_ne_zero
        (Nat.ne_of_gt (Nat.zero_lt_of_lt hfuel))
      obtain ⟨rfl, hnull, hrest⟩ := hchain
      intro readings
      rw [processChain, if_neg hnull, load_bind, run_load, load_bind, run_load]
      cases readings with
      | nil => exact ⟨fun _ => rfl, fun hcount => by simp at hcount⟩
      | cons nowTime readings =>
          rw [run_bind_of_run (run_memFullCallBack _ _ _ _ _)]
          have hlater := ih (if memory (.data ipData .lastActiveTime) <
              nowTime - userInvalidTime then vct ++ [memory (.keyVal ipData)]
            else vct) hrest (by simpa using hfuel) readings
          refine ⟨fun hless => hlater.1 (by simpa using hless),
            fun hcount => ?_⟩
          obtain ⟨found, after, hrun, hafter, hfound⟩ :=
            hlater.2 (by simpa using hcount)
          refine ⟨found, after, hrun, hafter, ?_⟩
          rw [hfound, List.map_cons, List.length_cons, List.take_succ_cons,
            expired]
          have hsame : (nodeEntry memory ipData).2.lastActiveTime =
              memory (.data ipData .lastActiveTime) := rfl
          rw [hsame]
          split_ifs
          · rw [List.append_assoc]
            rfl
          · rfl

theorem performs_processAll
    (hholds : Holds maxUserNodeNum memory users) {iIndex : ℕ}
    (hindex : iIndex < maxUserNodeNum) (vct : List UInt64) :
    Performs (processAll maxUserNodeNum iIndex memFullCallBack vct) memory
      (bucketEntries maxUserNodeNum users iIndex).length
      fun readings found after => after = memory ∧
        found = vct ++
          expired (bucketEntries maxUserNodeNum users iIndex) readings := by
  obtain ⟨chains, free, h⟩ := hholds
  have hentries : (chains iIndex).map (nodeEntry memory) =
      bucketEntries maxUserNodeNum users iIndex := h.entries_eq iIndex hindex
  have hnum : memory (.iDataNodeNum iIndex) = (chains iIndex).length :=
    h.counted.bucket_num iIndex (by rw [h.toNat_index]; exact hindex)
  rw [← hentries, List.length_map]
  cases hchain : chains iIndex with
  | nil =>
      refine performs_of_run fun readings =>
        ⟨vct, memory, ?_, rfl, (List.append_nil vct).symm⟩
      rw [processAll, load_bind, run_load, hnum, hchain]
      rfl
  | cons node nodes =>
      have hpos : (0 : ℤ) < (node :: nodes).length := by simp
      intro readings
      rw [processAll, load_bind, run_load, hnum, hchain, if_pos hpos,
        load_bind, run_load, ← hchain]
      exact performs_processChain vct (h.bucket_chain hindex)
        (h.length_chain_lt hindex) readings

/-! ## Adding a request -/

theorem run_requestLoop
    (ipData : ℤ) (places : List (Fin maxRequestNum)) (maxRequestTime : UInt64)
    (index : Fin maxRequestNum) (readings : List UInt64) :
    run (requestLoop ipData places maxRequestTime index) memory readings =
      some (requestIndex (places.map fun i =>
          (i, (nodeEntry memory ipData).2.requestList i)) maxRequestTime index,
        memory, readings) := by
  induction places generalizing maxRequestTime index with
  | nil => rfl
  | cons i places ih =>
      have huser : ((nodeEntry memory ipData).2.requestList i).userID =
          memory (.data ipData (.requestUserID i)) := rfl
      have hvalid : ((nodeEntry memory ipData).2.requestList i).isValid =
          memory (.data ipData (.requestIsValid i)) := rfl
      have htime : ((nodeEntry memory ipData).2.requestList i).requestTime =
          memory (.data ipData (.requestTime i)) := rfl
      rw [requestLoop, List.map_cons, requestIndex, huser, hvalid, htime,
        load_bind, run_load]
      by_cases hfree : memory (.data ipData (.requestUserID i)) = 0
      · rw [if_pos hfree, if_pos (Or.inl hfree)]
        rfl
      · rw [if_neg hfree, load_bind, run_load]
        by_cases hunused : memory (.data ipData (.requestIsValid i)) = 0
        · rw [if_pos hunused, if_pos (Or.inr hunused)]
          rfl
        · rw [if_neg hunused, if_neg (not_or.mpr ⟨hfree, hunused⟩), load_bind,
            run_load]
          split_ifs
          · rw [load_bind, run_load]
            exact ih _ _
          · exact ih _ _

/-- The cells after `snprintf` into a `char` array. -/
def printed (ipData : ℤ) (text : TextField) :
    ℕ → Text → ShmMemory → ShmMemory
  | i, [], memory =>
      if hi : i < text.size then
        Function.update memory (.data ipData (.char ⟨text, i, hi⟩)) 0
      else memory
  | i, byte :: bytes, memory =>
      if hi : i < text.size then
        printed ipData text (i + 1) bytes
          (Function.update memory (.data ipData (.char ⟨text, i, hi⟩)) byte)
      else memory

theorem run_snprintfCells
    (ipData : ℤ) (text : TextField) (i : ℕ) (bytes : Text)
    (readings : List UInt64) :
    run (snprintfCells ipData text i bytes) memory readings =
      some ((), printed ipData text i bytes memory, readings) := by
  induction bytes generalizing i memory with
  | nil =>
      rw [snprintfCells, printed]
      split_ifs
      · rfl
      · rfl
  | cons byte bytes ih =>
      rw [snprintfCells, printed]
      split_ifs
      · rw [store_bind, run_store]
        exact ih _
      · rfl

theorem printed_of_ne
    {ipData : ℤ} {text : TextField} {i : ℕ} {bytes : Text}
    {cell : Cell Field}
    (hcell : ∀ place, cell ≠ .data ipData (.char ⟨text, place⟩)) :
    printed ipData text i bytes memory cell = memory cell := by
  induction bytes generalizing i memory with
  | nil =>
      rw [printed]
      split_ifs
      · exact Function.update_of_ne (hcell _) _ _
      · rfl
  | cons byte bytes ih =>
      rw [printed]
      split_ifs
      · rw [ih]
        exact Function.update_of_ne (hcell _) _ _
      · rfl

/-- The bytes of a `char` array. -/
def charsOf (memory : ShmMemory) (ipData : ℤ) (text : TextField) : Text :=
  List.ofFn fun i => memory (.data ipData (.char ⟨text, i⟩))

theorem charsOf_update
    (ipData : ℤ) (text : TextField) (i : Fin text.size) (byte : UInt8) :
    charsOf (Function.update memory (.data ipData (.char ⟨text, i⟩)) byte)
        ipData text =
      (charsOf memory ipData text).set i byte := by
  apply List.ext_getElem
  · simp [charsOf]
  · intro j hj hj'
    simp only [charsOf, List.getElem_ofFn, List.getElem_set]
    by_cases heq : (i : ℕ) = j
    · subst heq
      rw [if_pos rfl]
      exact Function.update_self _ _ _
    · rw [if_neg heq]
      apply Function.update_of_ne
      intro hcell
      simp only [Cell.data.injEq, Field.char.injEq, Sigma.mk.injEq, heq_eq_eq,
        true_and] at hcell
      exact heq (congrArg Fin.val hcell).symm

/-- A text that fits is written from its place on, with a NUL behind it. -/
theorem charsOf_printed
    {ipData : ℤ} {text : TextField} {i : ℕ} {bytes : Text}
    (memory : ShmMemory) (hfits : i + bytes.length < text.size) :
    ∃ rest, charsOf (printed ipData text i bytes memory) ipData text =
      (charsOf memory ipData text).take i ++ bytes ++ 0 :: rest := by
  induction bytes generalizing i memory with
  | nil =>
      have hi : i < text.size := hfits
      have hlength : i < (charsOf memory ipData text).length := by
        rw [charsOf, List.length_ofFn]
        exact hi
      refine ⟨(charsOf memory ipData text).drop (i + 1), ?_⟩
      rw [printed, dif_pos hi, charsOf_update, List.append_nil,
        List.set_eq_take_append_cons_drop, if_pos hlength]
  | cons byte bytes ih =>
      rw [List.length_cons] at hfits
      have hi : i < text.size := by omega
      have hlength : i < (charsOf memory ipData text).length := by
        rw [charsOf, List.length_ofFn]
        exact hi
      obtain ⟨rest, hrest⟩ := ih
        (Function.update memory (.data ipData (.char ⟨text, i, hi⟩)) byte)
        (show i + 1 + bytes.length < text.size by omega)
      have htake : ((charsOf memory ipData text).set i byte).take (i + 1) =
          (charsOf memory ipData text).take i ++ [byte] := by
        rw [List.set_eq_take_append_cons_drop, if_pos hlength,
          List.take_append, List.take_of_length_le (by simp)]
        simp [hlength.le]
      refine ⟨rest, ?_⟩
      rw [printed, dif_pos hi, hrest, charsOf_update, htake]
      simp

theorem text_printed
    {ipData : ℤ} {text : TextField} {bytes : Text} (memory : ShmMemory)
    (hfits : bytes.length < text.size) (hbytes : ∀ byte ∈ bytes, byte ≠ 0) :
    ShmRecord.text (fun field =>
      printed ipData text 0 bytes memory (.data ipData field)) text = bytes := by
  have hfrom : 0 + bytes.length < text.size := by omega
  obtain ⟨rest, hrest⟩ :
      ∃ rest, charsOf (printed ipData text 0 bytes memory) ipData text =
        (charsOf memory ipData text).take 0 ++ bytes ++ 0 :: rest :=
    charsOf_printed memory hfrom
  change (charsOf (printed ipData text 0 bytes memory) ipData text).takeWhile
    (· ≠ 0) = bytes
  rw [hrest, List.take_zero, List.nil_append,
    List.takeWhile_append_of_pos (by simpa using hbytes)]
  simp

theorem snprintf_ne_zero
    {size : ℕ} {text : Text} {byte : UInt8} (hbyte : byte ∈ snprintf size text) :
    byte ≠ 0 := by
  have hmem := List.mem_of_mem_take hbyte
  simpa using List.all_eq_true.mp List.all_takeWhile byte hmem

theorem length_snprintf_lt {size : ℕ} (hsize : 0 < size) (text : Text) :
    (snprintf size text).length < size := by
  have hlength := List.length_take_le (size - 1) (text.takeWhile (· ≠ 0))
  rw [snprintf]
  omega

/-- The cells after the stores of `AddFriendReq`. -/
def requested (memory : ShmMemory) (ipData : ℤ) (index : Fin maxRequestNum)
    (userID requestTime lastActiveTime : UInt64) (strNickName : Text) :
    ShmMemory :=
  Function.update
    (Function.update
      (printed ipData (.requestNickName index) 0
        (snprintf maxNameLength strNickName)
        (Function.update memory (.data ipData (.requestUserID index)) userID))
      (.data ipData (.requestTime index)) requestTime)
    (.data ipData .lastActiveTime) lastActiveTime

theorem requested_of_ne
    {ipData : ℤ} {index : Fin maxRequestNum}
    {userID requestTime lastActiveTime : UInt64} {strNickName : Text}
    {cell : Cell Field} (hlast : cell ≠ .data ipData .lastActiveTime)
    (htime : cell ≠ .data ipData (.requestTime index))
    (hname : ∀ place,
      cell ≠ .data ipData (.char ⟨.requestNickName index, place⟩))
    (huser : cell ≠ .data ipData (.requestUserID index)) :
    requested memory ipData index userID requestTime lastActiveTime
      strNickName cell = memory cell := by
  rw [requested, Function.update_of_ne hlast, Function.update_of_ne htime,
    printed_of_ne hname, Function.update_of_ne huser]

theorem text_requested
    {ipData : ℤ} {index : Fin maxRequestNum}
    {userID requestTime lastActiveTime : UInt64} {strNickName : Text}
    {text : TextField} (htext : text ≠ .requestNickName index) :
    ShmRecord.text (fun field => requested memory ipData index userID
        requestTime lastActiveTime strNickName (.data ipData field)) text =
      ShmRecord.text (fun field => memory (.data ipData field)) text := by
  unfold ShmRecord.text
  congr 1
  apply List.ofFn_inj.mpr
  funext place
  apply requested_of_ne
  · simp
  · simp
  · intro other hcell
    simp only [Cell.data.injEq, Field.char.injEq, Sigma.mk.injEq,
      true_and] at hcell
    exact htext hcell.1
  · simp

theorem text_requested_self
    {ipData : ℤ} {index : Fin maxRequestNum}
    {userID requestTime lastActiveTime : UInt64} {strNickName : Text} :
    ShmRecord.text (fun field => requested memory ipData index userID
        requestTime lastActiveTime strNickName (.data ipData field))
        (.requestNickName index) =
      snprintf maxNameLength strNickName := by
  have hfits : (snprintf maxNameLength strNickName).length <
      (TextField.requestNickName index).size :=
    length_snprintf_lt (by decide) strNickName
  rw [← text_printed
    (Function.update memory (.data ipData (.requestUserID index)) userID)
    hfits fun _ => snprintf_ne_zero]
  unfold ShmRecord.text
  congr 1
  apply List.ofFn_inj.mpr
  funext place
  simp [requested]

/-- The stores of `AddFriendReq`, seen on the record. -/
theorem info_requested
    {ipData : ℤ} {index : Fin maxRequestNum}
    {userID requestTime lastActiveTime : UInt64} {strNickName : Text} :
    ShmRecord.info (fun field => requested memory ipData index userID
        requestTime lastActiveTime strNickName (.data ipData field)) =
      { (nodeEntry memory ipData).2 with
        lastActiveTime := lastActiveTime
        requestList := Function.update (nodeEntry memory ipData).2.requestList
          index
          { (nodeEntry memory ipData).2.requestList index with
            userID := userID
            nickName := snprintf maxNameLength strNickName
            requestTime := requestTime } } := by
  have hsame (field : Field) (hlast : field ≠ .lastActiveTime)
      (htime : field ≠ .requestTime index)
      (hname : ∀ place, field ≠ .char ⟨.requestNickName index, place⟩)
      (huser : field ≠ .requestUserID index) :
      requested memory ipData index userID requestTime lastActiveTime
        strNickName (.data ipData field) = memory (.data ipData field) := by
    apply requested_of_ne
    · simpa using hlast
    · simpa using htime
    · simpa using hname
    · simpa using huser
  have hlist (i : Fin maxRequestNum) :
      (ShmRecord.info fun field => requested memory ipData index userID
        requestTime lastActiveTime strNickName
        (.data ipData field)).requestList i =
      Function.update (nodeEntry memory ipData).2.requestList index
        { (nodeEntry memory ipData).2.requestList index with
          userID := userID
          nickName := snprintf maxNameLength strNickName
          requestTime := requestTime } i := by
    by_cases heq : i = index
    · subst heq
      rw [Function.update_self]
      simp only [ShmRecord.info, text_requested_self, nodeEntry]
      rw [hsame (.requestIsValid i) (by simp) (by simp) (by simp) (by simp)]
      simp [requested, printed_of_ne]
    · rw [Function.update_of_ne heq]
      simp only [ShmRecord.info, nodeEntry]
      rw [text_requested (by simpa using heq),
        hsame (.requestUserID i) (by simp) (by simp) (by simp)
          (by simpa using heq),
        hsame (.requestTime i) (by simp) (by simpa using heq) (by simp)
          (by simp),
        hsame (.requestIsValid i) (by simp) (by simp) (by simp) (by simp)]
  have hrequests := funext hlist
  simp only [ShmRecord.info, nodeEntry] at hrequests ⊢
  have hlast : requested memory ipData index userID requestTime lastActiveTime
      strNickName (.data ipData .lastActiveTime) = lastActiveTime :=
    Function.update_self _ _ _
  rw [hrequests, hlast]
  simp [text_requested, hsame]

theorem run_addFriendReqCode
    {ipData : ℤ} {userID otherUserID : UInt64} {strNickName : Text}
    (hnull : ipData ≠ 0)
    (hget : ∀ readings, run (CHashListNoLock.get maxUserNodeNum otherUserID)
      memory readings = some (ipData, memory, readings))
    (readings : List UInt64) :
    run (addFriendReqCode maxUserNodeNum userID otherUserID strNickName) memory
        readings =
      match readings with
      | requestTime :: lastActiveTime :: readings =>
          some (.ret 0, requested memory ipData
            (requestIndex ((List.finRange maxRequestNum).map fun i =>
              (i, (nodeEntry memory ipData).2.requestList i)) 0
              ⟨0, by decide⟩)
            userID requestTime lastActiveTime strNickName, readings)
      | _ => none := by
  rw [addFriendReqCode, run_bind_of_run (hget readings), if_neg hnull,
    run_bind_of_run (run_requestLoop ipData _ _ _ readings), store_bind,
    run_store, run_bind_of_run (run_snprintfCells ipData _ _ _ readings),
    clock_bind]
  cases readings with
  | nil => rfl
  | cons requestTime readings =>
      rw [run_clock_cons, store_bind, run_store, clock_bind]
      cases readings with
      | nil => rfl
      | cons lastActiveTime readings => rfl

theorem performs_addFriendReqCode
    (hholds : Holds maxUserNodeNum memory users)
    (userID otherUserID : UInt64) (strNickName : Text) :
    ∃ count, Performs (addFriendReqCode maxUserNodeNum userID otherUserID
      strNickName) memory count fun readings answer after => ∃ users',
        Effect maxUserNodeNum users checkUserPos
          (.addFriendReq userID otherUserID strNickName) readings answer
          users' ∧
        Holds maxUserNodeNum after users' := by
  cases hget : users.get otherUserID with
  | none =>
      refine ⟨0, performs_of_run fun readings => ⟨.ret (-1), memory, ?_,
        users, .nobodyToAsk hget, hholds⟩⟩
      rw [addFriendReqCode, run_bind_of_run (run_get_of_none hholds hget _)]
      rfl
  | some info =>
      obtain ⟨ipData, hnull, hrun, hinfo, hchanged⟩ :=
        run_get_of_some hholds hget
      refine ⟨2, fun readings => ?_⟩
      rw [run_addFriendReqCode hnull hrun]
      rcases readings with _ | ⟨requestTime, _ | ⟨lastActiveTime, readings⟩⟩
      · exact ⟨fun _ => rfl, fun hcount => by simp at hcount⟩
      · exact ⟨fun _ => rfl, fun hcount => by simp at hcount⟩
      · refine ⟨fun hless => by simp at hless, fun _ => ⟨_, _, rfl, ?_⟩⟩
        have heffect : Effect maxUserNodeNum users checkUserPos
            (.addFriendReq userID otherUserID strNickName)
            [requestTime, lastActiveTime] _ _ :=
          .addFriendReq requestTime lastActiveTime hget
        simp only [addFriendReq, hget] at heffect
        refine ⟨_, heffect, ?_⟩
        have hmodify : users.modify otherUserID (fun info => addRequest info
              requestTime lastActiveTime userID strNickName) =
            users.modify otherUserID fun _ => addRequest info requestTime
              lastActiveTime userID strNickName := by
          apply BoundedMap.modify_congr
          intro stored hstored
          rw [hget] at hstored
          cases hstored
          rfl
        have hrecord : addRequest info requestTime lastActiveTime userID
              strNickName =
            ShmRecord.info (fun field => requested memory ipData
              (requestIndex ((List.finRange maxRequestNum).map fun i =>
                (i, (nodeEntry memory ipData).2.requestList i)) 0
                ⟨0, by decide⟩) userID requestTime lastActiveTime
              strNickName (.data ipData field)) := by
          rw [info_requested, ← hinfo, addRequest, List.ofFn_eq_map]
          rfl
        rw [hmodify, hrecord, Holds,
          view_of_data ShmRecord.info memory ipData fun cell hcell =>
            requested_of_ne (hcell _) (hcell _) (fun _ => hcell _) (hcell _)]
        exact hchanged _

/-! ## Every section -/

/-- `m_CheckUserPos` after an operation. -/
def nextCheckUserPos (checkUserPos : Fin maxUserNodeNum) :
    ShmCall → Fin maxUserNodeNum
  | .checkUserIsValid _ =>
      ⟨(checkUserPos + 1) % maxUserNodeNum, succ_mod_lt checkUserPos⟩
  | _ => checkUserPos

/-- An operation that leaves `m_CheckUserPos` alone, as a section. -/
theorem performs_keeping
    {code : ShmCode ShmAnswer} {checkUserPos : Fin maxUserNodeNum}
    {call : ShmCall} {count : ℕ}
    (hcode : Performs code memory count fun readings answer after =>
      ∃ users', Effect maxUserNodeNum users checkUserPos call readings answer
        users' ∧ Holds maxUserNodeNum after users')
    (hpos : nextCheckUserPos checkUserPos call = checkUserPos) :
    ∃ count, Performs (do
        let answer ← code
        pure (answer, checkUserPos)) memory count
      fun readings result after => ∃ users',
        Effect maxUserNodeNum users checkUserPos call readings result.1
          users' ∧
        result.2 = nextCheckUserPos checkUserPos call ∧
        Holds maxUserNodeNum after users' := by
  refine ⟨count, hcode.bind ?_⟩
  rintro readings answer after ⟨users', heffect, hafter⟩
  exact ⟨(answer, checkUserPos), fun _ => rfl, users', heffect, hpos.symm,
    hafter⟩

theorem performs_section
    (hholds : Holds maxUserNodeNum memory users)
    (checkUserPos : Fin maxUserNodeNum) (call : ShmCall) :
    ∃ count, Performs (shmSection maxUserNodeNum checkUserPos call).body memory
      count fun readings result after => ∃ users',
        Effect maxUserNodeNum users checkUserPos call readings result.1
          users' ∧
        result.2 = nextCheckUserPos checkUserPos call ∧
        Holds maxUserNodeNum after users' := by
  cases call with
  | insertUserInfo info =>
      simp only [shmSection]
      split_ifs with hid
      · have hnone : insertUserInfo users (ShmRecord.info info) =
            (-1, users) := if_pos hid
        refine ⟨0, performs_of_run fun readings => ⟨(.ret (-1), checkUserPos),
          memory, rfl, users, ?_, rfl, hholds⟩⟩
        have heffect : Effect maxUserNodeNum users checkUserPos
            (.insertUserInfo info) [] _ _ := .insertUserInfo info
        rwa [hnone] at heffect
      · refine performs_keeping (performs_of_run fun readings => ?_) rfl
        obtain ⟨after, hrun, hafter⟩ :=
          run_insertUserInfoCode hholds hid readings
        exact ⟨_, after, hrun, _, .insertUserInfo info, hafter⟩
  | removeUserInfo userID =>
      refine performs_keeping (performs_of_run fun readings => ?_) rfl
      obtain ⟨after, hrun, hafter⟩ :=
        run_removeUserInfoCode hholds userID readings
      exact ⟨_, after, hrun, _, .removeUserInfo userID, hafter⟩
  | removeUserInfoWhenInValid userID =>
      obtain ⟨count, hcode⟩ :=
        performs_removeUserInfoWhenInValidCode hholds userID
      exact performs_keeping hcode rfl
  | getUserInfo userID info =>
      refine performs_keeping (performs_of_run fun readings => ?_) rfl
      obtain ⟨ret, record, hrun, hget⟩ :=
        run_getUserInfoCode hholds userID info readings
      exact ⟨_, memory, hrun, users, .getUserInfo hget, hholds⟩
  | updateUserInfo newUserInfo =>
      refine performs_keeping (performs_of_run fun readings => ?_) rfl
      obtain ⟨after, hrun, hafter⟩ :=
        run_updateUserInfoCode hholds newUserInfo readings
      exact ⟨_, after, hrun, _, .updateUserInfo newUserInfo, hafter⟩
  | addFriendReq userID otherUserID strNickName =>
      obtain ⟨count, hcode⟩ :=
        performs_addFriendReqCode hholds userID otherUserID strNickName
      exact performs_keeping hcode rfl
  | checkUserIsValid vct =>
      refine ⟨_, (performs_processAll hholds checkUserPos.isLt
        vct).with_length.bind ?_⟩
      rintro readings found after ⟨hlength, rfl, rfl⟩
      exact ⟨_, fun _ => rfl, users, .checkUserIsValid hlength, rfl, hholds⟩

end Calls

end MessageBus.User
