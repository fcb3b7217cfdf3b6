import MessageBus.UserModel

/-!
# Pending friend requests

`AddFriendReq` takes the first slot of `RequestList` that has no `UserID` or is
not marked by `IsValid`, but it does not mark the slot that it fills.  A slot
that is not marked is therefore taken by every call that comes to it, and a
sequence of calls fills the marked slots in front and then overwrites the first
one without a mark.
-/

namespace MessageBus.User

open Conn

/-- A call of `AddFriendReq`, with what `time` returns in it. -/
structure FriendCall where
  userID : UInt64
  strNickName : Text
  requestTime : UInt64
  activeTime : UInt64

/-- The call on the record of `otherUserID`. -/
def FriendCall.perform (otherUserID : UInt64) (users : UserMap)
    (call : FriendCall) : UserMap :=
  (addFriendReq users call.requestTime call.activeTime call.userID otherUserID
    call.strNickName).2

def FriendCall.addTo (info : ShmUserInfo) (call : FriendCall) : ShmUserInfo :=
  addRequest info call.requestTime call.activeTime call.userID
    call.strNickName

/-- The slot after the call. -/
def FriendCall.write (call : FriendCall) (request : RequestInfo) :
    RequestInfo :=
  { request with
    userID := call.userID
    nickName := snprintf maxNameLength call.strNickName
    requestTime := call.requestTime }

theorem get_foldl_perform
    {users : UserMap} {otherUserID : UInt64} {info : ShmUserInfo}
    (hget : users.get otherUserID = some info) (calls : List FriendCall) :
    (calls.foldl (FriendCall.perform otherUserID) users).get otherUserID =
      some (calls.foldl FriendCall.addTo info) := by
  induction calls generalizing users info with
  | nil => exact hget
  | cons call calls ih =>
      have hnext : (FriendCall.perform otherUserID users call).get otherUserID =
          some (call.addTo info) := by
        unfold FriendCall.perform addFriendReq
        simp only [hget, BoundedMap.get_modify_self, Option.map_some]
        rfl
      exact ih hnext

/-! ## The slot of one call -/

/-- What the loop of `AddFriendReq` stops at. -/
def Free (request : RequestInfo) : Prop :=
  request.userID = 0 ∨ request.isValid = 0

theorem requestIndex_eq_getElem
    {size : ℕ} {slots : List (Fin size × RequestInfo)} {n : ℕ}
    (hn : n < slots.length) (hfree : Free slots[n].2)
    (hbefore : ∀ j, (hj : j < n) → ¬ Free slots[j].2)
    (maxRequestTime : UInt64) (index : Fin size) :
    requestIndex slots maxRequestTime index = slots[n].1 := by
  induction slots generalizing n maxRequestTime index with
  | nil => exact absurd hn (Nat.not_lt_zero n)
  | cons slot slots ih =>
      obtain ⟨i, request⟩ := slot
      cases n with
      | zero =>
          have hfirst : request.userID = 0 ∨ request.isValid = 0 := hfree
          simp [requestIndex, hfirst]
      | succ n =>
          have hfirst : ¬ (request.userID = 0 ∨ request.isValid = 0) :=
            hbefore 0 n.succ_pos
          have hlater : n < slots.length := Nat.lt_of_succ_lt_succ hn
          have hrest : ∀ maxRequestTime index,
              requestIndex slots maxRequestTime index = slots[n].1 :=
            ih hlater hfree fun j hj => hbefore (j + 1) (Nat.succ_lt_succ hj)
          simp only [requestIndex, if_neg hfirst, hrest, ite_self,
            List.getElem_cons_succ]

/-- The call writes to the first free slot and to no other. -/
theorem addTo_requestList
    {info : ShmUserInfo} {slot : Fin maxRequestNum}
    (hfree : Free (info.requestList slot))
    (hbefore : ∀ earlier < slot, ¬ Free (info.requestList earlier))
    (call : FriendCall) :
    (call.addTo info).requestList =
      Function.update info.requestList slot
        (call.write (info.requestList slot)) := by
  have hindex : requestIndex
      (List.ofFn fun i => (i, info.requestList i)) 0 ⟨0, by decide⟩ = slot := by
    rw [requestIndex_eq_getElem (n := slot) (by simp)
      (by simpa using hfree) (by
        intro j hj
        simpa using hbefore ⟨j, hj.trans slot.isLt⟩ hj)]
    simp
  unfold FriendCall.addTo addRequest FriendCall.write
  simp only [hindex]

/-- Every call writes to one slot. -/
theorem exists_addTo_requestList (info : ShmUserInfo) (call : FriendCall) :
    ∃ slot, (call.addTo info).requestList =
      Function.update info.requestList slot
        (call.write (info.requestList slot)) :=
  ⟨_, rfl⟩

/-! ## A sequence of calls -/

/-- The call whose request is in slot `i` when the slots before `last` are
marked and `last` takes all further calls. -/
def placed (last : ℕ) (calls : List FriendCall) (i : ℕ) : Option FriendCall :=
  if i < last then calls[i]?
  else if i = last then (calls.drop last).getLast?
  else none

theorem placed_append (last : ℕ) (calls : List FriendCall) (call : FriendCall)
    (i : ℕ) :
    placed last (calls ++ [call]) i =
      if i = min calls.length last then some call
      else placed last calls i := by
  unfold placed
  rcases lt_trichotomy i last with hlt | rfl | hgt
  · simp only [if_pos hlt]
    rcases lt_trichotomy i calls.length with hin | rfl | hout
    · rw [List.getElem?_append_left hin, if_neg (by omega)]
    · rw [List.getElem?_concat_length, if_pos (by omega)]
    · rw [List.getElem?_eq_none (by simp; omega), if_neg (by omega),
        List.getElem?_eq_none (by omega)]
  · simp only [lt_irrefl, if_false, if_true]
    rcases le_or_gt i calls.length with hle | hgt
    · rw [List.drop_append_of_le_length hle, List.getLast?_concat,
        if_pos (by omega)]
    · rw [List.drop_of_length_le (by simp; omega), if_neg (by omega),
        List.drop_of_length_le hgt.le]
  · rw [if_neg (by omega), if_neg (by omega), if_neg (by omega),
      if_neg (by omega), if_neg (by omega)]

/-- The request of the call that was placed in a slot, or what was there. -/
def filled (request : RequestInfo) : Option FriendCall → RequestInfo
  | none => request
  | some call => call.write request

theorem isValid_filled (request : RequestInfo) (call : Option FriendCall) :
    (filled request call).isValid = request.isValid := by
  cases call <;> rfl

variable {info : ShmUserInfo} {calls : List FriendCall}

theorem foldl_addTo_requestList
    (hempty : ∀ slot, (info.requestList slot).userID = 0)
    (hnonzero : ∀ call ∈ calls, call.userID ≠ 0)
    {last : Fin maxRequestNum}
    (hmarked : ∀ slot < last, (info.requestList slot).isValid ≠ 0)
    (hlast : calls.length ≤ last + 1 ∨ (info.requestList last).isValid = 0)
    (slot : Fin maxRequestNum) :
    (calls.foldl FriendCall.addTo info).requestList slot =
      filled (info.requestList slot) (placed last calls slot) := by
  induction calls using List.reverseRecOn generalizing slot with
  | nil =>
      have hnone : placed last [] slot = none := by simp [placed]
      rw [hnone]
      rfl
  | append_singleton calls call ih =>
      have ih := ih (fun call hmem => hnonzero call (by simp [hmem]))
        (hlast.imp_left fun hle => by simp at hle; omega)
      rw [List.foldl_append, List.foldl_cons, List.foldl_nil, placed_append]
      -- the call goes to the first slot not filled, or to `last`
      have hbound : min calls.length last < maxRequestNum :=
        (min_le_right _ _).trans_lt last.isLt
      have hfree : Free ((calls.foldl FriendCall.addTo info).requestList
          ⟨min calls.length last, hbound⟩) := by
        rw [ih]
        rcases lt_trichotomy calls.length last with hlt | heq | hgt
        · refine Or.inl ?_
          have hnone : placed last calls (min calls.length last) = none := by
            rw [min_eq_left hlt.le, placed, if_pos hlt,
              List.getElem?_eq_none le_rfl]
          simp only [hnone, filled, hempty]
        · refine Or.inl ?_
          have hnone : placed last calls (min calls.length last) = none := by
            rw [heq, min_self, placed, if_neg (lt_irrefl _), if_pos rfl, ← heq,
              List.drop_length, List.getLast?_nil]
          simp only [hnone, filled, hempty]
        · refine Or.inr ?_
          have hvalid : (info.requestList last).isValid = 0 :=
            hlast.resolve_left (by simp; omega)
          simp only [isValid_filled, min_eq_right hgt.le, Fin.eta, hvalid]
      have hbefore : ∀ earlier : Fin maxRequestNum,
          earlier < ⟨min calls.length last, hbound⟩ →
          ¬ Free ((calls.foldl FriendCall.addTo info).requestList earlier) := by
        intro earlier hearlier
        have hlt : (earlier : ℕ) < min calls.length last := hearlier
        have hin : (earlier : ℕ) < calls.length := by omega
        have hsome : placed last calls earlier =
            some (calls.get ⟨earlier, hin⟩) := by
          rw [placed, if_pos (by omega), List.getElem?_eq_getElem hin]
          rfl
        rw [ih, Free, not_or, isValid_filled, hsome]
        exact ⟨hnonzero _ (by simp), hmarked earlier (by
          exact Fin.lt_def.mpr (by omega))⟩
      rw [addTo_requestList hfree hbefore]
      by_cases hslot : (slot : ℕ) = min calls.length last
      · have heq : slot = ⟨min calls.length last, hbound⟩ := Fin.ext hslot
        rw [if_pos hslot, heq, Function.update_self, ih]
        cases placed last calls (min calls.length last) <;> rfl
      · have hne : slot ≠ ⟨min calls.length last, hbound⟩ :=
          fun heq => hslot (congrArg Fin.val heq)
        rw [if_neg hslot, Function.update_of_ne hne, ih]

/-! ## What is kept -/

/-- The slot records the request of the call. -/
def Records (request : RequestInfo) (call : FriendCall) : Prop :=
  request.userID = call.userID ∧
    request.nickName = snprintf maxNameLength call.strNickName ∧
    request.requestTime = call.requestTime

/-- After the calls, the record has the request of every one of them. -/
def RequestsKept (users : UserMap) (otherUserID : UInt64)
    (calls : List FriendCall) : Prop :=
  ∃ info,
    (calls.foldl (FriendCall.perform otherUserID) users).get otherUserID =
      some info ∧
    ∀ call ∈ calls, ∃ slot, Records (info.requestList slot) call

/-- The call replaces one request of the record and leaves the others. -/
def OneReplaced (users : UserMap) (otherUserID : UInt64) (before : ShmUserInfo)
    (call : FriendCall) : Prop :=
  ∃ info, (call.perform otherUserID users).get otherUserID = some info ∧
    ∃ slot, Records (info.requestList slot) call ∧
      ∀ other ≠ slot, info.requestList other = before.requestList other

theorem oneReplaced
    {users : UserMap} {otherUserID : UInt64}
    (hget : users.get otherUserID = some info) (call : FriendCall) :
    OneReplaced users otherUserID info call := by
  obtain ⟨slot, hslot⟩ := exists_addTo_requestList info call
  refine ⟨call.addTo info, get_foldl_perform hget [call], slot, ?_, ?_⟩
  · rw [hslot, Function.update_self]
    exact ⟨rfl, rfl, rfl⟩
  · intro other hne
    rw [hslot, Function.update_of_ne hne]

theorem requestsKept_iff_records
    {users : UserMap} {otherUserID : UInt64}
    (hget : users.get otherUserID = some info) :
    RequestsKept users otherUserID calls ↔
      ∀ call ∈ calls, ∃ slot,
        Records ((calls.foldl FriendCall.addTo info).requestList slot) call := by
  unfold RequestsKept
  rw [get_foldl_perform hget]
  constructor
  · rintro ⟨_, ⟨rfl⟩, hall⟩
    exact hall
  · intro hall
    exact ⟨_, rfl, hall⟩

theorem records_of_marked
    (hempty : ∀ slot, (info.requestList slot).userID = 0)
    (hnonzero : ∀ call ∈ calls, call.userID ≠ 0)
    (hmax : calls.length ≤ maxRequestNum)
    (hmarked : ∀ slot : Fin maxRequestNum, slot + 1 < calls.length →
      (info.requestList slot).isValid ≠ 0)
    {call : FriendCall} (hcall : call ∈ calls) :
    ∃ slot, Records
      ((calls.foldl FriendCall.addTo info).requestList slot) call := by
  obtain ⟨n, hn, rfl⟩ := List.getElem_of_mem hcall
  have hlast : calls.length - 1 < maxRequestNum := by omega
  refine ⟨⟨n, by omega⟩, ?_⟩
  have hbefore : ∀ slot < (⟨calls.length - 1, hlast⟩ : Fin maxRequestNum),
      (info.requestList slot).isValid ≠ 0 := by
    intro slot hslot
    have hlt : (slot : ℕ) < calls.length - 1 := hslot
    exact hmarked slot (by omega)
  rw [foldl_addTo_requestList hempty hnonzero hbefore
    (Or.inl (by simp only; omega))]
  · have hplaced : placed (calls.length - 1) calls n = some calls[n] := by
      unfold placed
      by_cases hlt : n < calls.length - 1
      · rw [if_pos hlt, List.getElem?_eq_getElem hn]
      · have heq : n = calls.length - 1 := by omega
        rw [if_neg hlt, if_pos heq, List.getLast?_drop, if_neg (by omega),
          List.getLast?_eq_getElem?, ← heq, List.getElem?_eq_getElem hn]
    simp only [hplaced]
    exact ⟨rfl, rfl, rfl⟩

/-- A slot without a mark is overwritten by the call after the one that takes
it. -/
theorem not_records_of_unmarked
    (hempty : ∀ slot, (info.requestList slot).userID = 0)
    (hnonzero : ∀ call ∈ calls, call.userID ≠ 0)
    (hdistinct : (calls.map FriendCall.userID).Nodup)
    {last : Fin maxRequestNum} (hlast : last + 1 < calls.length)
    (hmarked : ∀ slot < last, (info.requestList slot).isValid ≠ 0)
    (hunmarked : (info.requestList last).isValid = 0)
    (slot : Fin maxRequestNum) :
    ¬ Records ((calls.foldl FriendCall.addTo info).requestList slot)
      (calls.get ⟨last, by omega⟩) := by
  rintro ⟨huser, -, -⟩
  rw [foldl_addTo_requestList hempty hnonzero hmarked (Or.inr hunmarked)]
    at huser
  have hother : ∀ n, (hn : n < calls.length) → n ≠ last →
      (calls.get ⟨n, hn⟩).userID ≠ (calls.get ⟨last, by omega⟩).userID := by
    intro n hn hne heq
    have hcall := List.inj_on_of_nodup_map hdistinct (List.get_mem _ _)
      (List.get_mem _ _) heq
    exact hne (congrArg Fin.val
      ((List.Nodup.get_inj_iff (hdistinct.of_map _)).mp hcall))
  unfold placed at huser
  split_ifs at huser with hlt heq
  · rw [List.getElem?_eq_getElem (by omega)] at huser
    exact hother slot (by omega) hlt.ne huser
  · rw [List.getLast?_drop, if_neg (by omega), List.getLast?_eq_getElem?,
      List.getElem?_eq_getElem (by omega)] at huser
    exact hother (calls.length - 1) (by omega) (by omega) huser
  · exact hnonzero _ (List.get_mem _ _) (huser.symm.trans (hempty slot))

/-- The requests of distinct users to a record with an empty list are all kept
exactly when the slots before the last one needed are marked already; a call on
any list replaces one request. -/
theorem friend_requests_kept_iff
    {users : UserMap} {otherUserID : UInt64}
    (hget : users.get otherUserID = some info)
    (hempty : ∀ slot, (info.requestList slot).userID = 0)
    (hmax : calls.length ≤ maxRequestNum)
    (hdistinct : (calls.map FriendCall.userID).Nodup)
    (hnonzero : ∀ call ∈ calls, call.userID ≠ 0) :
    (RequestsKept users otherUserID calls ↔
      ∀ slot : Fin maxRequestNum, slot + 1 < calls.length →
        (info.requestList slot).isValid ≠ 0) ∧
    ∀ (users : UserMap) (otherUserID : UInt64) (full : ShmUserInfo),
      users.get otherUserID = some full →
      ∀ call, OneReplaced users otherUserID full call := by
  refine ⟨?_, fun users otherUserID full hget call => oneReplaced hget call⟩
  rw [requestsKept_iff_records hget]
  constructor
  · intro hkept slot hslot hunmarked
    -- the first slot without a mark is the one that is overwritten
    induction slot using WellFoundedLT.induction with
    | ind slot ih =>
        have hmarked : ∀ earlier < slot,
            (info.requestList earlier).isValid ≠ 0 := fun earlier hlt =>
          ih earlier hlt (by have := Fin.lt_def.mp hlt; omega)
        obtain ⟨place, hrecords⟩ := hkept
          (calls.get ⟨slot, by omega⟩) (List.get_mem _ _)
        exact not_records_of_unmarked hempty hnonzero hdistinct hslot hmarked
          hunmarked place hrecords
  · intro hmarked call hcall
    exact records_of_marked hempty hnonzero hmax hmarked hcall

/-! ## Users 7 and 9 -/

/-- The record of user 5, as it is made. -/
def newUser : ShmUserInfo := { (default : ShmUserInfo) with userID := 5 }

def soleUser : UserMap :=
  (BoundedMap.empty UInt64 ShmUserInfo 2).put 5 newUser (show 0 < 2 by decide)

theorem get_soleUser : soleUser.get 5 = some newUser :=
  BoundedMap.get_put_self _

theorem friend_request_kept :
    RequestsKept soleUser 5 [⟨7, [97], 1700000000, 1700000000⟩] :=
  ((friend_requests_kept_iff get_soleUser (fun _ => rfl) (by decide) (by decide)
    (by decide)).1).mpr fun slot hslot => absurd hslot (by simp)

theorem friend_request_lost :
    ¬ ∀ (users : UserMap) (otherUserID : UInt64) (info : ShmUserInfo)
        (calls : List FriendCall), users.get otherUserID = some info →
      (∀ slot, (info.requestList slot).userID = 0) →
      calls.length ≤ maxRequestNum →
      (calls.map FriendCall.userID).Nodup →
      (∀ call ∈ calls, call.userID ≠ 0) →
      RequestsKept users otherUserID calls := by
  intro hall
  have hkept := hall soleUser 5 _
    [⟨7, [97], 1700000000, 1700000000⟩, ⟨9, [98], 1700000001, 1700000001⟩]
    get_soleUser (fun _ => rfl) (by decide) (by decide) (by decide)
  obtain ⟨slot, hrecords⟩ := (requestsKept_iff_records get_soleUser).mp hkept
    ⟨7, [97], 1700000000, 1700000000⟩ List.mem_cons_self
  have hbefore : ∀ earlier < (⟨0, by decide⟩ : Fin maxRequestNum),
      (newUser.requestList earlier).isValid ≠ 0 :=
    fun earlier hlt => absurd hlt (Nat.not_lt_zero _)
  exact not_records_of_unmarked (fun _ => rfl) (by decide) (by decide)
    (by decide) hbefore rfl slot hrecords

end MessageBus.User
