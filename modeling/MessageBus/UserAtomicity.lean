import MessageBus.UserSectionRuns

/-!
# The shared user map is atomic

The sections of `CUserShmApi` follow the discipline of `LockDiscipline`: the
chain of a bucket is used under its byte of the lock file only, the free list
under the byte of the head.
-/

namespace MessageBus.User

open Shared HashList HashList.CHashListNoLock Locked
open Conn

/-! ## Which byte protects a cell -/

/-- Byte 1 of the lock file is never locked by an operation. -/
def regionByte : Region → ℕ
  | .free => lockHashListHead
  | .bucket iHashVal => lockIndex iHashVal
  | .outside => 1

noncomputable def shmOwnership (maxUserNodeNum : ℕ) :
    Ownership ℕ (Cell.Value Field.Value) where
  owner memory cell := regionByte (cellRegion maxUserNodeNum memory cell)
  fixed := fixedCell
  good := goodCell maxUserNodeNum

section Sections

variable {maxUserNodeNum : ℕ}

theorem locks_pairwise (checkUserPos : Fin maxUserNodeNum) (call : ShmCall) :
    (shmSection maxUserNodeNum checkUserPos call).locks.Pairwise (· < ·) := by
  cases call with
  | insertUserInfo info =>
      simp only [shmSection]
      split_ifs
      · exact .nil
      · simp [lockHashListHead, lockUser]
  | removeUserInfo userID => simp [shmSection, lockHashListHead, lockUser]
  | removeUserInfoWhenInValid userID =>
      simp [shmSection, lockHashListHead, lockUser]
  | getUserInfo userID info => simp [shmSection]
  | updateUserInfo newUserInfo => simp [shmSection]
  | addFriendReq userID otherUserID strNickName => simp [shmSection]
  | checkUserIsValid vct => simp [shmSection]

theorem one_notMem_locks (checkUserPos : Fin maxUserNodeNum) (call : ShmCall) :
    1 ∉ (shmSection maxUserNodeNum checkUserPos call).locks := by
  have huser (userID : UInt64) : 1 ≠ lockUser maxUserNodeNum userID := by
    unfold lockUser
    omega
  have hindex (index : ℕ) : 1 ≠ lockIndex index := by
    unfold lockIndex
    omega
  cases call with
  | insertUserInfo info =>
      simp only [shmSection]
      split_ifs
      · exact List.not_mem_nil
      · simp [lockHashListHead, huser]
  | removeUserInfo userID => simp [shmSection, lockHashListHead, huser]
  | removeUserInfoWhenInValid userID =>
      simp [shmSection, lockHashListHead, huser]
  | getUserInfo userID info => simp [shmSection, huser]
  | updateUserInfo newUserInfo => simp [shmSection, huser]
  | addFriendReq userID otherUserID strNickName => simp [shmSection, huser]
  | checkUserIsValid vct => simp [shmSection, hindex]

/-! ## What the sections touch -/

section Confines

open Part

variable {owns : Cell Field → Prop} {ipData : ℤ}

theorem confines_requestLoop
    (hnode : NodeOwned owns ipData) (places : List (Fin maxRequestNum))
    (maxRequestTime : UInt64) (index : Fin maxRequestNum) :
    (cellPart Field.Value maxUserNodeNum owns).Confines (fun _ => True)
      (requestLoop ipData places maxRequestTime index) := by
  induction places generalizing maxRequestTime index with
  | nil => exact trivial
  | cons i places ih =>
      rw [requestLoop, load_bind, confines_load]
      refine ⟨Or.inl (hnode.data _), fun userID _ => ?_⟩
      split_ifs
      · exact trivial
      · rw [load_bind, confines_load]
        refine ⟨Or.inl (hnode.data _), fun isValid _ => ?_⟩
        split_ifs
        · exact trivial
        · rw [load_bind, confines_load]
          refine ⟨Or.inl (hnode.data _), fun requestTime _ => ?_⟩
          split_ifs
          · rw [load_bind, confines_load]
            exact ⟨Or.inl (hnode.data _), fun _ _ => ih _ _⟩
          · exact ih _ _

theorem confines_snprintfCells
    (hnode : NodeOwned owns ipData) (text : TextField) (i : ℕ)
    (bytes : Text) :
    (cellPart Field.Value maxUserNodeNum owns).Confines (fun _ => True)
      (snprintfCells ipData text i bytes) := by
  induction bytes generalizing i with
  | nil =>
      rw [snprintfCells]
      split_ifs
      · rw [store, confines_store]
        exact ⟨hnode.data _, trivial, trivial⟩
      · exact trivial
  | cons byte bytes ih =>
      rw [snprintfCells]
      split_ifs
      · rw [store_bind, confines_store]
        exact ⟨hnode.data _, trivial, ih _⟩
      · exact trivial

variable {userID : UInt64}

theorem confines_removeUserInfoCode
    (hhead : HeadOwned owns)
    (hbucket : BucketOwned owns (hashVal maxUserNodeNum userID)) :
    (cellPart Field.Value maxUserNodeNum owns).Confines (fun _ => True)
      (removeUserInfoCode maxUserNodeNum userID) := by
  rw [removeUserInfoCode, confines_bind]
  exact (confines_remove hhead hbucket).mono fun _ _ => trivial

theorem confines_removeUserInfoWhenInValidCode
    (hhead : HeadOwned owns)
    (hbucket : BucketOwned owns (hashVal maxUserNodeNum userID)) :
    (cellPart Field.Value maxUserNodeNum owns).Confines (fun _ => True)
      (removeUserInfoWhenInValidCode maxUserNodeNum userID) := by
  rw [removeUserInfoWhenInValidCode, confines_bind]
  apply (confines_get hbucket).mono
  intro ipData hpointer
  split_ifs with hnull
  · exact trivial
  · have hnode := hpointer.resolve_left hnull
    rw [clock_bind, confines_clock]
    intro nowTime
    rw [load_bind, confines_load]
    refine ⟨Or.inl (hnode.data _), fun lastActiveTime _ => ?_⟩
    split_ifs
    · exact trivial
    · exact confines_removeUserInfoCode hhead hbucket

theorem confines_addFriendReqCode
    {otherUserID : UInt64} {strNickName : Text}
    (hbucket : BucketOwned owns (hashVal maxUserNodeNum otherUserID)) :
    (cellPart Field.Value maxUserNodeNum owns).Confines (fun _ => True)
      (addFriendReqCode maxUserNodeNum userID otherUserID strNickName) := by
  rw [addFriendReqCode, confines_bind]
  apply (confines_get hbucket).mono
  intro ipData hpointer
  split_ifs with hnull
  · exact trivial
  · have hnode := hpointer.resolve_left hnull
    rw [confines_bind]
    apply (confines_requestLoop hnode _ _ _).mono
    intro index _
    rw [store_bind, confines_store]
    refine ⟨hnode.data _, trivial, ?_⟩
    rw [confines_bind]
    apply (confines_snprintfCells hnode _ _ _).mono
    intro _ _
    simp only [clock_bind, store_bind, confines_clock, confines_store]
    exact fun _ => ⟨hnode.data _, trivial,
      fun _ => ⟨hnode.data _, trivial, trivial⟩⟩

theorem confines_memFullCallBack
    (hnode : NodeOwned owns ipData) (vct : List UInt64) :
    (cellPart Field.Value maxUserNodeNum owns).Confines (fun _ => True)
      (memFullCallBack userID ipData vct) := by
  rw [memFullCallBack, clock_bind, confines_clock]
  intro nowTime
  rw [load_bind, confines_load]
  refine ⟨Or.inl (hnode.data _), fun lastActiveTime _ => ?_⟩
  split_ifs
  · exact trivial
  · exact trivial

end Confines

/-- The cells that a process with these bytes may use. -/
def bytesOwn (maxUserNodeNum : ℕ) (memory : ShmMemory) (bytes : List ℕ)
    (cell : Cell Field) : Prop :=
  regionByte (cellRegion maxUserNodeNum memory cell) ∈ bytes

section Bytes

variable {memory : ShmMemory} {bytes : List ℕ}

theorem headOwned_of_mem (hbytes : lockHashListHead ∈ bytes) :
    HeadOwned (bytesOwn maxUserNodeNum memory bytes) := ⟨hbytes, hbytes⟩

theorem bucketOwned_of_mem
    {index : ℕ} (hindex : index < maxUserNodeNum)
    (hbytes : lockIndex index ∈ bytes) :
    BucketOwned (bytesOwn maxUserNodeNum memory bytes) index := by
  have hrange : (0 : ℤ) ≤ index ∧ (index : ℤ) < maxUserNodeNum := by omega
  constructor
  · rw [bytesOwn, cellRegion, if_pos hrange]
    exact hbytes
  · rw [bytesOwn, cellRegion, if_pos hrange]
    exact hbytes

theorem bucketOwned_of_lockUser
    {userID : UInt64} (hpos : 0 < maxUserNodeNum)
    (hbytes : lockUser maxUserNodeNum userID ∈ bytes) :
    BucketOwned (bytesOwn maxUserNodeNum memory bytes)
      (hashVal maxUserNodeNum userID) :=
  bucketOwned_of_mem (Nat.mod_lt _ hpos) hbytes

theorem confines_section
    (memory : ShmMemory) (checkUserPos : Fin maxUserNodeNum)
    (call : ShmCall) :
    (cellPart Field.Value maxUserNodeNum (bytesOwn maxUserNodeNum memory
      (shmSection maxUserNodeNum checkUserPos call).locks)).Confines
        (fun _ => True)
        (shmSection maxUserNodeNum checkUserPos call).body := by
  have hpos := checkUserPos.pos
  cases call with
  | insertUserInfo info =>
      simp only [shmSection]
      split_ifs
      · exact trivial
      · rw [Part.confines_bind, insertUserInfoCode, Part.confines_bind]
        exact (confines_insert (headOwned_of_mem (by simp))
          (bucketOwned_of_lockUser hpos (by simp))).mono fun _ _ => trivial
  | removeUserInfo userID =>
      rw [shmSection, Part.confines_bind]
      exact (confines_removeUserInfoCode (headOwned_of_mem (by simp))
        (bucketOwned_of_lockUser hpos (by simp))).mono fun _ _ => trivial
  | removeUserInfoWhenInValid userID =>
      rw [shmSection, Part.confines_bind]
      exact (confines_removeUserInfoWhenInValidCode
        (headOwned_of_mem (by simp))
        (bucketOwned_of_lockUser hpos (by simp))).mono fun _ _ => trivial
  | getUserInfo userID info =>
      rw [shmSection, Part.confines_bind, getUserInfoCode, Part.confines_bind]
      exact (confines_getData
        (bucketOwned_of_lockUser hpos (by simp))).mono fun _ _ => trivial
  | updateUserInfo newUserInfo =>
      rw [shmSection, Part.confines_bind, updateUserInfoCode,
        Part.confines_bind]
      exact (confines_update
        (bucketOwned_of_lockUser hpos (by simp))).mono fun _ _ => trivial
  | addFriendReq userID otherUserID strNickName =>
      rw [shmSection, Part.confines_bind]
      exact (confines_addFriendReqCode
        (bucketOwned_of_lockUser hpos (by simp))).mono fun _ _ => trivial
  | checkUserIsValid vct =>
      rw [shmSection, Part.confines_bind]
      exact (confines_processAll
        (fun _ _ vct hnode => confines_memFullCallBack hnode vct)
        (bucketOwned_of_mem checkUserPos.isLt (by simp)) vct).mono
        fun _ _ => trivial

end Bytes

theorem regionByte_eq_one_of_fixed
    {memory : ShmMemory} {cell : Cell Field} (hfixed : fixedCell cell) :
    regionByte (cellRegion maxUserNodeNum memory cell) = 1 := by
  cases cell with
  | iTotalDataNodeNum => rfl
  | iIndexNodeNum => rfl
  | _ => exact hfixed.elim

variable (maxUserNodeNum)

noncomputable def shmDiscipline : Discipline (shmSection maxUserNodeNum) where
  toOwnership := shmOwnership maxUserNodeNum
  Valid memory := ∃ users, Holds maxUserNodeNum memory users
  increasing := locks_pairwise
  fixed_free := by
    intro memory checkUserPos call cell _ hfixed
    change regionByte (cellRegion maxUserNodeNum memory cell) ∉ _
    rw [regionByte_eq_one_of_fixed hfixed]
    exact one_notMem_locks checkUserPos call
  closed := by
    rintro memory checkUserPos call ⟨users, chains, free, h⟩
    exact closed_of_represents (fun region => regionByte region ∈
        (shmSection maxUserNodeNum checkUserPos call).locks) h
      (one_notMem_locks checkUserPos call)
  confined := by
    intro memory checkUserPos call _
    exact confines_section memory checkUserPos call
  ends := by
    rintro memory checkUserPos call ⟨users, hholds⟩
    obtain ⟨count, hperforms⟩ := performs_section hholds checkUserPos call
    exact ⟨count, fun readings hcount => hperforms.isSome hcount⟩
  keeps := by
    rintro memory checkUserPos call readings value after ⟨users, hholds⟩ hrun
    obtain ⟨count, hperforms⟩ := performs_section hholds checkUserPos call
    obtain ⟨users', -, -, hafter⟩ := hperforms.post_of_run hrun
    exact ⟨users', hafter⟩
  moves := by
    rintro memory checkUserPos call after ⟨users, chains, free, h⟩
      ⟨users', chains', free', hafter⟩ hagree cell
    rcases cellRegion_moves (fun region => regionByte region ∈
        (shmSection maxUserNodeNum checkUserPos call).locks) h hafter hagree
      cell with hsame | hheld
    · exact Or.inl (congrArg regionByte hsame)
    · exact Or.inr hheld

end Sections

/-! ## The processes -/

section Processes

variable {Process : Type} {maxUserNodeNum : ℕ}

abbrev ShmState (Process : Type) (maxUserNodeNum : ℕ) : Type :=
  Locked.State Process ℕ (Cell.Value Field.Value) UInt64 (Fin maxUserNodeNum) ShmCall
    ShmAnswer

/-- The next step of the process is an access to the cell. -/
def Accesses (state : ShmState Process maxUserNodeNum) (process : Process)
    (cell : Cell Field) : Prop :=
  (∃ call held readings next, state.phase process =
    .running call held readings (.call (.load cell) next)) ∨
  ∃ call held readings value next, state.phase process =
    .running call held readings (.call (.store cell value) next)

/-- A loop of the process has not ended within the number of nodes. -/
def Spins (state : ShmState Process maxUserNodeNum) (process : Process) :
    Prop :=
  ∃ call held readings next, state.phase process =
    .running call held readings (.call .spin next)

/-- The cell is part of the chain of the bucket, or of a record in it. -/
def InBucket (memory : ShmMemory) (bucket : ℕ) : Cell Field → Prop
  | .iDataNodeNum iHashVal => iHashVal = bucket
  | .ipDataNodeList iHashVal => iHashVal = bucket
  | .keyVal ipData =>
      IndexChain.Leads (successor memory) 0 (memory (.ipDataNodeList bucket))
        ipData
  | .ipNextDataNode ipData =>
      IndexChain.Leads (successor memory) 0 (memory (.ipDataNodeList bucket))
        ipData
  | .data ipData _ =>
      IndexChain.Leads (successor memory) 0 (memory (.ipDataNodeList bucket))
        ipData
  | _ => False

/-- The cell is the used counter or part of the free list. -/
def InFreeList (memory : ShmMemory) : Cell Field → Prop
  | .iUsedDataNodeNum => True
  | .ipFreeDataNodeList => True
  | .keyVal ipData =>
      IndexChain.Leads (successor memory) 0 (memory .ipFreeDataNodeList) ipData
  | .ipNextDataNode ipData =>
      IndexChain.Leads (successor memory) 0 (memory .ipFreeDataNodeList) ipData
  | .data ipData _ =>
      IndexChain.Leads (successor memory) 0 (memory .ipFreeDataNodeList) ipData
  | _ => False

variable [DecidableEq Process]

/-- The calls one after the other, on the map. -/
inductive Applied (users : UserMap) (locals : Process → Fin maxUserNodeNum) :
    List (Locked.Call Process UInt64 ShmCall ShmAnswer) → UserMap →
      (Process → Fin maxUserNodeNum) → Prop where
  | nil : Applied users locals [] users locals
  | snoc {calls : List (Locked.Call Process UInt64 ShmCall ShmAnswer)}
      {call : Locked.Call Process UInt64 ShmCall ShmAnswer}
      {before after : UserMap} {present : Process → Fin maxUserNodeNum}
      (hcalls : Applied users locals calls before present)
      (heffect : Effect maxUserNodeNum before (present call.process)
        call.request call.readings call.answer after) :
      Applied users locals (calls ++ [call]) after
        (Function.update present call.process
          (nextCheckUserPos (present call.process) call.request))

variable {start memory : ShmMemory} {users : UserMap}
  {locals : Process → Fin maxUserNodeNum}
  {state : ShmState Process maxUserNodeNum}

theorem exists_applied
    (hstart : Holds maxUserNodeNum start users)
    {calls : List (Locked.Call Process UInt64 ShmCall ShmAnswer)}
    {present : Process → Fin maxUserNodeNum}
    (hserial : Locked.Serial (shmSection maxUserNodeNum) start locals calls memory
      present) :
    ∃ users', Applied users locals calls users' present ∧
      Holds maxUserNodeNum memory users' := by
  induction hserial with
  | nil => exact ⟨users, .nil, hstart⟩
  | snoc _ hrun ih =>
      obtain ⟨before, happlied, hbefore⟩ := ih
      obtain ⟨count, hperforms⟩ := performs_section hbefore _ _
      obtain ⟨after, heffect, hpos, hafter⟩ := hperforms.post_of_run hrun
      dsimp only at heffect hpos
      subst hpos
      exact ⟨after, happlied.snoc heffect, hafter⟩

/-! ### Accesses -/

omit [DecidableEq Process] in
theorem active_of_accesses
    {process : Process} {cell : Cell Field}
    (hcell : Accesses state process cell) : (state.phase process).Active := by
  rcases hcell with ⟨_, _, _, _, hphase⟩ | ⟨_, _, _, _, _, hphase⟩
  · rw [hphase]
    trivial
  · rw [hphase]
    trivial

/-- An access is made to a cell of a byte that is held, or to a fixed one. -/
theorem owner_of_accesses
    (h : Serialized (shmDiscipline maxUserNodeNum) start locals state memory)
    {process : Process} {cell : Cell Field}
    (hcell : Accesses state process cell) (hfixed : ¬ fixedCell cell) :
    regionByte (cellRegion maxUserNodeNum memory cell) ∈
      (state.phase process).held := by
  rcases hcell with ⟨_, _, _, _, hphase⟩ | ⟨_, _, _, _, _, hphase⟩
  · have hreads := (Part.confines_load.mp (h.inProgress hphase).confines).1
    rw [hphase]
    exact hreads.resolve_right hfixed
  · have howns := (Part.confines_store.mp (h.inProgress hphase).confines).1
    rw [hphase]
    exact howns

/-- The pointers of the memory stay among the cells that are held together. -/
theorem exists_closed
    (h : Serialized (shmDiscipline maxUserNodeNum) start locals state memory)
    {byte : ℕ} (hbyte : byte ≠ 1) :
    ∃ bytes, byte ∈ bytes ∧
      (cellPart Field.Value maxUserNodeNum
        (bytesOwn maxUserNodeNum memory bytes)).Closed state.memory ∧
      ((∃ process, (state.phase process).held = bytes) ∨
        bytes = [byte] ∧ ∀ process, (state.phase process).Active →
          byte ∉ (state.phase process).held) := by
  by_cases hactive : ∃ process, (state.phase process).Active ∧
      byte ∈ (state.phase process).held
  · obtain ⟨process, hactive, hheld⟩ := hactive
    refine ⟨(state.phase process).held, hheld, ?_, Or.inl ⟨process, rfl⟩⟩
    cases hphase : state.phase process with
    | running call held readings code => exact (h.inProgress hphase).closed
    | idle => rw [hphase] at hactive; exact hactive.elim
    | locking call held remaining =>
        rw [hphase] at hactive
        exact hactive.elim
    | unlocking held => rw [hphase] at hactive; exact hactive.elim
  · have hnone (process : Process) (hprocess : (state.phase process).Active) :
        byte ∉ (state.phase process).held := fun hheld =>
      hactive ⟨process, hprocess, hheld⟩
    refine ⟨[byte], List.mem_singleton_self byte, ?_, Or.inr ⟨rfl, hnone⟩⟩
    obtain ⟨users', chains, free, hvalid⟩ := h.valid
    have hclosed := closed_of_represents
      (fun region => regionByte region ∈ [byte]) hvalid
      (by simpa [regionByte] using hbyte.symm)
    intro cell hcell
    have hsame : state.memory cell = memory cell := by
      rcases hcell with howned | hfixed
      · apply h.settled
        intro process hprocess
        rw [show (shmDiscipline maxUserNodeNum).owner memory cell = byte from
          List.mem_singleton.mp howned]
        exact hnone process hprocess
      · exact h.memory_of_fixed hfixed
    rw [hsame]
    exact hclosed cell hcell

omit [DecidableEq Process] in
/-- What the pointers lead to from a cell is held with it. -/
theorem nodeOwned_of_leads
    {owns : Cell Field → Prop} {first ipData : ℤ}
    (hclosed : (cellPart Field.Value maxUserNodeNum owns).Closed state.memory)
    (hfirst : PointerOwned owns first)
    (hleads : IndexChain.Leads (successor state.memory) 0 first ipData) :
    NodeOwned owns ipData := by
  induction hleads with
  | here hnull => exact hfirst.resolve_left hnull
  | @there first node hnull _ ih =>
      have hnode := hfirst.resolve_left hnull
      exact ih (hclosed (.ipNextDataNode first) (Or.inl hnode.next))

/-- A process at a node that is met from a cell of the byte holds the byte. -/
theorem held_of_leads
    (h : Serialized (shmDiscipline maxUserNodeNum) start locals state memory)
    {process : Process} {cell first : Cell Field} {byte : ℕ} {ipData : ℤ}
    {pointer : ℤ} (hbyte : byte ≠ 1)
    (hfirst : regionByte (cellRegion maxUserNodeNum memory first) = byte)
    (hgood : ∀ owns : Cell Field → Prop,
      goodCell maxUserNodeNum owns first (state.memory first) →
        PointerOwned owns pointer)
    (hleads : IndexChain.Leads (successor state.memory) 0 pointer ipData)
    (hcell : Accesses state process cell) (hfixed : ¬ fixedCell cell)
    (hnode : cellRegion maxUserNodeNum memory cell =
      nodeRegion maxUserNodeNum memory ipData) :
    byte ∈ (state.phase process).held := by
  have hheld := owner_of_accesses h hcell hfixed
  obtain ⟨bytes, hmem, hclosed, hwho⟩ := exists_closed h hbyte
  have hpointer : PointerOwned (bytesOwn maxUserNodeNum memory bytes)
      pointer := by
    apply hgood
    apply hclosed first
    left
    change regionByte (cellRegion maxUserNodeNum memory first) ∈ bytes
    rw [hfirst]
    exact hmem
  have howned : regionByte (nodeRegion maxUserNodeNum memory ipData) ∈ bytes :=
    (nodeOwned_of_leads hclosed hpointer hleads).keyVal
  rw [hnode] at hheld
  rcases hwho with ⟨other, hother⟩ | ⟨rfl, hnone⟩
  · have hsame : process = other := by
      apply h.eq_of_held hheld
      rw [hother]
      exact howned
    rw [hsame, hother]
    exact hmem
  · rw [List.mem_singleton.mp howned] at hheld
    exact (hnone process (active_of_accesses hcell) hheld).elim

theorem holder_of_inBucket
    (h : Serialized (shmDiscipline maxUserNodeNum) start locals state memory)
    {process : Process} {cell : Cell Field} {bucket : ℕ}
    (hbucket : bucket < maxUserNodeNum)
    (hcell : Accesses state process cell)
    (hin : InBucket state.memory bucket cell) :
    state.holder (lockIndex bucket) = some process := by
  have hbyte : lockIndex bucket ≠ 1 := by
    unfold lockIndex
    omega
  have hrange : (0 : ℤ) ≤ bucket ∧ (bucket : ℤ) < maxUserNodeNum := by omega
  have hlist : regionByte (cellRegion maxUserNodeNum memory
      (.ipDataNodeList bucket)) = lockIndex bucket := by
    rw [cellRegion, if_pos hrange]
    rfl
  have hnum : regionByte (cellRegion maxUserNodeNum memory
      (.iDataNodeNum bucket)) = lockIndex bucket := by
    rw [cellRegion, if_pos hrange]
    rfl
  rw [h.holder_iff]
  cases cell with
  | iTotalDataNodeNum => exact hin.elim
  | iUsedDataNodeNum => exact hin.elim
  | iIndexNodeNum => exact hin.elim
  | ipFreeDataNodeList => exact hin.elim
  | iDataNodeNum iHashVal =>
      rw [show iHashVal = bucket from hin] at hcell
      rw [← hnum]
      exact owner_of_accesses h hcell id
  | ipDataNodeList iHashVal =>
      rw [show iHashVal = bucket from hin] at hcell
      rw [← hlist]
      exact owner_of_accesses h hcell id
  | keyVal ipData =>
      exact held_of_leads h hbyte hlist (fun _ => id) hin hcell id rfl
  | ipNextDataNode ipData =>
      exact held_of_leads h hbyte hlist (fun _ => id) hin hcell id rfl
  | data ipData field =>
      exact held_of_leads h hbyte hlist (fun _ => id) hin hcell id rfl

theorem holder_of_inFreeList
    (h : Serialized (shmDiscipline maxUserNodeNum) start locals state memory)
    {process : Process} {cell : Cell Field}
    (hcell : Accesses state process cell)
    (hin : InFreeList state.memory cell) :
    state.holder lockHashListHead = some process := by
  have hbyte : lockHashListHead ≠ 1 := by decide
  have hfree : regionByte (cellRegion maxUserNodeNum memory
      .ipFreeDataNodeList) = lockHashListHead := rfl
  rw [h.holder_iff]
  cases cell with
  | iTotalDataNodeNum => exact hin.elim
  | iIndexNodeNum => exact hin.elim
  | iDataNodeNum iHashVal => exact hin.elim
  | ipDataNodeList iHashVal => exact hin.elim
  | iUsedDataNodeNum => exact owner_of_accesses h hcell id
  | ipFreeDataNodeList => exact owner_of_accesses h hcell id
  | keyVal ipData =>
      exact held_of_leads h hbyte hfree (fun _ => id) hin hcell id rfl
  | ipNextDataNode ipData =>
      exact held_of_leads h hbyte hfree (fun _ => id) hin hcell id rfl
  | data ipData field =>
      exact held_of_leads h hbyte hfree (fun _ => id) hin hcell id rfl

/-! ### Removing a record -/

theorem Applied.split
    {earlier later : List (Locked.Call Process UInt64 ShmCall ShmAnswer)}
    {after : UserMap} {present : Process → Fin maxUserNodeNum}
    (happlied : Applied users locals (earlier ++ later) after present) :
    ∃ before present', Applied users locals earlier before present' := by
  induction later using List.reverseRecOn generalizing after present with
  | nil =>
      rw [List.append_nil] at happlied
      exact ⟨after, present, happlied⟩
  | append_singleton later call ih =>
      rw [← List.append_assoc] at happlied
      generalize hcalls : earlier ++ later ++ [call] = calls at happlied
      cases happlied with
      | nil => simp at hcalls
      | snoc hbefore _ =>
          have hinit := (List.append_inj' hcalls rfl).1
          rw [← hinit] at hbefore
          exact ih hbefore

/-- `RemoveUserInfoWhenInValid` keeps a record that is valid by its own reading
of the clock. -/
theorem Effect.get_of_valid
    {before after : UserMap} {checkUserPos : ℕ} {userID : UInt64}
    {readings : List UInt64} {answer : ShmAnswer} {info : ShmUserInfo}
    (heffect : Effect maxUserNodeNum before checkUserPos
      (.removeUserInfoWhenInValid userID) readings answer after)
    (hget : before.get userID = some info)
    (hvalid : ∀ nowTime ∈ readings,
      nowTime - userInvalidTime ≤ info.lastActiveTime) :
    after.get userID = some info := by
  cases heffect with
  | nothingToRemove _ => exact hget
  | removeUserInfoWhenInValid nowTime _ =>
      have hnow := hvalid nowTime (List.mem_singleton_self nowTime)
      simp only [User.removeUserInfoWhenInValid, hget, if_pos hnow]

/-! ### Every run -/

/-- For every number of processes and every order of their single steps.  The
calls are in the order in which their bodies end; a call whose body has not
ended has no effect yet. -/
theorem shared_user_map_atomic
    (hstart : Holds maxUserNodeNum start users)
    (hreach : Transition.Reaches (Locked.step (shmSection maxUserNodeNum))
      (fun _ _ => True) (Locked.initial start locals) state) :
    (∀ process cell, Accesses state process cell →
      (∀ bucket < maxUserNodeNum, InBucket state.memory bucket cell →
        state.holder (lockIndex bucket) = some process) ∧
      (InFreeList state.memory cell →
        state.holder lockHashListHead = some process)) ∧
    (∃ memory users',
      Locked.Serial (shmSection maxUserNodeNum) start locals state.finished memory
        state.locals ∧
      Applied users locals state.finished users' state.locals ∧
      Holds maxUserNodeNum memory users' ∧
      ((∀ process, ¬ (state.phase process).Active) →
        state.memory = memory)) ∧
    (∀ process, ¬ Spins state process) ∧
    (∀ earlier call later userID, state.finished = earlier ++ call :: later →
      call.request = .removeUserInfoWhenInValid userID →
      ∃ before present after present',
        Applied users locals earlier before present ∧
        Applied users locals (earlier ++ [call]) after present' ∧
        ∀ info, before.get userID = some info →
          (∀ nowTime ∈ call.readings,
            nowTime - userInvalidTime ≤ info.lastActiveTime) →
          after.get userID = some info) ∧
    ∀ process, ¬ Relation.TransGen state.Waits process process := by
  obtain ⟨memory, h⟩ := exists_serialized (shmDiscipline maxUserNodeNum)
    ⟨users, hstart⟩ hreach
  obtain ⟨users', happlied, hholds⟩ := exists_applied hstart h.serial
  refine ⟨?_, ?_, ?_, ?_, h.not_circle⟩
  · intro process cell hcell
    exact ⟨fun bucket hbucket hin => holder_of_inBucket h hbucket hcell hin,
      holder_of_inFreeList h hcell⟩
  · refine ⟨memory, users', h.serial, happlied, hholds, fun hquiet => ?_⟩
    funext cell
    exact h.settled cell fun process hactive => (hquiet process hactive).elim
  · rintro process ⟨call, held, readings, next, hphase⟩
    exact h.not_spin hphase
  · intro earlier call later userID hfinished hrequest
    rw [hfinished, List.append_cons] at happlied
    obtain ⟨after, present', hafter⟩ := happlied.split
    generalize hcalls : earlier ++ [call] = calls at hafter
    cases hafter with
    | nil => simp at hcalls
    | @snoc _ last before _ present hbefore heffect =>
        obtain ⟨hinit, hlast⟩ := List.append_inj' hcalls rfl
        cases hlast
        subst hinit
        refine ⟨before, present, after, _, hbefore, hbefore.snoc heffect,
          fun info hget hvalid => ?_⟩
        rw [hrequest] at heffect
        exact heffect.get_of_valid hget hvalid

end Processes

/-! ### A record that is refreshed and removed -/

def blankRecord : ShmRecord
  | .userID => 0
  | .status => 0
  | .lastActiveTime => 0
  | .level => 0
  | .vipLevel => 0
  | .sex => 0
  | .birthday => 0
  | .friendUserID _ => 0
  | .seeStatus _ => 0
  | .requestUserID _ => 0
  | .requestTime _ => 0
  | .requestIsValid _ => 0
  | .char _ => 0

/-- Two buckets and one record, of user 2, that was never active. -/
def oneUser : ShmMemory
  | .iTotalDataNodeNum => 2
  | .iUsedDataNodeNum => 2
  | .iIndexNodeNum => 2
  | .ipFreeDataNodeList => 0
  | .iDataNodeNum iHashVal => if iHashVal = 0 then 1 else 0
  | .ipDataNodeList iHashVal => if iHashVal = 0 then 1 else 0
  | .keyVal _ => 2
  | .ipNextDataNode _ => 0
  | .data _ field => blankRecord field

def oneUserMap : UserMap where
  capacity := 1
  store :=
    { entries := [⟨2, ShmRecord.info blankRecord⟩]
      nodupKeys := List.nodupKeys_singleton _ }
  size_le := le_rfl

theorem holds_oneUser : Holds 2 oneUser oneUserMap := by
  refine ⟨fun bucket => if bucket = 0 then [1] else [], [], ?_⟩
  have hbuckets (P : ℕ → Prop) (hzero : P 0) (hone : P 1) :
      ∀ bucket < 2, P bucket := by
    intro bucket hbucket
    interval_cases bucket
    · exact hzero
    · exact hone
  constructor
  · decide
  · decide
  · rfl
  · rfl
  · rfl
  · constructor
    · exact fun bucket _ => rfl
    · exact hbuckets _ ⟨rfl, by decide, rfl⟩ rfl
    · rfl
    · refine hbuckets _ ?_ ?_
      · simp [view, oneUser]
      · simp
    · simp
  · constructor
    · exact hbuckets _ rfl rfl
    · rfl
    · rfl
  · decide
  · exact hbuckets _ rfl rfl

theorem get_eq_none_of_empty
    {maxUserNodeNum : ℕ} {memory : ShmMemory} {users : UserMap}
    {userID : UInt64} (hholds : Holds maxUserNodeNum memory users)
    (hempty : memory (.ipDataNodeList (hashVal maxUserNodeNum userID)) = 0) :
    users.get userID = none := by
  obtain ⟨chains, free, h⟩ := hholds
  cases hget : users.get userID with
  | none => rfl
  | some info =>
      obtain ⟨node, hnode, -, -⟩ := h.exists_node_of_get_some hget
      have hleads := (leads_bucket_iff h (h.hashVal_lt userID)).mpr hnode
      rw [hempty] at hleads
      cases hleads with
      | here hnull => exact (hnull rfl).elim
      | there hnull _ => exact (hnull rfl).elim

/-- One process finds user 2 to be out of date, another one refreshes the
record, and the first one comes to remove it more than a day later. -/
def lateRemoval : List (Locked.Action Bool UInt64 ShmCall) :=
  .invoke false (.checkUserIsValid []) ::
    List.replicate 11 (.advance false 100000) ++
  .invoke true (.addFriendReq 4 2 []) ::
    List.replicate 15 (.advance true 100000) ++
  .invoke false (.removeUserInfoWhenInValid 2) ::
    List.replicate 25 (.advance false 200000)

set_option maxRecDepth 20000 in
theorem refreshed_record_removed :
    Holds 2 oneUser oneUserMap ∧
    ∃ state : ShmState Bool 2,
      Transition.Reaches (Locked.step (shmSection 2)) (fun _ _ => True)
        (Locked.initial oneUser fun _ => 0) state ∧
      state.finished =
        [⟨false, .checkUserIsValid [], [100000], .vct 0 [2]⟩,
          ⟨true, .addFriendReq 4 2 [], [100000, 100000], .ret 0⟩,
          ⟨false, .removeUserInfoWhenInValid 2, [200000], .ret 0⟩] ∧
      ∀ users, Holds 2 state.memory users → users.get 2 = none := by
  refine ⟨holds_oneUser, ?_⟩
  have hreplay : ∃ state : ShmState Bool 2,
      Transition.replay (Locked.step (shmSection 2)) (fun _ _ => True)
        (Locked.initial oneUser fun _ => 0) lateRemoval = some state ∧
      state.finished =
        [⟨false, .checkUserIsValid [], [100000], .vct 0 [2]⟩,
          ⟨true, .addFriendReq 4 2 [], [100000, 100000], .ret 0⟩,
          ⟨false, .removeUserInfoWhenInValid 2, [200000], .ret 0⟩] ∧
      state.memory (.ipDataNodeList 0) = 0 := ⟨_, rfl, rfl, rfl⟩
  obtain ⟨state, hrun, hfinished, hempty⟩ := hreplay
  exact ⟨state, Transition.reaches_of_replay hrun, hfinished,
    fun users hholds => get_eq_none_of_empty hholds hempty⟩

/-- A removal is about to write the number of nodes of its bucket, and a request
for the same user waits for its byte. -/
def removalInProgress : List (Locked.Action Bool UInt64 ShmCall) :=
  .invoke false (.removeUserInfo 2) ::
    List.replicate 9 (.advance false 100000) ++
  [.invoke true (.addFriendReq 4 2 [])]

set_option maxRecDepth 20000 in
theorem shared_user_map_atomic_two :
    ∃ state : ShmState Bool 2,
      Transition.Reaches (Locked.step (shmSection 2)) (fun _ _ => True)
        (Locked.initial oneUser fun _ => 0) state ∧
      Accesses state false (.iDataNodeNum 0) ∧
      state.holder (lockIndex 0) = some false ∧
      state.Waits true false ∧
      ¬ Relation.TransGen state.Waits true true := by
  have hreplay : ∃ state : ShmState Bool 2,
      Transition.replay (Locked.step (shmSection 2)) (fun _ _ => True)
        (Locked.initial oneUser fun _ => 0) removalInProgress = some state ∧
      Accesses state false (.iDataNodeNum 0) ∧ state.Waits true false :=
    ⟨_, rfl, Or.inr ⟨_, _, _, _, _, rfl⟩, _, ⟨_, _, _, rfl⟩, rfl⟩
  obtain ⟨state, hrun, haccess, hwaits⟩ := hreplay
  have hreach := Transition.reaches_of_replay hrun
  have hatomic := shared_user_map_atomic holds_oneUser hreach
  exact ⟨state, hreach, haccess,
    (hatomic.1 false _ haccess).1 0 (by decide) rfl, hwaits,
    hatomic.2.2.2.2 true⟩

end MessageBus.User
