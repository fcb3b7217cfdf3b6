import MessageBus.HashListCrash
import MessageBus.Transition

/-!
# Processes that start on one user segment

`CUserShmApi::Init` of `user/user_shm_api.cpp` from `LOCK_ALL` on, for any
number of processes that have attached one segment with one configuration, and
the calls they make of the map once `Init` has returned 0.  A step of the system
is a step of one process; a step that would wait is not taken.

The writes of a call are steps of their own, since `Verify` takes no lock that
keeps them apart from it.  The calls exclude each other: that the locks of
`CUserShmApi` amount to this is shown for its sections in `UserAtomicity`.
-/

namespace MessageBus.UserShmInit

open HashList

/-! ## The configuration -/

/-- `USER_MEM_MAGIC`, with the zero that ends it. -/
def userMemMagic : List UInt8 :=
  -- "THIS IS USER MEM AAAAAAAAAAA"
  [84, 72, 73, 83, 32, 73, 83, 32, 85, 83, 69, 82, 32, 77, 69, 77, 32,
    65, 65, 65, 65, 65, 65, 65, 65, 65, 65, 65, 0]

/-- `sizeof(m_pUserHead->Magic)`. -/
def magicSize : ℕ := 32

/-- What the processes on one segment share.  `Magic` is compared with and
copied from 32 bytes at `USER_MEM_MAGIC`, which has 29: `pastMagic` are the
bytes that follow it in `user_shm_api.o`, which every program links. -/
structure Conf where
  maxUserNodeNum : ℤ
  dataNodeSize : ℤ
  pastMagic : Vector UInt8 3

def Conf.magic (conf : Conf) : List UInt8 :=
  userMemMagic ++ conf.pastMagic.toList

/-- `CalcSize(m_MaxUserNodeNum, m_MaxUserNodeNum)`. -/
def Conf.userInfoMemSize (conf : Conf) : ℤ :=
  toInt32 (headSize + conf.maxUserNodeNum * indexNodeSize +
    conf.maxUserNodeNum * conf.dataNodeSize)

/-- Enough fuel for the loops over a map that is not corrupt. -/
def Conf.fuel (conf : Conf) : ℕ := conf.maxUserNodeNum.toNat

/-! ## The processes -/

variable {Proc Data : Type}

/-- Why `Init` has returned -1: `m_UserInfoMap.Init`, `Verify` or the opening of
the lock file has failed. -/
inductive Refusal where
  | initMap (ret : ℤ)
  | verify (ret : ℤ)
  | initLock
deriving DecidableEq

/-- How far a process has come. -/
inductive Point (Data : Type) where
  /-- before `LOCK_ALL` -/
  | outside
  | locked
  /-- `memcmp` has found another magic: `ClearFlag` is set -/
  | magicMissing
  | headZeroed
  /-- the magic is there -/
  | tested (clearFlag : Bool)
  /-- `m_UserInfoMap.Init` has succeeded -/
  | opened (clearFlag : Bool)
  | verified
  /-- `Init` has returned -1 -/
  | refused (why : Refusal)
  /-- `Init` has returned 0, and the process is in no call -/
  | ready
  /-- in a call, with the writes it has still to do -/
  | calling (begun : Bool) (pending : List (Write Data))
  /-- in a loop that does not end -/
  | hanging

inductive Action (Proc Data : Type) where
  | lockAll (p : Proc)
  | testMagic (p : Proc)
  | zeroHead (p : Proc)
  | writeMagic (p : Proc)
  | initMap (p : Proc)
  | clear (p : Proc)
  | verify (p : Proc)
  /-- `m_UserInfoLock.Init`, which opens the file or does not, and the return -/
  | initLock (p : Proc) (opens : Bool)
  | beginCall (p : Proc) (call : Call Data)
  | write (p : Proc)
  | endCall (p : Proc)

structure System (Proc Data : Type) where
  -- the segment
  magic : List UInt8
  userInfoMap : Segment Data
  -- the process that has the lock file locked
  holder : Option Proc
  -- `m_UserInfoLock` of each process, of which `m_iFile` may be -1
  lockFile : Proc → Bool
  point : Proc → Point Data
  -- what has happened: the runs of `Clear`, the calls and their answers
  clears : ℕ
  history : List (Call Data × Answer Data)

/-- The memory `shmget` gives: all zero. -/
def fresh (Proc Data : Type) [Inhabited Data] : System Proc Data where
  magic := List.replicate magicSize 0
  userInfoMap := ⟨⟨0, 0, 0, 0, 0⟩, fun _ => 0, fun _ => 0, fun _ => 0,
    fun _ => 0, fun _ => 0, fun _ => default⟩
  holder := none
  lockFile _ := false
  point _ := .outside
  clears := 0
  history := []

section Step

variable [DecidableEq Proc]

def System.moveTo (state : System Proc Data) (p : Proc)
    (point : Point Data) : System Proc Data :=
  { state with point := Function.update state.point p point }

/-- `CFileLock::Lock`: `fcntl` fails on a file that is not open, and waits for
the process that has the file locked. -/
def System.lock (state : System Proc Data) (p : Proc) :
    Option (ℤ × System Proc Data) :=
  if state.lockFile p then
    if state.holder.isSome ∧ state.holder ≠ some p then none
    else some (success, { state with holder := some p })
  else some (-1, state)

/-- `CFileLock::UnLock`. -/
def System.unLock (state : System Proc Data) (p : Proc) : System Proc Data :=
  if state.lockFile p ∧ state.holder = some p then
    { state with holder := none }
  else state

/-- `m_UserInfoMap.Init`. -/
def Conf.initMap (conf : Conf) (segment : Segment Data) : ℤ × Segment Data :=
  segment.init conf.dataNodeSize conf.userInfoMemSize conf.maxUserNodeNum
    conf.maxUserNodeNum

end Step

/-- The answer to a call, with the writes it performs. -/
def callWrites (segment : Segment Data) (fuel : ℕ) :
    Call Data → Option (Answer Data × List (Write Data))
  | .insert key data =>
      (segment.insert fuel key data).map fun (iRetVal, writes) =>
        (⟨iRetVal, none⟩, writes)
  | .insertWithRet key data =>
      (segment.insertWithRet fuel key data).map
        fun ((iRetVal, returned), writes) => (⟨iRetVal, some returned⟩, writes)
  | .update key data =>
      (segment.update fuel key data).map fun (iRetVal, writes) =>
        (⟨iRetVal, none⟩, writes)
  | .remove key =>
      (segment.remove fuel key).map fun (iRetVal, writes) =>
        (⟨iRetVal, none⟩, writes)
  | .get key =>
      (segment.get fuel key).map fun (iRetVal, returned) =>
        (⟨iRetVal, returned⟩, [])

section Step

variable [DecidableEq Proc] [Inhabited Data]

def step (conf : Conf) (state : System Proc Data) :
    Action Proc Data → Option (System Proc Data)
  | .lockAll p =>
      match state.point p with
      | .outside =>
          -- `CShmUserLock` drops what `Lock` returns
          (state.lock p).map fun (_, state) => state.moveTo p .locked
      | _ => none
  | .testMagic p =>
      match state.point p with
      | .locked =>
          if state.magic ≠ conf.magic then
            some (state.moveTo p .magicMissing)
          else some (state.moveTo p (.tested false))
      | _ => none
  | .zeroHead p =>
      match state.point p with
      | .magicMissing =>
          some ({ state with
            magic := List.replicate magicSize 0 }.moveTo p .headZeroed)
      | _ => none
  | .writeMagic p =>
      match state.point p with
      | .headZeroed =>
          some ({ state with magic := conf.magic }.moveTo p (.tested true))
      | _ => none
  | .initMap p =>
      match state.point p with
      | .tested clearFlag =>
          let (ret, userInfoMap) := conf.initMap state.userInfoMap
          let state := { state with userInfoMap := userInfoMap }
          if ret ≠ 0 then
            some ((state.unLock p).moveTo p (.refused (.initMap ret)))
          else some (state.moveTo p (.opened clearFlag))
      | _ => none
  | .clear p =>
      match state.point p with
      | .opened true =>
          some ({ state with
            userInfoMap := state.userInfoMap.clear
            clears := state.clears + 1 }.moveTo p (.opened false))
      | _ => none
  | .verify p =>
      match state.point p with
      | .opened false =>
          match state.userInfoMap.verify conf.fuel with
          | none => some (state.moveTo p .hanging)
          | some ret =>
              if ret ≠ 0 then
                some ((state.unLock p).moveTo p (.refused (.verify ret)))
              else some (state.moveTo p .verified)
      | _ => none
  | .initLock p opens =>
      match state.point p with
      | .verified =>
          if opens then
            let state :=
              { state with lockFile := Function.update state.lockFile p true }
            some ((state.unLock p).moveTo p .ready)
          else some ((state.unLock p).moveTo p (.refused .initLock))
      | _ => none
  | .beginCall p call =>
      match state.point p with
      | .ready =>
          (state.lock p).map fun (_, state) =>
            match callWrites state.userInfoMap conf.fuel call with
            | none => state.moveTo p .hanging
            | some (answer, writes) =>
                { state with
                  history := state.history ++ [(call, answer)] }.moveTo p
                  (.calling false writes)
      | _ => none
  | .write p =>
      match state.point p with
      | .calling _ (write :: pending) =>
          some ({ state with
            userInfoMap := write.apply state.userInfoMap }.moveTo p
              (.calling true pending))
      | _ => none
  | .endCall p =>
      match state.point p with
      | .calling _ [] => some ((state.unLock p).moveTo p .ready)
      | _ => none

end Step

end MessageBus.UserShmInit
