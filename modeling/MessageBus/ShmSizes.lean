import MessageBus.HashListVerify

/-!
# The sizes of the shared segments

`CConn::Init` and `CUserShmApi::Init` compare the configured size of a segment
with the size its hash list needs, which `CalcSize` computes as an `int`, and
hand that same number to `CHashListNoLock::Init`, which computes it once more.
All three computations wrap alike, so that the check is worth as much as the
one of them that is compared with the configuration.
-/

namespace MessageBus.ShmSizes

open HashList

/-- The servers that keep a hash list in shared memory. -/
inductive Server where
  | conn
  | user
deriving DecidableEq

/-! ## The records -/

def maxNameLength : ℤ := 24
def maxFriendNum : ℤ := 200
def maxRequestNum : ℤ := 50
def maxPersonalNoteLength : ℤ := 256
def maxTelNoLength : ℤ := 11
def maxAddrLength : ℤ := 256
def maxEMailLength : ℤ := 64

/-- `sizeof(FriendInfo)`; the records of the user server are packed. -/
def friendInfoSize : ℤ := 8 + maxNameLength + 1

def requestInfoSize : ℤ := 8 + maxNameLength + 8 + 1

def shmUserInfoSize : ℤ :=
  8 + 4 + 8 + maxNameLength + 4 + 4 + 1 + 8 + maxTelNoLength + maxAddrLength +
    maxEMailLength + maxPersonalNoteLength + maxFriendNum * friendInfoSize +
    maxRequestNum * requestInfoSize

/-- `sizeof(ShmGnsInfo)`, in which `LastActiveTime` is aligned. -/
def shmGnsInfoSize : ℤ := 8 + 4 + 4 + 4 + 4 + 8

/-- `DATA_NODE_SIZE`: the key, the link and the record, to a multiple of 8. -/
def Server.dataNodeSize : Server → ℤ
  | .conn => 8 + 4 + 4 + shmGnsInfoSize
  | .user => 8 + 4 + shmUserInfoSize + 2

/-- `GNS_MEM_HEAD_SIZE` and `USER_MEM_HEAD_SIZE`. -/
def memHeadSize : ℤ := 256

/-! ## The checks -/

/-- The part of the configuration that the checks read. -/
structure Conf where
  shmKey : Int32
  shmSize : Int32
  nodeNum : Int32

def Server.calcSize (server : Server) (iIndexNum iNodeNum : ℤ) : ℤ :=
  toInt32 (headSize + iIndexNum * indexNodeSize +
    iNodeNum * server.dataNodeSize)

/-- `Init` up to and including the `Init` of the map, whose result it is;
`none` when it has returned -1 before.  `attaches` says for which keys and
sizes `Create` and `Attach` succeed. -/
def Server.initMap
    {Data : Type} (server : Server) (attaches : Int32 → UInt64 → Bool)
    (conf : Conf) (segment : Segment Data) : Option (ℤ × Segment Data) :=
  if conf.shmKey = 0 then none
  else if conf.shmSize = 0 then none
  else if conf.nodeNum = 0 then none
  else
    let infoMemSize :=
      server.calcSize conf.nodeNum.toInt conf.nodeNum.toInt
    if conf.shmSize.toInt < toInt32 (infoMemSize + memHeadSize) then none
    else if attaches conf.shmKey conf.shmSize.toInt64.toUInt64 then
      some (segment.init server.dataNodeSize infoMemSize conf.nodeNum.toInt
        conf.nodeNum.toInt)
    else none

/-! ## The exact sizes -/

/-- The bytes of head, index nodes and data nodes. -/
def Server.exactSize (server : Server) (nodeNum : ℤ) : ℤ :=
  headSize + nodeNum * indexNodeSize + nodeNum * server.dataNodeSize

/-- The first byte behind data node `i`, counted from the start of the
segment. -/
def Server.nodeEnd (server : Server) (nodeNum i : ℤ) : ℤ :=
  memHeadSize + headSize + nodeNum * indexNodeSize +
    (i + 1) * server.dataNodeSize

/-- If the sizes are accepted, everything lies in the segment. -/
def Server.SizesSuffice
    {Data : Type} (server : Server) (attaches : Int32 → UInt64 → Bool)
    (conf : Conf) (segment : Segment Data) : Prop :=
  ∀ opened, server.initMap attaches conf segment = some (success, opened) →
    server.exactSize conf.nodeNum.toInt + memHeadSize ≤ conf.shmSize.toInt ∧
      ∀ i, 0 ≤ i → i < conf.nodeNum.toInt →
        server.nodeEnd conf.nodeNum.toInt i ≤ conf.shmSize.toInt

section

variable {Data : Type} (server : Server) (attaches : Int32 → UInt64 → Bool)
  (conf : Conf) (segment : Segment Data)

theorem memNeed_eq :
    toInt32 (server.calcSize conf.nodeNum.toInt conf.nodeNum.toInt +
        memHeadSize) =
      toInt32 (server.exactSize conf.nodeNum.toInt + memHeadSize) :=
  toInt32_add _ _

/-- The third computation agrees with the second: `Init` of the map refuses
only node numbers. -/
theorem init_eq_success_iff :
    (segment.init server.dataNodeSize
        (server.calcSize conf.nodeNum.toInt conf.nodeNum.toInt)
        conf.nodeNum.toInt conf.nodeNum.toInt).1 = success ↔
      2 ≤ conf.nodeNum.toInt := by
  unfold Segment.init Server.calcSize
  simp only [lt_irrefl, if_false]
  split_ifs with hindex hdata
  · exact iff_of_false (show eHashListIndexNum ≠ success by decide) (by omega)
  · exact iff_of_false (show eHashListDataNum ≠ success by decide) (by omega)
  · exact iff_of_true rfl (by omega)

theorem exists_initMap_eq_iff :
    (∃ opened, server.initMap attaches conf segment =
        some (success, opened)) ↔
      conf.shmKey ≠ 0 ∧ conf.shmSize ≠ 0 ∧
        toInt32 (server.exactSize conf.nodeNum.toInt + memHeadSize) ≤
          conf.shmSize.toInt ∧
        attaches conf.shmKey conf.shmSize.toInt64.toUInt64 = true ∧
        2 ≤ conf.nodeNum.toInt := by
  have hinit := init_eq_success_iff server conf segment
  unfold Server.initMap
  simp only [memNeed_eq]
  split_ifs with hkey hsize hnode hneed hattach
  · simp [hkey]
  · simp [hsize]
  · simp [hnode]
  · have hnot := hneed.not_ge
    simp [hnot]
  · rw [← hinit]
    simp only [Option.some.injEq, hkey, hsize, hattach, not_lt.mp hneed,
      not_false_eq_true, true_and, ne_eq]
    constructor
    · rintro ⟨opened, heq⟩
      rw [heq]
    · intro heq
      exact ⟨_, Prod.ext heq rfl⟩
  · simp [hattach]

theorem dataNodeSize_pos : 0 < server.dataNodeSize := by
  cases server <;> decide

theorem nodeEnd_le_exactSize {nodeNum i : ℤ} (hi : i < nodeNum) :
    server.nodeEnd nodeNum i ≤ server.exactSize nodeNum + memHeadSize := by
  have hmul : (i + 1) * server.dataNodeSize ≤ nodeNum * server.dataNodeSize :=
    mul_le_mul_of_nonneg_right hi (dataNodeSize_pos server).le
  unfold Server.nodeEnd Server.exactSize
  omega

/-- Accepted sizes suffice exactly when the exact size is an `int`, or the
wrapped one is refused. -/
theorem sizes_suffice_iff :
    server.SizesSuffice attaches conf segment ↔
      server.exactSize conf.nodeNum.toInt + memHeadSize < 2 ^ 31 ∨
        conf.shmSize.toInt <
          toInt32 (server.exactSize conf.nodeNum.toInt + memHeadSize) ∨
        conf.nodeNum.toInt < 2 ∨ conf.shmKey = 0 ∨ conf.shmSize = 0 ∨
        attaches conf.shmKey conf.shmSize.toInt64.toUInt64 = false := by
  have haccepts := exists_initMap_eq_iff server attaches conf segment
  constructor
  · intro hsuffice
    by_contra hnot
    push Not at hnot
    obtain ⟨hlarge, hneed, hnode, hkey, hsize, hattach⟩ := hnot
    obtain ⟨opened, heq⟩ := haccepts.mpr
      ⟨hkey, hsize, hneed, by simpa using hattach, hnode⟩
    have hexact := (hsuffice opened heq).1
    have hint := conf.shmSize.toInt_lt
    omega
  · intro hholds opened heq
    obtain ⟨hkey, hsize, hneed, hattach, hnode⟩ := haccepts.mp ⟨opened, heq⟩
    have hexact : server.exactSize conf.nodeNum.toInt + memHeadSize ≤
        conf.shmSize.toInt := by
      rcases hholds with hfits | hless | hfew | hzero | hzero | hfails
      · have hpos : 0 ≤ server.exactSize conf.nodeNum.toInt + memHeadSize := by
          have hdata := mul_nonneg (show 0 ≤ conf.nodeNum.toInt by omega)
            (dataNodeSize_pos server).le
          unfold Server.exactSize headSize indexNodeSize memHeadSize
          omega
        rwa [toInt32_of_lt hpos hfits] at hneed
      · omega
      · omega
      · exact absurd hzero hkey
      · exact absurd hzero hsize
      · rw [hattach] at hfails
        cases hfails
    exact ⟨hexact, fun i _ hi =>
      (nodeEnd_le_exactSize server hi).trans hexact⟩

end

/-- A segment of 4096 bytes for 460636 user records. -/
theorem sizes_not_sufficient :
    ¬ ∀ (attaches : Int32 → UInt64 → Bool) (conf : Conf)
        (segment : Segment Unit),
      Server.user.SizesSuffice attaches conf segment := by
  intro hall
  have hwrong := (hall (fun _ _ => true) ⟨1, 4096, 460636⟩ default _ rfl).1
  revert hwrong
  decide

end MessageBus.ShmSizes
