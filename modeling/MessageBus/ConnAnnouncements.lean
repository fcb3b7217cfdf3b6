import MessageBus.ConnBuffers
import MessageBus.ConnCleanup
import MessageBus.ConnReplies

/-!
# Announcing the sessions of a conn server

`Cmd_LoginSync_Req` and `Init` walk the user table with `MemFullCallBackAll`
and send what they have found, in messages of up to a thousand users and one.
The message is not emptied when it is sent, so that it only works out for one
message.
-/

namespace MessageBus.Conn

open Bus
open HashList
open ProtoWire
open Receive (xyPkgMaxLen)
open Replies (cmdDisconnect cmdLoginSyncRsp)

def groupConn : UInt32 := 100

/-! ## Walking the table -/

/-- `MemFullCallBackAll` does not change the table. -/
def memFullCallBackAll : CallBack ShmGnsInfo :=
  fun _ _ segment => some segment

/-- What it pushes to `vctData`. -/
def pushed (serverID : ℤ) (entry : GnsEntry) : Option LoginData :=
  if entry.2.serverID = serverID ∧ entry.2.status = .active then
    some
      { userID := entry.2.userID
        serverID := entry.2.serverID
        connPos := entry.2.connPos
        time := entry.2.lastActiveTime }
  else none

/-- `ProcessAll` on some buckets. -/
def collectFrom (fuel : ℕ) (serverID : ℤ) :
    List ℕ → Segment ShmGnsInfo → Option (List LoginData)
  | [], _ => some []
  | bucket :: buckets, segment => do
      let (entries, next) ←
        segment.processAll fuel bucket memFullCallBackAll
      let later ← collectFrom fuel serverID buckets next
      some (entries.filterMap (pushed serverID) ++ later)

/-- `vctData` after the loop over all buckets. -/
def GnsTable.vctData (table : GnsTable) (fuel : ℕ) (serverID : ℤ) :
    Option (List LoginData) :=
  collectFrom fuel serverID (List.range table.maxGnsNodeNum) table.gnsInfoMap

/-! ## Sending -/

/-- `mm::LoginData`. -/
def LoginData.fields (data : LoginData) : List Field :=
  [⟨1, .varint data.userID⟩, ⟨2, .int32 (Int32.ofInt data.serverID)⟩,
    ⟨3, .uint32 data.connPos⟩, ⟨4, .varint (UInt64.ofNat data.time)⟩]

/-- `mm::LoginSyncRsp` and `mm::LoginDisconnect`. -/
def loginMessage (data : List LoginData) : List Field :=
  data.map fun entry => ⟨1, .bytes (encode entry.fields)⟩

/-- A message given to `Send2Server`, and the packet that goes to
`m_SendQueue`. -/
structure Announcement where
  message : List LoginData
  packet : Option (List UInt8)

section Sending

variable (serverID : ℤ) (now : UInt64)

/-- `Send2Server`. -/
def sendLogins (dstID : UInt32) (sendType : UInt8) (header : XYHeaderIn)
    (message : List LoginData) : Announcement :=
  let headerLen := BusHeader.getHeaderLen + headerInLen
  let body := encode (loginMessage message)
  let busHeader := sendHeader (Int32.ofInt serverID).toUInt32 dstID sendType
    (headerLen + body.length)
  -- SerializeToArray
  if body.length ≤ xyPkgMaxLen - headerLen then
    ⟨message, some (busHeader ++ header.bytes ++ body)⟩
  else ⟨message, none⟩

/-- The header of the messages. -/
def loginsHeader (cmdID : UInt32) : XYHeaderIn where
  srcID := (Int32.ofInt serverID).toUInt32
  cmdID := cmdID
  sn := 0
  connPos := 0
  userID := 0
  pkgTime := now
  ret := 0

/-- `DealPkg` on a `Cmd_LoginSync_Req`; `srcID` is that of its header. -/
def GnsTable.loginSyncReq (table : GnsTable) (fuel : ℕ) (srcID : UInt32)
    (reqServerID : ℤ) : Option (List Announcement) :=
  if reqServerID = serverID then some []
  else do
    let vctData ← table.vctData fuel serverID
    some ((batches [] 0 vctData).map
      (sendLogins serverID srcID toSrv
        (loginsHeader serverID now cmdLoginSyncRsp)))

/-- The announcements of `Init`. -/
def GnsTable.initDisconnect (table : GnsTable) (fuel : ℕ) :
    Option (List Announcement) := do
  let vctData ← table.vctData fuel serverID
  some ((batches [] 0 vctData).map
    (sendLogins serverID groupConn toGrpAllnome
      (loginsHeader serverID now cmdDisconnect)))

end Sending

/-- The most entries of a message. -/
def maxEntries : ℕ := 1001

/-- The announcements have each of the given sessions once and nothing else, and
none of them is too long or too large. -/
structure Announces (sessions : List LoginData)
    (announcements : List Announcement) : Prop where
  exact : (announcements.flatMap Announcement.message).Perm sessions
  bounded : ∀ announcement ∈ announcements,
    announcement.message.length ≤ maxEntries
  sent : ∀ announcement ∈ announcements,
    ∃ packet ∈ announcement.packet, packet.length ≤ xyPkgMaxLen

/-- The sessions of a server in its table. -/
def ownSessionsOf (serverID : ℤ) (map : BoundedMap UInt64 ShmGnsInfo) :
    List LoginData :=
  map.store.entries.filterMap (pushed serverID)

/-! ## The walk -/

section Walk

variable {segment : Segment ShmGnsInfo} {map : BoundedMap UInt64 ShmGnsInfo}
  {nodeNum fuel : ℕ}

theorem processAll_memFullCallBackAll
    (hvalid : Valid segment nodeNum nodeNum map) (hfuel : nodeNum ≤ fuel)
    {bucket : ℕ} (hbucket : bucket < nodeNum) :
    ∃ next,
      segment.processAll fuel bucket memFullCallBackAll =
        some (inBucket nodeNum map.store.entries bucket, next) ∧
      Valid next nodeNum nodeNum map := by
  obtain ⟨chains, free, h⟩ := hvalid
  obtain ⟨next, hwalk, hnext⟩ :=
    processAll_spec (fun _ _ => false) h hfuel hbucket
  have hcall : removeIf fuel (fun _ _ => false) = memFullCallBackAll := by
    funext key data segment
    rfl
  have hnone : staleKeys (fun _ _ => false)
      (inBucket nodeNum map.store.entries bucket) = [] := by
    rw [staleKeys, List.filter_false, List.map_nil]
  rw [hcall] at hwalk
  exact ⟨next, hwalk, by rwa [← inBucket, hnone] at hnext⟩

theorem collectFrom_spec (serverID : ℤ)
    (hvalid : Valid segment nodeNum nodeNum map) (hfuel : nodeNum ≤ fuel)
    (buckets : List ℕ) (hbuckets : ∀ bucket ∈ buckets, bucket < nodeNum) :
    collectFrom fuel serverID buckets segment =
      some ((buckets.flatMap (inBucket nodeNum map.store.entries)).filterMap
        (pushed serverID)) := by
  induction buckets generalizing segment with
  | nil => rfl
  | cons bucket buckets ih =>
      obtain ⟨hbucket, hrest⟩ := List.forall_mem_cons.mp hbuckets
      obtain ⟨next, hwalk, hnext⟩ :=
        processAll_memFullCallBackAll hvalid hfuel hbucket
      rw [collectFrom, hwalk]
      simp only [Option.bind_eq_bind, Option.bind_some, ih hnext hrest]
      rw [List.flatMap_cons, List.filterMap_append]

theorem ownSessions_eq (server : Server) :
    server.ownSessions =
      ((List.range server.maxGnsNodeNum).flatMap
        (inBucket server.maxGnsNodeNum
          server.gnsInfoMap.store.entries)).filterMap
        (pushed server.serverID) := by
  rw [Server.ownSessions, ← List.filterMap_eq_map, List.filterMap_filter]
  congr 1
  funext entry
  simp [pushed]

/-- `vctData` is what the server of the cluster finds in its table. -/
theorem vctData_ownSessions {table : GnsTable} {server : Server}
    (hholds : table.Holds server) (hfuel : server.maxGnsNodeNum ≤ fuel) :
    table.vctData fuel server.serverID = some server.ownSessions := by
  have hcollect := collectFrom_spec server.serverID hholds.gnsInfoMap hfuel
    (List.range server.maxGnsNodeNum) fun bucket => List.mem_range.mp
  rw [GnsTable.vctData, hholds.maxGnsNodeNum, hcollect, ownSessions_eq]

theorem ownSessions_perm (server : Server) :
    server.ownSessions.Perm
      (ownSessionsOf server.serverID server.gnsInfoMap) := by
  rw [ownSessions_eq]
  exact (flatMap_inBucket_perm server.gnsInfoMap
    (Nat.succ_pos _)).filterMap _

/-- `vctData` has the sessions of the server, each once. -/
theorem vctData_spec (serverID : ℤ) (checkConnPos : ℕ)
    (hvalid : Valid segment nodeNum nodeNum map) (hfuel : nodeNum ≤ fuel)
    (hpos : 0 < nodeNum) :
    ∃ vctData,
      GnsTable.vctData ⟨segment, checkConnPos, nodeNum⟩ fuel serverID =
        some vctData ∧
      vctData.Perm (ownSessionsOf serverID map) := by
  obtain ⟨server, rfl, rfl, -, rfl, hholds⟩ :=
    exists_holds serverID hvalid hpos
  -- the walk begins with the first bucket, wherever the cursor is
  have hcollect : GnsTable.vctData ⟨segment, 0, server.maxGnsNodeNum⟩ fuel
      server.serverID = some server.ownSessions :=
    vctData_ownSessions hholds hfuel
  exact ⟨server.ownSessions, hcollect, ownSessions_perm server⟩

end Walk

/-! ## The loop -/

theorem batches_single {sent rest : List LoginData} {j : ℕ}
    (hrest : rest ≠ []) (hfew : j + rest.length ≤ maxEntries) :
    batches sent j rest = [sent ++ rest] := by
  induction rest generalizing sent j with
  | nil => contradiction
  | cons data rest ih =>
      rw [List.length_cons] at hfew
      unfold maxEntries at hfew ih
      by_cases hlast : rest = []
      · subst hlast
        rw [batches, if_pos (Or.inr rfl)]
        rfl
      · have hpos := List.length_pos_iff.mpr hlast
        have hgoes : ¬ (1000 < j + 1 ∨ rest = []) := by
          rintro (hmany | hnil)
          · omega
          · exact hlast hnil
        rw [batches, if_neg hgoes, ih hlast (by omega), List.append_assoc]
        rfl

theorem mem_batches_all (sent : List LoginData) (j : ℕ)
    {rest : List LoginData} (hrest : rest ≠ []) : sent ++ rest ∈ batches sent j rest := by
  induction rest generalizing sent j with
  | nil => contradiction
  | cons data rest ih =>
      rw [batches]
      split_ifs with hsend
      · by_cases hlast : rest = []
        · subst hlast
          exact List.mem_cons_self
        · have hlater := ih (sent ++ [data]) 0 hlast
          rw [List.append_assoc] at hlater
          exact List.mem_cons_of_mem _ hlater
      · have hlast : rest ≠ [] := fun hnil => hsend (Or.inr hnil)
        have hlater := ih (sent ++ [data]) (j + 1) hlast
        rwa [List.append_assoc] at hlater

/-! ## Lengths -/

theorem LoginData.fields_length_le (data : LoginData) :
    (encode data.fields).length ≤ 44 := by
  have hfields : ∀ field ∈ data.fields, field.IsInteger := by
    intro field hfield
    simp only [LoginData.fields, List.mem_cons, List.not_mem_nil, or_false]
      at hfield
    obtain rfl | rfl | rfl | rfl := hfield <;>
      exact Field.isInteger (by decide) (by decide) _
  exact encode_length_le
    fun field hfield => (hfields field hfield).encode_length_le

/-- An entry takes its tag, its length and its fields. -/
theorem loginMessage_length_le (message : List LoginData) :
    (encode (loginMessage message)).length ≤ message.length * 46 := by
  have hentries : ∀ field ∈ loginMessage message,
      field.encode.length ≤ 46 := by
    intro field hfield
    obtain ⟨data, -, rfl⟩ := List.mem_map.mp hfield
    have hdata := data.fields_length_le
    have hnumber :
        (ProtoWire.Field.mk 1 (.bytes (encode data.fields))).number < 16 :=
      show 1 < 16 by decide
    have hencode := Field.encode_length_le hnumber
    have hsize : (varint (UInt64.ofNat (encode data.fields).length)).length ≤
        1 := by
      apply varintFrom_length_le _ (by decide)
      rw [UInt64.toNat_ofNat']
      omega
    simp only [Value.encode, List.length_append] at hencode
    omega
  have hlength := encode_length_le hentries
  rwa [loginMessage, List.length_map] at hlength

theorem headers_length (serverID dstID : UInt32) (sendType : UInt8)
    (pkgLen : ℕ) (header : XYHeaderIn) :
    (sendHeader serverID dstID sendType pkgLen).length +
        header.bytes.length =
      BusHeader.getHeaderLen + headerInLen := by
  rw [headerIn_bytes_length]
  rfl

theorem sendLogins_message (serverID : ℤ) (dstID : UInt32) (sendType : UInt8)
    (header : XYHeaderIn) (message : List LoginData) :
    (sendLogins serverID dstID sendType header message).message = message := by
  rw [sendLogins]
  split_ifs <;> rfl

theorem sendLogins_packet (serverID : ℤ) (dstID : UInt32) (sendType : UInt8)
    (header : XYHeaderIn) {message : List LoginData}
    (hfew : message.length ≤ maxEntries) :
    ∃ packet ∈ (sendLogins serverID dstID sendType header message).packet,
      packet.length ≤ xyPkgMaxLen := by
  have hbody := loginMessage_length_le message
  unfold maxEntries at hfew
  have hfits : (encode (loginMessage message)).length ≤
      xyPkgMaxLen - (BusHeader.getHeaderLen + headerInLen) := by
    unfold xyPkgMaxLen BusHeader.getHeaderLen headerInLen
    omega
  have hheaders := headers_length (Int32.ofInt serverID).toUInt32 dstID sendType
    (BusHeader.getHeaderLen + headerInLen +
      (encode (loginMessage message)).length) header
  rw [sendLogins]
  simp only [if_pos hfits]
  refine ⟨_, rfl, ?_⟩
  rw [List.length_append, List.length_append, hheaders]
  unfold xyPkgMaxLen BusHeader.getHeaderLen headerInLen at hfits ⊢
  omega

/-! ## All announcements -/

/-- What is sent after the table has been walked. -/
theorem announces_iff {send : List LoginData → Announcement}
    (hmessage : ∀ message, (send message).message = message)
    (hpacket : ∀ message : List LoginData, message.length ≤ maxEntries →
      ∃ packet ∈ (send message).packet, packet.length ≤ xyPkgMaxLen)
    {vctData sessions : List LoginData} (hperm : vctData.Perm sessions) :
    Announces sessions ((batches [] 0 vctData).map send) ↔
      sessions.length ≤ maxEntries := by
  rw [← hperm.length_eq]
  constructor
  · intro hannounces
    by_cases hnone : vctData = []
    · subst hnone
      exact Nat.zero_le _
    · have hlast := mem_batches_all [] 0 hnone
      have hbounded :=
        hannounces.bounded _ (List.mem_map_of_mem hlast)
      rwa [hmessage] at hbounded
  · intro hfew
    by_cases hnone : vctData = []
    · subst hnone
      exact
        { exact := hperm
          bounded := by simp [batches]
          sent := by simp [batches] }
    · have hsingle : batches [] 0 vctData = [vctData] :=
        batches_single hnone (by omega)
      rw [hsingle]
      exact
        { exact := by simpa [hmessage] using hperm
          bounded := by simpa [hmessage] using hfew
          sent := by simpa using hpacket vctData hfew }

section Announcements

variable {segment : Segment ShmGnsInfo} {map : BoundedMap UInt64 ShmGnsInfo}
  {nodeNum fuel : ℕ}

/-- The answers to a `Cmd_LoginSync_Req` of another server, and the messages of
`Init`, have each local active user once, in messages of bounded length that
fit, if and only if there are no more than a thousand and one of them. -/
theorem announcements_exact_iff (serverID : ℤ) (now : UInt64)
    (checkConnPos : ℕ) (srcID : UInt32) {reqServerID : ℤ}
    (hvalid : Valid segment nodeNum nodeNum map) (hfuel : nodeNum ≤ fuel)
    (hother : reqServerID ≠ serverID) :
    ∃ answers disconnects,
      GnsTable.loginSyncReq serverID now ⟨segment, checkConnPos, nodeNum⟩
        fuel srcID reqServerID = some answers ∧
      GnsTable.initDisconnect serverID now ⟨segment, checkConnPos, nodeNum⟩
        fuel = some disconnects ∧
      (Announces (ownSessionsOf serverID map) answers ↔
        (ownSessionsOf serverID map).length ≤ maxEntries) ∧
      (Announces (ownSessionsOf serverID map) disconnects ↔
        (ownSessionsOf serverID map).length ≤ maxEntries) := by
  have hpos : 0 < nodeNum := by
    obtain ⟨chains, free, h⟩ := hvalid
    exact h.index_pos
  obtain ⟨vctData, hcollect, hperm⟩ :=
    vctData_spec serverID checkConnPos hvalid hfuel hpos
  have hanswers : GnsTable.loginSyncReq serverID now
      ⟨segment, checkConnPos, nodeNum⟩ fuel srcID reqServerID =
      some ((batches [] 0 vctData).map (sendLogins serverID srcID toSrv
        (loginsHeader serverID now cmdLoginSyncRsp))) := by
    rw [GnsTable.loginSyncReq, if_neg hother, hcollect]
    rfl
  have hdisconnects : GnsTable.initDisconnect serverID now
      ⟨segment, checkConnPos, nodeNum⟩ fuel =
      some ((batches [] 0 vctData).map (sendLogins serverID groupConn
        toGrpAllnome (loginsHeader serverID now cmdDisconnect))) := by
    rw [GnsTable.initDisconnect, hcollect]
    rfl
  exact ⟨_, _, hanswers, hdisconnects,
    announces_iff (sendLogins_message _ _ _ _)
      (fun _ => sendLogins_packet _ _ _ _) hperm,
    announces_iff (sendLogins_message _ _ _ _)
      (fun _ => sendLogins_packet _ _ _ _) hperm⟩

end Announcements

/-! ## Tables of any number of users -/

/-- The session of one of the users of server 7. -/
def sessionInfo (index : ℕ) : ShmGnsInfo where
  userID := UInt64.ofNat (index + 1)
  serverID := 7
  connPos := 500
  status := .active
  lastActiveTime := 0

theorem exists_table {count nodeNum : ℕ} (hcount : count < nodeNum)
    (hnode : 2 ≤ nodeNum) (hlarge : nodeNum < 2 ^ 64) :
    ∃ (segment : Segment ShmGnsInfo) (map : BoundedMap UInt64 ShmGnsInfo),
      Valid segment nodeNum nodeNum map ∧
      map.store.entries = (List.range count).reverse.map fun index =>
        ⟨UInt64.ofNat (index + 1), sessionInfo index⟩ := by
  induction count with
  | zero =>
      have hcleared := cleared_valid (default : Segment ShmGnsInfo)
        (le_refl (toInt32 (headSize + nodeNum * indexNodeSize + nodeNum * 40)))
        (by omega) (by omega)
      exact ⟨_, _, hcleared, rfl⟩
  | succ count ih =>
      obtain ⟨segment, map, hvalid, hentries⟩ := ih (by omega)
      obtain ⟨next, hcall, hnext, -⟩ := call_simulates hvalid (le_refl _)
        (.insert (UInt64.ofNat (count + 1)) (sessionInfo count))
      have hroom : map.size < map.capacity := by
        obtain ⟨chains, free, h⟩ := hvalid
        rw [BoundedMap.size, hentries, h.capacity_eq, List.length_map,
          List.length_reverse, List.length_range]
        omega
      have habsent : map.get (UInt64.ofNat (count + 1)) = none := by
        rw [Option.eq_none_iff_forall_ne_some]
        intro info hinfo
        rw [BoundedMap.get_eq_some_iff, hentries] at hinfo
        obtain ⟨index, hindex, hsame⟩ := List.mem_map.mp hinfo
        rw [List.mem_reverse, List.mem_range] at hindex
        have hkey : UInt64.ofNat (index + 1) = UInt64.ofNat (count + 1) :=
          congrArg Sigma.fst hsame
        have hnat := congrArg UInt64.toNat hkey
        rw [UInt64.toNat_ofNat', UInt64.toNat_ofNat'] at hnat
        omega
      have hput : (mapCall map
          (.insert (UInt64.ofNat (count + 1)) (sessionInfo count))).2 =
          map.put (UInt64.ofNat (count + 1)) (sessionInfo count) hroom := by
        simp only [mapCall, habsent, mapInsertNew, dif_pos hroom]
      refine ⟨next, _, hnext, ?_⟩
      rw [hput, BoundedMap.entries_put hroom habsent, hentries,
        List.range_succ, List.reverse_append]
      rfl

theorem ownSessionsOf_length {map : BoundedMap UInt64 ShmGnsInfo}
    {count : ℕ}
    (hentries : map.store.entries = (List.range count).reverse.map fun index =>
      ⟨UInt64.ofNat (index + 1), sessionInfo index⟩) :
    (ownSessionsOf 7 map).length = count := by
  have hpushed : (fun index : ℕ => pushed 7
      ⟨UInt64.ofNat (index + 1), sessionInfo index⟩) = fun index =>
        some ⟨UInt64.ofNat (index + 1), 7, 500, 0⟩ := by
    funext index
    exact if_pos ⟨rfl, rfl⟩
  rw [ownSessionsOf, hentries, List.filterMap_map]
  change (List.filterMap (fun index => pushed 7
    ⟨UInt64.ofNat (index + 1), sessionInfo index⟩) _).length = count
  rw [hpushed, List.filterMap_eq_map', List.length_map, List.length_reverse,
    List.length_range]

/-- A thousand and one users. -/
theorem announcements_exact_iff_full :
    ∃ (segment : Segment ShmGnsInfo) (map : BoundedMap UInt64 ShmGnsInfo)
      (answers disconnects : List Announcement),
      Valid segment 2000 2000 map ∧ (ownSessionsOf 7 map).length = 1001 ∧
      GnsTable.loginSyncReq 7 0 ⟨segment, 0, 2000⟩ 2000 8 8 = some answers ∧
      GnsTable.initDisconnect 7 0 ⟨segment, 0, 2000⟩ 2000 =
        some disconnects ∧
      Announces (ownSessionsOf 7 map) answers ∧
      Announces (ownSessionsOf 7 map) disconnects := by
  obtain ⟨segment, map, hvalid, hentries⟩ := exists_table
    (show 1001 < 2000 by decide) (by decide) (by decide)
  have hlength := ownSessionsOf_length hentries
  obtain ⟨answers, disconnects, hanswers, hdisconnects, hexact, hexact'⟩ :=
    announcements_exact_iff 7 0 0 8 hvalid (le_refl 2000)
      (show (8 : ℤ) ≠ 7 by decide)
  exact ⟨segment, map, answers, disconnects, hvalid, hlength, hanswers,
    hdisconnects, hexact.mpr hlength.le, hexact'.mpr hlength.le⟩

/-- A thousand and two users: the last message has all of them. -/
theorem announcements_not_exact :
    ¬ ∀ (segment : Segment ShmGnsInfo) (map : BoundedMap UInt64 ShmGnsInfo)
        (nodeNum fuel : ℕ) (serverID reqServerID : ℤ) (now : UInt64)
        (checkConnPos : ℕ) (srcID : UInt32) (answers : List Announcement),
      Valid segment nodeNum nodeNum map → nodeNum ≤ fuel →
      reqServerID ≠ serverID →
      GnsTable.loginSyncReq serverID now ⟨segment, checkConnPos, nodeNum⟩
        fuel srcID reqServerID = some answers →
      Announces (ownSessionsOf serverID map) answers := by
  intro hall
  obtain ⟨segment, map, hvalid, hentries⟩ := exists_table
    (show 1002 < 2000 by decide) (by decide) (by decide)
  have hlength := ownSessionsOf_length hentries
  obtain ⟨vctData, hcollect, hperm⟩ :=
    vctData_spec 7 0 hvalid (le_refl 2000) (by decide)
  have hanswers : GnsTable.loginSyncReq 7 0 ⟨segment, 0, 2000⟩ 2000 8 8 =
      some ((batches [] 0 vctData).map (sendLogins 7 8 toSrv
        (loginsHeader 7 0 cmdLoginSyncRsp))) := by
    rw [GnsTable.loginSyncReq, if_neg (by decide), hcollect]
    rfl
  have hannounces := hall segment map 2000 2000 7 8 0 0 8 _ hvalid
    (le_refl 2000) (by decide) hanswers
  have hfew := (announces_iff (sendLogins_message _ _ _ _)
    (fun _ => sendLogins_packet _ _ _ _) hperm).mp hannounces
  rw [hlength] at hfew
  exact absurd hfew (by decide)

end MessageBus.Conn
