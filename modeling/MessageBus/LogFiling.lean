import MessageBus.LogServer

/-!
# Where the log server files its records

Each level of each key of the three hash lists is a slot of cached files.  A
module and a LogID have one directory each, but UserIDs with the same low 32
bits share their slots: when they have different directories, a record goes to
the file that another user's record left open.
-/

namespace MessageBus.Log

open FileCache

/-! ## The hash lists as slots -/

inductive Slot where
  | module (szModuleName : ModuleName) (level : LogLevel)
  | logID (iLogID : UInt32) (level : LogLevel)
  | userID (uiUserID : UInt32) (level : LogLevel)
deriving DecidableEq

abbrev LogUse := Use Slot ℕ LogPath LogHeader

abbrev LogCache := Cache Slot ℕ LogPath LogHeader

def LevelFile.held (current : LevelFile) : Option (ℕ × ℕ) :=
  current.pfLogFile.map fun file => (current.iCurLogTime, file)

section HashList

variable {Key : Type} [DecidableEq Key]

/-- What a hash list holds for a level of a key. -/
def heldBy (hash : BoundedMap Key LogFilePInfo) (key : Key)
    (level : LogLevel) : Option (ℕ × ℕ) :=
  (hash.get key).bind fun info => (info level).held

/-- The files are there exactly when they have a time, and there is room for all
keys that may come. -/
structure HashOk (hash : BoundedMap Key LogFilePInfo) (keys : Finset Key) :
    Prop where
  file_iff : ∀ key info, hash.get key = some info → ∀ level,
    (info level).pfLogFile = none ↔ (info level).iCurLogTime = 0
  mem_keys : ∀ key info, hash.get key = some info → key ∈ keys
  room : keys.card ≤ hash.capacity

theorem HashOk.size_lt {hash : BoundedMap Key LogFilePInfo}
    {keys : Finset Key} (hok : HashOk hash keys) {key : Key}
    (hkey : key ∈ keys) (hnone : hash.get key = none) :
    hash.size < hash.capacity := by
  have hnodup : hash.store.entries.keys.Nodup := hash.store.nodupKeys
  have hsub : insert key hash.store.entries.keys.toFinset ⊆ keys := by
    intro other hother
    rcases Finset.mem_insert.mp hother with rfl | hmem
    · exact hkey
    · obtain ⟨entry, hentry, rfl⟩ :=
        List.mem_map.mp (List.mem_toFinset.mp hmem)
      exact hok.mem_keys _ _ (BoundedMap.get_eq_some_iff.mpr hentry)
  have habsent : key ∉ hash.store.entries.keys.toFinset := by
    intro hmem
    obtain ⟨entry, hentry, rfl⟩ :=
      List.mem_map.mp (List.mem_toFinset.mp hmem)
    have hsome := BoundedMap.get_eq_some_iff.mpr hentry
    rw [hnone] at hsome
    cases hsome
  have hcard := Finset.card_le_card hsub
  rw [Finset.card_insert_of_notMem habsent,
    List.toFinset_card_of_nodup hnodup, List.keys, List.length_map] at hcard
  have hroom := hok.room
  unfold BoundedMap.size
  omega

end HashList

/-! ## One level -/

/-- Files can be opened, and none becomes too large. -/
structure Host.Serves (host : Host) (conf : LogAllConf) : Prop where
  canOpen : ∀ path, host.canOpen path = true
  noRotation : ∀ files file, host.stSize files file ≤ conf.iMaxFileSize

section Level

variable {host : Host} {conf : LogAllConf}

theorem openFile_eq (hserves : host.Serves conf) (files : LogFiles)
    (path : LogPath) :
    openFile host files path =
      (some (files.openFile path).1, (files.openFile path).2) := by
  rw [openFile, if_pos (hserves.canOpen path)]

theorem checkFileSize_eq (hserves : host.Serves conf) (files : LogFiles)
    (file : ℕ) : checkFileSize host conf files (some file) = 0 := by
  have hsize := hserves.noRotation files file
  rw [checkFileSize, if_neg (by omega)]

/-- The branch of a level takes the file that its slot gives it. -/
theorem selectFile_spec (hserves : host.Serves conf) (tTimeNow : ℤ)
    {path : LogPath} (hpath : path.iCurLogTime ≠ 0) {current : LevelFile}
    (hcurrent : current.pfLogFile = none ↔ current.iCurLogTime = 0)
    (files : LogFiles) :
    ∃ next updated,
      selectFile host conf tTimeNow path current files =
        (next, updated, (obtainFile current.held files path.iCurLogTime path).2) ∧
      next.pfLogFile =
        some (obtainFile current.held files path.iCurLogTime path).1 ∧
      next.iCurLogTime = path.iCurLogTime ∧
      (updated = false → next.held = current.held) := by
  obtain ⟨pfLogFile, iCurLogTime, tLastSizeCheckTime⟩ := current
  cases pfLogFile with
  | none =>
      have hzero : iCurLogTime = 0 := hcurrent.mp rfl
      subst hzero
      refine ⟨⟨some (files.openFile path).1, path.iCurLogTime, tTimeNow⟩, true,
        ?_, rfl, rfl, ?_⟩
      · rw [selectFile, if_pos hpath]
        simp only [closeFile, openFile_eq hserves]
        rfl
      · intro hfalse
        cases hfalse
  | some file =>
      by_cases hsame : path.iCurLogTime = iCurLogTime
      · have hobtain : obtainFile (LevelFile.held
            ⟨some file, iCurLogTime, tLastSizeCheckTime⟩) files
              path.iCurLogTime path = (file, files) :=
          if_pos hsame
        rw [hobtain]
        by_cases hcheck : tTimeNow - tLastSizeCheckTime < 0 ∨
            host.iSizeCheckTimeVal < tTimeNow - tLastSizeCheckTime
        · refine ⟨⟨some file, iCurLogTime, tTimeNow⟩, false, ?_, rfl,
            hsame.symm, fun _ => rfl⟩
          rw [selectFile, if_neg (not_not.mpr hsame), if_pos hcheck,
            checkFileSize_eq hserves, if_neg (not_not.mpr rfl)]
        · refine ⟨⟨some file, iCurLogTime, tLastSizeCheckTime⟩, false, ?_, rfl,
            hsame.symm, fun _ => rfl⟩
          rw [selectFile, if_neg (not_not.mpr hsame), if_neg hcheck]
      · have hobtain : obtainFile (LevelFile.held
            ⟨some file, iCurLogTime, tLastSizeCheckTime⟩) files
              path.iCurLogTime path = (files.close file).openFile path :=
          if_neg hsame
        rw [hobtain]
        refine ⟨⟨some ((files.close file).openFile path).1, path.iCurLogTime,
          tTimeNow⟩, true, ?_, rfl, rfl, ?_⟩
        · rw [selectFile, if_pos hsame]
          simp only [closeFile, openFile_eq hserves]
        · intro hfalse
          cases hfalse

end Level

/-! ## One part -/

/-- The level of a valid record. -/
def LogHeader.level (header : LogHeader) : LogLevel :=
  (LogLevel.ofInt header.iLogLevel).getD .info

theorem LogHeader.Valid.ofInt_eq {header : LogHeader} (hvalid : header.Valid) :
    LogLevel.ofInt header.iLogLevel = some header.level := by
  have hrange : header.iLogLevel = 1 ∨ header.iLogLevel = 2 ∨
      header.iLogLevel = 3 ∨ header.iLogLevel = 4 ∨ header.iLogLevel = 5 := by
    unfold LogHeader.Valid at hvalid
    omega
  unfold LogHeader.level
  rcases hrange with h | h | h | h | h <;> rw [h] <;> rfl

/-- The file that an output configuration gives to a record. -/
def recordPath (host : Host) (conf : LogAllConf) (header : LogHeader)
    (outputConf : LogOutputConf) : LogPath where
  dir := logFilePath conf header outputConf
  level := header.level
  iCurLogTime := fileNameTime (host.localtime header.uiLogTimeSec)

section Part

variable {host : Host} {conf : LogAllConf} {header : LogHeader}
  {Key : Type} [DecidableEq Key] {hash : BoundedMap Key LogFilePInfo}
  {keys : Finset Key} {key : Key}

theorem writeLogToFile_spec (hserves : host.Serves conf)
    (hvalid : header.Valid) (tTimeNow : ℤ) (outputConf : LogOutputConf)
    {info : LogFilePInfo}
    (hinfo : ∀ level, (info level).pfLogFile = none ↔
      (info level).iCurLogTime = 0) (files : LogFiles) :
    ∃ next updated,
      writeLogToFile host conf tTimeNow header outputConf info files =
        (Function.update info header.level next, updated,
          (obtainFile (info header.level).held files
            (recordPath host conf header outputConf).iCurLogTime
            (recordPath host conf header outputConf)).2.append
              (obtainFile (info header.level).held files
                (recordPath host conf header outputConf).iCurLogTime
                (recordPath host conf header outputConf)).1 header) ∧
      next.pfLogFile = some (obtainFile (info header.level).held files
        (recordPath host conf header outputConf).iCurLogTime
        (recordPath host conf header outputConf)).1 ∧
      next.iCurLogTime = (recordPath host conf header outputConf).iCurLogTime ∧
      (updated = false → next.held = (info header.level).held) := by
  have hpath : (recordPath host conf header outputConf).iCurLogTime ≠ 0 :=
    fileNameTime_ne_zero _
  obtain ⟨next, updated, hselect, hfile, htime, hsame⟩ :=
    selectFile_spec hserves tTimeNow hpath (hinfo header.level) files
  refine ⟨next, updated, ?_, hfile, htime, hsame⟩
  rw [writeLogToFile, hvalid.ofInt_eq]
  simp only
  rw [← recordPath, hselect]
  simp only [hfile]

/-- Storing the files of a key that is there. -/
theorem HashOk.store (hok : HashOk hash keys) {info : LogFilePInfo}
    (hget : hash.get key = some info) {next : LevelFile} {level : LogLevel}
    (hnext : next.pfLogFile = none ↔ next.iCurLogTime = 0) :
    HashOk (hash.modify key fun _ => Function.update info level next) keys ∧
      ∀ other otherLevel,
        heldBy (hash.modify key fun _ => Function.update info level next)
            other otherLevel =
          if other = key ∧ otherLevel = level then next.held
          else heldBy hash other otherLevel := by
  have hstored : (hash.modify key fun _ => Function.update info level next).get
      key = some (Function.update info level next) := by
    rw [BoundedMap.get_modify_self, hget]
    rfl
  constructor
  · exact
      { file_iff := by
          intro other found hfound otherLevel
          by_cases hother : other = key
          · subst hother
            rw [hstored, Option.some.injEq] at hfound
            subst hfound
            by_cases hlevel : otherLevel = level
            · subst hlevel
              rwa [Function.update_self]
            · rw [Function.update_of_ne hlevel]
              exact hok.file_iff other info hget otherLevel
          · rw [BoundedMap.get_modify_of_ne _ hother] at hfound
            exact hok.file_iff other found hfound otherLevel
        mem_keys := by
          intro other found hfound
          by_cases hother : other = key
          · subst hother
            exact hok.mem_keys other info hget
          · rw [BoundedMap.get_modify_of_ne _ hother] at hfound
            exact hok.mem_keys other found hfound
        room := hok.room }
  · intro other otherLevel
    by_cases hother : other = key
    · subst hother
      rw [heldBy, hstored, Option.bind_some]
      by_cases hlevel : otherLevel = level
      · subst hlevel
        rw [Function.update_self, if_pos ⟨rfl, rfl⟩]
      · rw [Function.update_of_ne hlevel, if_neg (fun h => hlevel h.2), heldBy,
          hget, Option.bind_some]
    · rw [heldBy, BoundedMap.get_modify_of_ne _ hother,
        if_neg (fun h => hother h.1), heldBy]

theorem HashOk.insert (hok : HashOk hash keys) (hkey : key ∈ keys)
    (hnone : hash.get key = none) (hroom : hash.size < hash.capacity) :
    HashOk (hash.put key LogFilePInfo.zero hroom) keys ∧
      ∀ other level,
        heldBy (hash.put key LogFilePInfo.zero hroom) other level =
          heldBy hash other level := by
  constructor
  · exact
      { file_iff := by
          intro other found hfound level
          by_cases hother : other = key
          · subst hother
            rw [BoundedMap.get_put_self, Option.some.injEq] at hfound
            subst hfound
            exact iff_of_true rfl rfl
          · rw [BoundedMap.get_put_of_ne _ hother] at hfound
            exact hok.file_iff other found hfound level
        mem_keys := by
          intro other found hfound
          by_cases hother : other = key
          · exact hother ▸ hkey
          · rw [BoundedMap.get_put_of_ne _ hother] at hfound
            exact hok.mem_keys other found hfound
        room := hok.room }
  · intro other level
    by_cases hother : other = key
    · subst hother
      rw [heldBy, BoundedMap.get_put_self, heldBy, hnone]
      rfl
    · rw [heldBy, BoundedMap.get_put_of_ne _ hother, heldBy]

theorem HashOk.fetch (hok : HashOk hash keys) (hkey : key ∈ keys)
    (updateFlag : Bool) :
    ∃ fetched info fetchedFlag,
      fetchFiles hash key updateFlag = some (fetched, info, fetchedFlag) ∧
      HashOk fetched keys ∧ fetched.get key = some info ∧
      ∀ other level, heldBy fetched other level = heldBy hash other level := by
  cases hget : hash.get key with
  | none =>
      have hroom := hok.size_lt hkey hget
      obtain ⟨hput, hheldBy⟩ := hok.insert hkey hget hroom
      refine ⟨hash.put key LogFilePInfo.zero hroom, LogFilePInfo.zero, true, ?_,
        hput, BoundedMap.get_put_self hroom, hheldBy⟩
      simp only [fetchFiles, hget, dif_pos hroom]
  | some info =>
      refine ⟨hash, info, updateFlag, ?_, hok, hget, fun _ _ => rfl⟩
      simp only [fetchFiles, hget]

/-- What a part does once it has copied out the files of its key. -/
theorem HashOk.storeIf (hok : HashOk hash keys) {info : LogFilePInfo}
    (hget : hash.get key = some info) {next : LevelFile} {level : LogLevel}
    (hnext : next.pfLogFile = none ↔ next.iCurLogTime = 0) {updateFlag : Bool}
    (hsame : updateFlag = false → next.held = (info level).held) :
    HashOk (if updateFlag then
        hash.modify key fun _ => Function.update info level next else hash)
        keys ∧
      ∀ other otherLevel,
        heldBy (if updateFlag then
            hash.modify key fun _ => Function.update info level next else hash)
            other otherLevel =
          if other = key ∧ otherLevel = level then next.held
          else heldBy hash other otherLevel := by
  cases updateFlag with
  | true => exact hok.store hget hnext
  | false =>
      refine ⟨hok, fun other otherLevel => ?_⟩
      rw [if_neg Bool.false_ne_true]
      by_cases hslot : other = key ∧ otherLevel = level
      · obtain ⟨rfl, rfl⟩ := hslot
        rw [if_pos ⟨rfl, rfl⟩, hsame rfl, heldBy, hget, Option.bind_some]
      · rw [if_neg hslot]

/-- A part takes the file that the slot gives it, writes the record to it, and
leaves it in the slot. -/
theorem filePart_spec (hserves : host.Serves conf) (hvalid : header.Valid)
    (tTimeNow : ℤ) (outputConf : LogOutputConf) (hok : HashOk hash keys)
    (hkey : key ∈ keys) (updateFlag : Bool) (files : LogFiles) :
    ∃ next nextFlag,
      filePart (writeLogToFile host conf tTimeNow header outputConf) hash key
          updateFlag files =
        some (next, nextFlag,
          (obtainFile (heldBy hash key header.level) files
            (recordPath host conf header outputConf).iCurLogTime
            (recordPath host conf header outputConf)).2.append
              (obtainFile (heldBy hash key header.level) files
                (recordPath host conf header outputConf).iCurLogTime
                (recordPath host conf header outputConf)).1 header) ∧
      HashOk next keys ∧
      ∀ other level, heldBy next other level =
        if other = key ∧ level = header.level then
          some ((recordPath host conf header outputConf).iCurLogTime,
            (obtainFile (heldBy hash key header.level) files
              (recordPath host conf header outputConf).iCurLogTime
              (recordPath host conf header outputConf)).1)
        else heldBy hash other level := by
  have hpath : (recordPath host conf header outputConf).iCurLogTime ≠ 0 :=
    fileNameTime_ne_zero _
  obtain ⟨fetched, info, fetchedFlag, hfetch, hfetched, hinfo, hheldBy⟩ :=
    hok.fetch hkey updateFlag
  have hheld : (info header.level).held = heldBy hash key header.level := by
    rw [← hheldBy, heldBy, hinfo, Option.bind_some]
  obtain ⟨current, updated, hwrite, hfile, htime, hsame⟩ :=
    writeLogToFile_spec hserves hvalid tTimeNow outputConf
      (hfetched.file_iff key info hinfo) files
  rw [hheld] at hwrite hfile
  have hcurrent : current.pfLogFile = none ↔ current.iCurLogTime = 0 := by
    rw [hfile, htime]
    exact iff_of_false (Option.some_ne_none _) hpath
  obtain ⟨hnext, hslots⟩ := hfetched.storeIf hinfo hcurrent
    (show (fetchedFlag || updated) = false → _ from
      fun hfalse => hsame (Bool.or_eq_false_iff.mp hfalse).2)
  refine ⟨_, fetchedFlag || updated, ?_, hnext, ?_⟩
  · rw [filePart, hfetch]
    simp only [Option.bind_eq_bind, Option.bind_some, hwrite]
  · intro other level
    rw [hslots, LevelFile.held, hfile, htime, hheldBy]
    rfl

end Part

/-! ## One record -/

/-- The server as a cache of files. -/
def LogServer.view (server : LogServer) : LogCache where
  held
    | .module szModuleName level =>
        heldBy server.moduleLogFilePHash szModuleName level
    | .logID iLogID level => heldBy server.specLogIDFilePHash iLogID level
    | .userID uiUserID level =>
        heldBy server.specUserIDFilePHash uiUserID level
  files := server.files

section Uses

variable (host : Host) (conf : LogAllConf) (header : LogHeader)

def useOf (slot : Slot) (outputConf : LogOutputConf) : LogUse where
  slot := slot
  stamp := (recordPath host conf header outputConf).iCurLogTime
  name := recordPath host conf header outputConf
  item := header

def moduleUse : LogUse :=
  useOf host conf header (.module header.szModuleName header.level)
    conf.globalConf

def logIDUses : List LogUse :=
  (logIDOutput conf header).toList.map
    (useOf host conf header (.logID header.iLogID.toUInt32 header.level))

def userIDUses : List LogUse :=
  (userIDOutput conf header).toList.map
    (useOf host conf header (.userID header.ullUserID.toUInt32 header.level))

/-- The uses that `Run` makes of the slots for a record. -/
def recordUses : List LogUse :=
  if header.Valid then
    moduleUse host conf header ::
      (logIDUses host conf header ++ userIDUses host conf header)
  else []

end Uses

/-- Keys that there is room for. -/
structure Keys where
  modules : Finset ModuleName
  logIDs : Finset UInt32
  userIDs : Finset UInt32

/-- The keys of a record are among them. -/
structure Keys.Cover (keys : Keys) (conf : LogAllConf) (header : LogHeader) :
    Prop where
  module : header.szModuleName ∈ keys.modules
  logID : logIDOutput conf header ≠ none →
    header.iLogID.toUInt32 ∈ keys.logIDs
  userID : userIDOutput conf header ≠ none →
    header.ullUserID.toUInt32 ∈ keys.userIDs

structure LogServer.Ok (server : LogServer) (keys : Keys) : Prop where
  module : HashOk server.moduleLogFilePHash keys.modules
  logID : HashOk server.specLogIDFilePHash keys.logIDs
  userID : HashOk server.specUserIDFilePHash keys.userIDs

section Record

variable {host : Host} {conf : LogAllConf} {server : LogServer} {keys : Keys}
  {record : Record}

theorem fileModule_spec (hserves : host.Serves conf)
    (hvalid : record.header.Valid) (hok : server.Ok keys)
    (hkey : record.header.szModuleName ∈ keys.modules) :
    ∃ next updateFlag,
      server.fileModule host conf record = .ok (next, updateFlag) ∧
      next.Ok keys ∧
      next.view = server.view.step (moduleUse host conf record.header) := by
  obtain ⟨hash, updateFlag, hpart, hhash, hslots⟩ :=
    filePart_spec hserves hvalid record.tModule conf.globalConf hok.module hkey
      false server.files
  refine ⟨{ server with
      moduleLogFilePHash := hash
      files := (server.view.step (moduleUse host conf record.header)).files },
    updateFlag, ?_, ⟨hhash, hok.logID, hok.userID⟩, ?_⟩
  · rw [LogServer.fileModule, hpart]
    rfl
  · rw [LogServer.view, Cache.step, Cache.mk.injEq]
    refine ⟨?_, rfl⟩
    funext slot
    cases slot with
    | module szModuleName level =>
        rw [Function.update_apply]
        simp only [hslots, moduleUse, useOf, Slot.module.injEq]
        rfl
    | logID iLogID level => rfl
    | userID uiUserID level => rfl

theorem fileLogID_spec (hserves : host.Serves conf)
    (hvalid : record.header.Valid) (hok : server.Ok keys)
    (hkey : logIDOutput conf record.header ≠ none →
      record.header.iLogID.toUInt32 ∈ keys.logIDs) (updateFlag : Bool) :
    ∃ next nextFlag,
      server.fileLogID host conf updateFlag record = .ok (next, nextFlag) ∧
      next.Ok keys ∧
      next.view = server.view.run (logIDUses host conf record.header) := by
  cases houtput : logIDOutput conf record.header with
  | none =>
      refine ⟨server, updateFlag, ?_, hok, ?_⟩
      · rw [LogServer.fileLogID, houtput]
      · rw [logIDUses, houtput]
        rfl
  | some outputConf =>
      rw [houtput] at hkey
      obtain ⟨hash, nextFlag, hpart, hhash, hslots⟩ :=
        filePart_spec hserves hvalid record.tLogID outputConf hok.logID
          (hkey (Option.some_ne_none _)) updateFlag server.files
      refine ⟨{ server with
          specLogIDFilePHash := hash
          files := (server.view.step (useOf host conf record.header
            (.logID record.header.iLogID.toUInt32 record.header.level)
            outputConf)).files },
        nextFlag, ?_, ⟨hok.module, hhash, hok.userID⟩, ?_⟩
      · rw [LogServer.fileLogID, houtput]
        simp only [hpart]
        rfl
      · rw [logIDUses, houtput]
        change _ = server.view.step _
        rw [LogServer.view, Cache.step, Cache.mk.injEq]
        refine ⟨?_, rfl⟩
        funext slot
        cases slot with
        | module szModuleName level => rfl
        | logID iLogID level =>
            rw [Function.update_apply]
            simp only [hslots, useOf, Slot.logID.injEq]
            rfl
        | userID uiUserID level => rfl

theorem fileUserID_spec (hserves : host.Serves conf)
    (hvalid : record.header.Valid) (hok : server.Ok keys)
    (hkey : userIDOutput conf record.header ≠ none →
      record.header.ullUserID.toUInt32 ∈ keys.userIDs) (updateFlag : Bool) :
    ∃ next nextFlag,
      server.fileUserID host conf updateFlag record = .ok (next, nextFlag) ∧
      next.Ok keys ∧
      next.view = server.view.run (userIDUses host conf record.header) := by
  cases houtput : userIDOutput conf record.header with
  | none =>
      refine ⟨server, updateFlag, ?_, hok, ?_⟩
      · rw [LogServer.fileUserID, houtput]
      · rw [userIDUses, houtput]
        rfl
  | some outputConf =>
      rw [houtput] at hkey
      obtain ⟨hash, nextFlag, hpart, hhash, hslots⟩ :=
        filePart_spec hserves hvalid record.tUserID outputConf hok.userID
          (hkey (Option.some_ne_none _)) updateFlag server.files
      refine ⟨{ server with
          specUserIDFilePHash := hash
          files := (server.view.step (useOf host conf record.header
            (.userID record.header.ullUserID.toUInt32 record.header.level)
            outputConf)).files },
        nextFlag, ?_, ⟨hok.module, hok.logID, hhash⟩, ?_⟩
      · rw [LogServer.fileUserID, houtput]
        simp only [hpart]
        rfl
      · rw [userIDUses, houtput]
        change _ = server.view.step _
        rw [LogServer.view, Cache.step, Cache.mk.injEq]
        refine ⟨?_, rfl⟩
        funext slot
        cases slot with
        | module szModuleName level => rfl
        | logID iLogID level => rfl
        | userID uiUserID level =>
            rw [Function.update_apply]
            simp only [hslots, useOf, Slot.userID.injEq]
            rfl

/-- The server works on a record as the cache of files does on its uses. -/
theorem logRecord_spec (hserves : host.Serves conf) (hok : server.Ok keys)
    (hcover : keys.Cover conf record.header) :
    (server.logRecord host conf record).Ok keys ∧
      (server.logRecord host conf record).view =
        server.view.run (recordUses host conf record.header) := by
  by_cases hvalid : record.header.Valid
  · obtain ⟨first, firstFlag, hfirst, hfirstOk, hfirstView⟩ :=
      fileModule_spec hserves hvalid hok hcover.module
    obtain ⟨second, secondFlag, hsecond, hsecondOk, hsecondView⟩ :=
      fileLogID_spec hserves hvalid hfirstOk hcover.logID firstFlag
    obtain ⟨third, thirdFlag, hthird, hthirdOk, hthirdView⟩ :=
      fileUserID_spec hserves hvalid hsecondOk hcover.userID secondFlag
    have hlog : server.logRecord host conf record = third := by
      rw [LogServer.logRecord, if_pos hvalid]
      simp only [hfirst, hsecond, hthird, bind, Except.bind]
    rw [hlog, recordUses, if_pos hvalid]
    refine ⟨hthirdOk, ?_⟩
    rw [hthirdView, hsecondView, hfirstView, Cache.run, Cache.run, Cache.run,
      List.foldl_cons, List.foldl_append]
  · rw [LogServer.logRecord, if_neg hvalid, recordUses, if_neg hvalid]
    exact ⟨hok, rfl⟩

end Record

/-! ## Runs -/

section Runs

variable {host : Host} {conf : LogAllConf} {server : LogServer} {keys : Keys}

def allUses (host : Host) (conf : LogAllConf) (records : List Record) :
    List LogUse :=
  records.flatMap fun record => recordUses host conf record.header

theorem run_spec (hserves : host.Serves conf) {records : List Record}
    (hok : server.Ok keys)
    (hcover : ∀ record ∈ records, keys.Cover conf record.header) :
    (server.run host conf records).Ok keys ∧
      (server.run host conf records).view =
        server.view.run (allUses host conf records) := by
  induction records generalizing server with
  | nil => exact ⟨hok, rfl⟩
  | cons record records ih =>
      obtain ⟨hrecord, hrest⟩ := List.forall_mem_cons.mp hcover
      obtain ⟨hnext, hview⟩ := logRecord_spec hserves hok hrecord
      obtain ⟨hfinal, hrun⟩ := ih hnext hrest
      refine ⟨hfinal, ?_⟩
      rw [LogServer.run, List.foldl_cons, ← LogServer.run, hrun, hview,
        allUses, allUses, List.flatMap_cons, Cache.run, Cache.run, Cache.run,
        List.foldl_append]

end Runs

/-- There are enough nodes for the modules of the records, and for all LogIDs
and UserIDs of the configuration. -/
structure EnoughNodes (conf : LogAllConf) (iMaxModuleNum : ℕ)
    (records : List Record) : Prop where
  modules : (records.map fun record =>
    record.header.szModuleName).toFinset.card < iMaxModuleNum
  logIDs : conf.logIDConf.size < iMaxModuleNum
  userIDs : conf.userIDConf.size < iMaxModuleNum

section Enough

variable {conf : LogAllConf} {iMaxModuleNum : ℕ} {records : List Record}

def keysOf (conf : LogAllConf) (records : List Record) : Keys where
  modules := (records.map fun record => record.header.szModuleName).toFinset
  logIDs := conf.logIDConf.store.keys.toFinset
  userIDs := (conf.userIDConf.store.keys.map UInt64.toUInt32).toFinset

theorem logIDOutput_eq_some {header : LogHeader} {outputConf : LogOutputConf}
    (houtput : logIDOutput conf header = some outputConf) :
    conf.logIDConf.get header.iLogID.toUInt32 = some outputConf := by
  unfold logIDOutput at houtput
  split_ifs at houtput
  exact houtput

theorem userIDOutput_eq_some {header : LogHeader} {outputConf : LogOutputConf}
    (houtput : userIDOutput conf header = some outputConf) :
    conf.userIDConf.get header.ullUserID = some outputConf := by
  unfold userIDOutput at houtput
  split_ifs at houtput
  exact houtput

theorem mem_keys_of_get {Key : Type} [DecidableEq Key]
    {map : BoundedMap Key LogOutputConf} {key : Key}
    {outputConf : LogOutputConf} (hget : map.get key = some outputConf) :
    key ∈ map.store.keys :=
  List.mem_map.mpr ⟨_, BoundedMap.get_eq_some_iff.mp hget, rfl⟩

theorem cover_keysOf {record : Record} (hrecord : record ∈ records) :
    (keysOf conf records).Cover conf record.header where
  module := List.mem_toFinset.mpr
    (List.mem_map_of_mem hrecord)
  logID := by
    intro hsome
    obtain ⟨outputConf, houtput⟩ := Option.ne_none_iff_exists'.mp hsome
    exact List.mem_toFinset.mpr (mem_keys_of_get (logIDOutput_eq_some houtput))
  userID := by
    intro hsome
    obtain ⟨outputConf, houtput⟩ := Option.ne_none_iff_exists'.mp hsome
    exact List.mem_toFinset.mpr (List.mem_map_of_mem
      (mem_keys_of_get (userIDOutput_eq_some houtput)))

theorem hashOk_empty {Key : Type} [DecidableEq Key] {keys : Finset Key}
    {capacity : ℕ} (hroom : keys.card ≤ capacity) :
    HashOk (BoundedMap.empty Key LogFilePInfo capacity) keys where
  file_iff := by
    intro key info hget
    rw [BoundedMap.get_empty] at hget
    cases hget
  mem_keys := by
    intro key info hget
    rw [BoundedMap.get_empty] at hget
    cases hget
  room := hroom

theorem ok_start (henough : EnoughNodes conf iMaxModuleNum records) :
    (LogServer.start iMaxModuleNum).Ok (keysOf conf records) where
  module := hashOk_empty (Nat.le_sub_one_of_lt henough.modules)
  logID := by
    apply hashOk_empty
    have hcard := List.toFinset_card_le conf.logIDConf.store.keys
    have hsize := henough.logIDs
    rw [AList.keys, List.keys, List.length_map] at hcard
    unfold BoundedMap.size at hsize
    exact hcard.trans (Nat.le_sub_one_of_lt hsize)
  userID := by
    apply hashOk_empty
    have hcard := List.toFinset_card_le
      (conf.userIDConf.store.keys.map UInt64.toUInt32)
    have hsize := henough.userIDs
    rw [List.length_map, AList.keys, List.keys, List.length_map] at hcard
    unfold BoundedMap.size at hsize
    exact hcard.trans (Nat.le_sub_one_of_lt hsize)

end Enough

end MessageBus.Log
