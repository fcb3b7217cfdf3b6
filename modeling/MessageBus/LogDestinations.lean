import MessageBus.LogFiling

/-!
# The files a log record belongs to

A record belongs to the file of its module, level and hour, and to those of its
LogID and its UserID when they are configured.  That is where the log server
files it, as long as no other UserID with the same low 32 bits has left its
file open, and no two of the directories are the same.
-/

namespace MessageBus.Log

open FileCache

/-- The directory of a configured LogID. -/
def logIDDir (conf : LogAllConf) (iLogID : UInt32)
    (outputConf : LogOutputConf) : String :=
  if outputConf.szOutputPathDir = "" then
    conf.globalConf.szOutputPathDir ++ "/" ++ toString iLogID.toInt32.toInt
  else outputConf.szOutputPathDir

/-- The directory of a configured UserID. -/
def userIDDir (conf : LogAllConf) (ullUserID : UInt64)
    (outputConf : LogOutputConf) : String :=
  if outputConf.szOutputPathDir = "" then
    conf.globalConf.szOutputPathDir ++ "/" ++ toString ullUserID.toNat
  else outputConf.szOutputPathDir

section Destinations

variable (host : Host) (conf : LogAllConf) (header : LogHeader)

/-- The hour of a record. -/
def LogHeader.hour : ℕ := fileNameTime (host.localtime header.uiLogTimeSec)

/-- The directories of a record: of its module, and of its LogID and its UserID
if these are configured. -/
def directories : List String :=
  (conf.globalConf.szOutputPathDir ++ "/" ++ header.szModuleName.text) ::
    ((conf.logIDConf.get header.iLogID.toUInt32).toList.map
        (logIDDir conf header.iLogID.toUInt32) ++
      (conf.userIDConf.get header.ullUserID).toList.map
        (userIDDir conf header.ullUserID))

/-- The files that a record belongs to, which are none if `Run` finds it not
valid. -/
def destinations : List LogPath :=
  if header.Valid then
    (directories conf header).map fun dir =>
      { dir := dir, level := header.level, iCurLogTime := header.hour host }
  else []

end Destinations

/-! ## Conditions -/

/-- The last record before that was filed under a UserID with the same low 32
bits, at the same level. -/
def earlierRecord (conf : LogAllConf) (before : List Record)
    (header : LogHeader) : Option LogHeader :=
  (before.map Record.header).reverse.find? fun other =>
    other.Valid ∧ (conf.userIDConf.get other.ullUserID).isSome ∧
      other.ullUserID.toUInt32 = header.ullUserID.toUInt32 ∧
      other.level = header.level

/-- If the UserID of the record is configured and that record is of the same
hour, then it is of a UserID with the same directory. -/
def OwnUserFile (host : Host) (conf : LogAllConf) (before : List Record)
    (header : LogHeader) : Prop :=
  ∀ outputConf ∈ conf.userIDConf.get header.ullUserID,
    ∀ other ∈ earlierRecord conf before header,
      other.hour host = header.hour host →
      ∀ otherConf ∈ conf.userIDConf.get other.ullUserID,
        userIDDir conf other.ullUserID otherConf =
          userIDDir conf header.ullUserID outputConf

/-- No directory of the record is that of another LogID or UserID. -/
structure OwnDirectories (conf : LogAllConf) (header : LogHeader) : Prop where
  logID : ∀ iLogID ≠ header.iLogID.toUInt32,
    ∀ outputConf ∈ conf.logIDConf.get iLogID,
      logIDDir conf iLogID outputConf ∉ directories conf header
  userID : ∀ ullUserID ≠ header.ullUserID,
    ∀ outputConf ∈ conf.userIDConf.get ullUserID,
      userIDDir conf ullUserID outputConf ∉ directories conf header

/-- The condition on a record, after the records before it.  Directories are
compared as texts, so that two names of one directory count as different; that
`CheckDirAll` creates the directory of a new file node is left out. -/
structure FilesApart (host : Host) (conf : LogAllConf) (before : List Record)
    (header : LogHeader) : Prop where
  ownUserFile : OwnUserFile host conf before header
  ownDirectories : OwnDirectories conf header

/-! ## Uses and destinations -/

section Uses

variable {host : Host} {conf : LogAllConf} {header : LogHeader}

theorem one_lt_getUsedDataNum {Key : Type} [DecidableEq Key]
    {map : BoundedMap Key LogOutputConf} {key : Key}
    {outputConf : LogOutputConf} (hget : map.get key = some outputConf) :
    1 < getUsedDataNum map := by
  have hpos := List.length_pos_of_mem (BoundedMap.get_eq_some_iff.mp hget)
  unfold getUsedDataNum BoundedMap.size
  omega

/-- Asking for the number of entries first makes no difference. -/
theorem logIDOutput_eq :
    logIDOutput conf header = conf.logIDConf.get header.iLogID.toUInt32 := by
  unfold logIDOutput
  split_ifs with hused
  · rfl
  · cases hget : conf.logIDConf.get header.iLogID.toUInt32 with
    | none => rfl
    | some outputConf => exact absurd (one_lt_getUsedDataNum hget) hused

theorem userIDOutput_eq :
    userIDOutput conf header = conf.userIDConf.get header.ullUserID := by
  unfold userIDOutput
  split_ifs with hused
  · rfl
  · cases hget : conf.userIDConf.get header.ullUserID with
    | none => rfl
    | some outputConf => exact absurd (one_lt_getUsedDataNum hget) hused

theorem logFilePath_global :
    logFilePath conf header conf.globalConf =
      conf.globalConf.szOutputPathDir ++ "/" ++ header.szModuleName.text := by
  rw [logFilePath, conf.global_type]

theorem logFilePath_logID {outputConf : LogOutputConf}
    (hget : conf.logIDConf.get header.iLogID.toUInt32 = some outputConf) :
    logFilePath conf header outputConf =
      logIDDir conf header.iLogID.toUInt32 outputConf := by
  rw [logFilePath, conf.logID_type _ _ hget, logIDDir, Int32.toInt32_toUInt32]

theorem logFilePath_userID {outputConf : LogOutputConf}
    (hget : conf.userIDConf.get header.ullUserID = some outputConf) :
    logFilePath conf header outputConf =
      userIDDir conf header.ullUserID outputConf := by
  rw [logFilePath, conf.userID_type _ _ hget, userIDDir]

theorem map_recordUses :
    (recordUses host conf header).map (fun use => (use.name, use.item)) =
      (destinations host conf header).map fun path => (path, header) := by
  unfold recordUses destinations
  split_ifs
  · rw [directories, logIDUses, userIDUses, logIDOutput_eq, userIDOutput_eq]
    simp only [List.map_cons, List.map_append, List.map_map]
    congr 1
    · simp only [moduleUse, useOf, recordPath, logFilePath_global]
      rfl
    · congr 1
      · apply List.map_congr_left
        intro outputConf hget
        simp only [Function.comp_apply, useOf, recordPath,
          logFilePath_logID (Option.mem_toList.mp hget)]
        rfl
      · apply List.map_congr_left
        intro outputConf hget
        simp only [Function.comp_apply, useOf, recordPath,
          logFilePath_userID (Option.mem_toList.mp hget)]
        rfl
  · rfl

theorem name_of_module {use : LogUse} (huse : use ∈ recordUses host conf header)
    {szModuleName : ModuleName} {level : LogLevel}
    (hslot : use.slot = .module szModuleName level) :
    use.name =
      { dir := conf.globalConf.szOutputPathDir ++ "/" ++ szModuleName.text
        level := level
        iCurLogTime := use.stamp } := by
  unfold recordUses at huse
  split_ifs at huse
  · rcases List.mem_cons.mp huse with rfl | huse
    · obtain ⟨rfl, rfl⟩ : header.szModuleName = szModuleName ∧
          header.level = level := by
        simpa [moduleUse, useOf] using hslot
      simp only [moduleUse, useOf, recordPath, logFilePath_global]
    · rcases List.mem_append.mp huse with hmem | hmem <;>
      · obtain ⟨outputConf, -, rfl⟩ := List.mem_map.mp hmem
        cases hslot
  · cases huse

theorem name_of_logID {use : LogUse} (huse : use ∈ recordUses host conf header)
    {iLogID : UInt32} {level : LogLevel}
    (hslot : use.slot = .logID iLogID level) :
    ∃ outputConf ∈ conf.logIDConf.get iLogID,
      use.name =
        { dir := logIDDir conf iLogID outputConf
          level := level
          iCurLogTime := use.stamp } := by
  unfold recordUses at huse
  split_ifs at huse
  · rcases List.mem_cons.mp huse with rfl | huse
    · cases hslot
    · rcases List.mem_append.mp huse with hmem | hmem
      · obtain ⟨outputConf, houtput, rfl⟩ := List.mem_map.mp hmem
        rw [Option.mem_toList, logIDOutput_eq] at houtput
        obtain ⟨rfl, rfl⟩ : header.iLogID.toUInt32 = iLogID ∧
            header.level = level := by
          simpa [useOf] using hslot
        refine ⟨outputConf, houtput, ?_⟩
        simp only [useOf, recordPath, logFilePath_logID houtput]
      · obtain ⟨outputConf, -, rfl⟩ := List.mem_map.mp hmem
        cases hslot
  · cases huse

end Uses

/-! ## The last use of a slot -/

section Last

variable {host : Host} {conf : LogAllConf} {before : List Record}

abbrev LogLast := Last Slot ℕ LogPath LogHeader

/-- The last uses of the slots after some records. -/
def lastUses (host : Host) (conf : LogAllConf) (before : List Record) :
    LogLast :=
  Last.after (fun _ => none) (allUses host conf before)

theorem mem_lastUses {slot : Slot} {use : LogUse}
    (huse : lastUses host conf before slot = some use) :
    ∃ header, use ∈ recordUses host conf header ∧ use.slot = slot := by
  rcases mem_after huse with ⟨hmem, hslot⟩ | hnone
  · obtain ⟨record, -, hrecord⟩ := List.mem_flatMap.mp hmem
    exact ⟨record.header, hrecord, hslot⟩
  · cases hnone

/-- The uses of a record in the slots of UserIDs. -/
theorem after_recordUses_userID (last : LogLast) (header : LogHeader)
    (uiUserID : UInt32) (level : LogLevel) :
    last.after (recordUses host conf header) (.userID uiUserID level) =
      if header.Valid ∧ (conf.userIDConf.get header.ullUserID).isSome ∧
          header.ullUserID.toUInt32 = uiUserID ∧ header.level = level then
        (conf.userIDConf.get header.ullUserID).map
          (useOf host conf header (.userID uiUserID level))
      else last (.userID uiUserID level) := by
  unfold recordUses
  by_cases hvalid : header.Valid
  · have hlogID : ∀ last : LogLast,
        last.after (logIDUses host conf header) (.userID uiUserID level) =
          last (.userID uiUserID level) := by
      intro last
      rw [logIDUses]
      cases logIDOutput conf header <;> rfl
    rw [if_pos hvalid, Last.after, List.foldl_cons, List.foldl_append,
      ← Last.after, ← Last.after, userIDUses, userIDOutput_eq]
    cases hget : conf.userIDConf.get header.ullUserID with
    | none =>
        rw [if_neg (by simp)]
        exact hlogID _
    | some outputConf =>
        change Function.update _ (Slot.userID _ _) _ _ = _
        rw [Function.update_apply]
        by_cases hslot : header.ullUserID.toUInt32 = uiUserID ∧
            header.level = level
        · obtain ⟨rfl, rfl⟩ := hslot
          rw [if_pos rfl, if_pos ⟨hvalid, rfl, rfl, rfl⟩]
          rfl
        · have hne : Slot.userID uiUserID level ≠
              Slot.userID header.ullUserID.toUInt32 header.level := by
            intro heq
            injection heq with huser hlevel
            exact hslot ⟨huser.symm, hlevel.symm⟩
          rw [if_neg hne, if_neg (fun h => hslot h.2.2)]
          exact hlogID _
  · rw [if_neg hvalid, if_neg (fun h => hvalid h.1)]
    rfl

/-- The last use of a slot of UserIDs is that of the earlier record. -/
theorem lastUses_userID {header : LogHeader} {use : LogUse}
    (huse : lastUses host conf before
      (.userID header.ullUserID.toUInt32 header.level) = some use) :
    ∃ other ∈ earlierRecord conf before header,
      ∃ otherConf ∈ conf.userIDConf.get other.ullUserID,
        other.level = header.level ∧
        use = useOf host conf other
          (.userID header.ullUserID.toUInt32 header.level) otherConf := by
  induction before using List.reverseRecOn with
  | nil => cases huse
  | append_singleton before record ih =>
      rw [lastUses, allUses, List.flatMap_append, Last.after,
        List.foldl_append, ← Last.after, List.flatMap_singleton, ← Last.after,
        after_recordUses_userID] at huse
      rw [earlierRecord, List.map_append, List.reverse_append]
      simp only [List.map_cons, List.map_nil, List.reverse_cons,
        List.reverse_nil, List.nil_append, List.cons_append, List.find?_cons]
      split_ifs at huse with hslot
      · obtain ⟨otherConf, hget, rfl⟩ := Option.map_eq_some_iff.mp huse
        rw [decide_eq_true hslot]
        exact ⟨record.header, rfl, otherConf, hget, hslot.2.2.2, rfl⟩
      · rw [decide_eq_false hslot]
        exact ih huse

end Last

/-! ## Runs -/

section Runs

variable {host : Host} {conf : LogAllConf} {before : List Record}
  {header : LogHeader}

theorem nodup_slots :
    ((recordUses host conf header).map Use.slot).Nodup := by
  unfold recordUses logIDUses userIDUses
  split_ifs
  · cases logIDOutput conf header <;> cases userIDOutput conf header <;>
      simp [moduleUse, useOf]
  · exact List.nodup_nil

theorem agrees_module {use : LogUse} {szModuleName : ModuleName}
    {level : LogLevel} (huse : use ∈ recordUses host conf header)
    (hslot : use.slot = .module szModuleName level) :
    Agrees (lastUses host conf before) use := by
  intro previous hprevious hstamp
  obtain ⟨other, hother, hsame⟩ := mem_lastUses hprevious
  rw [name_of_module huse hslot,
    name_of_module hother (hsame.trans hslot), hstamp]

theorem agrees_logID {use : LogUse} {iLogID : UInt32} {level : LogLevel}
    (huse : use ∈ recordUses host conf header)
    (hslot : use.slot = .logID iLogID level) :
    Agrees (lastUses host conf before) use := by
  intro previous hprevious hstamp
  obtain ⟨other, hother, hsame⟩ := mem_lastUses hprevious
  obtain ⟨outputConf, hget, hname⟩ := name_of_logID huse hslot
  obtain ⟨otherConf, hotherGet, hotherName⟩ :=
    name_of_logID hother (hsame.trans hslot)
  have hconf : otherConf = outputConf :=
    Option.some.inj (hotherGet.symm.trans hget)
  rw [hname, hotherName, hstamp, hconf]

theorem agrees_userID {use : LogUse}
    (hown : OwnUserFile host conf before header)
    (huse : use ∈ userIDUses host conf header) :
    Agrees (lastUses host conf before) use := by
  obtain ⟨outputConf, houtput, rfl⟩ := List.mem_map.mp huse
  rw [Option.mem_toList, userIDOutput_eq] at houtput
  intro previous hprevious hstamp
  obtain ⟨other, hother, otherConf, hget, hlevel, rfl⟩ :=
    lastUses_userID hprevious
  have hhour : other.hour host = header.hour host := hstamp
  have hdir := hown outputConf houtput other hother hhour otherConf hget
  change recordPath host conf other otherConf =
    recordPath host conf header outputConf
  rw [recordPath, recordPath, logFilePath_userID hget,
    logFilePath_userID houtput, hdir, hlevel]
  exact congrArg (LogPath.mk _ _) hhour

theorem stable_recordUses (hown : OwnUserFile host conf before header) :
    Stable (lastUses host conf before) (recordUses host conf header) := by
  apply stable_of_agrees nodup_slots
  intro use huse
  cases hslot : use.slot with
  | module szModuleName level => exact agrees_module huse hslot
  | logID iLogID level => exact agrees_logID huse hslot
  | userID uiUserID level =>
      apply agrees_userID hown
      unfold recordUses at huse
      split_ifs at huse
      · rcases List.mem_cons.mp huse with rfl | huse
        · cases hslot
        · rcases List.mem_append.mp huse with hmem | hmem
          · obtain ⟨outputConf, -, rfl⟩ := List.mem_map.mp hmem
            cases hslot
          · exact hmem
      · cases huse

theorem stable_allUses {records : List Record}
    (hown : ∀ before record after, records = before ++ record :: after →
      record.header.Valid → OwnUserFile host conf before record.header) :
    Stable (fun _ => none) (allUses host conf records) := by
  induction records using List.reverseRecOn with
  | nil => trivial
  | append_singleton before record ih =>
      rw [allUses, List.flatMap_append, stable_append, List.flatMap_singleton]
      constructor
      · apply ih
        rintro first middle last rfl hvalid
        exact hown first middle (last ++ [record]) (by simp) hvalid
      · by_cases hvalid : record.header.Valid
        · exact stable_recordUses (hown before record [] rfl hvalid)
        · rw [recordUses, if_neg hvalid]
          trivial

theorem run_appended {records : List Record} {iMaxModuleNum : ℕ}
    (hserves : host.Serves conf)
    (henough : EnoughNodes conf iMaxModuleNum records)
    (hown : ∀ before record after, records = before ++ record :: after →
      record.header.Valid → OwnUserFile host conf before record.header) :
    ((LogServer.start iMaxModuleNum).run host conf records).files.appended =
        records.flatMap (fun record =>
          (destinations host conf record.header).map
            fun path => (path, record.header)) ∧
      ((LogServer.start iMaxModuleNum).run host conf records).files.misused =
        false := by
  obtain ⟨-, hview⟩ := run_spec hserves (ok_start henough)
    (fun record hrecord => cover_keysOf hrecord)
  have hfiles := congrArg Cache.files hview
  have hstart : (LogServer.start iMaxModuleNum).view = Cache.start := by
    rw [LogServer.view, Cache.start, Cache.mk.injEq]
    refine ⟨?_, rfl⟩
    funext slot
    cases slot <;> simp [LogServer.start, heldBy]
  rw [hstart] at hfiles
  obtain ⟨hsound, happended⟩ := sound_start.run (stable_allUses hown)
  have hnames : (allUses host conf records).map
      (fun use => (use.name, use.item)) =
        records.flatMap fun record =>
          (destinations host conf record.header).map
            fun path => (path, record.header) := by
    rw [allUses, List.map_flatMap]
    simp only [map_recordUses]
  constructor
  · change (LogServer.view _).files.appended = _
    rw [hfiles, happended, hnames]
    rfl
  · change (LogServer.view _).files.misused = _
    rw [hfiles]
    exact hsound.fine

/-- Every record is in the files it belongs to, once in each and in the order of
the records, and in no file of another LogID or UserID; and no file was used
after it had been closed. -/
structure Filed (host : Host) (conf : LogAllConf) (records : List Record)
    (files : LogFiles) : Prop where
  appended : files.appended = records.flatMap fun record =>
    (destinations host conf record.header).map fun path => (path, record.header)
  logID : ∀ entry ∈ files.appended, ∀ iLogID ≠ entry.2.iLogID.toUInt32,
    ∀ outputConf ∈ conf.logIDConf.get iLogID,
      entry.1.dir ≠ logIDDir conf iLogID outputConf
  userID : ∀ entry ∈ files.appended, ∀ ullUserID ≠ entry.2.ullUserID,
    ∀ outputConf ∈ conf.userIDConf.get ullUserID,
      entry.1.dir ≠ userIDDir conf ullUserID outputConf
  closed : files.misused = false

theorem dir_mem_directories {path : LogPath}
    (hpath : path ∈ destinations host conf header) :
    header.Valid ∧ path.dir ∈ directories conf header := by
  unfold destinations at hpath
  split_ifs at hpath with hvalid
  · obtain ⟨dir, hdir, rfl⟩ := List.mem_map.mp hpath
    exact ⟨hvalid, hdir⟩
  · cases hpath

/-- The log server files every record where it belongs in every run in which,
for each record, the directories are its own and no other UserID with the same
low 32 bits has left a file of the same level and hour open. -/
theorem records_filed {records : List Record} {iMaxModuleNum : ℕ}
    (hserves : host.Serves conf)
    (henough : EnoughNodes conf iMaxModuleNum records)
    (happart : ∀ before record after, records = before ++ record :: after →
      record.header.Valid → FilesApart host conf before record.header) :
    Filed host conf records
      ((LogServer.start iMaxModuleNum).run host conf records).files := by
  obtain ⟨happended, hmisused⟩ := run_appended hserves henough
    fun before record after hsplit hvalid =>
      (happart before record after hsplit hvalid).ownUserFile
  have hentry : ∀ entry ∈ ((LogServer.start iMaxModuleNum).run host conf
      records).files.appended,
      OwnDirectories conf entry.2 ∧ entry.1.dir ∈ directories conf entry.2 := by
    intro entry hmem
    rw [happended] at hmem
    obtain ⟨record, hrecord, hmem⟩ := List.mem_flatMap.mp hmem
    obtain ⟨path, hpath, rfl⟩ := List.mem_map.mp hmem
    obtain ⟨before, after, hsplit⟩ := List.append_of_mem hrecord
    obtain ⟨hvalid, hdir⟩ := dir_mem_directories hpath
    exact ⟨(happart before record after hsplit hvalid).ownDirectories, hdir⟩
  exact
    { appended := happended
      logID := by
        intro entry hmem iLogID hne outputConf hget hsame
        obtain ⟨hown, hdir⟩ := hentry entry hmem
        exact hown.logID iLogID hne outputConf hget (hsame ▸ hdir)
      userID := by
        intro entry hmem ullUserID hne outputConf hget hsame
        obtain ⟨hown, hdir⟩ := hentry entry hmem
        exact hown.userID ullUserID hne outputConf hget (hsame ▸ hdir)
      closed := hmisused }

/-- It is enough that the UserIDs that are configured and occur differ in their
low 32 bits. -/
theorem ownUserFile_of_injOn
    (hinj : ∀ record ∈ before,
      (conf.userIDConf.get record.header.ullUserID).isSome →
      record.header.ullUserID.toUInt32 = header.ullUserID.toUInt32 →
      record.header.ullUserID = header.ullUserID) :
    OwnUserFile host conf before header := by
  intro outputConf hget other hother _ otherConf hotherGet
  have hmem := List.mem_of_find?_eq_some hother
  have hfound := of_decide_eq_true
    (List.find?_eq_some_iff_append.mp hother).1
  obtain ⟨record, hrecord, rfl⟩ := List.mem_map.mp (List.mem_reverse.mp hmem)
  have hsame := hinj record hrecord hfound.2.1 hfound.2.2.1
  rw [hsame] at hotherGet ⊢
  rw [Option.some.inj (hotherGet.symm.trans hget)]

end Runs

/-! ## Two users -/

theorem empty_room {Key Value : Type} [DecidableEq Key] :
    (BoundedMap.empty Key Value 100).size <
      (BoundedMap.empty Key Value 100).capacity :=
  show 0 < 100 by decide

/-- The UserIDs of the configuration below. -/
def oneUserConf (second : UInt64) : BoundedMap UInt64 LogOutputConf :=
  (BoundedMap.empty UInt64 LogOutputConf 100).put second
    ⟨.specUserID, "/second"⟩ empty_room

theorem oneUserConf_room (second : UInt64) :
    (oneUserConf second).size < (oneUserConf second).capacity :=
  (BoundedMap.insert_length_le _ _ _).trans_lt (show 0 + 1 < 100 by decide)

def twoUsersConf (first second : UInt64) : BoundedMap UInt64 LogOutputConf :=
  (oneUserConf second).put first ⟨.specUserID, "/first"⟩
    (oneUserConf_room second)

theorem mem_twoUsersConf {first second ullUserID : UInt64}
    {outputConf : LogOutputConf}
    (hget : (twoUsersConf first second).get ullUserID = some outputConf) :
    (ullUserID = first ∧ outputConf = ⟨.specUserID, "/first"⟩) ∨
      (ullUserID = second ∧ outputConf = ⟨.specUserID, "/second"⟩) := by
  by_cases hfirst : ullUserID = first
  · subst hfirst
    have hself := (BoundedMap.get_put_self (oneUserConf_room second)).symm.trans
      hget
    exact Or.inl ⟨rfl, (Option.some.inj hself).symm⟩
  · have hother := (BoundedMap.get_put_of_ne (oneUserConf_room second)
      hfirst).symm.trans hget
    by_cases hsecond : ullUserID = second
    · subst hsecond
      have hself := (BoundedMap.get_put_self empty_room).symm.trans hother
      exact Or.inr ⟨rfl, (Option.some.inj hself).symm⟩
    · have hempty := (BoundedMap.get_put_of_ne empty_room hsecond).symm.trans
        hother
      cases (BoundedMap.get_empty 100 ullUserID).symm.trans hempty

/-- A configuration with two users that have directories of their own. -/
def twoUsers (first second : UInt64) : LogAllConf where
  globalConf := ⟨.normal, "/log"⟩
  iMaxFileSize := 1024
  logIDConf := BoundedMap.empty _ _ 100
  userIDConf := twoUsersConf first second
  global_type := rfl
  logID_type := by
    intro iLogID conf hget
    rw [BoundedMap.get_empty] at hget
    cases hget
  userID_type := by
    intro ullUserID conf hget
    obtain ⟨-, rfl⟩ | ⟨-, rfl⟩ := mem_twoUsersConf hget <;> rfl

/-- A system on which it is always the same hour. -/
def sameHour : Host where
  localtime := fun _ =>
    { tmYear := 123
      tmMon := 10
      tmMday := 14
      tmHour := 22
      tmMon_lt := by decide
      tmMday_le := by decide
      tmHour_lt := by decide }
  canOpen := fun _ => true
  stSize := fun _ _ => 0
  iSizeCheckTimeVal := 10

theorem sameHour_serves (first second : UInt64) :
    sameHour.Serves (twoUsers first second) where
  canOpen := fun _ => rfl
  noRotation := fun _ _ => show (0 : ℤ) ≤ 1024 by decide

/-- A record of a user. -/
def userRecord (ullUserID : UInt64) : Record where
  header :=
    { uiLogTimeSec := 1700000000
      iLogLevel := 1
      iLogID := 3
      iProcID := 100
      szModuleName := ⟨"auth", by decide⟩
      ullUserID := ullUserID
      szLogContent := "login" }
  tModule := 1700000000
  tLogID := 1700000000
  tUserID := 1700000000

theorem enough_twoUsers (first second : UInt64) :
    EnoughNodes (twoUsers first second) 100
      [userRecord first, userRecord second] where
  modules := by
    apply (List.toFinset_card_le _).trans_lt
    exact show 2 < 100 by decide
  logIDs := show 0 < 100 by decide
  userIDs := by
    have hfirst := BoundedMap.insert_length_le
      ((∅ : AList fun _ : UInt64 => LogOutputConf).insert second
        ⟨.specUserID, "/second"⟩) first ⟨.specUserID, "/first"⟩
    have hsecond := BoundedMap.insert_length_le
      (∅ : AList fun _ : UInt64 => LogOutputConf) second
        ⟨.specUserID, "/second"⟩
    exact hfirst.trans_lt (Nat.lt_of_le_of_lt (Nat.succ_le_succ hsecond)
      (show 0 + 1 + 1 < 100 by decide))

/-- Users 7 and 9. -/
theorem records_filed_two :
    Filed sameHour (twoUsers 7 9) [userRecord 7, userRecord 9]
      ((LogServer.start 100).run sameHour (twoUsers 7 9)
        [userRecord 7, userRecord 9]).files := by
  apply records_filed (sameHour_serves 7 9) (enough_twoUsers 7 9)
  intro before record after hsplit _
  have husers : ∀ other ∈ [userRecord 7, userRecord 9],
      ∀ another ∈ [userRecord 7, userRecord 9],
        other.header.ullUserID.toUInt32 = another.header.ullUserID.toUInt32 →
        other.header.ullUserID = another.header.ullUserID := by
    decide
  have hrecord : record ∈ [userRecord 7, userRecord 9] := by
    rw [hsplit]
    simp
  refine ⟨ownUserFile_of_injOn ?_, ?_, ?_⟩
  · intro other hother _ hsame
    exact husers other (hsplit ▸ List.mem_append_left _ hother) record hrecord
      hsame
  · intro iLogID _ outputConf hget
    cases (BoundedMap.get_empty 100 iLogID).symm.trans hget
  · intro ullUserID hne outputConf hget
    have hcases := mem_twoUsersConf hget
    simp only [List.mem_cons, List.not_mem_nil, or_false] at hrecord
    obtain rfl | rfl := hrecord <;> obtain ⟨rfl, rfl⟩ | ⟨rfl, rfl⟩ := hcases
    · exact absurd rfl hne
    · decide
    · decide
    · exact absurd rfl hne

/-- Users 1 and 2^32 + 1: the record of the second one goes to the file of the
first. -/
theorem records_not_filed :
    ¬ ∀ (host : Host) (conf : LogAllConf) (iMaxModuleNum : ℕ)
        (records : List Record),
      host.Serves conf → EnoughNodes conf iMaxModuleNum records →
      Filed host conf records
        ((LogServer.start iMaxModuleNum).run host conf records).files := by
  intro hall
  have hfiled := hall sameHour (twoUsers 1 4294967297) 100
    [userRecord 1, userRecord 4294967297]
    (sameHour_serves 1 4294967297) (enough_twoUsers 1 4294967297)
  have hwrong : (((LogServer.start 100).run sameHour (twoUsers 1 4294967297)
      [userRecord 1, userRecord 4294967297]).files.appended.map
        fun entry => entry.1.dir).getLast? = some "/first" := by
    decide
  rw [hfiled.appended] at hwrong
  revert hwrong
  decide

end MessageBus.Log
