import MessageBus.BoundedMap
import MessageBus.FileCache

/-!
# The log server

`CLogSvrProc::Run` and `WriteLogToFile` of `logsvr/logsvr_proc.cpp`.  A record
goes to a file of its module, and to files of its LogID and of its UserID when
these are configured; the files are kept open in three hash lists.  The code is
the same for each of the five levels, and for each of the three hash lists.
The directories that `CheckDirAll` makes, the text in front of a record and
what the server logs about itself are left out.
-/

namespace MessageBus.Log

open FileCache

/-! ## Records -/

inductive LogLevel where
  | info
  | err
  | warn
  | debug
  | trace
deriving DecidableEq

/-- `LOG_INFO` to `LOG_TRACE`. -/
def LogLevel.ofInt (iLogLevel : ℤ) : Option LogLevel :=
  if iLogLevel = 1 then some .info
  else if iLogLevel = 2 then some .err
  else if iLogLevel = 3 then some .warn
  else if iLogLevel = 4 then some .debug
  else if iLogLevel = 5 then some .trace
  else none

/-- A name of up to `LOG_MODULE_NAME_LEN` bytes, which is as much of it as a
`CModuleName` keeps. -/
structure ModuleName where
  text : String
  size_le : text.utf8ByteSize ≤ 16
deriving DecidableEq

structure LogHeader where
  uiLogTimeSec : UInt32
  iLogLevel : ℤ
  iLogID : Int32
  iProcID : ℤ
  szModuleName : ModuleName
  ullUserID : UInt64
  szLogContent : String
deriving DecidableEq

/-- `Run` goes on with the next record if this fails. -/
def LogHeader.Valid (header : LogHeader) : Prop :=
  ¬ (header.uiLogTimeSec = 0 ∨ header.iLogLevel ≤ 0 ∨ 5 < header.iLogLevel ∨
    header.iProcID = 0 ∨ header.szModuleName.text = "")

instance (header : LogHeader) : Decidable header.Valid :=
  inferInstanceAs (Decidable (¬ _))

/-- A header from the queue, with the times at which its three parts are
written. -/
structure Record where
  header : LogHeader
  tModule : ℤ
  tLogID : ℤ
  tUserID : ℤ

/-- What `localtime` returns; the year counts from 1900. -/
structure Tm where
  tmYear : ℕ
  tmMon : ℕ
  tmMday : ℕ
  tmHour : ℕ
  tmMon_lt : tmMon < 12
  tmMday_le : tmMday ≤ 31
  tmHour_lt : tmHour < 24

/-- The number that `atoi` makes of `GetFileNameTime`. -/
def fileNameTime (tm : Tm) : ℕ :=
  (((1900 + tm.tmYear) * 100 + (tm.tmMon + 1)) * 100 + tm.tmMday) * 100 +
    tm.tmHour

theorem fileNameTime_ne_zero (tm : Tm) : fileNameTime tm ≠ 0 := by
  unfold fileNameTime
  omega

/-! ## Configuration -/

inductive OutputLogType where
  | normal
  | specModule
  | specLogID
  | specUserID
deriving DecidableEq

structure LogOutputConf where
  iOutputLogType : OutputLogType
  szOutputPathDir : String

/-- `CLogAllConf`, with the types that `Init` sets. -/
structure LogAllConf where
  globalConf : LogOutputConf
  iMaxFileSize : ℤ
  logIDConf : BoundedMap UInt32 LogOutputConf
  userIDConf : BoundedMap UInt64 LogOutputConf
  global_type : globalConf.iOutputLogType = .normal
  logID_type : ∀ iLogID conf, logIDConf.get iLogID = some conf →
    conf.iOutputLogType = .specLogID
  userID_type : ∀ ullUserID conf, userIDConf.get ullUserID = some conf →
    conf.iOutputLogType = .specUserID

/-- `GetUsedDataNum`; the node with index 0 is always in use. -/
def getUsedDataNum {Key Value : Type} (map : BoundedMap Key Value) : ℕ :=
  map.size + 1

/-- `%s/<level>/%d.log`. -/
structure LogPath where
  dir : String
  level : LogLevel
  iCurLogTime : ℕ
deriving DecidableEq

abbrev LogFiles := Files LogPath LogHeader

/-- The system the server runs on. -/
structure Host where
  localtime : UInt32 → Tm
  canOpen : LogPath → Bool
  stSize : LogFiles → ℕ → ℤ
  iSizeCheckTimeVal : ℤ

/-! ## `WriteLogToFile` -/

/-- The fields of `LogFilePInfo` for one level. -/
structure LevelFile where
  pfLogFile : Option ℕ
  iCurLogTime : ℕ
  tLastSizeCheckTime : ℤ

abbrev LogFilePInfo := LogLevel → LevelFile

/-- After `memset`. -/
def LogFilePInfo.zero : LogFilePInfo := fun _ => ⟨none, 0, 0⟩

section Write

variable (host : Host) (conf : LogAllConf)

def openFile (files : LogFiles) (path : LogPath) : Option ℕ × LogFiles :=
  if host.canOpen path then
    let (file, files) := files.openFile path
    (some file, files)
  else (none, files)

def checkFileSize (files : LogFiles) : Option ℕ → ℤ
  | none => -1
  | some file => if conf.iMaxFileSize < host.stSize files file then 1 else 0

/-- `fclose`, if there is a file. -/
def closeFile (files : LogFiles) : Option ℕ → LogFiles
  | none => files
  | some file => files.close file

/-- What is done when a file has become too large. -/
def rotate (path : LogPath) (file : Option ℕ) (files : LogFiles) :
    Option ℕ × LogFiles :=
  let (file, files) := openFile host (closeFile files file) path
  if checkFileSize host conf files file ≠ 0 then
    -- RenameFile comes before the file is opened again
    openFile host (closeFile files file) path
  else (file, files)

/-- The branch of a level: its fields, whether they have to be stored, and the
files. -/
def selectFile (tTimeNow : ℤ) (path : LogPath) (current : LevelFile)
    (files : LogFiles) : LevelFile × Bool × LogFiles :=
  if path.iCurLogTime ≠ current.iCurLogTime then
    let (file, files) :=
      openFile host (closeFile files current.pfLogFile) path
    (⟨file, path.iCurLogTime, tTimeNow⟩, true, files)
  else if tTimeNow - current.tLastSizeCheckTime < 0 ∨
      host.iSizeCheckTimeVal < tTimeNow - current.tLastSizeCheckTime then
    if checkFileSize host conf files current.pfLogFile ≠ 0 then
      let (file, files) := rotate host conf path current.pfLogFile files
      (⟨file, path.iCurLogTime, tTimeNow⟩, true, files)
    else ({ current with tLastSizeCheckTime := tTimeNow }, false, files)
  else (current, false, files)

/-- `szLogFilePath`. -/
def logFilePath (header : LogHeader) (outputConf : LogOutputConf) : String :=
  match outputConf.iOutputLogType with
  | .specLogID =>
      if outputConf.szOutputPathDir = "" then
        conf.globalConf.szOutputPathDir ++ "/" ++
          toString header.iLogID.toInt
      else outputConf.szOutputPathDir
  | .specUserID =>
      if outputConf.szOutputPathDir = "" then
        conf.globalConf.szOutputPathDir ++ "/" ++
          toString header.ullUserID.toNat
      else outputConf.szOutputPathDir
  | _ => outputConf.szOutputPathDir ++ "/" ++ header.szModuleName.text

def writeLogToFile (tTimeNow : ℤ) (header : LogHeader)
    (outputConf : LogOutputConf) (info : LogFilePInfo) (files : LogFiles) :
    LogFilePInfo × Bool × LogFiles :=
  match LogLevel.ofInt header.iLogLevel with
  | none => (info, false, files)
  | some level =>
      let path : LogPath :=
        { dir := logFilePath conf header outputConf
          level := level
          iCurLogTime := fileNameTime (host.localtime header.uiLogTimeSec) }
      let (current, updated, files) :=
        selectFile host conf tTimeNow path (info level) files
      let files := match current.pfLogFile with
        | none => files
        | some file => files.append file header
      (Function.update info level current, updated, files)

end Write

/-! ## `Run` -/

structure LogServer where
  moduleLogFilePHash : BoundedMap ModuleName LogFilePInfo
  specLogIDFilePHash : BoundedMap UInt32 LogFilePInfo
  -- the keys have 32 bits, those of `m_objUserIDConf` have 64
  specUserIDFilePHash : BoundedMap UInt32 LogFilePInfo
  files : LogFiles

def LogServer.start (iMaxModuleNum : ℕ) : LogServer where
  moduleLogFilePHash := BoundedMap.empty _ _ (iMaxModuleNum - 1)
  specLogIDFilePHash := BoundedMap.empty _ _ (iMaxModuleNum - 1)
  specUserIDFilePHash := BoundedMap.empty _ _ (iMaxModuleNum - 1)
  files := Files.start

section Part

variable {Key : Type} [DecidableEq Key]

/-- A copy of the files of a key, which is inserted if it is not there; `none`
if there is no room. -/
def fetchFiles (hash : BoundedMap Key LogFilePInfo) (key : Key)
    (updateFlag : Bool) :
    Option (BoundedMap Key LogFilePInfo × LogFilePInfo × Bool) :=
  match hash.get key with
  | some info => some (hash, info, updateFlag)
  | none =>
      if hroom : hash.size < hash.capacity then
        some (hash.put key LogFilePInfo.zero hroom, LogFilePInfo.zero, true)
      else none

/-- One of the three parts: the files of a key are copied out, used, and stored
again if the flag says so. -/
def filePart
    (write : LogFilePInfo → LogFiles → LogFilePInfo × Bool × LogFiles)
    (hash : BoundedMap Key LogFilePInfo) (key : Key) (updateFlag : Bool)
    (files : LogFiles) :
    Option (BoundedMap Key LogFilePInfo × Bool × LogFiles) := do
  let (hash, info, updateFlag) ← fetchFiles hash key updateFlag
  let (info, updated, files) := write info files
  let updateFlag := updateFlag || updated
  let hash := if updateFlag then hash.modify key fun _ => info else hash
  some (hash, updateFlag, files)

end Part

section Run

variable (host : Host) (conf : LogAllConf)

/-- The configuration of a LogID, if it has one. -/
def logIDOutput (header : LogHeader) : Option LogOutputConf :=
  if 1 < getUsedDataNum conf.logIDConf then
    conf.logIDConf.get header.iLogID.toUInt32
  else none

/-- The configuration of a UserID, if it has one. -/
def userIDOutput (header : LogHeader) : Option LogOutputConf :=
  if 1 < getUsedDataNum conf.userIDConf then
    conf.userIDConf.get header.ullUserID
  else none

namespace LogServer

/-- The part of the module; `.error` stands for `continue`. -/
def fileModule (server : LogServer) (record : Record) :
    Except LogServer (LogServer × Bool) :=
  match filePart
      (writeLogToFile host conf record.tModule record.header conf.globalConf)
      server.moduleLogFilePHash record.header.szModuleName false server.files
  with
  | none => .error server
  | some (hash, updateFlag, files) =>
      .ok ({ server with moduleLogFilePHash := hash, files := files },
        updateFlag)

/-- The part of the LogID. -/
def fileLogID (server : LogServer) (updateFlag : Bool) (record : Record) :
    Except LogServer (LogServer × Bool) :=
  match logIDOutput conf record.header with
  | none => .ok (server, updateFlag)
  | some outputConf =>
      match filePart
          (writeLogToFile host conf record.tLogID record.header outputConf)
          server.specLogIDFilePHash record.header.iLogID.toUInt32 updateFlag
          server.files with
      | none => .error server
      | some (hash, updateFlag, files) =>
          .ok ({ server with specLogIDFilePHash := hash, files := files },
            updateFlag)

/-- The part of the UserID. -/
def fileUserID (server : LogServer) (updateFlag : Bool) (record : Record) :
    Except LogServer (LogServer × Bool) :=
  match userIDOutput conf record.header with
  | none => .ok (server, updateFlag)
  | some outputConf =>
      match filePart
          (writeLogToFile host conf record.tUserID record.header outputConf)
          server.specUserIDFilePHash record.header.ullUserID.toUInt32
          updateFlag server.files with
      | none => .error server
      | some (hash, updateFlag, files) =>
          .ok ({ server with specUserIDFilePHash := hash, files := files },
            updateFlag)

/-- The body of the loop, after a record has been taken from the queue. -/
def logRecord (server : LogServer) (record : Record) : LogServer :=
  if record.header.Valid then
    let outcome := do
      let (server, updateFlag) ← server.fileModule host conf record
      let (server, updateFlag) ← server.fileLogID host conf updateFlag record
      server.fileUserID host conf updateFlag record
    match outcome with
    | .ok (server, _) => server
    | .error server => server
  else server

def run (server : LogServer) (records : List Record) : LogServer :=
  records.foldl (logRecord host conf) server

end LogServer

end Run

end MessageBus.Log
