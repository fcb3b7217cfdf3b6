import MessageBus.LogDestinations
import MessageBus.ModuleNames
import MessageBus.ShmQueueRefinement
import MessageBus.WireHeaders

/-!
# From the log API to the log server

`CLog` of `mmlib/log/log.cpp` in every process, the queue, and the log server
at its other end.  A record goes through the queue as bytes; when the queue
refuses it, or the process logs locally, the process writes it to a file of
its own.

`CLog::Open` has succeeded or failed before, and `SetLocalFlag` is not called
again.  Texts are strings of C, and the contents have been cut to
`LOG_LENGTH_MAX` by `LogInternal` of the C interface.  A call on the queue is
one step; its accesses are interleaved in `ShmQueueConcurrent`.
-/

namespace MessageBus.Log

open ByteCodec
open FileCache
open ShmQueue

def logLengthMax : ℕ := 12288

def logSizeCheckTimeVal : ℤ := 10

def selfLogMaxSize : ℤ := 1024000000

/-! ## Records as bytes -/

def int32 : Codec Int32 :=
  Wire.uint32.iso ⟨UInt32.toInt32, Int32.toUInt32, UInt32.toUInt32_toInt32,
    Int32.toInt32_toUInt32⟩

/-- Bytes that stand for themselves. -/
def block (width : ℕ) :
    Codec {bytes : List UInt8 // bytes.length = width} where
  width := width
  encode := Subtype.val
  decode bytes :=
    if h : bytes.length = width then ⟨bytes, h⟩
    else ⟨List.replicate width 0, List.length_replicate⟩
  encode_length value := value.2
  decode_encode value := dif_pos value.2
  encode_decode bytes hlength := by rw [dif_pos hlength]

/-- `LogHeader` up to `szLogContent`.  The name has 17 bytes, and there are 3
more in front of the user ID. -/
def logHeader :
    Codec (UInt32 × UInt32 × Int32 × Int32 × Int32 ×
      {bytes : List UInt8 // bytes.length = 20} × UInt64) :=
  Wire.uint32.seq (Wire.uint32.seq (int32.seq (int32.seq (int32.seq
    ((block 20).seq Wire.uint64)))))

def sizeofLogHeader : ℕ := 48

theorem logHeader_width : logHeader.width = sizeofLogHeader := rfl

def textBytes (text : String) : List UInt8 := text.toByteArray.data.toList

/-- The string that starts at the front of some bytes. -/
def readText (bytes : List UInt8) : Option String :=
  String.fromUTF8? ⟨(bytes.takeWhile (· ≠ 0)).toArray⟩

/-- `strncpy` into zeros. -/
def ModuleName.field (name : ModuleName) :
    {bytes : List UInt8 // bytes.length = 20} where
  val := textBytes name.text ++
    List.replicate (20 - (textBytes name.text).length) 0
  property := by
    have hsize : (textBytes name.text).length ≤ 16 := name.size_le
    rw [List.length_append, List.length_replicate]
    omega

namespace LogHeader

/-- What `LogInternal` puts into `m_szLogBuff`. -/
def write (header : LogHeader) (uiLogTimeUSec : UInt32) : List UInt8 :=
  logHeader.encode
      (header.uiLogTimeSec, uiLogTimeUSec, Int32.ofInt header.iLogLevel,
        header.iLogID, Int32.ofInt header.iProcID, header.szModuleName.field,
        header.ullUserID) ++
    textBytes header.szLogContent

/-- What `Run` sees in `m_szLogFromQueueBuff`. -/
def read (bytes : List UInt8) : Option LogHeader := do
  let (uiLogTimeSec, _, iLogLevel, iLogID, iProcID, name, ullUserID) :=
    logHeader.decode (bytes.take sizeofLogHeader)
  let szModuleName ← readText (name.val.take logModuleNameLen)
  let szLogContent ← readText (bytes.drop sizeofLogHeader)
  if hsize : szModuleName.utf8ByteSize ≤ 16 then
    some
      { uiLogTimeSec := uiLogTimeSec
        iLogLevel := iLogLevel.toInt
        iLogID := iLogID
        iProcID := iProcID.toInt
        szModuleName := ⟨szModuleName, hsize⟩
        ullUserID := ullUserID
        szLogContent := szLogContent }
  else none

/-- The fields fit, and the texts are strings of C. -/
structure Writable (header : LogHeader) : Prop where
  level_pos : 1 ≤ header.iLogLevel
  level_le : header.iLogLevel ≤ 5
  proc_ge : -2 ^ 31 ≤ header.iProcID
  proc_lt : header.iProcID < 2 ^ 31
  name_noNul : 0 ∉ textBytes header.szModuleName.text
  content_noNul : 0 ∉ textBytes header.szLogContent
  content_lt : (textBytes header.szLogContent).length < logLengthMax

end LogHeader

section Bytes

variable {text : String} {header : LogHeader}

theorem readText_textBytes (hnul : 0 ∉ textBytes text) (count : ℕ) :
    readText (textBytes text ++ List.replicate count 0) = some text := by
  have hzeros : (List.replicate count (0 : UInt8)).takeWhile (· ≠ 0) = [] := by
    cases count with
    | zero => rfl
    | succ count => simp [List.replicate_succ]
  have hfront : ∀ byte ∈ textBytes text, decide (byte ≠ 0) = true :=
    fun byte hbyte => decide_eq_true fun heq => hnul (heq ▸ hbyte)
  have harray : (⟨(textBytes text).toArray⟩ : ByteArray) = text.toByteArray := by
    simp [textBytes]
  rw [readText, List.takeWhile_append_of_pos hfront, hzeros, List.append_nil,
    harray, String.fromUTF8?, dif_pos text.isValidUTF8]
  rfl

theorem readText_field (name : ModuleName) (hnul : 0 ∉ textBytes name.text) :
    readText (name.field.val.take logModuleNameLen) = some name.text := by
  have hsize : (textBytes name.text).length ≤ logModuleNameLen := name.size_le
  have htake : name.field.val.take logModuleNameLen =
      textBytes name.text ++
        List.replicate (logModuleNameLen - (textBytes name.text).length) 0 := by
    rw [ModuleName.field, List.take_append, List.take_of_length_le hsize,
      List.take_replicate]
    congr 2
    unfold logModuleNameLen at hsize ⊢
    omega
  rw [htake, readText_textBytes hnul]

/-- The server reads the record that the process has written. -/
theorem read_write (hheader : header.Writable) (uiLogTimeUSec : UInt32) :
    LogHeader.read (header.write uiLogTimeUSec) = some header := by
  have hlength : ∀ value, (logHeader.encode value).length = sizeofLogHeader :=
    fun value => logHeader.encode_length value
  have hcontent : readText (textBytes header.szLogContent) =
      some header.szLogContent := by
    have hread := readText_textBytes hheader.content_noNul 0
    rwa [List.replicate_zero, List.append_nil] at hread
  have hlevel : (Int32.ofInt header.iLogLevel).toInt = header.iLogLevel :=
    Int32.toInt_ofInt_of_le
      (le_trans (by decide) hheader.level_pos)
      (lt_of_le_of_lt hheader.level_le (by decide))
  have hproc : (Int32.ofInt header.iProcID).toInt = header.iProcID :=
    Int32.toInt_ofInt_of_le hheader.proc_ge hheader.proc_lt
  unfold LogHeader.read LogHeader.write
  rw [List.take_left' (hlength _), List.drop_left' (hlength _),
    logHeader.decode_encode]
  simp only [readText_field _ hheader.name_noNul, hcontent, hlevel, hproc,
    Option.bind_eq_bind, Option.bind_some, dif_pos header.szModuleName.size_le]

theorem length_write (uiLogTimeUSec : UInt32) :
    (header.write uiLogTimeUSec).length =
      sizeofLogHeader + (textBytes header.szLogContent).length := by
  rw [LogHeader.write, List.length_append, logHeader.encode_length,
    logHeader_width]

end Bytes

/-! ## `CLog` -/

/-- What `SetLocalFlag` has set. -/
structure LocalLog where
  iLocalLogLevel : ℤ
  szLocalLogPath : String

/-- What does not change in a process once its log is open. -/
structure CLog where
  initFlag : Bool
  objModuleName : ModuleName
  iProcID : Int32
  -- if `m_iLocalLogFlag` is 1
  localLog : Option LocalLog
  name_noNul : 0 ∉ textBytes objModuleName.text

/-- The files that a process writes itself. -/
structure LocalFiles where
  info : LogFilePInfo
  files : LogFiles

def LocalFiles.start : LocalFiles := ⟨LogFilePInfo.zero, Files.start⟩

/-- The files as slots, one for each level. -/
def LocalFiles.view (own : LocalFiles) :
    Cache LogLevel ℕ LogPath LogHeader where
  held level := (own.info level).held
  files := own.files

/-- The levels in the shared configuration. -/
structure OutputLevels where
  iOutputLogLevel : ℤ
  moduleConf : BoundedMap ModuleName ℤ
  logIDConf : BoundedMap UInt32 ℤ
  userIDConf : BoundedMap UInt64 ℤ

structure LogContent where
  text : String
  noNul : 0 ∉ textBytes text
  length_lt : (textBytes text).length < logLengthMax

/-- One of the three exceptions of `IsShouldWrite`. -/
def specialOutput {Key : Type} [DecidableEq Key] (conf : BoundedMap Key ℤ)
    (key : Key) (iPriority : ℤ) : Bool :=
  decide (1 < getUsedDataNum conf) &&
    (conf.get key).any fun iOutputLogLevel => iPriority ≤ iOutputLogLevel

section Client

variable (host : Host) (conf : LogAllConf) (levels : OutputLevels) (log : CLog)

def isShouldWrite (iLogID : Int32) (ullUserID : UInt64) (iPriority : ℤ) :
    Bool :=
  if ¬ log.initFlag then false
  else if iPriority < 1 ∨ 5 < iPriority then false
  else if log.localLog.any fun localLog =>
      iPriority ≤ localLog.iLocalLogLevel then true
  else if levels.iOutputLogLevel < iPriority then
    specialOutput levels.moduleConf log.objModuleName iPriority ||
      specialOutput levels.logIDConf iLogID.toUInt32 iPriority ||
      specialOutput levels.userIDConf ullUserID iPriority
  else true

/-- `szLogFilePath`. -/
def localDir : String :=
  match log.localLog with
  | some localLog => localLog.szLocalLogPath
  | none =>
      conf.globalConf.szOutputPathDir ++ "/" ++ log.objModuleName.text

def clientHost : Host := { host with iSizeCheckTimeVal := logSizeCheckTimeVal }

/-- The size that a local file may have. -/
def clientConf : LogAllConf :=
  { conf with
    iMaxFileSize := if log.localLog.isSome then selfLogMaxSize
      else conf.iMaxFileSize }

/-- `LogInternal` from the choice of the file on. -/
def writeLocal (header : LogHeader) (own : LocalFiles) : LocalFiles :=
  match LogLevel.ofInt header.iLogLevel with
  | none => own
  | some level =>
      let path : LogPath :=
        { dir := localDir conf log
          level := level
          iCurLogTime := fileNameTime (host.localtime header.uiLogTimeSec) }
      let (current, _, files) :=
        selectFile (clientHost host) (clientConf conf log)
          header.uiLogTimeSec.toNat path (own.info level) own.files
      { info := Function.update own.info level current
        files :=
          match current.pfLogFile with
          | none => files
          | some file => files.append file header }

/-- The header that `LogInternal` fills in. -/
def logRecordOf (iLogID : Int32) (ullUserID : UInt64) (iPriority : ℤ)
    (content : LogContent) (now : UInt32) : LogHeader where
  uiLogTimeSec := now
  iLogLevel := iPriority
  iLogID := iLogID
  iProcID := log.iProcID.toInt
  szModuleName := log.objModuleName
  ullUserID := ullUserID
  szLogContent := content.text

/-- `InQueue`, unless the process logs locally: whether the queue has taken the
record. -/
def enqueue (header : LogHeader) (uiLogTimeUSec : UInt32)
    (queue : CShmQueue) : Bool × CShmQueue :=
  if log.localLog.isSome then (false, queue)
  else
    let (ret, queue) := queue.inQueue (header.write uiLogTimeUSec)
    (ret = success, queue)

end Client

/-! ## The processes and the server -/

/-- A call of `LogInternal` that has written its record, with the bytes that
were used in the queue at the time. -/
structure Written where
  process : ℕ
  header : LogHeader
  used : ℕ
  queued : Bool

/-- The process leaves its records to the queue, and the queue had room. -/
def Written.Accepted (logs : ℕ → CLog) (queueDataSize : ℕ) (entry : Written) :
    Prop :=
  (logs entry.process).localLog = none ∧
    entry.used +
        (sizeofLogHeader + (textBytes entry.header.szLogContent).length + 4) <
      queueDataSize

/-- `written` and `taken` are in the order of time. -/
structure Logging where
  locals : ℕ → LocalFiles
  queue : CShmQueue
  server : LogServer
  written : List Written
  taken : List Record

inductive LogAction where
  | logInternal (process : ℕ) (iLogID : Int32) (ullUserID : UInt64)
      (iPriority : ℤ) (content : LogContent) (now uiLogTimeUSec : UInt32)
  -- a round of `Run`, which writes its three parts at these times
  | serve (tModule tLogID tUserID : ℤ)

namespace Logging

/-- The log is open, and no process has written anything. -/
def start (queue : CShmQueue) (iMaxModuleNum : ℕ) : Logging where
  locals := fun _ => LocalFiles.start
  queue := queue
  server := LogServer.start iMaxModuleNum
  written := []
  taken := []

section Step

variable (host : Host) (conf : LogAllConf) (levels : OutputLevels)
  (logs : ℕ → CLog)

def logInternal (logging : Logging) (process : ℕ) (header : LogHeader)
    (uiLogTimeUSec : UInt32) : Logging :=
  let log := logs process
  let (queued, queue) := enqueue log header uiLogTimeUSec logging.queue
  { logging with
    queue := queue
    locals :=
      if queued then logging.locals
      else Function.update logging.locals process
        (writeLocal host conf log header (logging.locals process))
    written := logging.written ++
      [⟨process, header, usedSpace logging.queue.queueDataSize
        logging.queue.uiHead logging.queue.uiTail, queued⟩] }

def step (logging : Logging) : LogAction → Logging
  | .logInternal process iLogID ullUserID iPriority content now
      uiLogTimeUSec =>
      let log := logs process
      if isShouldWrite levels log iLogID ullUserID iPriority then
        logging.logInternal host conf logs process
          (logRecordOf log iLogID ullUserID iPriority content now) uiLogTimeUSec
      else logging
  | .serve tModule tLogID tUserID =>
      let (out, queue) :=
        logging.queue.outQueue (sizeofLogHeader + logLengthMax + 1)
      if out.ret = success ∧ sizeofLogHeader ≤ out.uiDataLen then
        match LogHeader.read out.pData with
        | none => { logging with queue := queue }
        | some header =>
            let record : Record := ⟨header, tModule, tLogID, tUserID⟩
            { logging with
              queue := queue
              server := logging.server.logRecord host conf record
              taken := logging.taken ++ [record] }
      else { logging with queue := queue }

def run (logging : Logging) (actions : List LogAction) : Logging :=
  actions.foldl (step host conf levels logs) logging

end Step

end Logging

/-! ## The files of a process -/

section Local

variable (host : Host) (conf : LogAllConf) (log : CLog) (header : LogHeader)

def localPath : LogPath where
  dir := localDir conf log
  level := header.level
  iCurLogTime := header.hour host

def localUse : Use LogLevel ℕ LogPath LogHeader where
  slot := header.level
  stamp := header.hour host
  name := localPath host conf log header
  item := header

/-- What a process has written itself, when it has written these records. -/
structure LocalOk (own : LocalFiles) (headers : List LogHeader) : Prop where
  file_iff : ∀ level,
    (own.info level).pfLogFile = none ↔ (own.info level).iCurLogTime = 0
  sound : Sound own.view
    (Last.after (fun _ => none) (headers.map (localUse host conf log)))
  appended : own.files.appended =
    headers.map fun header => (localPath host conf log header, header)

end Local

section Local

variable {host : Host} {conf : LogAllConf} {log : CLog} {header : LogHeader}
  {own : LocalFiles} {headers : List LogHeader}

theorem localOk_start : LocalOk host conf log LocalFiles.start [] where
  file_iff := fun _ => iff_of_true rfl rfl
  sound := sound_start
  appended := rfl

/-- The directory does not change, so the level and the hour decide on the
file. -/
theorem localUse_agrees (header : LogHeader) :
    Agrees (Last.after (fun _ => none) (headers.map (localUse host conf log)))
      (localUse host conf log header) := by
  intro previous hprevious hstamp
  obtain ⟨hmem, hslot⟩ | hnone := mem_after hprevious
  · obtain ⟨other, -, rfl⟩ := List.mem_map.mp hmem
    change localPath host conf log other = localPath host conf log header
    rw [localPath, localPath]
    exact congrArg₂ (LogPath.mk _) hslot hstamp
  · cases hnone

theorem writeLocal_eq
    (hserves : (clientHost host).Serves (clientConf conf log))
    (hlevel : LogLevel.ofInt header.iLogLevel = some header.level)
    (hfile : ∀ level,
      (own.info level).pfLogFile = none ↔ (own.info level).iCurLogTime = 0) :
    (∀ level,
      ((writeLocal host conf log header own).info level).pfLogFile = none ↔
        ((writeLocal host conf log header own).info level).iCurLogTime = 0) ∧
      (writeLocal host conf log header own).view =
        own.view.step (localUse host conf log header) := by
  have hhour : (localPath host conf log header).iCurLogTime ≠ 0 :=
    fileNameTime_ne_zero _
  obtain ⟨next, updated, hselect, hnext, htime, -⟩ :=
    selectFile_spec hserves header.uiLogTimeSec.toNat hhour
      (hfile header.level) own.files
  have hwrite : writeLocal host conf log header own =
      { info := Function.update own.info header.level next
        files := (obtainFile (own.info header.level).held own.files
          (header.hour host) (localPath host conf log header)).2.append
            (obtainFile (own.info header.level).held own.files
              (header.hour host) (localPath host conf log header)).1
            header } := by
    unfold localPath LogHeader.hour at hselect
    unfold writeLocal
    rw [hlevel]
    simp only [hselect, hnext]
    rfl
  have hheld : next.held = some (header.hour host,
      (obtainFile (own.info header.level).held own.files
        (header.hour host) (localPath host conf log header)).1) := by
    rw [LevelFile.held, hnext, htime]
    rfl
  rw [hwrite]
  constructor
  · intro level
    dsimp only
    by_cases hsame : level = header.level
    · subst hsame
      rw [Function.update_self, hnext, htime]
      exact iff_of_false (Option.some_ne_none _) hhour
    · rw [Function.update_of_ne hsame]
      exact hfile level
  · have hupdate :
        (fun level => (Function.update own.info header.level next level).held) =
          Function.update (fun level => (own.info level).held) header.level
            next.held := by
      funext level
      by_cases hsame : level = header.level
      · subst hsame
        rw [Function.update_self, Function.update_self]
      · rw [Function.update_of_ne hsame, Function.update_of_ne hsame]
    rw [LocalFiles.view, hupdate, hheld]
    rfl

theorem LocalOk.write
    (h : LocalOk host conf log own headers)
    (hserves : (clientHost host).Serves (clientConf conf log))
    (hlevel : LogLevel.ofInt header.iLogLevel = some header.level) :
    LocalOk host conf log (writeLocal host conf log header own)
      (headers ++ [header]) := by
  obtain ⟨hfile, hview⟩ := writeLocal_eq hserves hlevel h.file_iff
  obtain ⟨hsound, happended⟩ := h.sound.step (localUse_agrees header)
  rw [← hview] at hsound happended
  refine ⟨hfile, ?_, ?_⟩
  · rw [List.map_append, Last.after, List.foldl_append]
    exact hsound
  · rw [List.map_append, ← h.appended]
    exact happended

end Local

/-! ## The bytes in the queue -/

section Queue

variable {levels : OutputLevels} {log : CLog} {iLogID : Int32}
  {ullUserID : UInt64} {iPriority : ℤ} {content : LogContent} {now : UInt32}

theorem priority_of_isShouldWrite
    (hwrite : isShouldWrite levels log iLogID ullUserID iPriority = true) :
    1 ≤ iPriority ∧ iPriority ≤ 5 := by
  unfold isShouldWrite at hwrite
  by_cases hrange : iPriority < 1 ∨ 5 < iPriority
  · simp [hrange] at hwrite
  · omega

theorem writable_of_isShouldWrite
    (hwrite : isShouldWrite levels log iLogID ullUserID iPriority = true) :
    (logRecordOf log iLogID ullUserID iPriority content now).Writable where
  level_pos := (priority_of_isShouldWrite hwrite).1
  level_le := (priority_of_isShouldWrite hwrite).2
  proc_ge := log.iProcID.le_toInt
  proc_lt := log.iProcID.toInt_lt
  name_noNul := log.name_noNul
  content_noNul := content.noNul
  content_lt := content.length_lt

theorem LogHeader.Writable.ofInt_eq {header : LogHeader}
    (hheader : header.Writable) :
    LogLevel.ofInt header.iLogLevel = some header.level := by
  have hrange : header.iLogLevel = 1 ∨ header.iLogLevel = 2 ∨
      header.iLogLevel = 3 ∨ header.iLogLevel = 4 ∨ header.iLogLevel = 5 := by
    have hpos := hheader.level_pos
    have hle := hheader.level_le
    omega
  unfold LogHeader.level
  rcases hrange with h | h | h | h | h <;> rw [h] <;> rfl

end Queue

/-! ## Runs -/

/-- The records that went into the queue. -/
def queuedHeaders (written : List Written) : List LogHeader :=
  (written.filter Written.queued).map Written.header

/-- The records that a process wrote itself. -/
def localHeaders (written : List Written) (process : ℕ) : List LogHeader :=
  (written.filter fun entry =>
    decide (entry.process = process) && !entry.queued).map Written.header

/-- The record that a call is to write, if it is to write one. -/
def asked (levels : OutputLevels) (logs : ℕ → CLog) :
    LogAction → Option (ℕ × LogHeader)
  | .logInternal process iLogID ullUserID iPriority content now _ =>
      if isShouldWrite levels (logs process) iLogID ullUserID iPriority then
        some (process, logRecordOf (logs process) iLogID ullUserID iPriority
          content now)
      else none
  | .serve _ _ _ => none

namespace Logging

/-- The records on their way to the server. -/
structure Waiting (logging : Logging)
    (waiting : List (LogHeader × UInt32)) : Prop where
  holds : logging.queue.Holds
    (waiting.map fun entry => entry.1.write entry.2)
  writable : ∀ entry ∈ waiting, entry.1.Writable
  queued : queuedHeaders logging.written =
    logging.taken.map Record.header ++ waiting.map Prod.fst

structure Kept (host : Host) (conf : LogAllConf) (logs : ℕ → CLog)
    (iMaxModuleNum queueDataSize : ℕ) (logging : Logging) : Prop where
  queue : ∃ waiting, logging.Waiting waiting
  size_eq : logging.queue.queueDataSize = queueDataSize
  server : logging.server =
    (LogServer.start iMaxModuleNum).run host conf logging.taken
  locals : ∀ process, LocalOk host conf (logs process)
    (logging.locals process) (localHeaders logging.written process)
  queued_iff : ∀ entry ∈ logging.written,
    entry.queued = true ↔ entry.Accepted logs queueDataSize

section Runs

variable {host : Host} {conf : LogAllConf} {levels : OutputLevels}
  {logs : ℕ → CLog} {iMaxModuleNum queueDataSize : ℕ} {logging : Logging}
  {queue : CShmQueue} {header : LogHeader}

theorem enqueue_spec {messages : List (List UInt8)} (log : CLog)
    (hholds : queue.Holds messages) (hheader : header.Writable)
    (uiLogTimeUSec : UInt32) :
    (∃ after, enqueue log header uiLogTimeUSec queue = (true, after) ∧
        log.localLog = none ∧
        usedBytes messages + ((header.write uiLogTimeUSec).length + 4) <
          queue.queueDataSize ∧
        after.Holds (messages ++ [header.write uiLogTimeUSec]) ∧
        after.queueDataSize = queue.queueDataSize) ∨
      enqueue log header uiLogTimeUSec queue = (false, queue) ∧
        ¬ (log.localLog = none ∧
          usedBytes messages + ((header.write uiLogTimeUSec).length + 4) <
            queue.queueDataSize) := by
  have hpos : 0 < (header.write uiLogTimeUSec).length := by
    rw [length_write]
    unfold sizeofLogHeader
    omega
  have hlength : (header.write uiLogTimeUSec).length + 4 < 2 ^ 32 := by
    have hcontent := hheader.content_lt
    rw [length_write]
    unfold sizeofLogHeader
    unfold logLengthMax at hcontent
    omega
  have hused := hholds.used_lt
  have hsuccess := inQueue_success_iff hholds hlength
  unfold enqueue
  by_cases hlocal : log.localLog = none
  · rw [hlocal, Option.isSome_none, if_neg Bool.false_ne_true]
    by_cases hroom :
        usedBytes messages + ((header.write uiLogTimeUSec).length + 4) <
          queue.queueDataSize
    · left
      have hfits : (header.write uiLogTimeUSec).length + 4 ≤
          queue.queueDataSize - 1 - usedBytes messages := by omega
      have hret := hsuccess.mpr ⟨hpos, hfits⟩
      exact ⟨(queue.inQueue (header.write uiLogTimeUSec)).2,
        by simp only [hret, decide_true], rfl, hroom,
        (inQueue_of_room hholds hpos hfits).2⟩
    · right
      have hret : (queue.inQueue (header.write uiLogTimeUSec)).1 ≠ success := by
        rw [ne_eq, hsuccess]
        omega
      refine ⟨?_, fun haccepted => hroom haccepted.2⟩
      simp only [hret, decide_false,
        inQueue_of_failure hholds hlength hret]
  · right
    rw [if_pos (Option.isSome_iff_ne_none.mpr hlocal)]
    exact ⟨rfl, fun haccepted => hlocal haccepted.1⟩

theorem start_kept (hqueue : queue.Holds []) :
    (start queue iMaxModuleNum).Kept host conf logs iMaxModuleNum
      queue.queueDataSize where
  queue := ⟨[], hqueue, by simp, rfl⟩
  size_eq := rfl
  server := rfl
  locals := fun _ => localOk_start
  queued_iff := by simp [start]

theorem localHeaders_append (written : List Written) (entry : Written)
    (process : ℕ) :
    localHeaders (written ++ [entry]) process =
      localHeaders written process ++
        if entry.process = process ∧ entry.queued = false then [entry.header]
        else [] := by
  unfold localHeaders
  rw [List.filter_append, List.map_append]
  congr 1
  by_cases hprocess : entry.process = process <;>
    cases hqueued : entry.queued <;> simp [hprocess, hqueued]

theorem queuedHeaders_append (written : List Written) (entry : Written) :
    queuedHeaders (written ++ [entry]) =
      queuedHeaders written ++
        if entry.queued then [entry.header] else [] := by
  unfold queuedHeaders
  rw [List.filter_append, List.map_append]
  congr 1
  cases hqueued : entry.queued <;> simp [hqueued]

/-- A record goes into the queue, or the process writes it itself. -/
theorem Kept.logInternal
    (h : logging.Kept host conf logs iMaxModuleNum queueDataSize)
    (hlocal : ∀ process,
      (clientHost host).Serves (clientConf conf (logs process)))
    (process : ℕ) (hheader : header.Writable) (uiLogTimeUSec : UInt32) :
    (logging.logInternal host conf logs process header uiLogTimeUSec).Kept
      host conf logs iMaxModuleNum queueDataSize := by
  obtain ⟨waiting, hwaiting⟩ := h.queue
  have hused := hwaiting.holds.usedSpace_eq
  have hspec := enqueue_spec (logs process) hwaiting.holds hheader uiLogTimeUSec
  rw [← hused, length_write, h.size_eq] at hspec
  unfold Logging.logInternal
  rw [h.size_eq]
  obtain ⟨after, henqueue, hnone, hroom, hafter, hsize⟩ | ⟨henqueue, hrefused⟩ :=
    hspec
  · simp only [henqueue]
    refine ⟨⟨waiting ++ [(header, uiLogTimeUSec)], ?_, ?_, ?_⟩, hsize, h.server,
      ?_, ?_⟩
    · rw [List.map_append]
      exact hafter
    · exact List.forall_mem_append.mpr
        ⟨hwaiting.writable, List.forall_mem_singleton.mpr hheader⟩
    · rw [queuedHeaders_append, hwaiting.queued, List.map_append,
        List.append_assoc]
      rfl
    · intro other
      simp only [localHeaders_append, Bool.true_eq_false, and_false, if_false,
        List.append_nil, if_true]
      exact h.locals other
    · exact List.forall_mem_append.mpr ⟨h.queued_iff,
        List.forall_mem_singleton.mpr (iff_of_true rfl ⟨hnone, hroom⟩)⟩
  · simp only [henqueue]
    refine ⟨⟨waiting, hwaiting.holds, hwaiting.writable, ?_⟩, h.size_eq,
      h.server, ?_, ?_⟩
    · rw [queuedHeaders_append, hwaiting.queued]
      exact List.append_nil _
    · intro other
      rw [localHeaders_append]
      by_cases hother : other = process
      · subst hother
        simp only [Bool.false_eq_true, if_false, Function.update_self,
          and_self, if_true]
        exact (h.locals other).write (hlocal other) hheader.ofInt_eq
      · simp only [Bool.false_eq_true, if_false,
          Function.update_of_ne hother, Ne.symm hother, false_and,
          List.append_nil]
        exact h.locals other
    · exact List.forall_mem_append.mpr ⟨h.queued_iff,
        List.forall_mem_singleton.mpr
          (iff_of_false Bool.false_ne_true hrefused)⟩

/-- A round on an empty queue changes nothing. -/
theorem serve_of_nil (hwaiting : logging.Waiting [])
    (tModule tLogID tUserID : ℤ) :
    logging.step host conf levels logs (.serve tModule tLogID tUserID) =
      logging := by
  unfold Logging.step
  dsimp only
  rw [outQueue_of_nil hwaiting.holds, if_neg fun hret =>
    absurd hret.1 (show eShmQueueEmpty ≠ success by decide)]

/-- A round takes the oldest record as it was written. -/
theorem serve_of_cons {entry : LogHeader × UInt32}
    {later : List (LogHeader × UInt32)}
    (hwaiting : logging.Waiting (entry :: later))
    (tModule tLogID tUserID : ℤ) :
    logging.step host conf levels logs (.serve tModule tLogID tUserID) =
      { logging with
        queue := logging.queue.addHead
          (u32 ((entry.1.write entry.2).length + 4))
        server := logging.server.logRecord host conf
          ⟨entry.1, tModule, tLogID, tUserID⟩
        taken := logging.taken ++ [⟨entry.1, tModule, tLogID, tUserID⟩] } := by
  have hholds := hwaiting.holds
  have hentry : entry.1.Writable := hwaiting.writable entry List.mem_cons_self
  have hlength : (entry.1.write entry.2).length ≤
      sizeofLogHeader + logLengthMax + 1 := by
    have hcontent := hentry.content_lt
    rw [length_write]
    omega
  have hheader : sizeofLogHeader ≤ (entry.1.write entry.2).length := by
    rw [length_write]
    exact Nat.le_add_right _ _
  rw [List.map_cons] at hholds
  unfold Logging.step
  dsimp only
  rw [outQueue_of_cons hholds, if_neg (Nat.not_lt.mpr hlength),
    if_pos ⟨rfl, hheader⟩]
  dsimp only
  rw [read_write hentry]

theorem Kept.serve
    (h : logging.Kept host conf logs iMaxModuleNum queueDataSize)
    (tModule tLogID tUserID : ℤ) :
    (logging.step host conf levels logs (.serve tModule tLogID tUserID)).Kept
      host conf logs iMaxModuleNum queueDataSize := by
  obtain ⟨waiting, hwaiting⟩ := h.queue
  cases waiting with
  | nil =>
      rw [serve_of_nil hwaiting]
      exact h
  | cons entry later =>
      have hholds := hwaiting.holds
      rw [List.map_cons] at hholds
      rw [serve_of_cons hwaiting]
      refine ⟨⟨later, hholds.addHead, fun other hother =>
        hwaiting.writable other (List.mem_cons_of_mem _ hother), ?_⟩,
        h.size_eq, ?_, h.locals, h.queued_iff⟩
      · dsimp only
        rw [hwaiting.queued, List.map_append, List.append_assoc]
        rfl
      · dsimp only
        rw [h.server]
        simp only [LogServer.run, List.foldl_append, List.foldl_cons,
          List.foldl_nil]

theorem Waiting.served {waiting : List (LogHeader × UInt32)}
    (hwaiting : logging.Waiting waiting) (tModule tLogID tUserID : ℤ) :
    (logging.step host conf levels logs
        (.serve tModule tLogID tUserID)).taken =
      logging.taken ++ (waiting.head?.map fun entry =>
        ⟨entry.1, tModule, tLogID, tUserID⟩).toList := by
  cases waiting with
  | nil =>
      rw [serve_of_nil hwaiting]
      exact (List.append_nil _).symm
  | cons entry later =>
      rw [serve_of_cons hwaiting]
      rfl

theorem Kept.step (levels : OutputLevels)
    (h : logging.Kept host conf logs iMaxModuleNum queueDataSize)
    (hlocal : ∀ process,
      (clientHost host).Serves (clientConf conf (logs process)))
    (action : LogAction) :
    (logging.step host conf levels logs action).Kept host conf logs
        iMaxModuleNum queueDataSize ∧
      (logging.step host conf levels logs action).written.map
          (fun entry => (entry.process, entry.header)) =
        logging.written.map (fun entry => (entry.process, entry.header)) ++
          (asked levels logs action).toList := by
  cases action with
  | serve tModule tLogID tUserID =>
      refine ⟨h.serve tModule tLogID tUserID, ?_⟩
      unfold Logging.step
      dsimp only
      split_ifs
      · split <;> exact (List.append_nil _).symm
      · exact (List.append_nil _).symm
  | logInternal process iLogID ullUserID iPriority content now
      uiLogTimeUSec =>
      unfold Logging.step asked
      dsimp only
      split_ifs with hwrite
      · refine ⟨h.logInternal hlocal process
          (writable_of_isShouldWrite hwrite) uiLogTimeUSec, ?_⟩
        exact List.map_append
      · exact ⟨h, (List.append_nil _).symm⟩

theorem Kept.run (levels : OutputLevels)
    (h : logging.Kept host conf logs iMaxModuleNum queueDataSize)
    (hlocal : ∀ process,
      (clientHost host).Serves (clientConf conf (logs process)))
    (actions : List LogAction) :
    (logging.run host conf levels logs actions).Kept host conf logs
        iMaxModuleNum queueDataSize ∧
      (logging.run host conf levels logs actions).written.map
          (fun entry => (entry.process, entry.header)) =
        logging.written.map (fun entry => (entry.process, entry.header)) ++
          actions.filterMap (asked levels logs) := by
  induction actions generalizing logging with
  | nil => exact ⟨h, (List.append_nil _).symm⟩
  | cons action actions ih =>
      obtain ⟨hstep, hwritten⟩ := h.step levels hlocal action
      obtain ⟨hrun, hall⟩ := ih hstep
      refine ⟨hrun, hall.trans ?_⟩
      rw [hwritten, List.append_assoc, List.filterMap_cons]
      cases asked levels logs action <;> rfl

end Runs

/-- What has become of the records of a run, with a queue of this size. -/
structure Accounted (host : Host) (conf : LogAllConf) (levels : OutputLevels)
    (logs : ℕ → CLog) (iMaxModuleNum queueDataSize : ℕ)
    (actions : List LogAction) (final : Logging) : Prop where
  written : final.written.map (fun entry => (entry.process, entry.header)) =
    actions.filterMap (asked levels logs)
  queued_iff : ∀ entry ∈ final.written,
    entry.queued = true ↔ entry.Accepted logs queueDataSize
  locals : ∀ process, (final.locals process).files.misused = false ∧
    (final.locals process).files.appended =
      (localHeaders final.written process).map fun header =>
        (localPath host conf (logs process) header, header)
  -- the next round takes the first of those that wait
  queue : ∃ waiting : List (LogHeader × UInt32),
    final.queue.Holds (waiting.map fun entry => entry.1.write entry.2) ∧
      queuedHeaders final.written =
        final.taken.map Record.header ++ waiting.map Prod.fst ∧
      ∀ tModule tLogID tUserID,
        (final.step host conf levels logs
            (.serve tModule tLogID tUserID)).taken =
          final.taken ++ (waiting.head?.map fun entry =>
            ⟨entry.1, tModule, tLogID, tUserID⟩).toList
  filed : host.Serves conf → EnoughNodes conf iMaxModuleNum final.taken →
    (∀ before record after, final.taken = before ++ record :: after →
      record.header.Valid → OwnUserFile host conf before record.header) →
    final.server.files.misused = false ∧
    final.server.files.appended = final.taken.flatMap fun record =>
      (destinations host conf record.header).map
        fun path => (path, record.header)

/-- In every run each call that has something to write has written it once: into
the queue exactly when the process leaves its records to it and it has room, and
else to the process's own file of the level and the hour.  The server takes the
records in the queue in their order and as they were written, one in each round,
and files those that it has taken where they belong. -/
theorem records_written_once
    {host : Host} {conf : LogAllConf} (levels : OutputLevels)
    {logs : ℕ → CLog} {queue : CShmQueue} (iMaxModuleNum : ℕ)
    (hqueue : queue.Holds [])
    (hlocal : ∀ process,
      (clientHost host).Serves (clientConf conf (logs process)))
    (actions : List LogAction) :
    Accounted host conf levels logs iMaxModuleNum queue.queueDataSize actions
      ((start queue iMaxModuleNum).run host conf levels logs actions) := by
  have hstart : (start queue iMaxModuleNum).Kept host conf logs
      iMaxModuleNum queue.queueDataSize := start_kept hqueue
  obtain ⟨hkept, hwritten⟩ := hstart.run levels hlocal actions
  constructor
  · exact hwritten
  · exact hkept.queued_iff
  · intro process
    exact ⟨(hkept.locals process).sound.fine, (hkept.locals process).appended⟩
  · obtain ⟨waiting, hwaiting⟩ := hkept.queue
    exact ⟨waiting, hwaiting.holds, hwaiting.queued, hwaiting.served⟩
  · intro hserves henough hown
    rw [hkept.server]
    exact (run_appended hserves henough hown).symm

end Logging

/-! ## Two processes -/

/-- `user` leaves its records to the server, `conn` writes them itself. -/
def twoLogs (process : ℕ) : CLog :=
  if process = 0 then
    { initFlag := true
      objModuleName := ⟨"user", by decide⟩
      iProcID := 100
      localLog := none
      name_noNul := by decide }
  else
    { initFlag := true
      objModuleName := ⟨"conn", by decide⟩
      iProcID := 101
      localLog := some ⟨3, "/var/conn"⟩
      name_noNul := by decide }

def warnLevels : OutputLevels where
  iOutputLogLevel := 3
  moduleConf := BoundedMap.empty _ _ 100
  logIDConf := BoundedMap.empty _ _ 100
  userIDConf := BoundedMap.empty _ _ 100

def loginContent : LogContent := ⟨"login", by decide, by decide⟩

/-- The record of a process in the run below. -/
def loginRecord (process : ℕ) (ullUserID : UInt64) : LogHeader :=
  logRecordOf (twoLogs process) 3 ullUserID 1 loginContent 1700000000

def twoActions : List LogAction :=
  [.logInternal 0 3 7 1 loginContent 1700000000 5,
    .logInternal 1 3 9 1 loginContent 1700000000 6,
    -- above the level of the configuration
    .logInternal 0 3 7 4 loginContent 1700000000 7,
    .serve 1700000000 1700000000 1700000000]

def emptyLogQueue : CShmQueue := ⟨1024, 0, 0, fun _ => 0⟩

def twoProcesses : Logging :=
  (Logging.start emptyLogQueue 100).run sameHour (twoUsers 7 9) warnLevels
    twoLogs twoActions

theorem records_written_once_two :
    twoProcesses.written.map (fun entry => (entry.process, entry.header)) =
        [(0, loginRecord 0 7), (1, loginRecord 1 9)] ∧
      twoProcesses.taken.map Record.header = [loginRecord 0 7] ∧
      twoProcesses.server.files.misused = false ∧
      twoProcesses.server.files.appended =
        twoProcesses.taken.flatMap fun record =>
          (destinations sameHour (twoUsers 7 9) record.header).map
            fun path => (path, record.header) := by
  have hlocal : ∀ process, (clientHost sameHour).Serves
      (clientConf (twoUsers 7 9) (twoLogs process)) := by
    intro process
    refine ⟨fun _ => rfl, fun _ _ => ?_⟩
    change (0 : ℤ) ≤ ite _ selfLogMaxSize 1024
    split_ifs <;> decide
  obtain ⟨hwritten, -, -, -, hfiled⟩ :
      Logging.Accounted sameHour (twoUsers 7 9) warnLevels twoLogs 100 1024
        twoActions twoProcesses :=
    Logging.records_written_once warnLevels 100
      (show emptyLogQueue.Holds [] from
        holds_of_empty (by decide) (by decide) rfl) hlocal twoActions
  have hasked : twoActions.filterMap (asked warnLevels twoLogs) =
      [(0, loginRecord 0 7), (1, loginRecord 1 9)] := by decide +kernel
  have hheaders : twoProcesses.taken.map Record.header = [loginRecord 0 7] := by
    decide +kernel
  obtain ⟨record, htaken, hheader⟩ := List.map_eq_singleton_iff.mp hheaders
  refine ⟨hwritten.trans hasked, hheaders,
    hfiled (sameHour_serves 7 9) ⟨?_, by decide,
      (enough_twoUsers 7 9).userIDs⟩ ?_⟩
  · rw [htaken, List.map_singleton]
    apply (List.toFinset_card_le _).trans_lt
    exact show 1 < 100 by decide
  · intro before later after hsplit _
    rw [htaken] at hsplit
    -- nothing was taken before it
    have hbefore : before = [] := by
      have hlength := congrArg List.length hsplit
      simp only [List.length_append, List.length_cons, List.length_nil]
        at hlength
      exact List.length_eq_zero_iff.mp (by omega)
    apply ownUserFile_of_injOn
    intro other hother
    rw [hbefore] at hother
    cases hother

end MessageBus.Log
