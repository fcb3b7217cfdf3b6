import MessageBus.BusModel

/-!
# What the bus receives

The packets that `ProcessPkg` of `bus/bus.cpp` sees, in whatever pieces a
stream arrives.  A well-formed stream is cut into its packets.  On a stream
with a bad length field the checks of `ProcessPkg` are not enough, and the
stream says exactly when they are.
-/

namespace MessageBus.Bus

open Framing
open Receive
open CBus

/-- What `ProcessPkg` returns. -/
def procLen (buff : List UInt8) : ℤ :=
  if buff.length < BusHeader.getHeaderLen then BusHeader.getHeaderLen
  else asInt (BusHeader.read buff).pkgLen

theorem processPkg_ret (parsers : Parsers) (bus : CBus) (buff : List UInt8) :
    (processPkg parsers bus buff).ret = procLen buff := by
  unfold processPkg procLen
  split_ifs with hshort
  · rfl
  · dsimp only
    split_ifs
    · rfl
    · rfl
    · rfl
    · unfold processCopy
      dsimp only
      split_ifs
      · rfl
      · rfl
      · rfl
      · split
        · rfl
        · split_ifs
          · split <;> rfl
          · rfl

theorem procLen_of_le
    {buff : List UInt8} (hlen : BusHeader.getHeaderLen ≤ buff.length) :
    procLen buff = asInt (BusHeader.read buff).pkgLen := by
  rw [procLen, if_neg (by omega)]

theorem waits_of_short
    {buff : List UInt8} (hshort : buff.length < BusHeader.getHeaderLen) :
    Waits procLen buff := by
  right
  rw [procLen, if_pos hshort]
  exact_mod_cast hshort

theorem procLen_stable : Stable procLen := by
  intro buff more _ hdecided
  by_cases hshort : buff.length < BusHeader.getHeaderLen
  · have hwaits := waits_of_short hshort
    obtain htakes | hrefuses := hdecided
    · exact absurd htakes hwaits.not_takes
    · exact absurd hrefuses hwaits.not_refuses
  · have hlen : BusHeader.getHeaderLen ≤ buff.length := by omega
    have hlonger : BusHeader.getHeaderLen ≤ (buff ++ more).length := by
      rw [List.length_append]
      omega
    rw [procLen_of_le hlen, procLen_of_le hlonger, BusHeader.read_append hlen]

/-! ## Headers and streams -/

/-- The length field of a header lies between the header and the largest
packet. -/
def GoodLen (header : BusHeader) : Prop :=
  BusHeader.getHeaderLen ≤ header.pkgLen.toNat ∧
    header.pkgLen.toNat ≤ xyPkgMaxLen

instance (header : BusHeader) : Decidable (GoodLen header) :=
  inferInstanceAs (Decidable (_ ∧ _))

/-- There is a header, and its length field is out of range. -/
def BadHeader (buff : List UInt8) : Prop :=
  BusHeader.getHeaderLen ≤ buff.length ∧ ¬ GoodLen (BusHeader.read buff)

/-- Following the length fields from the start, every header of the stream has
a length in range. -/
inductive Framed : List UInt8 → Prop where
  | short {stream : List UInt8}
      (hshort : stream.length < BusHeader.getHeaderLen) : Framed stream
  | packet {stream : List UInt8}
      (hheader : BusHeader.getHeaderLen ≤ stream.length)
      (hgood : GoodLen (BusHeader.read stream))
      (hlater : (BusHeader.read stream).pkgLen.toNat ≤ stream.length →
        Framed (stream.drop (BusHeader.read stream).pkgLen.toNat)) :
      Framed stream

theorem GoodLen.asInt_eq
    {header : BusHeader} (hgood : GoodLen header) :
    asInt header.pkgLen = header.pkgLen.toNat := by
  apply asInt_of_lt
  have hmax := hgood.2
  unfold xyPkgMaxLen at hmax
  omega

theorem badHeader_of_append
    {buff more : List UInt8} (hlen : BusHeader.getHeaderLen ≤ buff.length) :
    BadHeader (buff ++ more) ↔ BadHeader buff := by
  unfold BadHeader
  rw [BusHeader.read_append hlen, List.length_append]
  simp only [hlen, true_and, and_iff_right_iff_imp]
  intro _
  omega

/-- A stream is framed when no header at a packet boundary is bad. -/
theorem framed_iff_visits (stream : List UInt8) :
    Framed stream ↔ ∀ buff ∈ visits procLen stream, ¬ BadHeader buff := by
  induction stream using split_induction procLen with
  | hnil =>
      simp only [visits_nil, List.not_mem_nil, false_implies, implies_true,
        iff_true]
      exact .short (by decide)
  | htakes stream htakes ih =>
      rw [visits_of_takes htakes, List.forall_mem_cons, ← ih]
      have hheader : BusHeader.getHeaderLen ≤ stream.length := by
        by_contra hshort
        exact (waits_of_short (by omega)).not_takes htakes
      by_cases hgood : GoodLen (BusHeader.read stream)
      · have hlen : (procLen stream).toNat =
            (BusHeader.read stream).pkgLen.toNat := by
          rw [procLen_of_le hheader, hgood.asInt_eq, Int.toNat_natCast]
        have hle := htakes.toNat_le
        rw [hlen] at hle ⊢
        constructor
        · intro hframed
          refine ⟨fun hbad => hbad.2 hgood, ?_⟩
          cases hframed with
          | short hshort => omega
          | packet _ _ hlater => exact hlater hle
        · intro hall
          exact .packet hheader hgood fun _ => hall.2
      · constructor
        · intro hframed
          cases hframed with
          | short hshort => omega
          | packet _ hcontra _ => exact absurd hcontra hgood
        · intro hall
          exact absurd ⟨hheader, hgood⟩ hall.1
  | hrefuses stream hstream hrefuses =>
      have hheader : BusHeader.getHeaderLen ≤ stream.length := by
        by_contra hshort
        exact (waits_of_short (by omega)).not_refuses hrefuses
      have hbad : ¬ GoodLen (BusHeader.read stream) := by
        intro hgood
        unfold Refuses at hrefuses
        rw [procLen_of_le hheader, hgood.asInt_eq] at hrefuses
        omega
      rw [visits_of_not_takes hstream
        (fun htakes => htakes.not_refuses hrefuses)]
      simp only [List.mem_singleton, forall_eq]
      constructor
      · intro hframed
        cases hframed with
        | short hshort => omega
        | packet _ hgood _ => exact absurd hgood hbad
      · intro hall
        exact absurd ⟨hheader, hbad⟩ hall
  | hwaits stream hstream hwaits =>
      rw [visits_of_not_takes hstream hwaits.not_takes]
      simp only [List.mem_singleton, forall_eq]
      by_cases hshort : stream.length < BusHeader.getHeaderLen
      · exact ⟨fun _ hbad => absurd hbad.1 (by omega), fun _ => .short hshort⟩
      · have hheader : BusHeader.getHeaderLen ≤ stream.length := by omega
        constructor
        · intro hframed hbad
          cases hframed with
          | short hcontra => omega
          | packet _ hgood _ => exact hbad.2 hgood
        · intro hnot
          have hgood : GoodLen (BusHeader.read stream) := by
            by_contra hbad
            exact hnot ⟨hheader, hbad⟩
          refine .packet hheader hgood fun hle => ?_
          -- a packet that is there would have been taken
          unfold Waits at hwaits
          rw [procLen_of_le hheader, hgood.asInt_eq] at hwaits
          have hpos := hgood.1
          unfold BusHeader.getHeaderLen at hpos
          omega

/-! ## What one call of `ProcessPkg` does -/

/-- The lengths that `ProcessPkg` uses are in range. -/
structure SafeCall (buff : List UInt8) (run : PkgRun) : Prop where
  memcpy : ∀ length ∈ run.memcpyLen,
    (BusHeader.getHeaderLen : ℤ) ≤ length ∧
      length ≤ min buff.length xyPkgMaxLen
  queued : ∀ message ∈ run.queued,
    BusHeader.getHeaderLen ≤ message.length
  parse : ∀ length ∈ run.parseLen, 0 ≤ length

section Calls

variable {parsers : Parsers} {bus : CBus} {buff : List UInt8}

theorem processPkg_of_incomplete
    (hincomplete : (buff.length : ℤ) < procLen buff) :
    processPkg parsers bus buff = ⟨none, none, none, bus, procLen buff⟩ := by
  unfold processPkg
  by_cases hshort : buff.length < BusHeader.getHeaderLen
  · rw [if_pos hshort, procLen, if_pos hshort]
  · rw [procLen_of_le (by omega)] at hincomplete ⊢
    simp only [if_neg hshort, if_pos hincomplete]

/-- A complete packet with a length in range is copied and handled. -/
theorem processPkg_of_complete
    (hheader : BusHeader.getHeaderLen ≤ buff.length)
    (hgood : GoodLen (BusHeader.read buff))
    (hcomplete : (BusHeader.read buff).pkgLen.toNat ≤ buff.length) :
    processPkg parsers bus buff =
      processCopy parsers bus (BusHeader.read buff)
        (buff.take (BusHeader.read buff).pkgLen.toNat) := by
  have hmax := hgood.2
  unfold processPkg
  rw [if_neg (by omega)]
  simp only [hgood.asInt_eq]
  rw [if_neg (by omega), if_neg (by omega), if_neg (by omega),
    Int.toNat_natCast]

theorem processCopy_memcpyLen
    (header : BusHeader) (copy : List UInt8) :
    (processCopy parsers bus header copy).memcpyLen =
      some (asInt header.pkgLen) := by
  unfold processCopy
  dsimp only
  split_ifs
  · rfl
  · rfl
  · rfl
  · split
    · rfl
    · split_ifs
      · split <;> rfl
      · rfl

theorem processCopy_queued
    {header : BusHeader} {copy message : List UInt8}
    (hqueued : message ∈ (processCopy parsers bus header copy).queued) :
    message = copy := by
  unfold processCopy at hqueued
  dsimp only at hqueued
  split_ifs at hqueued
  · simp at hqueued
  · simp at hqueued
  · simp at hqueued
  · split at hqueued
    · simp at hqueued
    · split_ifs at hqueued
      · split at hqueued
        · simp at hqueued
        · exact (Option.mem_some_iff.mp hqueued).symm
      · simp at hqueued

theorem processCopy_parseLen
    {header : BusHeader} {copy : List UInt8} {length : ℤ}
    (hparse : length ∈ (processCopy parsers bus header copy).parseLen) :
    length = asInt header.pkgLen - BusHeader.getHeaderLen := by
  unfold processCopy at hparse
  dsimp only at hparse
  split_ifs at hparse
  · simp at hparse
  · exact (Option.mem_some_iff.mp hparse).symm
  · exact (Option.mem_some_iff.mp hparse).symm
  · split at hparse
    · simp at hparse
    · split_ifs at hparse
      · split at hparse
        · simp at hparse
        · simp at hparse
      · simp at hparse

/-- A call that does not meet a bad header is safe. -/
theorem safeCall_of_not_badHeader (hnot : ¬ BadHeader buff) :
    SafeCall buff (processPkg parsers bus buff) := by
  by_cases hincomplete : (buff.length : ℤ) < procLen buff
  · rw [processPkg_of_incomplete hincomplete]
    exact ⟨by simp, by simp, by simp⟩
  have hheader : BusHeader.getHeaderLen ≤ buff.length := by
    by_contra hshort
    rw [procLen, if_pos (by omega)] at hincomplete
    omega
  have hgood : GoodLen (BusHeader.read buff) := by
    by_contra hbad
    exact hnot ⟨hheader, hbad⟩
  rw [procLen_of_le hheader, hgood.asInt_eq] at hincomplete
  have hmin := hgood.1
  have hmax := hgood.2
  rw [processPkg_of_complete hheader hgood (by omega)]
  refine ⟨?_, ?_, ?_⟩
  · intro length hlength
    rw [processCopy_memcpyLen, Option.mem_some_iff, hgood.asInt_eq] at hlength
    omega
  · intro message hmessage
    rw [processCopy_queued hmessage, List.length_take]
    omega
  · intro length hlength
    rw [processCopy_parseLen hlength, hgood.asInt_eq]
    omega

/-- A bad header that is not merely too large is copied with its bad
length. -/
theorem not_safeCall_of_badHeader
    (hbad : BadHeader buff)
    (hlength : asInt (BusHeader.read buff).pkgLen ≤ xyPkgMaxLen) :
    ¬ SafeCall buff (processPkg parsers bus buff) := by
  intro hsafe
  have hheader := hbad.1
  have hsmall : asInt (BusHeader.read buff).pkgLen <
      BusHeader.getHeaderLen := by
    by_contra hlarge
    apply hbad.2
    have hvalue := (BusHeader.read buff).pkgLen.toNat_lt
    unfold asInt at hlarge hlength
    unfold GoodLen
    split_ifs at hlarge hlength <;> omega
  have hmemcpy : asInt (BusHeader.read buff).pkgLen ∈
      (processPkg parsers bus buff).memcpyLen := by
    unfold processPkg
    rw [if_neg (by omega)]
    dsimp only
    rw [if_neg (by omega), if_neg (by omega)]
    split_ifs
    · exact Option.mem_some_iff.mpr rfl
    · rw [processCopy_memcpyLen]
      exact Option.mem_some_iff.mpr rfl
  have hrange := (hsafe.memcpy _ hmemcpy).1
  omega

end Calls

/-! ## The calls of a run -/

/-- The process and the calls of `ProcessPkg` made so far. -/
structure Trace where
  bus : CBus
  log : List (List UInt8 × PkgRun)

/-- `ProcessPkg` with a note of the call. -/
def traced (parsers : Parsers) (trace : Trace) (buff : List UInt8) :
    Trace × ℤ :=
  let run := processPkg parsers trace.bus buff
  (⟨run.bus, trace.log ++ [(buff, run)]⟩, run.ret)

theorem traced_ret (parsers : Parsers) (trace : Trace) (buff : List UInt8) :
    (traced parsers trace buff).2 = procLen buff :=
  processPkg_ret parsers trace.bus buff

section Traces

variable (parsers : Parsers) (trace : Trace)

/-- Every call is noted, with the buffer it was made on. -/
theorem processAll_log (buffs : List (List UInt8)) :
    (processAll (traced parsers) trace buffs).log.map Prod.fst =
      trace.log.map Prod.fst ++ buffs := by
  induction buffs generalizing trace with
  | nil => simp [processAll]
  | cons buff buffs ih =>
      have hlater := ih (traced parsers trace buff).1
      simp only [processAll, List.foldl_cons] at hlater ⊢
      rw [hlater]
      simp [traced]

theorem processAll_runs
    (buffs : List (List UInt8))
    (hlog : ∀ entry ∈ trace.log, ∃ bus,
      entry.2 = processPkg parsers bus entry.1) :
    ∀ entry ∈ (processAll (traced parsers) trace buffs).log, ∃ bus,
      entry.2 = processPkg parsers bus entry.1 := by
  induction buffs generalizing trace with
  | nil => exact hlog
  | cons buff buffs ih =>
      apply ih
      intro entry hentry
      simp only [traced, List.mem_append, List.mem_singleton] at hentry
      obtain hold | rfl := hentry
      · exact hlog entry hold
      · exact ⟨trace.bus, rfl⟩

theorem processAll_bus (buffs : List (List UInt8)) :
    (processAll (traced parsers) trace buffs).bus =
      buffs.foldl (fun bus buff => (processPkg parsers bus buff).bus)
        trace.bus := by
  induction buffs generalizing trace with
  | nil => rfl
  | cons buff buffs ih =>
      have hlater := ih (traced parsers trace buff).1
      simp only [processAll, List.foldl_cons] at hlater ⊢
      rw [hlater]
      rfl

end Traces

/-! ## Streams with bad headers -/

/-- The header asks for more than any packet may have. -/
def Oversized (buff : List UInt8) : Prop :=
  BusHeader.getHeaderLen ≤ buff.length ∧
    (xyPkgMaxLen : ℤ) < asInt (BusHeader.read buff).pkgLen

theorem Oversized.append
    {buff : List UInt8} (hover : Oversized buff) (more : List UInt8) :
    Oversized (buff ++ more) := by
  unfold Oversized at hover ⊢
  rw [BusHeader.read_append hover.1, List.length_append]
  exact ⟨by omega, hover.2⟩

theorem Oversized.waits
    {buff : List UInt8} (hover : Oversized buff)
    (hlen : buff.length ≤ xyMaxbuffLen) : Waits procLen buff := by
  right
  rw [procLen_of_le hover.1]
  have hmax : (xyPkgMaxLen : ℤ) = xyMaxbuffLen := rfl
  have hlarge := hover.2
  omega

section Oversized

variable {σ : Type} {processPkg : σ → List UInt8 → σ × ℤ}
  (hlen : ∀ state buffer, (processPkg state buffer).2 = procLen buffer)

include hlen

/-- An oversized header is kept, and looked at again, for as long as reads
come. -/
theorem Oversized.kept
    {results : List ReadResult} {state : σ} {remain : List UInt8}
    (hover : Oversized remain) (hremain : remain.length ≤ xyMaxbuffLen)
    (hfit : ReadsFit processPkg ⟨state, some remain⟩ results) :
    ((results.map ReadResult.piece).foldl (feed procLen)
      ⟨[], some remain⟩).rest ≠ none := by
  induction results generalizing state remain with
  | nil => simp
  | cons result results ih =>
      have hpoll := pollIn_eq hlen state hremain hfit.1
      have hnext := hover.append result.piece
      have hbuffer := hfit.1.length_le hremain
      rw [split_of_waits (hnext.waits hbuffer)] at hpoll
      rw [List.map_cons, List.foldl_cons, feed_of_open _ rfl,
        split_of_waits (hnext.waits hbuffer)]
      exact ih hnext hbuffer (hfit.2 _ hpoll)

/-- A run that meets an oversized header does not close the connection. -/
theorem open_of_oversized
    {results : List ReadResult} {state : σ} {remain buff : List UInt8}
    (hremain : remain.length ≤ xyMaxbuffLen)
    (hfit : ReadsFit processPkg ⟨state, some remain⟩ results)
    (hmem : buff ∈ calls procLen (some remain) results)
    (hover : Oversized buff) :
    ((results.map ReadResult.piece).foldl (feed procLen)
      ⟨[], some remain⟩).rest ≠ none := by
  induction results generalizing state remain with
  | nil => simp [calls] at hmem
  | cons result results ih =>
      have hpoll := pollIn_eq hlen state hremain hfit.1
      have hbuffer := hfit.1.length_le hremain
      have hlater := hfit.2 _ hpoll
      rw [List.map_cons, List.foldl_cons, feed_of_open _ rfl, List.nil_append,
        foldl_feed_eq]
      simp only [calls, List.mem_append] at hmem
      obtain hnow | hafter := hmem
      · have hshort := visits_length hnow
        have hwaits := hover.waits (hshort.trans hbuffer)
        rw [split_rest_of_visited hnow hwaits] at hlater ⊢
        exact hover.kept hlen (hshort.trans hbuffer) hlater
      · cases hrest : (split procLen (remain ++ result.piece)).rest with
        | none => simp [hrest, calls] at hafter
        | some rest =>
            rw [hrest] at hafter hlater
            exact ih ((split_rest_length hrest).trans hbuffer) hlater hafter

end Oversized

/-- What is asked of the bus for the reads of one connection: the loop ends,
every call of `ProcessPkg` keeps to the lengths in range, and a bad header
closes the connection. -/
def TcpSafe (parsers : Parsers) (bus : CBus) (results : List ReadResult) :
    Prop :=
  ∃ final, pollAll (traced parsers) ⟨⟨bus, []⟩, some []⟩ results =
      some final ∧
    (∀ entry ∈ final.state.log, SafeCall entry.1 entry.2) ∧
    ((∃ entry ∈ final.state.log, BadHeader entry.1) →
      final.remainRecvData = none)

/-- What is asked of `RecvHelloMessage` for a datagram: it uses only bytes that
were received. -/
def UdpSafe (parsers : Parsers) (stale : ℕ → UInt8)
    (datagram : List UInt8) : Prop :=
  (∀ offset ∈ (readHello parsers stale datagram).reads,
      offset < (datagram.take 1024).length) ∧
    ∀ length ∈ (readHello parsers stale datagram).parseLen, 0 ≤ length

/-- No call of a run meets a bad header exactly when the stream is framed. -/
theorem framed_iff_calls (results : List ReadResult) :
    Framed (results.map ReadResult.piece).flatten ↔
      ∀ buff ∈ calls procLen (some []) results, ¬ BadHeader buff := by
  rw [framed_iff_visits,
    forall_calls_iff procLen_stable fun buff => ¬ BadHeader buff]
  · intro buff more hgood hbad
    exact hgood ((badHeader_of_append hbad.1).mpr hbad)
  · intro buff more _ hdecided hgood hbad
    apply hgood
    by_cases hshort : buff.length < BusHeader.getHeaderLen
    · have hwaits := waits_of_short hshort
      obtain htakes | hrefuses := hdecided
      · exact absurd htakes hwaits.not_takes
      · exact absurd hrefuses hwaits.not_refuses
    · exact (badHeader_of_append (by omega)).mp hbad

theorem tcpSafe_iff
    {parsers : Parsers} {bus : CBus} {results : List ReadResult}
    (hfit : ReadsFit (traced parsers) ⟨⟨bus, []⟩, some []⟩ results) :
    TcpSafe parsers bus results ↔
      Framed (results.map ReadResult.piece).flatten := by
  have hrun := pollAll_eq (traced_ret parsers) (by simp) hfit
  have hfirst := processAll_log parsers ⟨bus, []⟩
    (calls procLen (some []) results)
  have hruns := processAll_runs parsers ⟨bus, []⟩
    (calls procLen (some []) results) (by simp)
  simp only [List.map_nil, List.nil_append] at hfirst
  rw [framed_iff_calls]
  constructor
  · rintro ⟨final, hfinal, hsafe, hclosed⟩ buff hbuff hbad
    rw [hrun, Option.some.injEq] at hfinal
    subst hfinal
    rw [← hfirst, List.mem_map] at hbuff
    obtain ⟨entry, hentry, rfl⟩ := hbuff
    have hcall : entry.1 ∈ calls procLen (some []) results := by
      rw [← hfirst]
      exact List.mem_map_of_mem hentry
    obtain ⟨before, hentryrun⟩ := hruns entry hentry
    by_cases hlarge : asInt (BusHeader.read entry.1).pkgLen ≤ xyPkgMaxLen
    · apply not_safeCall_of_badHeader hbad hlarge
      rw [← hentryrun]
      exact hsafe entry hentry
    · -- the connection should be closed, but the header is kept
      exact open_of_oversized (traced_ret parsers) (Nat.zero_le _) hfit hcall
        ⟨hbad.1, by omega⟩ (hclosed ⟨entry, hentry, hbad⟩)
  · intro hgood
    refine ⟨_, hrun, ?_, ?_⟩
    · intro entry hentry
      have hcall : entry.1 ∈ calls procLen (some []) results := by
        rw [← hfirst]
        exact List.mem_map_of_mem hentry
      obtain ⟨before, hentryrun⟩ := hruns entry hentry
      rw [hentryrun]
      exact safeCall_of_not_badHeader (hgood entry.1 hcall)
    · rintro ⟨entry, hentry, hbad⟩
      have hcall : entry.1 ∈ calls procLen (some []) results := by
        rw [← hfirst]
        exact List.mem_map_of_mem hentry
      exact absurd hbad (hgood entry.1 hcall)

theorem udpSafe_iff
    (parsers : Parsers) (stale : ℕ → UInt8) (datagram : List UInt8) :
    UdpSafe parsers stale datagram ↔
      datagram = [] ∨ BusHeader.getHeaderLen ≤ datagram.length := by
  unfold UdpSafe readHello BusHeader.getHeaderLen
  by_cases hnil : datagram = []
  · subst hnil
    simp
  have hpos : 0 < datagram.length := List.length_pos_iff.mpr hnil
  have hlength : (datagram.take 1024).length = min 1024 datagram.length :=
    List.length_take
  simp only [hnil, false_or]
  rw [if_neg (by omega)]
  constructor
  · intro hsafe
    have hlast : 25 < (datagram.take 1024).length := by
      apply hsafe.1
      split_ifs
      · simp
      · simp
    omega
  · intro hlong
    split_ifs
    · refine ⟨?_, by simp⟩
      intro offset hoffset
      simp only [List.mem_range] at hoffset
      omega
    · refine ⟨?_, ?_⟩
      · intro offset hoffset
        simp only [List.mem_append, List.mem_range,
          List.mem_range'_1] at hoffset
        omega
      · intro length hmem
        simp only [Option.mem_some_iff] at hmem
        omega

/-- The bus is safe for the reads of a connection exactly when every header of
the stream has a length between 26 and `XY_PKG_MAX_LEN`, and for a datagram
exactly when this is empty or has a whole header. -/
theorem malformed_input_safe_iff
    (parsers : Parsers) (bus : CBus) (results : List ReadResult)
    (hfit : ReadsFit (traced parsers) ⟨⟨bus, []⟩, some []⟩ results)
    (stale : ℕ → UInt8) (datagram : List UInt8) :
    (TcpSafe parsers bus results ∧ UdpSafe parsers stale datagram) ↔
      Framed (results.map ReadResult.piece).flatten ∧
        (datagram = [] ∨ BusHeader.getHeaderLen ≤ datagram.length) := by
  rw [tcpSafe_iff hfit, udpSafe_iff]

/-- A process of cluster 1 that knows no servers, and a parser that it does
not get to call. -/
def idle : CBus := ⟨1, 0, 0, fun _ => none, [], fun _ => none, fun _ => none⟩
def noParsers : Parsers := ⟨fun _ => none, fun _ => none, fun _ => none⟩

/-- A packet that is cut inside its header, and a datagram with a whole
header. -/
theorem malformed_input_safe_iff_cut :
    ReadsFit (traced noParsers) ⟨⟨idle, []⟩, some []⟩
        [.bytes ((BusHeader.mk 26 3 1 2 0 0 0).write.take 10), .again,
          .bytes ((BusHeader.mk 26 3 1 2 0 0 0).write.drop 10)] ∧
      TcpSafe noParsers idle
        [.bytes ((BusHeader.mk 26 3 1 2 0 0 0).write.take 10), .again,
          .bytes ((BusHeader.mk 26 3 1 2 0 0 0).write.drop 10)] := by
  have hfit : ReadsFit (traced noParsers) ⟨⟨idle, []⟩, some []⟩
      [.bytes ((BusHeader.mk 26 3 1 2 0 0 0).write.take 10), .again,
        .bytes ((BusHeader.mk 26 3 1 2 0 0 0).write.drop 10)] := by decide
  refine ⟨hfit, ((malformed_input_safe_iff noParsers idle _ hfit (fun _ => 0)
    []).mpr ⟨?_, Or.inl rfl⟩).1⟩
  refine .packet (by decide) (by decide) fun _ => ?_
  exact .short (by decide)

/-- A single read that delivers a header with a bad length. -/
theorem not_tcpSafe_of_badLen
    {header : BusHeader} (hbad : ¬ GoodLen header) :
    ReadsFit (traced noParsers) ⟨⟨idle, []⟩, some []⟩
        [.bytes header.write] ∧
      ¬ TcpSafe noParsers idle [.bytes header.write] := by
  have hlength := header.write_length
  have hfit : ReadsFit (traced noParsers) ⟨⟨idle, []⟩, some []⟩
      [.bytes header.write] := by
    refine ⟨?_, fun _ _ => trivial⟩
    intro data hdata
    simp only [Option.mem_some_iff] at hdata
    subst hdata
    rw [hlength]
    decide
  refine ⟨hfit, ?_⟩
  rw [tcpSafe_iff hfit]
  intro hframed
  have hstream : ([ReadResult.bytes header.write].map
      ReadResult.piece).flatten = header.write := by
    simp [ReadResult.piece]
  rw [hstream] at hframed
  cases hframed with
  | short hshort => omega
  | packet _ hgood _ =>
      rw [BusHeader.read_write] at hgood
      exact hbad hgood

/-- A length of 0, of 10, of one more than `XY_PKG_MAX_LEN` and of `2 ^ 31`,
and a datagram of 25 bytes. -/
theorem malformed_input_unsafe :
    (ReadsFit (traced noParsers) ⟨⟨idle, []⟩, some []⟩
        [.bytes (BusHeader.mk 0 3 1 2 0 0 0).write] ∧
      ¬ TcpSafe noParsers idle
        [.bytes (BusHeader.mk 0 3 1 2 0 0 0).write]) ∧
    (ReadsFit (traced noParsers) ⟨⟨idle, []⟩, some []⟩
        [.bytes (BusHeader.mk 10 3 1 2 0 0 0).write] ∧
      ¬ TcpSafe noParsers idle
        [.bytes (BusHeader.mk 10 3 1 2 0 0 0).write]) ∧
    (ReadsFit (traced noParsers) ⟨⟨idle, []⟩, some []⟩
        [.bytes (BusHeader.mk 2048001 3 1 2 0 0 0).write] ∧
      ¬ TcpSafe noParsers idle
        [.bytes (BusHeader.mk 2048001 3 1 2 0 0 0).write]) ∧
    (ReadsFit (traced noParsers) ⟨⟨idle, []⟩, some []⟩
        [.bytes (BusHeader.mk 2147483648 3 1 2 0 0 0).write] ∧
      ¬ TcpSafe noParsers idle
        [.bytes (BusHeader.mk 2147483648 3 1 2 0 0 0).write]) ∧
    ¬ UdpSafe noParsers (fun _ => 0) (List.replicate 25 0) := by
  refine ⟨not_tcpSafe_of_badLen (by decide), not_tcpSafe_of_badLen (by decide),
    not_tcpSafe_of_badLen (by decide), not_tcpSafe_of_badLen (by decide), ?_⟩
  rw [udpSafe_iff]
  decide

/-! ## Well-formed streams -/

/-- A packet whose length field is its length. -/
structure WellFormed (packet : List UInt8) : Prop where
  header_le : BusHeader.getHeaderLen ≤ packet.length
  le_max : packet.length ≤ xyPkgMaxLen
  pkgLen_eq : (BusHeader.read packet).pkgLen.toNat = packet.length

namespace WellFormed

variable {packet : List UInt8} {packets : List (List UInt8)}

theorem ne_nil (hpacket : WellFormed packet) : packet ≠ [] := by
  rintro rfl
  exact absurd hpacket.header_le (by decide)

theorem length_pos (hpacket : WellFormed packet) : 0 < packet.length :=
  List.length_pos_iff.mpr hpacket.ne_nil

theorem goodLen (hpacket : WellFormed packet) :
    GoodLen (BusHeader.read packet) := by
  unfold GoodLen
  rw [hpacket.pkgLen_eq]
  exact ⟨hpacket.header_le, hpacket.le_max⟩

theorem procLen_append (hpacket : WellFormed packet) (more : List UInt8) :
    procLen (packet ++ more) = packet.length := by
  have hheader := hpacket.header_le
  rw [procLen_of_le (by rw [List.length_append]; omega),
    BusHeader.read_append hheader, hpacket.goodLen.asInt_eq,
    hpacket.pkgLen_eq]

/-- A part of a packet waits for the rest of it. -/
theorem waits_of_part
    (hpacket : WellFormed packet) {front back : List UInt8}
    (hsplit : front ++ back = packet) (hback : back ≠ []) :
    Waits procLen front := by
  by_cases hshort : front.length < BusHeader.getHeaderLen
  · exact waits_of_short hshort
  · right
    have hpos : 0 < back.length := List.length_pos_iff.mpr hback
    have hlen := hpacket.pkgLen_eq
    have hgood := hpacket.goodLen
    subst hsplit
    rw [BusHeader.read_append (by omega)] at hlen hgood
    rw [procLen_of_le (by omega), hgood.asInt_eq, hlen, List.length_append]
    omega

/-- What has arrived of a stream of packets is cut into the packets that are
complete; the rest is part of the next one. -/
theorem split_arrived
    (hpackets : ∀ packet ∈ packets, WellFormed packet)
    {arrived unread : List UInt8}
    (hstream : arrived ++ unread = packets.flatten) :
    ∃ done todo remain, packets = done ++ todo ∧
      split procLen arrived = ⟨done, some remain⟩ ∧
      remain ++ unread = todo.flatten ∧
      (∀ packet ∈ todo.head?, remain.length < packet.length) := by
  induction packets generalizing arrived with
  | nil =>
      simp only [List.flatten_nil, List.append_eq_nil_iff] at hstream
      obtain ⟨rfl, rfl⟩ := hstream
      exact ⟨[], [], [], rfl, split_nil procLen, rfl, by simp⟩
  | cons packet packets ih =>
      have hpacket := hpackets packet List.mem_cons_self
      rw [List.flatten_cons, List.append_eq_append_iff] at hstream
      obtain ⟨back, rfl, hunread⟩ | ⟨later, rfl, hlater⟩ := hstream
      · by_cases hback : back = []
        · subst hback
          rw [List.append_nil] at hpacket ⊢
          have hnone : [] ++ unread = packets.flatten := by
            simpa using hunread
          obtain ⟨done, todo, remain, hdone, hcut, hremain, hhead⟩ :=
            ih (fun other hother =>
              hpackets other (List.mem_cons_of_mem _ hother)) hnone
          refine ⟨arrived :: done, todo, remain, by simp [hdone], ?_, hremain,
            hhead⟩
          have hfirst := split_packet_append (hpacket.procLen_append [])
            hpacket.ne_nil
          rw [List.append_nil, hcut] at hfirst
          exact hfirst
        · refine ⟨[], (arrived ++ back) :: packets, arrived, rfl,
            split_of_waits (hpacket.waits_of_part rfl hback), ?_, ?_⟩
          · simp [hunread]
          · intro first hfirst
            simp only [List.head?_cons, Option.mem_some_iff] at hfirst
            subst hfirst
            have hpos : 0 < back.length := List.length_pos_iff.mpr hback
            rw [List.length_append]
            omega
      · obtain ⟨done, todo, remain, hdone, hcut, hremain, hhead⟩ :=
          ih (fun other hother =>
            hpackets other (List.mem_cons_of_mem _ hother)) hlater.symm
        refine ⟨packet :: done, todo, remain, by simp [hdone], ?_, hremain,
          hhead⟩
        rw [split_packet_append (hpacket.procLen_append later) hpacket.ne_nil,
          hcut]

theorem framed_arrived
    (hpackets : ∀ packet ∈ packets, WellFormed packet)
    {arrived unread : List UInt8}
    (hstream : arrived ++ unread = packets.flatten) : Framed arrived := by
  induction packets generalizing arrived with
  | nil =>
      simp only [List.flatten_nil, List.append_eq_nil_iff] at hstream
      rw [hstream.1]
      exact .short (by decide)
  | cons packet packets ih =>
      have hpacket := hpackets packet List.mem_cons_self
      by_cases hshort : arrived.length < BusHeader.getHeaderLen
      · exact .short hshort
      · have hread : BusHeader.read arrived = BusHeader.read packet := by
          rw [← BusHeader.read_append (by omega) unread, hstream,
            List.flatten_cons, BusHeader.read_append hpacket.header_le]
        refine .packet (by omega) (by rw [hread]; exact hpacket.goodLen) ?_
        rw [hread, hpacket.pkgLen_eq]
        intro hle
        apply ih fun other hother =>
          hpackets other (List.mem_cons_of_mem _ hother)
        have hdrop := congrArg (List.drop packet.length) hstream
        rw [List.drop_append_of_le_length hle, List.flatten_cons,
          List.drop_left] at hdrop
        exact hdrop

end WellFormed

section Arrived

variable {parsers : Parsers} {bus : CBus} {buff : List UInt8}

theorem goodLen_of_takes
    (hnot : ¬ BadHeader buff) (htakes : Takes procLen buff) :
    BusHeader.getHeaderLen ≤ buff.length ∧ GoodLen (BusHeader.read buff) ∧
      (procLen buff).toNat = (BusHeader.read buff).pkgLen.toNat := by
  have hheader : BusHeader.getHeaderLen ≤ buff.length := by
    by_contra hshort
    exact (waits_of_short (by omega)).not_takes htakes
  have hgood : GoodLen (BusHeader.read buff) := by
    by_contra hbad
    exact hnot ⟨hheader, hbad⟩
  refine ⟨hheader, hgood, ?_⟩
  rw [procLen_of_le hheader, hgood.asInt_eq, Int.toNat_natCast]

theorem processPkg_bus_of_takes
    (hnot : ¬ BadHeader buff) (htakes : Takes procLen buff) :
    (processPkg parsers bus buff).bus =
      (processPkg parsers bus (buff.take (procLen buff).toNat)).bus := by
  obtain ⟨hheader, hgood, hlen⟩ := goodLen_of_takes hnot htakes
  have hle := htakes.toNat_le
  rw [hlen] at hle ⊢
  have hmin := hgood.1
  have hfront : (buff.take (BusHeader.read buff).pkgLen.toNat).length =
      (BusHeader.read buff).pkgLen.toNat := by
    rw [List.length_take]
    omega
  have hread : BusHeader.read
      (buff.take (BusHeader.read buff).pkgLen.toNat) =
        BusHeader.read buff := by
    conv_rhs =>
      rw [← List.take_append_drop (BusHeader.read buff).pkgLen.toNat buff]
    exact (BusHeader.read_append (by omega) _).symm
  rw [processPkg_of_complete hheader hgood hle,
    processPkg_of_complete (by omega) (by rw [hread]; exact hgood)
      (by rw [hread]; omega), hread, List.take_take, min_self]

theorem processPkg_memcpyLen_of_takes
    (hnot : ¬ BadHeader buff) (htakes : Takes procLen buff) :
    (processPkg parsers bus buff).memcpyLen = some (procLen buff) := by
  obtain ⟨hheader, hgood, hlen⟩ := goodLen_of_takes hnot htakes
  have hle := htakes.toNat_le
  rw [processPkg_of_complete hheader hgood (by omega), processCopy_memcpyLen,
    procLen_of_le hheader]

theorem processPkg_bus_of_not_takes
    (hnot : ¬ BadHeader buff) (htakes : ¬ Takes procLen buff) :
    processPkg parsers bus buff =
      ⟨none, none, none, bus, procLen buff⟩ := by
  apply processPkg_of_incomplete
  by_cases hshort : buff.length < BusHeader.getHeaderLen
  · rw [procLen, if_pos hshort]
    exact_mod_cast hshort
  · have hgood : GoodLen (BusHeader.read buff) := by
      by_contra hbad
      exact hnot ⟨by omega, hbad⟩
    have hmin := hgood.1
    unfold BusHeader.getHeaderLen at hmin
    unfold Takes at htakes
    rw [procLen_of_le (by omega), hgood.asInt_eq] at htakes ⊢
    omega

end Arrived

/-- The packets that the calls of a run have copied to `m_pProcessBuff`. -/
def copies (log : List (List UInt8 × PkgRun)) : List (List UInt8) :=
  log.filterMap fun entry =>
    entry.2.memcpyLen.map fun length => entry.1.take length.toNat

theorem copies_processAll
    (parsers : Parsers) (trace : Trace) (buffs : List (List UInt8))
    (hgood : ∀ buff ∈ buffs, ¬ BadHeader buff) :
    copies (processAll (traced parsers) trace buffs).log =
      buffs.foldl (fun packets buff =>
        if Takes procLen buff then
          packets ++ [buff.take (procLen buff).toNat]
        else packets) (copies trace.log) := by
  induction buffs generalizing trace with
  | nil => rfl
  | cons buff buffs ih =>
      have hlater := ih (traced parsers trace buff).1 fun other hother =>
        hgood other (List.mem_cons_of_mem buff hother)
      have hnot := hgood buff List.mem_cons_self
      have hcopy : copies (traced parsers trace buff).1.log =
          if Takes procLen buff then
            copies trace.log ++ [buff.take (procLen buff).toNat]
          else copies trace.log := by
        simp only [traced, copies, List.filterMap_append]
        split_ifs with htakes
        · have hlen : (processPkg parsers trace.bus buff).memcpyLen =
              some (procLen buff) :=
            processPkg_memcpyLen_of_takes hnot htakes
          simp [hlen]
        · rw [processPkg_bus_of_not_takes hnot htakes]
          simp
      simp only [processAll, List.foldl_cons] at hlater ⊢
      rw [hlater, hcopy]

/-- The run over the pieces of a stream works on the packets that have arrived,
one after the other. -/
theorem pollAll_of_split
    (parsers : Parsers) (bus : CBus) {results : List ReadResult}
    {done : List (List UInt8)} {remain : List UInt8}
    (hframed : Framed (results.map ReadResult.piece).flatten)
    (hcut : split procLen (results.map ReadResult.piece).flatten =
      ⟨done, some remain⟩)
    (hfit : ReadsFit (traced parsers) ⟨⟨bus, []⟩, some []⟩ results) :
    pollAll (traced parsers) ⟨⟨bus, []⟩, some []⟩ results =
      some ⟨⟨done.foldl (fun bus packet =>
        (processPkg parsers bus packet).bus) bus,
        (processAll (traced parsers) ⟨bus, []⟩
          (calls procLen (some []) results)).log⟩, some remain⟩ := by
  have hgood := (framed_iff_calls results).mp hframed
  rw [pollAll_eq_split procLen_stable (traced_ret parsers) hfit, hcut]
  have hbus := processAll_bus parsers ⟨bus, []⟩
    (calls procLen (some []) results)
  have hwork := calls_foldl procLen_stable
    (fun bus buff => (processPkg parsers bus buff).bus)
    (fun bus packet => (processPkg parsers bus packet).bus) results
    (fun bus buff hcall htakes =>
      processPkg_bus_of_takes (hgood buff hcall) htakes)
    (fun bus buff hcall htakes => by
      rw [processPkg_bus_of_not_takes (hgood buff hcall) htakes]) bus
  rw [hwork, hcut] at hbus
  rw [← hbus]

/-- Packets that have arrived completely have all been worked on. -/
theorem pollAll_whole
    (parsers : Parsers) (bus : CBus) {packets : List (List UInt8)}
    (hpackets : ∀ packet ∈ packets, WellFormed packet)
    {results : List ReadResult}
    (hstream : (results.map ReadResult.piece).flatten = packets.flatten)
    (hfit : ReadsFit (traced parsers) ⟨⟨bus, []⟩, some []⟩ results) :
    ∃ log, pollAll (traced parsers) ⟨⟨bus, []⟩, some []⟩ results =
      some ⟨⟨packets.foldl (fun bus packet =>
        (processPkg parsers bus packet).bus) bus, log⟩, some []⟩ := by
  rw [← List.append_nil (List.flatten (List.map _ _))] at hstream
  obtain ⟨done, todo, remain, hdone, hcut, hremain, hhead⟩ :=
    WellFormed.split_arrived hpackets hstream
  have hframed := WellFormed.framed_arrived hpackets hstream
  have htodo : todo = [] := by
    cases todo with
    | nil => rfl
    | cons packet todo =>
        have hshort := hhead packet rfl
        have hlength := congrArg List.length hremain
        simp only [List.append_nil, List.flatten_cons, List.length_append]
          at hlength
        omega
  subst htodo
  rw [List.append_nil, List.flatten_nil] at hremain
  rw [List.append_nil] at hdone
  subst hremain hdone
  exact ⟨_, pollAll_of_split parsers bus hframed hcut hfit⟩

/-- Whatever the pieces in which well-formed packets arrive: after every read
the packets that have arrived completely have been copied and worked on, once
each and in order, the stash is the part of the next packet that is there, and
the next read is offered some space. -/
theorem receive_frames
    (parsers : Parsers) (bus : CBus) (packets : List (List UInt8))
    (hpackets : ∀ packet ∈ packets, WellFormed packet)
    (results : List ReadResult) (unread : List UInt8)
    (hstream : (results.map ReadResult.piece).flatten ++ unread =
      packets.flatten)
    (hfit : ReadsFit (traced parsers) ⟨⟨bus, []⟩, some []⟩ results) :
    ∃ done todo remain log, packets = done ++ todo ∧
      pollAll (traced parsers) ⟨⟨bus, []⟩, some []⟩ results =
        some ⟨⟨done.foldl (fun bus packet =>
          (processPkg parsers bus packet).bus) bus, log⟩, some remain⟩ ∧
      copies log = done ∧
      remain ++ unread = todo.flatten ∧
      (∀ packet ∈ todo.head?, remain.length < packet.length) ∧
      0 < recvBuffLen remain := by
  obtain ⟨done, todo, remain, hdone, hcut, hremain, hhead⟩ :=
    WellFormed.split_arrived hpackets hstream
  have hframed := WellFormed.framed_arrived hpackets hstream
  have hgood := (framed_iff_calls results).mp hframed
  refine ⟨done, todo, remain, (processAll (traced parsers) ⟨bus, []⟩
    (calls procLen (some []) results)).log, hdone,
    pollAll_of_split parsers bus hframed hcut hfit, ?_, hremain, hhead, ?_⟩
  · rw [copies_processAll parsers _ _ hgood]
    have hwork := calls_foldl procLen_stable
      (fun packets buff =>
        if Takes procLen buff then
          packets ++ [buff.take (procLen buff).toNat]
        else packets)
      (fun packets packet => packets ++ [packet]) results
      (fun packets buff _ htakes => if_pos htakes)
      (fun packets buff _ htakes => if_neg htakes) []
    rw [hcut, List.foldl_append_eq_append, List.nil_append,
      ← List.flatMap_def, List.flatMap_singleton'] at hwork
    exact hwork
  · unfold recvBuffLen
    cases todo with
    | nil =>
        simp only [List.flatten_nil, List.append_eq_nil_iff] at hremain
        rw [hremain.1]
        decide
    | cons packet todo =>
        have hshort := hhead packet rfl
        have hmax := (hpackets packet (by rw [hdone]; simp)).le_max
        have hsame : xyPkgMaxLen = xyMaxbuffLen := rfl
        omega

/-- Two packets of 27 bytes, of which 40 bytes arrive in three reads. -/
theorem receive_frames_two_packets :
    ∃ done todo remain log,
      [(BusHeader.mk 27 3 1 2 0 0 0).write ++ [7],
        (BusHeader.mk 27 3 1 2 0 0 0).write ++ [8]] = done ++ todo ∧
      pollAll (traced noParsers) ⟨⟨idle, []⟩, some []⟩
          [.bytes ((BusHeader.mk 27 3 1 2 0 0 0).write.take 10), .again,
            .bytes ((BusHeader.mk 27 3 1 2 0 0 0).write.drop 10 ++ [7] ++
              (BusHeader.mk 27 3 1 2 0 0 0).write.take 13)] =
        some ⟨⟨done.foldl (fun bus packet =>
          (processPkg noParsers bus packet).bus) idle, log⟩, some remain⟩ ∧
      copies log = done ∧
      remain ++ ((BusHeader.mk 27 3 1 2 0 0 0).write.drop 13 ++ [8]) =
        todo.flatten ∧
      (∀ packet ∈ todo.head?, remain.length < packet.length) ∧
      0 < recvBuffLen remain := by
  apply receive_frames noParsers idle
  · intro packet hpacket
    simp only [List.mem_cons, List.not_mem_nil, or_false] at hpacket
    obtain rfl | rfl := hpacket
    · exact ⟨by decide, by decide, by decide⟩
    · exact ⟨by decide, by decide, by decide⟩
  · decide
  · decide

end MessageBus.Bus
