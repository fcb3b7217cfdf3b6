import MessageBus.StreamFraming

/-!
# Receiving on a connection

`CConnInfo::Recv`, `CConnInfo::AddRecvData` and the `EPOLLIN` branch of `Run`,
which `bus/bus.cpp` and `conn/conn.cpp` share word for word.  They differ in
`ProcessPkg` alone, which is a parameter here: it is called with everything
received from a packet boundary on and returns a length.

`m_RemainRecvData` is moved to the front of the receive buffer before each
read, and what `ProcessPkg` could not use is put back after it.
-/

namespace MessageBus.Receive

open Framing

def xyMaxbuffLen : ℕ := 2048000

def xyPkgMaxLen : ℕ := 2048000

/-- What a call of `read` comes back with. -/
inductive ReadResult where
  | bytes (chunk : List UInt8)
  | closed
  | again
  | failed
deriving DecidableEq

/-- The bytes a call of `read` has delivered. -/
def ReadResult.piece : ReadResult → List UInt8
  | .bytes chunk => chunk
  | _ => []

/-- The number of bytes `Recv` asks `read` for. -/
def recvBuffLen (remainRecvData : List UInt8) : ℕ :=
  xyMaxbuffLen - remainRecvData.length

/-- What `Recv` leaves: its return value, the `*pLen` bytes at `pBuff` and
`m_RemainRecvData`. -/
structure RecvResult where
  ret : ℤ
  pBuff : List UInt8
  remainRecvData : List UInt8

def recv (remainRecvData : List UInt8) (result : ReadResult) : RecvResult :=
  if remainRecvData ≠ [] ∧ xyMaxbuffLen < remainRecvData.length then
    ⟨-1, [], remainRecvData⟩
  else
    match result with
    -- the stash goes in front of what has been read behind it
    | .bytes chunk => ⟨0, remainRecvData ++ chunk, []⟩
    | .closed => ⟨1, [], remainRecvData⟩
    | .again => ⟨0, remainRecvData, []⟩
    | .failed => ⟨-1, [], remainRecvData⟩

/-- `AddRecvData`: the return value and `m_RemainRecvData`. -/
def addRecvData (remainRecvData pBuff : List UInt8) : ℤ × List UInt8 :=
  if remainRecvData ≠ [] then
    if xyMaxbuffLen < remainRecvData.length + pBuff.length then
      (-1, remainRecvData)
    else (0, remainRecvData ++ pBuff)
  else
    if xyMaxbuffLen < pBuff.length then (-1, remainRecvData)
    else (0, pBuff)

variable {σ : Type}

/-- The loop of `Run` over the bytes from `pCurBuffPos` on, for a number of
rounds: the state that `ProcessPkg` leaves and `m_RemainRecvData`, which is
gone once the connection has been released.  `none` when the loop has not
ended. -/
def packetLoop (processPkg : σ → List UInt8 → σ × ℤ)
    (remainRecvData : List UInt8) :
    ℕ → σ → List UInt8 → Option (σ × Option (List UInt8))
  | 0, state, pCurBuffPos =>
      if pCurBuffPos.length = 0 then some (state, some remainRecvData)
      else none
  | rounds + 1, state, pCurBuffPos =>
      if pCurBuffPos.length = 0 then some (state, some remainRecvData)
      else
        let (next, procLen) := processPkg state pCurBuffPos
        if (pCurBuffPos.length : ℤ) < procLen ∨ procLen = 0 then
          let (ret2, kept) := addRecvData remainRecvData pCurBuffPos
          if ret2 ≠ 0 then some (next, none) else some (next, some kept)
        else if procLen = -1 then some (next, none)
        else if procLen < -1 then some (next, none)
        else
          packetLoop processPkg remainRecvData rounds next
            (pCurBuffPos.drop procLen.toNat)

/-- A connection: the state its packets work on, and `m_RemainRecvData` while
it has not been released. -/
structure Endpoint (σ : Type) where
  state : σ
  remainRecvData : Option (List UInt8)

/-- The `EPOLLIN` branch of `Run`.  A released connection is not polled any
more. -/
def pollIn (processPkg : σ → List UInt8 → σ × ℤ)
    (endpoint : Endpoint σ) (result : ReadResult) : Option (Endpoint σ) :=
  match endpoint.remainRecvData with
  | none => some endpoint
  | some remainRecvData =>
      let received := recv remainRecvData result
      if received.ret = 1 then some ⟨endpoint.state, none⟩
      else if received.ret < 0 then some ⟨endpoint.state, none⟩
      else if xyMaxbuffLen < received.pBuff.length then
        some ⟨endpoint.state, none⟩
      else
        (packetLoop processPkg received.remainRecvData received.pBuff.length
          endpoint.state received.pBuff).map fun ended =>
            ⟨ended.1, ended.2⟩

/-- Poll once for each result of `read`. -/
def pollAll (processPkg : σ → List UInt8 → σ × ℤ) :
    Endpoint σ → List ReadResult → Option (Endpoint σ)
  | endpoint, [] => some endpoint
  | endpoint, result :: results =>
      (pollIn processPkg endpoint result).bind fun next =>
        pollAll processPkg next results

/-- The read of a live connection delivers between one byte and the space it
was offered, or finds nothing there. -/
def Offered (remainRecvData : Option (List UInt8)) : ReadResult → Prop
  | .bytes chunk =>
      ∀ data ∈ remainRecvData,
        0 < chunk.length ∧ chunk.length ≤ recvBuffLen data
  | .again => True
  | .closed => False
  | .failed => False

instance (remainRecvData : Option (List UInt8)) (result : ReadResult) :
    Decidable (Offered remainRecvData result) :=
  match result with
  | .bytes _ => Option.decidableForallMem _
  | .again => isTrue trivial
  | .closed => isFalse id
  | .failed => isFalse id

/-- Every read of the run is offered what it delivers. -/
def ReadsFit (processPkg : σ → List UInt8 → σ × ℤ) :
    Endpoint σ → List ReadResult → Prop
  | _, [] => True
  | endpoint, result :: results =>
      Offered endpoint.remainRecvData result ∧
        ∀ next ∈ pollIn processPkg endpoint result,
          ReadsFit processPkg next results

instance decidableReadsFit (processPkg : σ → List UInt8 → σ × ℤ) :
    ∀ endpoint results, Decidable (ReadsFit processPkg endpoint results)
  | _, [] => isTrue trivial
  | endpoint, result :: results =>
      have (next : Endpoint σ) :
          Decidable (ReadsFit processPkg next results) :=
        decidableReadsFit processPkg next results
      have : Decidable (∀ next ∈ pollIn processPkg endpoint result,
          ReadsFit processPkg next results) :=
        Option.decidableForallMem _
      inferInstanceAs (Decidable (_ ∧ _))

/-! ## The loop cuts the buffer into packets -/

section Loop

variable {processPkg : σ → List UInt8 → σ × ℤ} {len : List UInt8 → ℤ}

/-- The state after `ProcessPkg` has been called on some buffers in turn. -/
def processAll (processPkg : σ → List UInt8 → σ × ℤ)
    (state : σ) (buffers : List (List UInt8)) : σ :=
  buffers.foldl (fun state buffer => (processPkg state buffer).1) state

@[simp] theorem addRecvData_nil
    {pBuff : List UInt8} (hlen : pBuff.length ≤ xyMaxbuffLen) :
    addRecvData [] pBuff = (0, pBuff) := by
  have hnot : ¬ xyMaxbuffLen < pBuff.length := by omega
  simp [addRecvData, hnot]

/-- The loop ends after at most as many rounds as there are bytes.  It has
called `ProcessPkg` at each packet boundary and kept what is not complete. -/
theorem packetLoop_eq
    (hlen : ∀ state buffer, (processPkg state buffer).2 = len buffer)
    {rounds : ℕ} {state : σ} {buffer : List UInt8}
    (hrounds : buffer.length ≤ rounds)
    (hbuffer : buffer.length ≤ xyMaxbuffLen) :
    packetLoop processPkg [] rounds state buffer =
      some (processAll processPkg state (visits len buffer),
        (split len buffer).rest) := by
  induction rounds generalizing state buffer with
  | zero =>
      have hnil : buffer = [] := List.length_eq_zero_iff.mp (by omega)
      subst hnil
      simp [packetLoop, processAll]
  | succ rounds ih =>
      by_cases hnil : buffer = []
      · subst hnil
        simp [packetLoop, processAll]
      have hpos : buffer.length ≠ 0 := by
        simpa [List.length_eq_zero_iff] using hnil
      simp only [packetLoop, if_neg hpos, hlen]
      obtain htakes | hrefuses | hwaits :=
        takes_or_refuses_or_waits len buffer
      · -- a packet goes, and the rounds left are enough for the rest
        have hbounds := htakes
        unfold Takes at hbounds
        rw [if_neg (by omega), if_neg (by omega), if_neg (by omega),
          visits_of_takes htakes, split_of_takes htakes,
          ih (by simp only [List.length_drop]; omega)
            (by simp only [List.length_drop]; omega)]
        rfl
      · have hnot : ¬ Takes len buffer :=
          fun htakes => htakes.not_refuses hrefuses
        rw [visits_of_not_takes hnil hnot, split_of_refuses hnil hrefuses]
        unfold Refuses at hrefuses
        rw [if_neg (by omega)]
        by_cases hone : len buffer = -1
        · rw [if_pos hone]
          rfl
        · rw [if_neg hone, if_pos (by omega)]
          rfl
      · rw [visits_of_not_takes hnil hwaits.not_takes, split_of_waits hwaits]
        unfold Waits at hwaits
        rw [if_pos (by omega), addRecvData_nil hbuffer]
        rfl

/-- One poll of a live connection behaves as one more piece of the stream. -/
theorem pollIn_eq
    (hlen : ∀ state buffer, (processPkg state buffer).2 = len buffer)
    (state : σ) {remain : List UInt8} {result : ReadResult}
    (hremain : remain.length ≤ xyMaxbuffLen)
    (hoffered : Offered (some remain) result) :
    pollIn processPkg ⟨state, some remain⟩ result =
      some ⟨processAll processPkg state
          (visits len (remain ++ result.piece)),
        (split len (remain ++ result.piece)).rest⟩ := by
  have hshort : ¬ (remain ≠ [] ∧ xyMaxbuffLen < remain.length) := by
    rintro ⟨_, hlong⟩
    omega
  cases result with
  | bytes chunk =>
      have hfits := (hoffered remain rfl).2
      unfold recvBuffLen at hfits
      have hbuffer : (remain ++ chunk).length ≤ xyMaxbuffLen := by
        simp only [List.length_append]
        omega
      simp only [pollIn, recv, if_neg hshort, ReadResult.piece]
      rw [if_neg (by decide), if_neg (by decide), if_neg (by omega),
        packetLoop_eq hlen le_rfl hbuffer]
      rfl
  | again =>
      simp only [pollIn, recv, if_neg hshort, ReadResult.piece,
        List.append_nil]
      rw [if_neg (by decide), if_neg (by decide), if_neg (by omega),
        packetLoop_eq hlen le_rfl hremain]
      rfl
  | closed => exact hoffered.elim
  | failed => exact hoffered.elim

theorem split_rest_length
    {buffer rest : List UInt8} (hrest : (split len buffer).rest = some rest) :
    rest.length ≤ buffer.length := by
  have hflatten := split_flatten len buffer hrest
  have hlength := congrArg List.length hflatten
  simp only [List.length_append] at hlength
  omega

/-- The buffers that `ProcessPkg` is called with during a run of reads. -/
def calls (len : List UInt8 → ℤ) :
    Option (List UInt8) → List ReadResult → List (List UInt8)
  | none, _ => []
  | some _, [] => []
  | some remain, result :: results =>
      visits len (remain ++ result.piece) ++
        calls len (split len (remain ++ result.piece)).rest results

/-- The stash and what a read delivers fit in the receive buffer. -/
theorem Offered.length_le
    {remain : List UInt8} {result : ReadResult}
    (hoffered : Offered (some remain) result)
    (hremain : remain.length ≤ xyMaxbuffLen) :
    (remain ++ result.piece).length ≤ xyMaxbuffLen := by
  cases result with
  | bytes chunk =>
      have hfits := (hoffered remain rfl).2
      unfold recvBuffLen at hfits
      simp only [ReadResult.piece, List.length_append]
      omega
  | again =>
      simp only [ReadResult.piece, List.append_nil]
      exact hremain
  | closed => exact hoffered.elim
  | failed => exact hoffered.elim

/-- A run of reads ends.  It has called `ProcessPkg` at the packet boundaries
of each piece and keeps what is left of the stream. -/
theorem pollAll_eq
    (hlen : ∀ state buffer, (processPkg state buffer).2 = len buffer)
    {results : List ReadResult} {state : σ} {remain : Option (List UInt8)}
    (hremain : ∀ data ∈ remain, data.length ≤ xyMaxbuffLen)
    (hfit : ReadsFit processPkg ⟨state, remain⟩ results) :
    pollAll processPkg ⟨state, remain⟩ results =
      some ⟨processAll processPkg state (calls len remain results),
        ((results.map ReadResult.piece).foldl (feed len)
          ⟨[], remain⟩).rest⟩ := by
  induction results generalizing state remain with
  | nil =>
      cases remain with
      | none => rfl
      | some data => rfl
  | cons result results ih =>
      simp only [List.map_cons, List.foldl_cons, pollAll]
      cases remain with
      | none =>
          have hpoll : pollIn processPkg ⟨state, none⟩ result =
              some ⟨state, none⟩ := rfl
          have hfeed : feed len ⟨[], none⟩ result.piece = ⟨[], none⟩ := rfl
          rw [hpoll, hfeed]
          have hlater := ih (by simp) (hfit.2 _ hpoll)
          rw [Option.bind_some, hlater]
          cases results with
          | nil => rfl
          | cons _ _ => rfl
      | some data =>
          have hdata := hremain data rfl
          have hpoll := pollIn_eq hlen state hdata hfit.1
          rw [hpoll, Option.bind_some, feed_of_open _ rfl, List.nil_append,
            foldl_feed_eq]
          have hlater := ih ?_ (hfit.2 _ hpoll)
          · rw [hlater]
            simp only [calls, processAll, List.foldl_append]
          · intro kept hkept
            exact (split_rest_length hkept).trans (hfit.1.length_le hdata)

/-- A connection that has received a stream, in whatever pieces, keeps what is
left of the stream. -/
theorem pollAll_eq_split
    (hstable : Stable len)
    (hlen : ∀ state buffer, (processPkg state buffer).2 = len buffer)
    {results : List ReadResult} {state : σ}
    (hfit : ReadsFit processPkg ⟨state, some []⟩ results) :
    pollAll processPkg ⟨state, some []⟩ results =
      some ⟨processAll processPkg state (calls len (some []) results),
        (split len (results.map ReadResult.piece).flatten).rest⟩ := by
  rw [pollAll_eq hlen (by simp) hfit]
  have hcut := foldl_feed_split hstable [] (results.map ReadResult.piece)
  rw [split_nil, List.nil_append] at hcut
  rw [hcut]

/-- Work that looks at complete packets only is done once for each packet of
the stream, in whatever pieces the stream comes. -/
theorem calls_foldl
    (hstable : Stable len) (work handle : σ → List UInt8 → σ)
    (results : List ReadResult)
    (htake : ∀ state, ∀ buffer ∈ calls len (some []) results,
      Takes len buffer →
      work state buffer = handle state (buffer.take (len buffer).toNat))
    (hskip : ∀ state, ∀ buffer ∈ calls len (some []) results,
      ¬ Takes len buffer → work state buffer = state)
    (state : σ) :
    (calls len (some []) results).foldl work state =
      (split len (results.map ReadResult.piece).flatten).packets.foldl
        handle state := by
  have hpieces (remain : Option (List UInt8)) (results : List ReadResult)
      (htake : ∀ state, ∀ buffer ∈ calls len remain results,
        Takes len buffer →
        work state buffer = handle state (buffer.take (len buffer).toNat))
      (hskip : ∀ state, ∀ buffer ∈ calls len remain results,
        ¬ Takes len buffer → work state buffer = state) (state : σ) :
      (calls len remain results).foldl work state =
        ((results.map ReadResult.piece).foldl (feed len)
          ⟨[], remain⟩).packets.foldl handle state := by
    induction results generalizing remain state with
    | nil =>
        cases remain with
        | none => rfl
        | some data => rfl
    | cons result results ih =>
        cases remain with
        | none =>
            have hfeed : feed len ⟨[], none⟩ result.piece = ⟨[], none⟩ := rfl
            have hlater := ih none (by simp [calls]) (by simp [calls]) state
            simp only [List.map_cons, List.foldl_cons, hfeed, ← hlater]
            simp [calls]
        | some data =>
            simp only [calls, List.mem_append] at htake hskip ⊢
            rw [List.map_cons, List.foldl_cons, feed_of_open _ rfl,
              List.nil_append, foldl_feed_eq, List.foldl_append,
              List.foldl_append,
              visits_foldl _
                (fun state buffer hmem => htake state buffer (Or.inl hmem))
                (fun state buffer hmem => hskip state buffer (Or.inl hmem))]
            exact ih _
              (fun state buffer hmem => htake state buffer (Or.inr hmem))
              (fun state buffer hmem => hskip state buffer (Or.inr hmem)) _
  rw [hpieces (some []) results htake hskip state]
  have hcut := foldl_feed_split hstable [] (results.map ReadResult.piece)
  rw [split_nil, List.nil_append] at hcut
  rw [hcut]

/-- What is said of every buffer `ProcessPkg` is called with can be read off
the stream. -/
theorem forall_calls_iff
    (hstable : Stable len) (good : List UInt8 → Prop)
    (hfront : ∀ buffer more, good (buffer ++ more) → good buffer)
    (hdecided : ∀ buffer more, buffer ≠ [] →
      Takes len buffer ∨ Refuses len buffer →
      good buffer → good (buffer ++ more))
    (results : List ReadResult) :
    (∀ buffer ∈ calls len (some []) results, good buffer) ↔
      ∀ buffer ∈ visits len (results.map ReadResult.piece).flatten,
        good buffer := by
  have hpieces (before : List UInt8) (results : List ReadResult) :
      (∀ buffer ∈ visits len before, good buffer) ∧
          (∀ buffer ∈ calls len (split len before).rest results,
            good buffer) ↔
        ∀ buffer ∈
            visits len (before ++ (results.map ReadResult.piece).flatten),
          good buffer := by
    induction results generalizing before with
    | nil =>
        cases (split len before).rest with
        | none => simp [calls]
        | some rest => simp [calls]
    | cons result results ih =>
        rw [List.map_cons, List.flatten_cons, ← List.append_assoc, ← ih,
          forall_visits_append hstable hfront hdecided, and_assoc]
        have hcut := feed_split hstable before result.piece
        cases hrest : (split len before).rest with
        | none =>
            rw [feed_of_refused _ hrest] at hcut
            rw [← hcut, hrest]
            simp [calls]
        | some rest =>
            rw [feed_of_open _ hrest] at hcut
            rw [← hcut]
            simp only [calls, List.mem_append, Option.mem_some_iff,
              forall_eq', or_imp, forall_and]
  have hall := hpieces [] results
  simpa using hall

end Loop

end MessageBus.Receive
