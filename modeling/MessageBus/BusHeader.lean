import MessageBus.ShmQueueModel

/-!
# The header of a packet on the bus

`include/bus_header.h` and the part of `CBuffTool` it uses.  The four `int`
fields travel in network order; `PkgTime` is written without conversion, in
the little-endian order of the host, and the two `char` fields are single
bytes.
-/

namespace MessageBus.Bus

open ShmQueue

/-! ## Integers in a buffer -/

/-- `ReadInt` on the four bytes of an `unsigned int` in network order. -/
def readInt (bytes : List UInt8) : UInt32 :=
  UInt32.ofNat (bytes.foldl (fun value byte => value * 2 ^ 8 + byte.toNat) 0)

def writeInt (value : UInt32) : List UInt8 :=
  (wordBytes value.toNat).reverse

/-- `ReadLongLong` on the eight bytes of an `unsigned long long`. -/
def readLongLong (bytes : List UInt8) : UInt64 :=
  UInt64.ofNat (wordValue bytes)

def writeLongLong (value : UInt64) : List UInt8 :=
  wordBytes value.toNat ++ wordBytes (value.toNat / 2 ^ 32)

/-- An `unsigned int` assigned to an `int`. -/
def asInt (value : UInt32) : ℤ :=
  if value.toNat < 2 ^ 31 then value.toNat else value.toNat - 2 ^ 32

@[simp] theorem writeInt_length (value : UInt32) :
    (writeInt value).length = 4 := by
  simp [writeInt]

@[simp] theorem writeLongLong_length (value : UInt64) :
    (writeLongLong value).length = 8 := by
  simp [writeLongLong]

@[simp] theorem readInt_writeInt (value : UInt32) :
    readInt (writeInt value) = value := by
  apply UInt32.toNat_inj.mp
  have hvalue := value.toNat_lt
  simp only [readInt, writeInt, wordBytes, List.reverse_cons,
    List.reverse_nil, List.nil_append, List.cons_append, List.foldl_cons,
    List.foldl_nil, UInt8.toNat_ofNat', UInt32.toNat_ofNat']
  omega

theorem writeInt_readInt (b0 b1 b2 b3 : UInt8) :
    writeInt (readInt [b0, b1, b2, b3]) = [b0, b1, b2, b3] := by
  have h0 := b0.toNat_lt
  have h1 := b1.toNat_lt
  have h2 := b2.toNat_lt
  have h3 := b3.toNat_lt
  simp only [readInt, writeInt, wordBytes, List.foldl_cons, List.foldl_nil,
    UInt32.toNat_ofNat', List.reverse_cons, List.reverse_nil, List.nil_append,
    List.cons_append, List.cons.injEq, and_true]
  refine ⟨?_, ?_, ?_, ?_⟩ <;>
    apply UInt8.toNat_inj.mp <;>
    simp only [UInt8.toNat_ofNat'] <;>
    omega

@[simp] theorem readLongLong_writeLongLong (value : UInt64) :
    readLongLong (writeLongLong value) = value := by
  apply UInt64.toNat_inj.mp
  have hvalue := value.toNat_lt
  simp only [readLongLong, writeLongLong, wordBytes, wordValue,
    List.cons_append, List.nil_append, UInt8.toNat_ofNat',
    UInt64.toNat_ofNat']
  omega

theorem writeLongLong_readLongLong (b0 b1 b2 b3 b4 b5 b6 b7 : UInt8) :
    writeLongLong (readLongLong [b0, b1, b2, b3, b4, b5, b6, b7]) =
      [b0, b1, b2, b3, b4, b5, b6, b7] := by
  have h0 := b0.toNat_lt
  have h1 := b1.toNat_lt
  have h2 := b2.toNat_lt
  have h3 := b3.toNat_lt
  have h4 := b4.toNat_lt
  have h5 := b5.toNat_lt
  have h6 := b6.toNat_lt
  have h7 := b7.toNat_lt
  simp only [readLongLong, writeLongLong, wordBytes, wordValue,
    UInt64.toNat_ofNat', List.cons_append, List.nil_append, List.cons.injEq,
    and_true]
  refine ⟨?_, ?_, ?_, ?_, ?_, ?_, ?_, ?_⟩ <;>
    apply UInt8.toNat_inj.mp <;>
    simp only [UInt8.toNat_ofNat'] <;>
    omega

theorem asInt_of_lt {value : UInt32} (hvalue : value.toNat < 2 ^ 31) :
    asInt value = value.toNat :=
  if_pos hvalue

/-! ## The header -/

def toSrv : UInt8 := 0
def toGrpRnd : UInt8 := 1
def toGrpRndnome : UInt8 := 2
def toGrpAllnome : UInt8 := 3
def toGrpAll : UInt8 := 4

structure BusHeader where
  pkgLen : UInt32
  cmdID : UInt32
  srcID : UInt32
  dstID : UInt32
  pkgTime : UInt64
  sendType : UInt8
  flag : UInt8
deriving DecidableEq

namespace BusHeader

def getHeaderLen : ℕ := 26

/-- `Write`: the bytes it puts at the start of a buffer. -/
def write (header : BusHeader) : List UInt8 :=
  writeInt header.pkgLen ++ writeInt header.cmdID ++ writeInt header.srcID ++
    writeInt header.dstID ++ writeLongLong header.pkgTime ++
    [header.sendType, header.flag]

/-- `Read` on a buffer of at least `GetHeaderLen` bytes. -/
def read (buff : List UInt8) : BusHeader where
  pkgLen := readInt (buff.take 4)
  cmdID := readInt ((buff.drop 4).take 4)
  srcID := readInt ((buff.drop 8).take 4)
  dstID := readInt ((buff.drop 12).take 4)
  pkgTime := readLongLong ((buff.drop 16).take 8)
  sendType := buff.getD 24 0
  flag := buff.getD 25 0

@[simp] theorem write_length (header : BusHeader) :
    header.write.length = getHeaderLen := by
  simp [write, getHeaderLen]

/-- `Read` looks at the header only. -/
theorem read_append
    {front : List UInt8} (hfront : getHeaderLen ≤ front.length)
    (more : List UInt8) : read (front ++ more) = read front := by
  unfold getHeaderLen at hfront
  have htake (start count : ℕ) (hcount : start + count ≤ 26) :
      ((front ++ more).drop start).take count =
        (front.drop start).take count := by
    rw [List.drop_append_of_le_length (by omega),
      List.take_append_of_le_length (by simp only [List.length_drop]; omega)]
  have hfirst := htake 0 4 (by omega)
  simp only [List.drop_zero] at hfirst
  have hbyte (index : ℕ) (hindex : index < 26) :
      (front ++ more).getD index 0 = front.getD index 0 := by
    rw [List.getD_eq_getElem?_getD, List.getElem?_append_left (by omega),
      List.getD_eq_getElem?_getD]
  unfold read
  rw [hfirst, htake 4 4 (by omega), htake 8 4 (by omega),
    htake 12 4 (by omega), htake 16 8 (by omega), hbyte 24 (by omega),
    hbyte 25 (by omega)]

theorem read_write (header : BusHeader) : read header.write = header := by
  have hint (value : UInt32) : ∃ b0 b1 b2 b3,
      writeInt value = [b0, b1, b2, b3] :=
    ⟨_, _, _, _, rfl⟩
  have hlong (value : UInt64) : ∃ b0 b1 b2 b3 b4 b5 b6 b7,
      writeLongLong value = [b0, b1, b2, b3, b4, b5, b6, b7] :=
    ⟨_, _, _, _, _, _, _, _, rfl⟩
  cases header with
  | mk pkgLen cmdID srcID dstID pkgTime sendType flag =>
      have hpkgLen := readInt_writeInt pkgLen
      have hcmdID := readInt_writeInt cmdID
      have hsrcID := readInt_writeInt srcID
      have hdstID := readInt_writeInt dstID
      have hpkgTime := readLongLong_writeLongLong pkgTime
      obtain ⟨_, _, _, _, h1⟩ := hint pkgLen
      obtain ⟨_, _, _, _, h2⟩ := hint cmdID
      obtain ⟨_, _, _, _, h3⟩ := hint srcID
      obtain ⟨_, _, _, _, h4⟩ := hint dstID
      obtain ⟨_, _, _, _, _, _, _, _, h5⟩ := hlong pkgTime
      rw [h1] at hpkgLen
      rw [h2] at hcmdID
      rw [h3] at hsrcID
      rw [h4] at hdstID
      rw [h5] at hpkgTime
      simp [read, write, h1, h2, h3, h4, h5, hpkgLen, hcmdID, hsrcID, hdstID,
        hpkgTime]

theorem write_read
    {buff : List UInt8} (hbuff : buff.length = getHeaderLen) :
    (read buff).write = buff := by
  unfold getHeaderLen at hbuff
  match buff, hbuff with
  | [a0, a1, a2, a3, b0, b1, b2, b3, c0, c1, c2, c3, d0, d1, d2, d3,
      t0, t1, t2, t3, t4, t5, t6, t7, s, f], _ =>
      simp [read, write, writeInt_readInt, writeLongLong_readLongLong]

/-- `Write` at the start of a buffer. -/
def writeTo (header : BusHeader) (pBuff : List UInt8) : List UInt8 :=
  header.write ++ pBuff.drop getHeaderLen

theorem writeTo_length
    (header : BusHeader) {pBuff : List UInt8}
    (hbuff : getHeaderLen ≤ pBuff.length) :
    (header.writeTo pBuff).length = pBuff.length := by
  simp only [writeTo, List.length_append, write_length, List.length_drop]
  omega

@[simp] theorem read_writeTo (header : BusHeader) (pBuff : List UInt8) :
    read (header.writeTo pBuff) = header := by
  unfold writeTo
  rw [read_append (by simp), read_write]

@[simp] theorem drop_writeTo (header : BusHeader) (pBuff : List UInt8) :
    (header.writeTo pBuff).drop getHeaderLen = pBuff.drop getHeaderLen := by
  unfold writeTo
  rw [List.drop_left' (write_length header)]

end BusHeader

end MessageBus.Bus
