import MessageBus.BusHeader
import MessageBus.ByteCodec

/-!
# The headers on the wire

`BusHeader`, `XYHeader` and `XYHeaderIn` with the functions of `CBuffTool` they
are written and read with, on a buffer of bytes, and the `struct` format with
which `client/client.py` packs the header of a request.  The host is
little-endian and its `char` is signed.
-/

namespace MessageBus.Wire

open ByteCodec ByteRing ShmQueue

/-! ## `CBuffTool` -/

abbrev Buffer := ℕ → UInt8

/-- A function that writes at a place of a buffer and returns how much it has
written. -/
abbrev Writer := Buffer → ℕ → ℕ × Buffer

/-- `memcpy` to a place of a buffer, and the size of what was copied. -/
def copyTo (bytes : List UInt8) : Writer := fun buff pos =>
  (bytes.length, store buff (memcpy pos bytes))

def htons (value : UInt16) : UInt16 :=
  UInt16.ofNat (leValue (leBytes 2 value.toNat).reverse)

def htonl (value : UInt32) : UInt32 :=
  UInt32.ofNat (leValue (leBytes 4 value.toNat).reverse)

def htonll (value : UInt64) : UInt64 :=
  UInt64.ofNat (leValue (leBytes 8 value.toNat).reverse)

def writeByte (value : UInt8) : Writer :=
  copyTo (leBytes 1 value.toNat)

/-- `WriteByte` for a `char`. -/
def writeChar (value : Int8) : Writer :=
  copyTo (leBytes 1 value.toUInt8.toNat)

/-- `WriteShort`; `iToNetOrder` is 1 unless the caller says otherwise. -/
def writeShort (value : UInt16) (iToNetOrder : ℤ) : Writer :=
  copyTo (leBytes 2 (if iToNetOrder = 1 then htons value else value).toNat)

/-- `WriteInt`; `iToNetOrder` is 1 unless the caller says otherwise. -/
def writeInt (value : UInt32) (iToNetOrder : ℤ) : Writer :=
  copyTo (leBytes 4 (if iToNetOrder = 1 then htonl value else value).toNat)

/-- `WriteLongLong`; `iToNetOrder` is 0 unless the caller says otherwise. -/
def writeLongLong (value : UInt64) (iToNetOrder : ℤ) : Writer :=
  copyTo (leBytes 8 (if iToNetOrder = 1 then htonll value else value).toNat)

/-- `width` bytes of a buffer from a place on. -/
def bytesAt (buff : Buffer) (pos width : ℕ) : List UInt8 :=
  (List.range' pos width).map buff

/-- What is read at `Buff + Offset`, with `Offset` moved on by its size. -/
def readAt {α : Type} (buff : Buffer) (pos width : ℕ)
    (value : List UInt8 → α) : StateM ℕ α := do
  let offset ← get
  set (offset + width)
  pure (value (bytesAt buff (pos + offset) width))

section Read

variable (buff : Buffer) (pos : ℕ)

def readByte : StateM ℕ UInt8 :=
  readAt buff pos 1 fun bytes => UInt8.ofNat (leValue bytes)

/-- `ReadByte` for a `char`. -/
def readChar : StateM ℕ Int8 :=
  readAt buff pos 1 fun bytes => (UInt8.ofNat (leValue bytes)).toInt8

def readShort (iToHostOrder : ℤ) : StateM ℕ UInt16 :=
  readAt buff pos 2 fun bytes =>
    let value := UInt16.ofNat (leValue bytes)
    if iToHostOrder = 1 then htons value else value

def readInt (iToHostOrder : ℤ) : StateM ℕ UInt32 :=
  readAt buff pos 4 fun bytes =>
    let value := UInt32.ofNat (leValue bytes)
    if iToHostOrder = 1 then htonl value else value

def readLongLong (iToHostOrder : ℤ) : StateM ℕ UInt64 :=
  readAt buff pos 8 fun bytes =>
    let value := UInt64.ofNat (leValue bytes)
    if iToHostOrder = 1 then htonll value else value

end Read

/-- `Offset += ...(Buff + Offset, ...)` for one function after the other. -/
def inOrder : List Writer → Writer
  | [], buff, _ => (0, buff)
  | writer :: writers, buff, pos =>
      let (written, buff) := writer buff pos
      let (rest, buff) := inOrder writers buff (pos + written)
      (written + rest, buff)

/-! ## The headers -/

open Bus (BusHeader)

/-- `BusHeader::Write`. -/
def writeBusHeader (header : BusHeader) : Writer :=
  inOrder
    [writeInt header.pkgLen 1, writeInt header.cmdID 1,
      writeInt header.srcID 1, writeInt header.dstID 1,
      writeLongLong header.pkgTime 0, writeByte header.sendType,
      writeByte header.flag]

/-- `BusHeader::Read`. -/
def readBusHeader (buff : Buffer) (pos : ℕ) : BusHeader × ℕ :=
  StateT.run (m := Id) (do
    let pkgLen ← readInt buff pos 1
    let cmdID ← readInt buff pos 1
    let srcID ← readInt buff pos 1
    let dstID ← readInt buff pos 1
    let pkgTime ← readLongLong buff pos 0
    let sendType ← readByte buff pos
    let flag ← readByte buff pos
    pure ⟨pkgLen, cmdID, srcID, dstID, pkgTime, sendType, flag⟩) 0

structure XYHeader where
  pkgLen : UInt32
  cmdID : UInt32
  sn : UInt32
  ckSum : UInt16
  ret : UInt16
  compresse : Int8
deriving DecidableEq

namespace XYHeader

def getHeadLen : ℕ := 17

def write (header : XYHeader) : Writer :=
  inOrder
    [writeInt header.pkgLen 1, writeInt header.cmdID 1, writeInt header.sn 1,
      writeShort header.ckSum 1, writeShort header.ret 1,
      writeChar header.compresse]

def read (buff : Buffer) (pos : ℕ) : XYHeader × ℕ :=
  StateT.run (m := Id) (do
    let pkgLen ← readInt buff pos 1
    let cmdID ← readInt buff pos 1
    let sn ← readInt buff pos 1
    let ckSum ← readShort buff pos 1
    let ret ← readShort buff pos 1
    let compresse ← readChar buff pos
    pure ⟨pkgLen, cmdID, sn, ckSum, ret, compresse⟩) 0

end XYHeader

structure XYHeaderIn where
  srcID : UInt32
  cmdID : UInt32
  sn : UInt32
  connPos : UInt32
  userID : UInt64
  pkgTime : UInt64
  ret : UInt16
deriving DecidableEq

namespace XYHeaderIn

def getHeaderLen : ℕ := 34

def write (header : XYHeaderIn) : Writer :=
  inOrder
    [writeInt header.srcID 1, writeInt header.cmdID 1, writeInt header.sn 1,
      writeInt header.connPos 1, writeLongLong header.userID 0,
      writeLongLong header.pkgTime 0, writeShort header.ret 1]

def read (buff : Buffer) (pos : ℕ) : XYHeaderIn × ℕ :=
  StateT.run (m := Id) (do
    let srcID ← readInt buff pos 1
    let cmdID ← readInt buff pos 1
    let sn ← readInt buff pos 1
    let connPos ← readInt buff pos 1
    let userID ← readLongLong buff pos 0
    let pkgTime ← readLongLong buff pos 0
    let ret ← readShort buff pos 1
    pure ⟨srcID, cmdID, sn, connPos, userID, pkgTime, ret⟩) 0

end XYHeaderIn

/-! ## Packing in the client -/

/-- The characters of a big-endian `struct` format. -/
inductive Format where
  | I
  | H
  | b

/-- `struct.pack` of one value; a value out of range is an error. -/
def Format.pack : Format → ℤ → Option (List UInt8)
  | .I, value =>
      if 0 ≤ value ∧ value < 2 ^ 32 then some (leBytes 4 value.toNat).reverse
      else none
  | .H, value =>
      if 0 ≤ value ∧ value < 2 ^ 16 then some (leBytes 2 value.toNat).reverse
      else none
  | .b, value =>
      if -2 ^ 7 ≤ value ∧ value < 2 ^ 7 then
        some (leBytes 1 (value % 2 ^ 8).toNat)
      else none

/-- `struct.pack`. -/
def structPack : List Format → List ℤ → Option (List UInt8)
  | [], [] => some []
  | format :: formats, value :: values => do
      let bytes ← format.pack value
      let rest ← structPack formats values
      some (bytes ++ rest)
  | _, _ => none

/-- `PACKAGE_HEADER`, that is `">IIIHHb"`. -/
def packageHeader : List Format := [.I, .I, .I, .H, .H, .b]

/-! ## Integers as codecs -/

def uint8 : Codec UInt8 :=
  .little 1 UInt8.toNat UInt8.ofNat (fun value => value.toNat_lt)
    (fun _ => UInt8.ofNat_toNat) fun _ hvalue =>
      UInt8.toNat_ofNat_of_lt' hvalue

def int8 : Codec Int8 :=
  uint8.iso ⟨UInt8.toInt8, Int8.toUInt8, UInt8.toUInt8_toInt8,
    Int8.toInt8_toUInt8⟩

def uint16 : Codec UInt16 :=
  .little 2 UInt16.toNat UInt16.ofNat (fun value => value.toNat_lt)
    (fun _ => UInt16.ofNat_toNat) fun _ hvalue =>
      UInt16.toNat_ofNat_of_lt' hvalue

def uint32 : Codec UInt32 :=
  .little 4 UInt32.toNat UInt32.ofNat (fun value => value.toNat_lt)
    (fun _ => UInt32.ofNat_toNat) fun _ hvalue =>
      UInt32.toNat_ofNat_of_lt' hvalue

def uint64 : Codec UInt64 :=
  .little 8 UInt64.toNat UInt64.ofNat (fun value => value.toNat_lt)
    (fun _ => UInt64.ofNat_toNat) fun _ hvalue =>
      UInt64.toNat_ofNat_of_lt' hvalue

theorem writeShort_eq (value : UInt16) :
    writeShort value 1 = copyTo (uint16.reversed.encode value) := by
  have hswap := uint16.encode_swap value
  exact congrArg copyTo hswap

theorem writeInt_eq (value : UInt32) :
    writeInt value 1 = copyTo (uint32.reversed.encode value) := by
  have hswap := uint32.encode_swap value
  exact congrArg copyTo hswap

/-- A function that reads the values of a codec. -/
def Reads {α : Type} (codec : Codec α) (reader : Buffer → ℕ → StateM ℕ α) :
    Prop :=
  ∀ buff pos offset, StateT.run (reader buff pos) offset =
    (codec.decode (bytesAt buff (pos + offset) codec.width),
      offset + codec.width)

@[simp] theorem bytesAt_length (buff : Buffer) (pos width : ℕ) :
    (bytesAt buff pos width).length = width := by
  simp [bytesAt]

theorem reads_readByte : Reads uint8 readByte :=
  fun _ _ _ => rfl

theorem reads_readChar : Reads int8 readChar :=
  fun _ _ _ => rfl

theorem reads_readShort :
    Reads uint16.reversed fun buff pos => readShort buff pos 1 := by
  intro buff pos offset
  have hswap := uint16.decode_swap (bytesAt_length buff (pos + offset) 2)
  exact congrArg (fun value => (value, offset + 2)) hswap

theorem reads_readInt :
    Reads uint32.reversed fun buff pos => readInt buff pos 1 := by
  intro buff pos offset
  have hswap := uint32.decode_swap (bytesAt_length buff (pos + offset) 4)
  exact congrArg (fun value => (value, offset + 4)) hswap

theorem reads_readLongLong :
    Reads uint64 fun buff pos => readLongLong buff pos 0 :=
  fun _ _ _ => rfl

/-- Reading one codec behind the other. -/
theorem decode_seq_bytesAt {α β : Type} (first : Codec α) (second : Codec β)
    (buff : Buffer) (pos : ℕ) :
    (first.seq second).decode (bytesAt buff pos (first.seq second).width) =
      (first.decode (bytesAt buff pos first.width),
        second.decode (bytesAt buff (pos + first.width) second.width)) := by
  have hsplit : bytesAt buff pos (first.width + second.width) =
      bytesAt buff pos first.width ++
        bytesAt buff (pos + first.width) second.width := by
    rw [bytesAt, ← List.range'_append_1, List.map_append]
    rfl
  change (first.decode ((bytesAt buff pos (first.width + second.width)).take
    first.width), second.decode ((bytesAt buff pos
      (first.width + second.width)).drop first.width)) = _
  rw [hsplit, List.take_left' (bytesAt_length _ _ _),
    List.drop_left' (bytesAt_length _ _ _)]

theorem memcpy_append (pos : ℕ) (bytes more : List UInt8) :
    memcpy pos (bytes ++ more) =
      memcpy pos bytes ++ memcpy (pos + bytes.length) more := by
  unfold memcpy
  rw [List.length_append, ← List.range'_append_1, List.zip_append (by simp)]

theorem inOrder_map_copyTo (chunks : List (List UInt8)) :
    inOrder (chunks.map copyTo) = copyTo chunks.flatten := by
  induction chunks with
  | nil => rfl
  | cons chunk chunks ih =>
      funext buff pos
      have hstore : store buff (memcpy pos (chunk ++ chunks.flatten)) =
          store (store buff (memcpy pos chunk))
            (memcpy (pos + chunk.length) chunks.flatten) := by
        rw [memcpy_append]
        exact List.foldl_append
      rw [List.map_cons, inOrder, ih, List.flatten_cons]
      simp only [copyTo, hstore, List.length_append]

/-! ## The headers as codecs -/

def xyHeader : Codec XYHeader :=
  (uint32.reversed.seq (uint32.reversed.seq (uint32.reversed.seq
    (uint16.reversed.seq (uint16.reversed.seq int8))))).iso
      { toFun := fun (pkgLen, cmdID, sn, ckSum, ret, compresse) =>
          ⟨pkgLen, cmdID, sn, ckSum, ret, compresse⟩
        invFun := fun header => (header.pkgLen, header.cmdID, header.sn,
          header.ckSum, header.ret, header.compresse)
        left_inv := fun _ => rfl
        right_inv := fun _ => rfl }

def xyHeaderIn : Codec XYHeaderIn :=
  (uint32.reversed.seq (uint32.reversed.seq (uint32.reversed.seq
    (uint32.reversed.seq (uint64.seq (uint64.seq uint16.reversed)))))).iso
      { toFun := fun (srcID, cmdID, sn, connPos, userID, pkgTime, ret) =>
          ⟨srcID, cmdID, sn, connPos, userID, pkgTime, ret⟩
        invFun := fun header => (header.srcID, header.cmdID, header.sn,
          header.connPos, header.userID, header.pkgTime, header.ret)
        left_inv := fun _ => rfl
        right_inv := fun _ => rfl }

def busHeader : Codec BusHeader :=
  (uint32.reversed.seq (uint32.reversed.seq (uint32.reversed.seq
    (uint32.reversed.seq (uint64.seq (uint8.seq uint8)))))).iso
      { toFun := fun (pkgLen, cmdID, srcID, dstID, pkgTime, sendType, flag) =>
          ⟨pkgLen, cmdID, srcID, dstID, pkgTime, sendType, flag⟩
        invFun := fun header => (header.pkgLen, header.cmdID, header.srcID,
          header.dstID, header.pkgTime, header.sendType, header.flag)
        left_inv := fun _ => rfl
        right_inv := fun _ => rfl }

theorem read_xyHeader (buff : Buffer) (pos : ℕ) :
    XYHeader.read buff pos =
      (xyHeader.decode (bytesAt buff pos xyHeader.width), 17) := by
  have hint := reads_readInt buff pos
  have hshort := reads_readShort buff pos
  have hchar := reads_readChar buff pos
  rw [XYHeader.read]
  simp only [StateT.run_bind, hint, hshort, hchar]
  simp only [xyHeader, Codec.iso, decode_seq_bytesAt]
  rfl

theorem read_xyHeaderIn (buff : Buffer) (pos : ℕ) :
    XYHeaderIn.read buff pos =
      (xyHeaderIn.decode (bytesAt buff pos xyHeaderIn.width), 34) := by
  have hint := reads_readInt buff pos
  have hshort := reads_readShort buff pos
  have hlong := reads_readLongLong buff pos
  rw [XYHeaderIn.read]
  simp only [StateT.run_bind, hint, hshort, hlong]
  simp only [xyHeaderIn, Codec.iso, decode_seq_bytesAt]
  rfl

theorem read_busHeader (buff : Buffer) (pos : ℕ) :
    readBusHeader buff pos =
      (busHeader.decode (bytesAt buff pos busHeader.width), 26) := by
  have hint := reads_readInt buff pos
  have hbyte := reads_readByte buff pos
  have hlong := reads_readLongLong buff pos
  rw [readBusHeader]
  simp only [StateT.run_bind, hint, hbyte, hlong]
  simp only [busHeader, Codec.iso, decode_seq_bytesAt]
  rfl

theorem write_xyHeader (header : XYHeader) :
    header.write = copyTo (xyHeader.encode header) := by
  have horder := inOrder_map_copyTo
    [uint32.reversed.encode header.pkgLen, uint32.reversed.encode header.cmdID,
      uint32.reversed.encode header.sn, uint16.reversed.encode header.ckSum,
      uint16.reversed.encode header.ret, int8.encode header.compresse]
  rw [XYHeader.write, writeInt_eq, writeInt_eq, writeInt_eq, writeShort_eq,
    writeShort_eq]
  refine horder.trans (congrArg copyTo ?_)
  simp only [List.flatten_cons, List.flatten_nil, List.append_nil]
  rfl

theorem write_xyHeaderIn (header : XYHeaderIn) :
    header.write = copyTo (xyHeaderIn.encode header) := by
  have horder := inOrder_map_copyTo
    [uint32.reversed.encode header.srcID, uint32.reversed.encode header.cmdID,
      uint32.reversed.encode header.sn, uint32.reversed.encode header.connPos,
      uint64.encode header.userID, uint64.encode header.pkgTime,
      uint16.reversed.encode header.ret]
  rw [XYHeaderIn.write, writeInt_eq, writeInt_eq, writeInt_eq, writeInt_eq,
    writeShort_eq]
  refine horder.trans (congrArg copyTo ?_)
  simp only [List.flatten_cons, List.flatten_nil, List.append_nil]
  rfl

theorem write_busHeader (header : BusHeader) :
    writeBusHeader header = copyTo (busHeader.encode header) := by
  have horder := inOrder_map_copyTo
    [uint32.reversed.encode header.pkgLen, uint32.reversed.encode header.cmdID,
      uint32.reversed.encode header.srcID, uint32.reversed.encode header.dstID,
      uint64.encode header.pkgTime, uint8.encode header.sendType,
      uint8.encode header.flag]
  rw [writeBusHeader, writeInt_eq, writeInt_eq, writeInt_eq, writeInt_eq]
  refine horder.trans (congrArg copyTo ?_)
  simp only [List.flatten_cons, List.flatten_nil, List.append_nil]
  rfl

/-! ## The header of the packets on the bus -/

theorem wordBytes_eq (value : ℕ) : wordBytes value = leBytes 4 value := by
  simp only [wordBytes, leBytes, Nat.div_div_eq_div_mul, ← pow_add,
    Nat.reduceAdd]

theorem encode_busHeader (header : BusHeader) :
    busHeader.encode header = header.write := by
  have hlong : Bus.writeLongLong header.pkgTime =
      uint64.encode header.pkgTime := by
    simp only [Bus.writeLongLong, wordBytes_eq, uint64, Codec.little, leBytes,
      Nat.div_div_eq_div_mul, ← pow_add, Nat.reduceAdd, List.cons_append,
      List.nil_append]
  have hint (value : UInt32) :
      Bus.writeInt value = uint32.reversed.encode value := by
    rw [Bus.writeInt, wordBytes_eq]
    rfl
  have hbyte (value : UInt8) : uint8.encode value = [value] := by
    change [UInt8.ofNat value.toNat] = [value]
    rw [UInt8.ofNat_toNat]
  have hencode : busHeader.encode header =
      uint32.reversed.encode header.pkgLen ++
        (uint32.reversed.encode header.cmdID ++
        (uint32.reversed.encode header.srcID ++
        (uint32.reversed.encode header.dstID ++
        (uint64.encode header.pkgTime ++
        (uint8.encode header.sendType ++ uint8.encode header.flag))))) := rfl
  rw [BusHeader.write, hencode]
  simp only [hint, hlong, hbyte, List.append_assoc, List.cons_append,
    List.nil_append]

theorem decode_busHeader {bytes : List UInt8}
    (hlen : bytes.length = BusHeader.getHeaderLen) :
    busHeader.decode bytes = BusHeader.read bytes := by
  have hbytes : busHeader.encode (BusHeader.read bytes) = bytes := by
    rw [encode_busHeader, BusHeader.write_read hlen]
  rw [← hbytes, busHeader.decode_encode, hbytes]

/-- `Write` puts the bytes into the buffer with which a packet on the bus
begins. -/
theorem writeBusHeader_eq (header : BusHeader) :
    writeBusHeader header = copyTo header.write := by
  rw [write_busHeader, encode_busHeader]

/-- `Read` takes the header from these bytes. -/
theorem readBusHeader_eq (buff : Buffer) (pos : ℕ) :
    readBusHeader buff pos =
      (BusHeader.read (bytesAt buff pos BusHeader.getHeaderLen),
        BusHeader.getHeaderLen) := by
  rw [read_busHeader]
  exact congrArg (·, 26) (decode_busHeader (bytesAt_length _ _ _))

/-! ## The laws of a header -/

section Law

variable {Header : Type}

/-- `Write` and `Read` of a header of `len` bytes undo each other, return the
length, and `Write` leaves the bytes around the header alone. -/
structure Lawful (write : Header → Writer) (read : Buffer → ℕ → Header × ℕ)
    (len : ℕ) : Prop where
  write_len : ∀ header buff pos, (write header buff pos).1 = len
  read_len : ∀ buff pos, (read buff pos).2 = len
  read_write : ∀ header buff pos,
    (read (write header buff pos).2 pos).1 = header
  write_read : ∀ buff pos other place,
    bytesAt (write (read buff pos).1 other place).2 place len =
      bytesAt buff pos len
  write_outside : ∀ header buff pos address,
    address < pos ∨ pos + len ≤ address →
      (write header buff pos).2 address = buff address

theorem bytesAt_copyTo (bytes : List UInt8) (buff : Buffer) (pos : ℕ) :
    bytesAt (copyTo bytes buff pos).2 pos bytes.length = bytes := by
  apply map_store_zip buff List.nodup_range'
  rw [List.length_range']

theorem copyTo_outside {bytes : List UInt8} (buff : Buffer) {pos address : ℕ}
    (houtside : address < pos ∨ pos + bytes.length ≤ address) :
    (copyTo bytes buff pos).2 address = buff address := by
  apply store_of_notMem
  rw [memcpy, List.map_fst_zip (by simp), List.mem_range'_1]
  omega

theorem lawful_of_bytes {write : Header → Writer}
    {read : Buffer → ℕ → Header × ℕ} {encode : Header → List UInt8}
    {decode : List UInt8 → Header} {len : ℕ}
    (hlen : ∀ header, (encode header).length = len)
    (hdecode : ∀ header, decode (encode header) = header)
    (hencode : ∀ bytes, bytes.length = len → encode (decode bytes) = bytes)
    (hwrite : ∀ header, write header = copyTo (encode header))
    (hread : ∀ buff pos, read buff pos =
      (decode (bytesAt buff pos len), len)) :
    Lawful write read len where
  write_len header buff pos := by
    rw [hwrite, copyTo, hlen]
  read_len buff pos := by
    rw [hread]
  read_write header buff pos := by
    have hbytes := bytesAt_copyTo (encode header) buff pos
    rw [hlen] at hbytes
    rw [hwrite, hread, hbytes, hdecode]
  write_read buff pos other place := by
    have hbytes := bytesAt_copyTo
      (encode (decode (bytesAt buff pos len))) other place
    rw [hlen] at hbytes
    rw [hread, hwrite, hbytes, hencode _ (bytesAt_length _ _ _)]
  write_outside header buff pos address houtside := by
    rw [hwrite]
    apply copyTo_outside
    rw [hlen]
    exact houtside

theorem lawful_of_codec {write : Header → Writer}
    {read : Buffer → ℕ → Header × ℕ} (codec : Codec Header)
    (hwrite : ∀ header, write header = copyTo (codec.encode header))
    (hread : ∀ buff pos, read buff pos =
      (codec.decode (bytesAt buff pos codec.width), codec.width)) :
    Lawful write read codec.width :=
  lawful_of_bytes codec.encode_length codec.decode_encode codec.encode_decode
    hwrite hread

end Law

theorem lawful_busHeader :
    Lawful writeBusHeader readBusHeader BusHeader.getHeaderLen :=
  lawful_of_bytes BusHeader.write_length BusHeader.read_write
    (fun _ => BusHeader.write_read) writeBusHeader_eq readBusHeader_eq

theorem lawful_xyHeader :
    Lawful XYHeader.write XYHeader.read XYHeader.getHeadLen :=
  lawful_of_codec xyHeader write_xyHeader read_xyHeader

theorem lawful_xyHeaderIn :
    Lawful XYHeaderIn.write XYHeaderIn.read XYHeaderIn.getHeaderLen :=
  lawful_of_codec xyHeaderIn write_xyHeaderIn read_xyHeaderIn

/-! ## The client's header -/

def XYHeader.values (header : XYHeader) : List ℤ :=
  [header.pkgLen.toNat, header.cmdID.toNat, header.sn.toNat,
    header.ckSum.toNat, header.ret.toNat, header.compresse.toInt]

theorem pack_I (value : UInt32) :
    Format.pack .I value.toNat = some (uint32.reversed.encode value) := by
  have hlt := value.toNat_lt
  rw [Format.pack, if_pos (by omega)]
  rfl

theorem pack_H (value : UInt16) :
    Format.pack .H value.toNat = some (uint16.reversed.encode value) := by
  have hlt := value.toNat_lt
  rw [Format.pack, if_pos (by omega)]
  rfl

theorem pack_b (value : Int8) :
    Format.pack .b value.toInt = some (int8.encode value) := by
  have hlow := value.le_toInt
  have hhigh := value.toInt_lt
  have hbits : (value.toInt % 2 ^ 8).toNat = value.toUInt8.toNat := by
    change (value.toBitVec.toInt % 2 ^ 8).toNat = value.toBitVec.toNat
    have hlt := value.toBitVec.isLt
    rw [BitVec.toInt_eq_toNat_cond]
    split_ifs <;> omega
  rw [Format.pack, if_pos ⟨hlow, hhigh⟩, hbits]
  rfl

theorem structPack_header (header : XYHeader) :
    structPack packageHeader header.values = some (xyHeader.encode header) := by
  simp only [packageHeader, XYHeader.values, structPack, pack_I, pack_H, pack_b,
    Option.bind_eq_bind, Option.bind_some, List.append_nil]
  rfl

theorem wire_headers_lawful :
    (Lawful writeBusHeader readBusHeader 26 ∧
      Lawful XYHeader.write XYHeader.read 17 ∧
      Lawful XYHeaderIn.write XYHeaderIn.read 34) ∧
    (BusHeader.getHeaderLen = 26 ∧ XYHeader.getHeadLen = 17 ∧
      XYHeaderIn.getHeaderLen = 34) ∧
    ∀ (header : XYHeader) (buff : Buffer) (pos : ℕ),
      structPack packageHeader header.values =
        some (bytesAt (header.write buff pos).2 pos 17) := by
  refine ⟨⟨lawful_busHeader, lawful_xyHeader, lawful_xyHeaderIn⟩,
    ⟨rfl, rfl, rfl⟩, ?_⟩
  intro header buff pos
  have hbytes := bytesAt_copyTo (xyHeader.encode header) buff pos
  rw [xyHeader.encode_length] at hbytes
  rw [structPack_header, write_xyHeader]
  exact congrArg some hbytes.symm

end MessageBus.Wire
