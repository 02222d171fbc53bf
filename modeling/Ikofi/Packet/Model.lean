import Ikofi.Wire

/-!
# Packets on the wire

A payload travels in a packet with its length, padding, and a hash or a tag. The
sender puts packets into a queue that the socket takes piece by piece, the
receiver collects a packet from what the socket gives. Ciphers, hashes and
compression are parameters: functions that take their state along.
-/

namespace Ikofi.Packet

open Wire

def minPacketLen : Nat := 16
def transMaxPayloadLen : Nat := 16384
def recvMaxPayloadLen : Nat := 128 * 1024
def recvMaxPacketLen : Nat := max 35000 (recvMaxPayloadLen + 100)
def zlibCompressExpansion : Nat := (recvMaxPayloadLen / 16384 + 1) * 5 + 6
def initReadbuf : Nat := 128

def sshMsgServiceRequest : UInt8 := 5
def sshMsgServiceAccept : UInt8 := 6
def sshMsgKexinit : UInt8 := 20
def sshMsgNewkeys : UInt8 := 21
def sshMsgUserauthRequest : UInt8 := 50
def sshMsgUserauthSuccess : UInt8 := 52

/-- The value of an `unsigned int`. -/
def uint (n : Int) : Nat := (n % 0x100000000).toNat

theorem uint_succ (n : Nat) : uint (n + 1) = (n + 1) % 0x100000000 := by
  unfold uint
  omega

inductive Direction
  | encrypt
  | decrypt
  deriving DecidableEq

/-- `struct dropbear_cipher_mode`. A cipher is used beside a hash, or it makes a tag itself:
`aead_crypt` gets the sequence number, the bytes and the length of the tag. A failure is not
`CRYPT_OK`. -/
inductive CipherMode (σ : Type)
  | plain (encrypt decrypt : Bytes → σ → Option (Bytes × σ))
  | aead (aeadGetlength : Nat → Bytes → σ → Option Nat)
      (aeadCrypt : Nat → Bytes → Nat → Direction → σ → Option (Bytes × σ))

/-- `algo_comp`. -/
inductive Comp
  | none
  | zlib
  | zlibDelay
  deriving DecidableEq

/-- `struct key_context_directional`. `flate` is `deflate` or `inflate`: from the input and the
room for the output to the output and how much of the input is left. -/
structure KeyContext (σ ζ : Type) where
  blocksize : Nat
  hashsize : Nat
  mode : CipherMode σ
  hmac : Bytes → Bytes
  cipherState : σ
  algoComp : Comp
  flate : Bytes → Nat → ζ → Option (Bytes × Nat × ζ)
  zstream : ζ

/-- `dropbear_nocipher`, `dropbear_mode_none` and `dropbear_nohash`. -/
def noneKeys : KeyContext Unit Unit where
  blocksize := 8
  hashsize := 0
  mode := .plain (fun b s => some (b, s)) (fun b s => some (b, s))
  hmac := fun b => b
  cipherState := ()
  algoComp := .none
  flate := fun src _ z => some (src, 0, z)
  zstream := ()

variable {σ ζ : Type}

/-- `is_compress_trans` and `is_compress_recv`. -/
def isCompress (k : KeyContext σ ζ) (authdone : Bool) : Bool :=
  k.algoComp == .zlib || authdone && k.algoComp == .zlibDelay

/-- The hash of a packet behind its sequence number. -/
def makeMac (k : KeyContext σ ζ) (seqno : Nat) (clear : Bytes) : Bytes :=
  if 0 < k.hashsize then (k.hmac (store32 seqno ++ clear)).take k.hashsize else []

/-! ### Sending -/

/-- The sending half of `ses`. Of a queued packet it holds what is left to write. The payloads
that have become packets are recorded, and the clear packets with their sequence numbers. -/
structure Trans (σ ζ : Type) where
  keys : KeyContext σ ζ
  transseq : Nat := 0
  authdone : Bool := false
  dataallowed : Bool := true
  replyQueue : List Bytes := []
  writequeue : List Bytes := []
  writequeueLen : Nat := 0
  datatrans : Nat := 0
  random : Nat → UInt8
  drawn : Nat := 0
  sent : List Bytes := []
  made : List (Nat × Bytes) := []

/-- The packets that may be sent during a key exchange. -/
def packetIsOkayKex (type : UInt8) : Bool :=
  if sshMsgUserauthRequest ≤ type then false
  else if type = sshMsgServiceRequest ∨ type = sshMsgServiceAccept then false
  else if type = sshMsgKexinit then false
  else true

def enqueueReplyPacket (t : Trans σ ζ) (payload : Bytes) : Trans σ ζ :=
  { t with replyQueue := t.replyQueue ++ [payload] }

/-- The length of the padding behind so many bytes, an `unsigned char`. -/
def padding (k : KeyContext σ ζ) (len : Nat) : Nat :=
  -- the length field is not encrypted together with the rest where there is a tag
  let aligned := match k.mode with
    | .plain _ _ => len
    | .aead _ _ => len - 4
  let padlen := (k.blocksize - aligned % k.blocksize) % 0x100
  let padlen := if padlen < 4 then (padlen + k.blocksize) % 0x100 else padlen
  if len + padlen < minPacketLen then (padlen + k.blocksize) % 0x100 else padlen

def bufCompress (k : KeyContext σ ζ) (room : Nat) (src : Bytes) :
    Except Halt (Bytes × KeyContext σ ζ) := do
  dropbearAssert (src.length + zlibCompressExpansion ≤ room)
    "dest->size - dest->pos >= len+ZLIB_COMPRESS_EXPANSION"
  match k.flate src room k.zstream with
  | none => dropbearExit "zlib error"
  | some (out, left, zstream) =>
    dropbearAssert (left = 0) "ses.keys->trans.zstream->avail_in == 0"
    return (out, { k with zstream })

/-- The size of the buffer that a packet is made in. -/
def encryptBufSize (k : KeyContext σ ζ) (len : Nat) : Nat :=
  len + 4 + 1 + max minPacketLen k.blocksize + 3 + k.hashsize + zlibCompressExpansion + 1

/-- The length of the packet, the length of the padding, the content and the padding. -/
def clearPacket (content pad : Bytes) : Bytes :=
  store32 (5 + content.length + pad.length - 4) ++ [UInt8.ofNat pad.length] ++ content ++ pad

/-- Encrypts a packet in its buffer, with the tag or the hash behind it. -/
def sealPacket (k : KeyContext σ ζ) (transseq size : Nat) (clear : Bytes) :
    Except Halt (Bytes × KeyContext σ ζ) :=
  match k.mode with
  | .aead _ aeadCrypt =>
    if size < clear.length + k.hashsize then dropbearExit "Bad buf_incrlen"
    else match aeadCrypt transseq clear k.hashsize .encrypt k.cipherState with
      | none => dropbearExit "Error encrypting"
      | some (out, cipherState) => .ok (out, { k with cipherState })
  | .plain encrypt _ =>
    match encrypt clear k.cipherState with
    | none => dropbearExit "Error encrypting"
    | some (out, cipherState) =>
      if size < clear.length + k.hashsize then dropbearExit "Bad buf_getwriteptr"
      else .ok (out ++ makeMac k transseq clear, { k with cipherState })

/-- The content of a packet: the payload, compressed or not. -/
def packetContent (k : KeyContext σ ζ) (authdone : Bool) (payload : Bytes) :
    Except Halt (Bytes × KeyContext σ ζ) :=
  if isCompress k authdone then bufCompress k (encryptBufSize k payload.length - 5) payload
  else .ok (payload, k)

/-- One payload as a packet, clear and encrypted, and how many random bytes are in it. -/
def framePacket (k : KeyContext σ ζ) (transseq : Nat) (authdone : Bool) (random : Nat → UInt8)
    (payload : Bytes) : Except Halt (Bytes × Bytes × Nat × KeyContext σ ζ) := do
  let size := encryptBufSize k payload.length
  let (content, k) ← packetContent k authdone payload
  let padlen := padding k (5 + content.length)
  if size < 5 + content.length + padlen then dropbearExit "Bad buf_incrlen"
  else
    let clear := clearPacket content ((List.range padlen).map random)
    let (packet, k) ← sealPacket k transseq size clear
    return (clear, packet, padlen, k)

/-- A packet is in the queue, and the counts are updated. -/
def writebufEnqueue (t : Trans σ ζ) (payload clear packet : Bytes) (padlen : Nat)
    (keys : KeyContext σ ζ) : Trans σ ζ :=
  { t with
    keys
    transseq := uint (t.transseq + 1)
    writequeue := t.writequeue ++ [packet]
    writequeueLen := t.writequeueLen + packet.length
    datatrans := t.datatrans + packet.length
    drawn := t.drawn + padlen
    sent := t.sent ++ [payload]
    made := t.made ++ [(t.transseq, clear)] }

def encryptPacket (t : Trans σ ζ) (payload : Bytes) : Except Halt (Trans σ ζ) := do
  let (type, _) ← bufGetByte payload
  if !t.dataallowed && !packetIsOkayKex type then return enqueueReplyPacket t payload
  else
    let (clear, packet, padlen, keys) ← framePacket t.keys t.transseq t.authdone
      (fun i => t.random (t.drawn + i)) payload
    return writebufEnqueue t payload clear packet padlen keys

def maybeFlushReplyQueue (t : Trans σ ζ) : Except Halt (Trans σ ζ) :=
  if !t.dataallowed then .ok t
  else do
    let t ← t.replyQueue.foldlM encryptPacket t
    return { t with replyQueue := [] }

/-- What a write is offered, of no more than 50 packets. -/
def packetQueueToIovec (queue : List Bytes) : Except Halt (List Bytes) := do
  let iov := queue.take 50
  dropbearAssert (iov.all fun packet => 0 < packet.length) "len > 0"
  return iov

def packetQueueConsume : List Bytes → Nat → List Bytes
  | [], _ => []
  | packet :: queue, written =>
    if written = 0 then packet :: queue
    else if written < packet.length then packet.drop written :: queue
    else packetQueueConsume queue (written - packet.length)

/-- `svr_remoteclosed`. -/
def remoteclosed {α : Type} : Except Halt α := dropbearExit "Exited normally"

/-- What a call of `write` or `read` comes to: not ready, an error, the end, or so many bytes at
most. -/
inductive Io
  | again
  | failed (error : String)
  | closed
  | upto (n : Nat)
  deriving DecidableEq

/-- The queue and the bytes that the socket has taken. -/
def writePacket (t : Trans σ ζ) (io : Io) : Except Halt (Trans σ ζ × Bytes) := do
  dropbearAssert (!t.writequeue.isEmpty) "!isempty(&ses.writequeue)"
  let iov ← packetQueueToIovec t.writequeue
  match io with
  | .again => return (t, [])
  | .failed error => dropbearExit ("Error writing: " ++ error)
  | .closed => remoteclosed
  | .upto n =>
    let taken := iov.flatten.take n
    return ({ t with
      writequeue := packetQueueConsume t.writequeue taken.length
      writequeueLen := t.writequeueLen - taken.length }, taken)

/-! ### Receiving -/

/-- `ses.readbuf`: the bytes before its position, its length and its size. -/
structure Readbuf where
  data : Bytes := []
  len : Nat := 0
  size : Nat := initReadbuf
  deriving DecidableEq

/-- The receiving half of `ses`. The clear packets that have been taken are recorded with their
sequence numbers, and what was in the read buffer before each of them was opened. -/
structure Recv (σ ζ : Type) where
  keys : KeyContext σ ζ
  recvseq : Nat := 0
  authdone : Bool := false
  readbuf : Option Readbuf := none
  payload : Option Bytes := none
  datarecv : Nat := 0
  taken : List (Nat × Bytes) := []
  arrived : List Bytes := []

/-- At most `maxlen` bytes from the socket, and what is left in it. -/
def readSome (wire : Bytes) (maxlen : Nat) : Io → Except Halt (Option (Bytes × Bytes))
  | .again => .ok none
  | .failed error => dropbearExit ("Error reading: " ++ error)
  | .closed => remoteclosed
  | .upto n =>
    let s := wire.take (min n maxlen)
    if s.isEmpty then .ok none else .ok (some (s, wire.drop s.length))

/-- The first block as it stays in the buffer, the length of the packet that it starts, and
that length as it is checked, without the hash. -/
def packetLength (k : KeyContext σ ζ) (recvseq : Nat) (block : Bytes) :
    Except Halt (Bytes × KeyContext σ ζ × Nat × Nat) :=
  match k.mode with
  | .aead aeadGetlength _ =>
    match aeadGetlength recvseq block k.cipherState with
    | none => dropbearExit "Error decrypting"
    | some plen => .ok (block, k, uint (plen + 4 + k.hashsize), uint plen)
  | .plain _ decrypt =>
    match decrypt block k.cipherState with
    | none => dropbearExit "Error decrypting"
    | some (clear, cipherState) =>
      let plen := uint (load32 (clear.take 4) + 4)
      .ok (clear, { k with cipherState }, uint (plen + k.hashsize), plen)

/-- The rest of `read_packet_init`, once the first block is there. -/
def beginPacket (s : Recv σ ζ) (block : Bytes) (size : Nat) : Except Halt (Recv σ ζ) := do
  let (data, keys, len, plen) ← packetLength s.keys s.recvseq block
  if recvMaxPacketLen < len ∨ plen < s.keys.blocksize ∨ plen % s.keys.blocksize ≠ 0 then
    dropbearExit s!"Integrity error (bad packet size {len})"
  else if len < s.keys.blocksize then dropbearExit "Bad buf_setpos"
  else return { s with keys, readbuf := some { data, len, size := max size len } }

/-- Says whether the length of the packet is known. -/
def readPacketInit (s : Recv σ ζ) (wire : Bytes) (io : Io) :
    Except Halt (Recv σ ζ × Bytes × Bool) := do
  let buf := s.readbuf.getD {}
  let maxlen := s.keys.blocksize - buf.data.length
  match ← readSome wire maxlen io with
  | none => return ({ s with readbuf := some buf }, wire, false)
  | some (got, wire) =>
    let data := buf.data ++ got
    if got.length ≠ maxlen then
      return ({ s with readbuf := some { buf with data, len := data.length } }, wire, false)
    else
      let s ← beginPacket s data buf.size
      return (s, wire, true)

def bufDecompress (k : KeyContext σ ζ) (src : Bytes) : Except Halt (Bytes × KeyContext σ ζ) :=
  match k.flate src (recvMaxPayloadLen + 1) k.zstream with
  | none => dropbearExit "zlib error"
  | some (out, left, zstream) =>
    if 0 < left ∨ recvMaxPayloadLen < out.length then
      dropbearExit "bad packet, oversized decompressed"
    else .ok (out, { k with zstream })

/-- Decrypts what has not been decrypted yet, and checks the tag or the hash. -/
def openPacket (k : KeyContext σ ζ) (recvseq : Nat) (buf : Readbuf) :
    Except Halt (Bytes × KeyContext σ ζ) :=
  match k.mode with
  | .aead _ aeadCrypt =>
    let len := uint (buf.len - k.hashsize)
    if bufMaxIncr < len ∨ buf.size < len then dropbearExit "Bad buf_getwriteptr"
    else match aeadCrypt recvseq buf.data k.hashsize .decrypt k.cipherState with
      | none => dropbearExit "Error decrypting"
      | some (clear, cipherState) => .ok (clear ++ buf.data.drop len, { k with cipherState })
  | .plain _ decrypt => do
    let len := uint (buf.len - k.hashsize - k.blocksize)
    let s ← bufGetPtr (buf.data.drop k.blocksize) len
    match decrypt s k.cipherState with
    | none => dropbearExit "Error decrypting"
    | some (clear, cipherState) =>
      let data := buf.data.take k.blocksize ++ clear ++ buf.data.drop (k.blocksize + len)
      let contentsLen := uint (buf.len - k.hashsize)
      if makeMac k recvseq (data.take contentsLen) ≠ (data.drop contentsLen).take k.hashsize then
        dropbearExit "Integrity error"
      else .ok (data, { k with cipherState })

/-- The payload of a clear packet of length `len`. -/
def packetPayload (k : KeyContext σ ζ) (authdone : Bool) (len : Nat) (data : Bytes) :
    Except Halt (Bytes × KeyContext σ ζ) := do
  let (padlen, rest) ← bufGetByte (data.drop 4)
  let len := uint (len - padlen.toNat - 4 - 1 - k.hashsize)
  if recvMaxPayloadLen + zlibCompressExpansion < len ∨ len < 1 then
    dropbearExit s!"Bad packet size {len}"
  else if isCompress k authdone then bufDecompress k (rest.take len)
  else return (rest.take len, k)

def decryptPacket (s : Recv σ ζ) (buf : Readbuf) : Except Halt (Recv σ ζ) := do
  let (data, keys) ← openPacket s.keys s.recvseq buf
  let (payload, keys) ← packetPayload keys s.authdone buf.len data
  return { s with
    keys
    recvseq := uint (s.recvseq + 1)
    readbuf := none
    payload := some payload
    datarecv := s.datarecv + buf.len
    taken := s.taken ++ [(s.recvseq, data.take (uint (buf.len - s.keys.hashsize)))]
    arrived := s.arrived ++ [buf.data] }

/-- The part of `read_packet` behind the first block. -/
def readRest (s : Recv σ ζ) (wire : Bytes) (io : Io) (buf : Readbuf) :
    Except Halt (Recv σ ζ × Bytes) := do
  let maxlen := buf.len - buf.data.length
  if maxlen = 0 then return (← decryptPacket s buf, wire)
  else
    match ← readSome wire maxlen io with
    | none => return (s, wire)
    | some (got, wire) =>
      let buf := { buf with data := buf.data ++ got }
      if got.length = maxlen then return (← decryptPacket s buf, wire)
      else return ({ s with readbuf := some buf }, wire)

/-- The packet whose length is known, if its first block has been read. -/
def Recv.begun (s : Recv σ ζ) : Option Readbuf :=
  s.readbuf.filter fun buf => s.keys.blocksize ≤ buf.len

/-- Reads what there is, first up to the end of the first block and then up to the end of the
packet. -/
def readPacket (s : Recv σ ζ) (wire : Bytes) (first second : Io) :
    Except Halt (Recv σ ζ × Bytes) := do
  match s.begun with
  | some buf => readRest s wire second buf
  | none =>
    let (s, wire, ready) ← readPacketInit s wire first
    match s.readbuf, ready with
    | some buf, true => readRest s wire second buf
    | _, _ => return (s, wire)

end Ikofi.Packet
