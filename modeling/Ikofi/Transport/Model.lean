import Ikofi.Kex.Negotiate
import Ikofi.Transport.Outgoing

/-!
# The session's loop

What the server does with the packets it has decrypted: `process_packet`, the handlers
of the key exchange, and one turn of `session_loop`. The authentication and the
connection protocol above are a parameter. When a new key exchange is due, what keeps
the connection alive, and what the key exchange computes come with each turn.
-/

namespace Ikofi.Transport

open Wire

open Packet (uint packetIsOkayKex sshMsgKexinit sshMsgNewkeys sshMsgServiceRequest
  sshMsgServiceAccept sshMsgUserauthRequest)

open Kex (Tables KexSes DropbearKex SignatureType KeyContextDirectional readKexAlgos comma)

def sshMsgDisconnect : UInt8 := 1

def sshMsgIgnore : UInt8 := 2

def sshMsgUnimplemented : UInt8 := 3

def sshMsgDebug : UInt8 := 4

def sshMsgExtInfo : UInt8 := 7

def sshMsgKexdhInit : UInt8 := 30

def sshMsgKexdhReply : UInt8 := 31

def maxUnauthPacketType : UInt8 := 60

/-- The other messages in `svr_packettypes`: user authentication and connection. -/
def upperPackettypes : List UInt8 :=
  [94, 93, sshMsgUserauthRequest, 80, 98, 90, 96, 97, 99, 100, 82, 81, 91, 92]

/-- The protocols above: their state, what they do with a message of one of their types,
and at the end of a turn. `ι` is what the outside answers them. -/
structure Upper (υ ι : Type) where
  authdone : υ → Bool
  handle : UInt8 → Bytes → ι → υ → Except Halt (υ × List UpperPayload)
  channelio : ι → υ → υ × List UpperPayload

/-- A packet that was decrypted: how often the keys had changed before, its sequence
number and its payload. -/
structure Received where
  epoch : Nat
  seq : Nat
  payload : Bytes
  deriving DecidableEq, Repr

/-- What of `ses` takes part. `newRecvValid` and `newTransValid` are in `ses.newkeys`.
The packets received, the messages that got to a handler, with the epoch, and what the
protocols above have asked to send are recorded. -/
structure Ses (υ : Type) where
  tables : Tables
  kex : KexSes := {}
  sentkexinit : Bool := false
  recvkexinit : Bool := false
  sentnewkeys : Bool := false
  recvnewkeys : Bool := false
  donesecondkex : Bool := false
  recvfirstnewkeys : Bool := false
  newRecvValid : Bool := false
  newTransValid : Bool := false
  requirenext : UInt8 := sshMsgKexinit
  recvseq : Nat := 0
  recvEpoch : Nat := 0
  recvKeys : Option KeyContextDirectional := none
  transKeys : Option KeyContextDirectional := none
  out : Outgoing := {}
  upper : υ
  received : List Received := []
  handled : List (Nat × UInt8) := []
  asked : List Bytes := []

/-- What the outside answers in one turn: random bytes, what `send_msg_kexdh_reply`
writes or how it ends, and what the protocols above get to see. -/
structure Env (ι : Type) where
  cookie : Bytes
  reply : Except Halt Bytes
  upper : ι

section
variable {υ ι : Type}

/-- One packet sent at the transport's own will. -/
def Ses.put (s : Ses υ) (payload : Bytes) : Except Halt (Ses υ) :=
  (s.out.encryptPacket payload).map fun out => { s with out }

/-- Packets of the protocols above. -/
def Ses.ask (s : Ses υ) (payloads : List UpperPayload) : Except Halt (Ses υ) :=
  ((payloads.map (·.1)).foldlM Outgoing.encryptPacket s.out).map fun out =>
    { s with out, asked := s.asked ++ payloads.map (·.1) }

def Ses.flush (s : Ses υ) : Except Halt (Ses υ) :=
  s.out.maybeFlushReplyQueue.map fun out => { s with out }

/-- A packet is decrypted. -/
def Ses.receive (s : Ses υ) (payload : Bytes) : Ses υ :=
  { s with
    recvseq := uint (s.recvseq + 1)
    received := s.received ++ [⟨s.recvEpoch, s.recvseq, payload⟩] }

def Ses.note (s : Ses υ) (type : UInt8) : Ses υ :=
  { s with handled := s.handled ++ [(s.recvEpoch, type)] }

def sendMsgKexinit (cookie : Bytes) (s : Ses υ) : Except Halt (Ses υ) := do
  let s ← s.put (Kex.sendMsgKexinit s.tables cookie false)
  return { s with
    out := { s.out with dataallowed := false } -- don't send other packets during kex
    sentkexinit := true
    kex := { s.kex with newkeys := none }
    newRecvValid := false
    newTransValid := false }

/-- A new key exchange starts, unless one has started. -/
def startKex (due : Bool) (cookie : Bytes) (s : Ses υ) : Except Halt (Ses υ) :=
  if !s.sentkexinit && due then sendMsgKexinit cookie s else .ok s

def kexinitialise (s : Ses υ) : Ses υ :=
  { s with
    sentkexinit := false
    recvkexinit := false
    recvnewkeys := false
    sentnewkeys := false
    kex := { s.kex with themFirstfollows := false, ourFirstFollowsMatches := false } }

/-- The first half of `switch_keys`. -/
def switchRecv (s : Ses υ) : Ses υ :=
  if s.recvnewkeys && s.newRecvValid then
    { s with
      recvKeys := s.kex.newkeys.map (·.recv)
      recvEpoch := s.recvEpoch + 1
      newRecvValid := false }
  else s

def switchTrans (s : Ses υ) : Ses υ :=
  if s.sentnewkeys && s.newTransValid then
    { s with
      transKeys := s.kex.newkeys.map (·.trans)
      out := { s.out with epoch := s.out.epoch + 1 }
      newTransValid := false }
  else s

def switchDone (s : Ses υ) : Ses υ :=
  if s.sentnewkeys && s.recvnewkeys then
    kexinitialise { s with kex := { s.kex with newkeys := none } }
  else s

def switchKeys (s : Ses υ) : Except Halt (Ses υ) :=
  if !(s.sentkexinit && s.recvkexinit) then dropbearExit "Unexpected newkeys message"
  else .ok (switchDone (switchTrans (switchRecv s)))

/-- `send_msg_newkeys`; `gen_new_keys` makes both keys valid. -/
def sendMsgNewkeys (s : Ses υ) : Except Halt (Ses υ) := do
  let s ← s.put [sshMsgNewkeys]
  let s ← switchKeys { s with
    sentnewkeys := true
    donesecondkex := s.donesecondkex || s.kex.donefirstkex
    kex := { s.kex with donefirstkex := true }
    out := { s.out with dataallowed := true }
    newRecvValid := true
    newTransValid := true }
  return if s.kex.strictKex then { s with out := { s.out with transseq := 0 } } else s

def recvMsgNewkeys (s : Ses υ) : Except Halt (Ses υ) := do
  let s ← switchKeys { s with recvnewkeys := true }
  return { s with
    recvseq := if s.kex.strictKex then 0 else s.recvseq
    recvfirstnewkeys := true }

def recvMsgKexinit (env : Env ι) (s : Ses υ) (buf : Bytes) : Except Halt (Ses υ) := do
  let s ← startKex true env.cookie s
  if s.recvkexinit then dropbearExit "Unexpected KEXINIT"
  else
    let (kex, _) ← readKexAlgos true s.tables false s.kex buf
    if kex.strictKex && !kex.donefirstkex && s.recvseq != 1 then
      dropbearExit "First packet wasn't kexinit"
    else
      return { s with
        kex
        newRecvValid := false
        newTransValid := false
        requirenext := sshMsgKexdhInit
        recvkexinit := true }

/-- The client's half of the key exchange: `dh_e` or `q_c`. -/
inductive KexValue
  | dhE (n : Nat)
  | qC (s : Bytes)

/-- The client's value alone, up to the end of the message. -/
def readKexValue (k : DropbearKex) (buf : Bytes) : Except Halt KexValue := do
  let (value, rest) ← match k with
    | .dhGroup14Sha256 => (bufGetMpint buf).map fun (n, rest) => (n.map KexValue.dhE, rest)
    | _ => (bufGetString buf).map fun (s, rest) => (some (KexValue.qC s), rest)
  match value, rest with
  | some value, [] => return value
  | _, _ => dropbearExit "Bad kex value"

def sendMsgExtInfo (s : Ses υ) : Except Halt (Ses υ) :=
  if s.kex.allowExtInfo then
    s.put (sshMsgExtInfo :: (store32 1 ++ putString (lit "server-sig-algs") ++
      putString ([comma].intercalate (s.tables.sigalgs.map (·.name)))))
  else .ok s

def disableSigExcept (s : Ses υ) (allowType : SignatureType) : Ses υ :=
  { s with tables := { s.tables with
      sigalgs := s.tables.sigalgs.map fun a =>
        if a.data = allowType then a else { a with usable := false } } }

/-- The end of `recv_msg_kexdh_init`: only the first exchange tells the signature
types, and settles the host key for the later ones. -/
def afterFirstNewkeys (s : Ses υ) : Except Halt (Ses υ) :=
  if s.donesecondkex then .ok s
  else do
    let s ← sendMsgExtInfo s
    match s.kex.newkeys with
    | none => .error .segv
    | some k => return disableSigExcept s k.algoSignature

def recvMsgKexdhInit (env : Env ι) (s : Ses υ) (buf : Bytes) : Except Halt (Ses υ) :=
  if !s.recvkexinit then dropbearExit "Premature kexdh_init message received"
  else match s.kex.newkeys with
    | none => .error .segv
    | some k => do
      let _ ← readKexValue k.algoKex buf
      let content ← env.reply
      let s ← s.put (sshMsgKexdhReply :: content)
      let s ← sendMsgNewkeys s
      let s ← afterFirstNewkeys s
      return { s with requirenext := sshMsgNewkeys }

def sendMsgServiceAccept (s : Ses υ) (name : Bytes) : Except Halt (Ses υ) :=
  s.ask [⟨sshMsgServiceAccept :: putString name, rfl⟩]

def recvMsgServiceRequest (u : Upper υ ι) (s : Ses υ) (buf : Bytes) : Except Halt (Ses υ) := do
  let (name, _) ← bufGetString buf
  if name = lit "ssh-userauth" then sendMsgServiceAccept s name
  else if name = lit "ssh-connection" then
    if !u.authdone s.upper then dropbearExit "Request for connection before auth"
    else sendMsgServiceAccept s name
  else dropbearExit "Unrecognised SSH_MSG_SERVICE_REQUEST"

def recvUpper (u : Upper υ ι) (env : Env ι) (s : Ses υ) (type : UInt8) (buf : Bytes) :
    Except Halt (Ses υ) := do
  let (upper, replies) ← u.handle type buf env.upper s.upper
  { s with upper }.ask replies

/-- `recv_unimplemented`, for the packet just decrypted. -/
def recvUnimplemented (s : Ses υ) : Except Halt (Ses υ) :=
  s.put (sshMsgUnimplemented :: store32 (uint (s.recvseq - 1)))

/-- The handler that `svr_packettypes` has for a type. -/
def handle (u : Upper υ ι) (env : Env ι) (s : Ses υ) (type : UInt8) (buf : Bytes) :
    Except Halt (Ses υ) :=
  if type = sshMsgServiceRequest then recvMsgServiceRequest u (s.note type) buf
  else if type = sshMsgKexinit then recvMsgKexinit env (s.note type) buf
  else if type = sshMsgKexdhInit then recvMsgKexdhInit env (s.note type) buf
  else if type = sshMsgNewkeys then recvMsgNewkeys (s.note type)
  else if upperPackettypes.contains type then recvUpper u env (s.note type) type buf
  else recvUnimplemented s

def Ses.firstStrictKex (s : Ses υ) : Bool := s.kex.strictKex && !s.recvfirstnewkeys

/-- Types that may come while another one is required, known or not. -/
def allowedDuringKex (type : UInt8) : Bool :=
  1 ≤ type && type ≤ 49 && type != sshMsgServiceRequest && type != sshMsgServiceAccept &&
    type != sshMsgKexinit

/-- The rest of `process_packet`, for the type that is required, if one is. -/
def processExpected (u : Upper υ ι) (env : Env ι) (s : Ses υ) (type : UInt8) (buf : Bytes) :
    Except Halt (Ses υ) :=
  if s.kex.ignorenext then .ok { s with kex := { s.kex with ignorenext := false } }
  else
    -- only clear the flag after we have checked ignorenext
    let s := { s with requirenext := 0 }
    if !u.authdone s.upper && decide (maxUnauthPacketType < type) then
      dropbearExit s!"Received message {type} before userauth"
    else handle u env s type buf

def processPacket (u : Upper υ ι) (env : Env ι) (s : Ses υ) (payload : Bytes) :
    Except Halt (Ses υ) := do
  let (type, buf) ← bufGetByte payload
  if type = sshMsgDisconnect then dropbearExit "Disconnect received"
  else if !s.firstStrictKex &&
      (type == sshMsgIgnore || type == sshMsgDebug || type == sshMsgUnimplemented) then return s
  else if s.requirenext ≠ 0 ∧ s.requirenext ≠ type then
    if allowedDuringKex type && !s.firstStrictKex then recvUnimplemented s
    else dropbearExit s!"Unexpected packet type {type}, expected {s.requirenext}"
  else processExpected u env s type buf

/-- One turn of the loop: whether a new key exchange is due, what is sent to keep the
connection alive, the packet that was read, if any, and what the outside answers. -/
structure Turn (ι : Type) where
  due : Bool := false
  keepalive : List UpperPayload := []
  packet : Option Bytes := none
  env : Env ι

def checktimeouts (s : Ses υ) (t : Turn ι) : Except Halt (Ses υ) := do
  let s ← startKex t.due t.env.cookie s
  s.ask t.keepalive

def incoming (u : Upper υ ι) (s : Ses υ) (t : Turn ι) : Except Halt (Ses υ) :=
  match t.packet with
  | none => .ok s
  | some payload => processPacket u t.env (s.receive payload) payload

def channelio (u : Upper υ ι) (i : ι) (s : Ses υ) : Except Halt (Ses υ) :=
  { s with upper := (u.channelio i s.upper).1 }.ask (u.channelio i s.upper).2

def sessionLoop (u : Upper υ ι) (s : Ses υ) (t : Turn ι) : Except Halt (Ses υ) := do
  let s ← checktimeouts s t
  let s ← incoming u s t
  let s ← s.flush
  channelio u t.env.upper s

/-- The session goes on after a turn unless the process ends. -/
def step (u : Upper υ ι) (s : Ses υ) (t : Turn ι) : Option (Ses υ) := (sessionLoop u s t).toOption

/-- A session at the start of its loop, once it has sent its own KEXINIT. -/
def svrSession (tables : Tables) (cookie : Bytes) (upper : υ) : Except Halt (Ses υ) :=
  sendMsgKexinit cookie { tables, upper }

end

end Ikofi.Transport
