import Ikofi.Kex.AlgoList
import Ikofi.Packet.Model

/-!
# Negotiating the algorithms

`common-kex.c`: what `send_msg_kexinit` writes, and how `read_kex_algos` reads the
other side's. The code serves both sides; `isServer` says which one runs.
-/

namespace Ikofi.Kex

open Wire

open Packet (Comp sshMsgKexinit)

/-- What the entries of `sshkex` point to. -/
inductive DropbearKex
  | sntrup761 | mlkem768 | curve25519 | ecdhNistp521 | ecdhNistp384 | ecdhNistp256
  | dhGroup14Sha256
  deriving DecidableEq, Repr

inductive SignatureType
  | ed25519 | skEd25519 | ecdsaNistp256 | ecdsaNistp384 | ecdsaNistp521 | skEcdsaNistp256
  | rsaSha256
  deriving DecidableEq, Repr

inductive DropbearHash
  | sha2_256 | sha2_512 | ghash | chachapolyMac
  deriving DecidableEq, Repr

inductive DropbearCipher
  | chachapoly | aes256 | aes128
  deriving DecidableEq, Repr

inductive CipherMode
  | chachapoly | gcm | ctr
  deriving DecidableEq, Repr

/-- `aead_mac`, of the modes with an `aead_crypt`. -/
def CipherMode.aeadMac : CipherMode → Option DropbearHash
  | .chachapoly => some .chachapolyMac
  | .gcm => some .ghash
  | .ctr => none

/-- The `data` and the `mode` of an entry of `sshciphers`. -/
structure Cipher where
  algoCrypt : DropbearCipher
  cryptMode : CipherMode
  deriving DecidableEq, Repr

def kexguess2AlgoName : Bytes := lit "kexguess2@matt.ucc.asn.au"

def sshExtInfoC : Bytes := lit "ext-info-c"

def sshStrictKexS : Bytes := lit "kex-strict-s-v00@openssh.com"

def sshStrictKexC : Bytes := lit "kex-strict-c-v00@openssh.com"

/-- The tables of one side. An entry of `sshkex` without `data` only tells the other
side something. -/
structure Tables where
  sshkex : List (AlgoType (Option DropbearKex))
  sigalgs : List (AlgoType SignatureType)
  sshciphers : List (AlgoType Cipher)
  sshhashes : List (AlgoType DropbearHash)
  compressAlgosC2s : List (AlgoType Comp)
  compressAlgosS2c : List (AlgoType Comp)

/-- `sshkex`; a client's has two names more, and the server's own is not for it. -/
def sshkex (client : Bool) : List (AlgoType (Option DropbearKex)) :=
  [⟨lit "sntrup761x25519-sha512", some .sntrup761, true⟩,
   ⟨lit "sntrup761x25519-sha512@openssh.com", some .sntrup761, true⟩,
   ⟨lit "mlkem768x25519-sha256", some .mlkem768, true⟩,
   ⟨lit "curve25519-sha256", some .curve25519, true⟩,
   ⟨lit "curve25519-sha256@libssh.org", some .curve25519, true⟩,
   ⟨lit "ecdh-sha2-nistp521", some .ecdhNistp521, true⟩,
   ⟨lit "ecdh-sha2-nistp384", some .ecdhNistp384, true⟩,
   ⟨lit "ecdh-sha2-nistp256", some .ecdhNistp256, true⟩,
   ⟨lit "diffie-hellman-group14-sha256", some .dhGroup14Sha256, true⟩,
   ⟨kexguess2AlgoName, none, true⟩] ++
  (if client then [⟨sshExtInfoC, none, true⟩, ⟨sshStrictKexC, none, true⟩] else []) ++
  [⟨sshStrictKexS, none, !client⟩]

def sshciphers : List (AlgoType Cipher) :=
  [⟨lit "chacha20-poly1305@openssh.com", ⟨.chachapoly, .chachapoly⟩, true⟩,
   ⟨lit "aes256-gcm@openssh.com", ⟨.aes256, .gcm⟩, true⟩,
   ⟨lit "aes128-gcm@openssh.com", ⟨.aes128, .gcm⟩, true⟩,
   ⟨lit "aes256-ctr", ⟨.aes256, .ctr⟩, true⟩,
   ⟨lit "aes128-ctr", ⟨.aes128, .ctr⟩, true⟩]

def sshhashes : List (AlgoType DropbearHash) :=
  [⟨lit "hmac-sha2-256", .sha2_256, true⟩, ⟨lit "hmac-sha2-512", .sha2_512, true⟩]

def sshCompress : List (AlgoType Comp) :=
  [⟨lit "zlib@openssh.com", .zlibDelay, true⟩, ⟨lit "zlib", .zlib, true⟩,
   ⟨lit "none", .none, true⟩]

def sshNocompress : List (AlgoType Comp) := [⟨lit "none", .none, true⟩]

/-- `sigalgs`, less what `load_all_hostkeys` has disabled. -/
def sigalgs (usable : SignatureType → Bool) : List (AlgoType SignatureType) :=
  [⟨lit "ssh-ed25519", .ed25519, usable .ed25519⟩,
   ⟨lit "sk-ssh-ed25519@openssh.com", .skEd25519, usable .skEd25519⟩,
   ⟨lit "ecdsa-sha2-nistp256", .ecdsaNistp256, usable .ecdsaNistp256⟩,
   ⟨lit "ecdsa-sha2-nistp384", .ecdsaNistp384, usable .ecdsaNistp384⟩,
   ⟨lit "ecdsa-sha2-nistp521", .ecdsaNistp521, usable .ecdsaNistp521⟩,
   ⟨lit "sk-ecdsa-sha2-nistp256@openssh.com", .skEcdsaNistp256, usable .skEcdsaNistp256⟩,
   ⟨lit "rsa-sha2-256", .rsaSha256, usable .rsaSha256⟩]

/-- The tables of the server, by `kex_setup_compress` with or without compression to
the client. -/
def serverTables (compression : Bool) (usable : SignatureType → Bool) : Tables where
  sshkex := sshkex false
  sigalgs := sigalgs usable
  sshciphers := sshciphers
  sshhashes := sshhashes
  compressAlgosC2s := sshNocompress
  compressAlgosS2c := if compression then sshCompress else sshNocompress

/-- The tables of the client. -/
def clientTables (compression : Bool) (usable : SignatureType → Bool) : Tables where
  sshkex := sshkex true
  sigalgs := sigalgs usable
  sshciphers := sshciphers
  sshhashes := sshhashes
  compressAlgosC2s := if compression then sshCompress else sshNocompress
  compressAlgosS2c := if compression then sshCompress else sshNocompress

/-- `key_context_directional`, as far as it is negotiated. -/
structure KeyContextDirectional where
  crypt : Cipher
  algoMac : DropbearHash
  algoComp : Comp
  deriving DecidableEq

structure Newkeys where
  algoKex : DropbearKex
  algoSignature : SignatureType
  recv : KeyContextDirectional
  trans : KeyContextDirectional
  deriving DecidableEq

/-- What of the session `read_kex_algos` reads and writes. -/
structure KexSes where
  donefirstkex : Bool := false
  allowExtInfo : Bool := false
  strictKex : Bool := false
  themFirstfollows : Bool := false
  ignorenext : Bool := false
  ourFirstFollowsMatches : Bool := false
  newkeys : Option Newkeys := none
  deriving DecidableEq

/-- The payload that `send_msg_kexinit` sends. -/
def sendMsgKexinit (t : Tables) (cookie : Bytes) (firstGuess : Bool) : Bytes :=
  sshMsgKexinit :: (cookie ++ (bufPutAlgolist t.sshkex ++ (bufPutAlgolist t.sigalgs ++
    (bufPutAlgolist t.sshciphers ++ (bufPutAlgolist t.sshciphers ++
    (bufPutAlgolist t.sshhashes ++ (bufPutAlgolist t.sshhashes ++
    (bufPutAlgolist t.compressAlgosC2s ++ (bufPutAlgolist t.compressAlgosS2c ++
    (putString [] ++ (putString [] ++ (if firstGuess then 1 else 0) :: store32 0)))))))))))

/-- The `error` label. -/
def orNoMatching {α : Type} (erralgo : String) : Option α → Except Halt α
  | some a => .ok a
  | none => dropbearExit ("No matching algo " ++ erralgo)

/-- The choice of a MAC. A cipher that authenticates brings its own, and the names
that were read do not matter. -/
def macOr (cipher : Cipher) (algo : Option (AlgoType DropbearHash)) : Option DropbearHash :=
  match cipher.cryptMode.aeadMac with
  | some mac => some mac
  | none => algo.map (·.data)

/-- The assignments at the end of `read_kex_algos`. -/
def KexSes.settle (ses : KexSes) (sendKexFirstGuess allowExtInfo strictKex follows allgood : Bool)
    (newkeys : Newkeys) : KexSes :=
  { ses with
    allowExtInfo := ses.allowExtInfo || allowExtInfo
    strictKex := ses.strictKex || strictKex
    themFirstfollows := ses.themFirstfollows || follows
    ignorenext := ses.ignorenext || (follows && !allgood)
    ourFirstFollowsMatches := ses.ourFirstFollowsMatches || (sendKexFirstGuess && allgood)
    newkeys := some newkeys }

/-- Who sends with which keys. -/
def Newkeys.of (isServer : Bool) (algoKex : DropbearKex) (algoSignature : SignatureType)
    (c2s s2c : KeyContextDirectional) : Newkeys :=
  if isServer then ⟨algoKex, algoSignature, c2s, s2c⟩ else ⟨algoKex, algoSignature, s2c, c2s⟩

/-- A name that is looked for under a condition only. -/
def bufHasAlgoWhen (cond : Bool) (buf algo : Bytes) : Except Halt Bool :=
  if cond then bufHasAlgo buf algo else .ok false

/-- `read_kex_algos`, behind the message's type. -/
def readKexAlgos (isServer : Bool) (t : Tables) (sendKexFirstGuess : Bool) (ses : KexSes)
    (payload : Bytes) : Except Halt (KexSes × Bytes) := do
  let buf ← bufIncrPos payload 16 -- start after the cookie
  let kexguess2 ← bufHasAlgo buf kexguess2AlgoName
  let allowExtInfo ← bufHasAlgoWhen (isServer && !ses.donefirstkex) buf sshExtInfoC
  let strictKex ←
    bufHasAlgoWhen (!ses.donefirstkex) buf (if isServer then sshStrictKexC else sshStrictKexS)
  let (kex, goodKex, buf) ← bufMatchAlgo isServer buf t.sshkex kexguess2
  -- kexguess2, ext-info-c and the like are not to be negotiated
  let algoKex ← orNoMatching "kex" (kex.bind (·.data))
  let (hostkey, goodHostkey, buf) ← bufMatchAlgo isServer buf t.sigalgs kexguess2
  let hostkey ← orNoMatching "hostkey" hostkey
  let (c2sCipher, _, buf) ← bufMatchAlgo isServer buf t.sshciphers false
  let c2sCipher ← orNoMatching "enc c->s" c2sCipher
  let (s2cCipher, _, buf) ← bufMatchAlgo isServer buf t.sshciphers false
  let s2cCipher ← orNoMatching "enc s->c" s2cCipher
  let (c2sHash, _, buf) ← bufMatchAlgo isServer buf t.sshhashes false
  let c2sMac ← orNoMatching "mac c->s" (macOr c2sCipher.data c2sHash)
  let (s2cHash, _, buf) ← bufMatchAlgo isServer buf t.sshhashes false
  let s2cMac ← orNoMatching "mac s->c" (macOr s2cCipher.data s2cHash)
  let (c2sComp, _, buf) ← bufMatchAlgo isServer buf t.compressAlgosC2s false
  let c2sComp ← orNoMatching "comp c->s" c2sComp
  let (s2cComp, _, buf) ← bufMatchAlgo isServer buf t.compressAlgosS2c false
  let s2cComp ← orNoMatching "comp s->c" s2cComp
  let buf ← bufEatString buf
  let buf ← bufEatString buf
  let (follows, buf) ← bufGetBool buf
  let (_, buf) ← bufGetInt buf -- reserved for future extensions
  return (ses.settle sendKexFirstGuess allowExtInfo strictKex follows (goodKex && goodHostkey)
    (.of isServer algoKex hostkey.data ⟨c2sCipher.data, c2sMac, c2sComp.data⟩
      ⟨s2cCipher.data, s2cMac, s2cComp.data⟩), buf)

/-! ## Reading first, choosing then -/

/-- What a KEXINIT message says. -/
structure Offer where
  kex : List Bytes
  hostkey : List Bytes
  encC2s : List Bytes
  encS2c : List Bytes
  macC2s : List Bytes
  macS2c : List Bytes
  compC2s : List Bytes
  compS2c : List Bytes
  follows : Bool
  deriving DecidableEq

/-- One list of names. -/
def readNames (buf : Bytes) : Except Halt (List Bytes × Bytes) := do
  let (algolist, rest) ← bufGetString buf
  let names ← getAlgolist algolist maxProposedAlgo
  return (names, rest)

def readOffer (payload : Bytes) : Except Halt (Offer × Bytes) := do
  let buf ← bufIncrPos payload 16
  let (kex, buf) ← readNames buf
  let (hostkey, buf) ← readNames buf
  let (encC2s, buf) ← readNames buf
  let (encS2c, buf) ← readNames buf
  let (macC2s, buf) ← readNames buf
  let (macS2c, buf) ← readNames buf
  let (compC2s, buf) ← readNames buf
  let (compS2c, buf) ← readNames buf
  let buf ← bufEatString buf
  let buf ← bufEatString buf
  let (follows, buf) ← bufGetBool buf
  let (_, buf) ← bufGetInt buf
  return (⟨kex, hostkey, encC2s, encS2c, macC2s, macS2c, compC2s, compS2c, follows⟩, buf)

/-- What is to become of an offer. -/
def negotiate (isServer : Bool) (t : Tables) (sendKexFirstGuess : Bool) (ses : KexSes) (o : Offer) :
    Except Halt KexSes := do
  let kexguess2 := o.kex.contains kexguess2AlgoName
  let kex := matchAlgo isServer t.sshkex kexguess2 o.kex
  let algoKex ← orNoMatching "kex" (kex.1.bind (·.data))
  let hostkey := matchAlgo isServer t.sigalgs kexguess2 o.hostkey
  let sig ← orNoMatching "hostkey" hostkey.1
  let c2sCipher ← orNoMatching "enc c->s" (matchAlgo isServer t.sshciphers false o.encC2s).1
  let s2cCipher ← orNoMatching "enc s->c" (matchAlgo isServer t.sshciphers false o.encS2c).1
  let c2sMac ← orNoMatching "mac c->s"
    (macOr c2sCipher.data (matchAlgo isServer t.sshhashes false o.macC2s).1)
  let s2cMac ← orNoMatching "mac s->c"
    (macOr s2cCipher.data (matchAlgo isServer t.sshhashes false o.macS2c).1)
  let c2sComp ← orNoMatching "comp c->s" (matchAlgo isServer t.compressAlgosC2s false o.compC2s).1
  let s2cComp ← orNoMatching "comp s->c" (matchAlgo isServer t.compressAlgosS2c false o.compS2c).1
  return ses.settle sendKexFirstGuess
    (isServer && !ses.donefirstkex && o.kex.contains sshExtInfoC)
    (!ses.donefirstkex && o.kex.contains (if isServer then sshStrictKexC else sshStrictKexS))
    o.follows (kex.2 && hostkey.2)
    (.of isServer algoKex sig.data ⟨c2sCipher.data, c2sMac, c2sComp.data⟩
      ⟨s2cCipher.data, s2cMac, s2cComp.data⟩)

section
variable {δ : Type} {buf rest algo : Bytes} {names : List Bytes} {isServer kexguess2 : Bool}
  {l : List (AlgoType δ)}

theorem bufHasAlgo_of_readNames (h : readNames buf = .ok (names, rest)) :
    bufHasAlgo buf algo = .ok (names.contains algo) := by
  simp only [readNames, bind_ok, Prod.exists, pure, Except.pure, Except.ok.injEq,
    Prod.mk.injEq] at h
  obtain ⟨s, rest', got, names', found, rfl, rfl⟩ := h
  rw [bufHasAlgo, got]
  simp only [bind, Except.bind, found]
  rfl

theorem bufHasAlgoWhen_of_readNames {cond : Bool} (h : readNames buf = .ok (names, rest)) :
    bufHasAlgoWhen cond buf algo = .ok (cond && names.contains algo) := by
  cases cond with
  | true => exact bufHasAlgo_of_readNames h
  | false => rfl

theorem bufMatchAlgo_of_readNames (h : readNames buf = .ok (names, rest)) :
    bufMatchAlgo isServer buf l kexguess2 =
      .ok ((matchAlgo isServer l kexguess2 names).1, (matchAlgo isServer l kexguess2 names).2,
        rest) := by
  simp only [readNames, bind_ok, Prod.exists, pure, Except.pure, Except.ok.injEq,
    Prod.mk.injEq] at h
  obtain ⟨s, rest', got, names', found, rfl, rfl⟩ := h
  rw [bufMatchAlgo, got]
  simp only [bind, Except.bind, found]
  rfl

theorem readNames_of_bufMatchAlgo {a : Option (AlgoType δ)} {good : Bool}
    (h : bufMatchAlgo isServer buf l kexguess2 = .ok (a, good, rest)) :
    ∃ names, readNames buf = .ok (names, rest) := by
  simp only [bufMatchAlgo, bind_ok, Prod.exists, pure, Except.pure, Except.ok.injEq,
    Prod.mk.injEq] at h
  obtain ⟨s, rest', got, names', found, -, -, rfl⟩ := h
  refine ⟨names', ?_⟩
  rw [readNames, got]
  simp only [bind, Except.bind, found]
  rfl

theorem readNames_putAlgolist (h : Proper l) (rest : Bytes) :
    readNames (bufPutAlgolist l ++ rest) = .ok (received l, rest) := by
  rw [readNames, bufGetString_putAlgolist h]
  simp only [bind, Except.bind, getAlgolist_offered h]
  rfl

end

end Ikofi.Kex
