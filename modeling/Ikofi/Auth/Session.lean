import Ikofi.Wire
import Ikofi.Base64
import Ikofi.PasswordFile.Native

/-!
# Authentication of one session

The userauth handler with the hooks of `jni-dropbear.c`. The content of
`master_password` is read anew by every password request, so it comes with the
request. Public keys are checked by code that is not followed here; a request
carries what that code answers.
-/

namespace Ikofi.Auth

open Wire PasswordFile

def maxUsernameLen : Nat := 100

def dropbearMaxPasswordLen : Nat := 100

/-! `svr_getopts` clears these, and no option of this build sets them. -/

def noauthpass : Bool := false

def norootpass : Bool := false

def allowblankpass : Bool := false

def multiauthmethod : Bool := false

/-- The preferences a session runs with. `sha512` is the digest function. -/
structure Config where
  homePath : Bytes
  shellExe : Bytes
  enablePublicKeyAuth : Bool
  enableSingleUsePasswords : Bool
  maxauthtries : Nat
  banner : Option Bytes
  sha512 : Bytes → Bytes
  digest : ∀ b, (sha512 b).length = 64

/-- `ses.authstate`. The two bits of `authtypes` are `pubkey` and `password`; a
string field is `none` while its pointer is null. -/
structure AuthState where
  username : Option Bytes := none
  pubkey : Bool := false
  password : Bool := false
  failcount : Nat := 0
  authdone : Bool := false
  checkusernameFailed : Bool := false
  servPubkeyQueryCount : Nat := 0
  pwUid : Nat := 0
  pwGid : Nat := 0
  pwName : Option Bytes := none
  pwDir : Option Bytes := none
  pwShell : Option Bytes := none
  pwPasswd : Option Bytes := none
  deriving DecidableEq, Repr

inductive Message
  | banner (text : Bytes)
  | failure (methods : Bytes) (partialSuccess : Bool)
  | pkOk (sigalgo keyblob : Bytes)
  | success
  deriving DecidableEq, Repr

structure Ses where
  auth : AuthState
  banner : Option Bytes
  allowprivport : Bool := false
  sent : List Message := []
  deriving DecidableEq, Repr

/-- What the public key code answers to a request. Reading the key and verifying
the signature may also end the process, with a message. -/
structure PubkeyChecks where
  signatureKnown : Bool := false
  checkpubkey : Bool := false
  bufGetPubKey : Except Bytes Bool := .ok false
  bufVerify : Except Bytes Bool := .ok false

/-- A userauth request, with the content of `master_password` at that time. -/
structure Request where
  payload : Bytes
  file : Option Bytes
  keys : PubkeyChecks := {}

def tab64 : Bytes := lit "abcdefghijk!mnopqrstuvwxyzABCDEFGH@JKLMN#PQRSTUVWXYZ$%23456789^&"

/-- The eight random bytes become a password. -/
def ikofiGenerateSingleUsePassword (random : Vector UInt8 8) : Bytes :=
  random.toList.map fun b => tab64.getD (b &&& 63).toNat 0

def ikofiEnablePublicKeyAuth (c : Config) (authorizedKeys : Option Bytes) : Bool :=
  c.enablePublicKeyAuth && configFileExists authorizedKeys 10

def ikofiSvrAuthinitialise (c : Config) (authorizedKeys file : Option Bytes)
    (random : Vector UInt8 8) (a : AuthState) : AuthState :=
  let a := { a with pubkey := ikofiEnablePublicKeyAuth c authorizedKeys }
  let a := if ikofiEnablePasswordFile file then { a with password := true } else a
  if c.enableSingleUsePasswords then
    { a with password := true, pwPasswd := some (ikofiGenerateSingleUsePassword random) }
  else a

def svrAuthinitialise (c : Config) (authorizedKeys file : Option Bytes)
    (random : Vector UInt8 8) : Ses where
  auth := ikofiSvrAuthinitialise c authorizedKeys file random { pubkey := true }
  banner := c.banner

theorem svrAuthinitialise_auth (c : Config) (authorizedKeys file : Option Bytes)
    (random : Vector UInt8 8) :
    (svrAuthinitialise c authorizedKeys file random).auth =
      { pubkey := ikofiEnablePublicKeyAuth c authorizedKeys
        password := ikofiEnablePasswordFile file || c.enableSingleUsePasswords
        pwPasswd :=
          if c.enableSingleUsePasswords then some (ikofiGenerateSingleUsePassword random)
          else none } := by
  simp only [svrAuthinitialise, ikofiSvrAuthinitialise]
  cases ikofiEnablePasswordFile file <;> cases c.enableSingleUsePasswords <;> rfl

def sendMsgUserauthBanner (s : Ses) : Ses :=
  match s.banner with
  | some text => { s with banner := none, sent := s.sent ++ [.banner text] }
  | none => s

/-- The list of methods in a failure message. -/
def authMethods (a : AuthState) : Bytes :=
  (if a.pubkey then lit "publickey" ++ (if a.password then lit "," else []) else [])
    ++ (if a.password then lit "password" else [])

/-- The count of failures once a failure message is sent. -/
def countFailure (a : AuthState) (incrfail : Bool) : Nat :=
  if incrfail then (a.failcount + 1) % 0x100000000 else a.failcount

def sendMsgUserauthFailure (c : Config) (s : Ses) (partialSuccess incrfail : Bool) :
    Except Halt Ses :=
  if c.maxauthtries < countFailure s.auth incrfail then
    .error (.exit (lit "Max auth tries reached - user '"
      ++ s.auth.pwName.getD (lit "is invalid") ++ lit "'"))
  else
    .ok { s with
      sent := s.sent ++ [.failure (authMethods s.auth) partialSuccess]
      auth := { s.auth with failcount := countFailure s.auth incrfail } }

def sendMsgUserauthSuccess (s : Ses) : Ses :=
  { s with
    sent := s.sent ++ [.success]
    auth := { s.auth with authdone := true }
    allowprivport := s.allowprivport || s.auth.pwUid == 0 }

def fillPasswd (c : Config) (a : AuthState) (username : Bytes) : AuthState :=
  { a with
    pwUid := 0
    pwGid := 0
    pwName := some username
    pwDir := some c.homePath
    pwShell := some c.shellExe
    pwPasswd := some (a.pwPasswd.getD (lit "!!")) }

/-- The end of `checkusername`: a failure is remembered. -/
def userExists (a : AuthState) : Bool × AuthState :=
  if a.checkusernameFailed then (false, a)
  else if a.pwName.isNone then (false, { a with checkusernameFailed := true })
  else (true, a)

def checkusername (c : Config) (a : AuthState) (username : Bytes) :
    Except Halt (Bool × AuthState) :=
  if maxUsernameLen < username.length then .ok (false, a)
  else if strlen username ≠ username.length then
    dropbearExit "Attempted username with a null byte"
  else match a.username with
    | none => .ok (userExists { fillPasswd c a username with username := some username })
    | some known =>
      if username = known then .ok (userExists a)
      else dropbearExit "Client trying multiple usernames"

/-- The test for the fixed user, in the order in which it follows the pointers. -/
def matchesFile (up : UserPassword) (username : Option Bytes) : Except Halt Bool :=
  if up.ret then
    match up.user with
    | none => .error .segv
    | some user =>
      if user.isEmpty then .ok false
      else match up.password with
        | none => .error .segv
        | some password =>
          if password.isEmpty then .ok false
          else match username with
            | none => .error .segv
            | some name => .ok (user == name)
  else .ok false

/-- What `ikofi_svr_auth_password` leaves in its two arguments, and the branch it took. -/
structure Crypts where
  fixed : Bool
  passwdcrypt : Option Bytes
  testcrypt : Option Bytes
  deriving DecidableEq, Repr

def passwordHash (c : Config) (password : Bytes) : Bytes := Base64.encode (c.sha512 password)

def ikofiSvrAuthPassword (c : Config) (a : AuthState) (file : Option Bytes) (password : Bytes) :
    Except Halt (Crypts × AuthState) :=
  let up := ikofiGetUserPassword file
  let whole := password.length == strlen password
  (matchesFile up a.username).map fun fixed =>
    if fixed then
      (⟨true, up.password, if whole then some (passwordHash c password) else none⟩,
        { a with pwPasswd := up.password })
    else (⟨false, a.pwPasswd, if whole then some password else none⟩, a)

/-- What follows the hook: the two strings are compared. -/
def comparePassword (c : Config) (s : Ses) (crypts : Crypts) : Except Halt Ses :=
  match crypts.testcrypt with
  | none => sendMsgUserauthFailure c s false true
  | some testcrypt =>
    match crypts.passwdcrypt with
    | none => .error .segv
    | some passwdcrypt =>
      if passwdcrypt.isEmpty then sendMsgUserauthFailure c s false true
      else if testcrypt = passwdcrypt then
        if multiauthmethod && s.auth.pubkey then
          sendMsgUserauthFailure c { s with auth := { s.auth with password := false } } true false
        else .ok (sendMsgUserauthSuccess s)
      else sendMsgUserauthFailure c s false true

/-- `svr_auth_password` on a password that is not too long. -/
def tryPassword (c : Config) (s : Ses) (file : Option Bytes) (password : Bytes) :
    Except Halt Ses := do
  let (crypts, a) ← ikofiSvrAuthPassword c s.auth file password
  comparePassword c { s with auth := a } crypts

def svrAuthPassword (c : Config) (s : Ses) (validUser : Bool) (file : Option Bytes) (buf : Bytes) :
    Except Halt Ses := do
  let (changepw, buf) ← bufGetBool buf
  if changepw then sendMsgUserauthFailure c s false true
  else
    let (password, _) ← bufGetString buf
    if !validUser then sendMsgUserauthFailure c s false true
    else if dropbearMaxPasswordLen < password.length then sendMsgUserauthFailure c s false true
    else tryPassword c s file password

/-- The end of `svr_auth_pubkey`, on a key that is allowed: a query is answered,
an attempt has its signature verified. -/
def verifyPubkey (c : Config) (s : Ses) (attempt : Bool) (sigalgo keyblob : Bytes)
    (keys : PubkeyChecks) : Except Halt Ses :=
  if !attempt then .ok { s with sent := s.sent ++ [.pkOk sigalgo keyblob] }
  else do
    if ← keys.bufGetPubKey.mapError .exit then
      if ← keys.bufVerify.mapError .exit then
        if multiauthmethod && s.auth.password then
          sendMsgUserauthFailure c { s with auth := { s.auth with pubkey := false } } true false
        else .ok (sendMsgUserauthSuccess s)
      else sendMsgUserauthFailure c s false true
    else sendMsgUserauthFailure c s false true

def svrAuthPubkey (c : Config) (s : Ses) (validUser : Bool) (keys : PubkeyChecks) (buf : Bytes) :
    Except Halt Ses := do
  let (attempt, buf) ← bufGetBool buf
  let (sigalgo, buf) ← bufGetString buf
  let (keybloblen, buf) ← bufGetInt buf
  let keyblob ← bufGetPtr buf keybloblen
  if !validUser then sendMsgUserauthFailure c s false false
  else if !keys.signatureKnown then sendMsgUserauthFailure c s false false
  else if !keys.checkpubkey then
    let s ← sendMsgUserauthFailure c s false (decide (0 < s.auth.servPubkeyQueryCount))
    return { s with auth := { s.auth with
      servPubkeyQueryCount := (s.auth.servPubkeyQueryCount + 1) % 0x100000000 } }
  else verifyPubkey c s attempt sigalgo keyblob keys

/-- The fields that every userauth request starts with. -/
structure Header where
  username : Bytes
  service : Bytes
  method : Bytes
  buf : Bytes

def readHeader (payload : Bytes) : Except Halt Header := do
  let (username, buf) ← bufGetString payload
  let (service, buf) ← bufGetString buf
  let (method, buf) ← bufGetString buf
  return ⟨username, service, method, buf⟩

/-- What the handler does once the user name is checked. -/
def dispatch (c : Config) (s : Ses) (validUser : Bool) (r : Request) (h : Header) :
    Except Halt Ses :=
  if h.method = lit "none" then
    if validUser && allowblankpass && !noauthpass && !(norootpass && s.auth.pwUid == 0)
        && s.auth.pwPasswd == some [] then
      .ok (sendMsgUserauthSuccess s)
    else sendMsgUserauthFailure c s false false
  else if s.auth.pubkey && h.method = lit "publickey" then
    svrAuthPubkey c s validUser r.keys h.buf
  else if s.auth.password && h.method = lit "password" then
    svrAuthPassword c s true r.file h.buf
  else sendMsgUserauthFailure c s false true

def recvMsgUserauthRequest (c : Config) (s : Ses) (r : Request) : Except Halt Ses :=
  if s.auth.authdone then .ok s
  else do
    let s := sendMsgUserauthBanner s
    let h ← readHeader r.payload
    if h.service ≠ lit "ssh-connection" then dropbearExit "unknown service in auth"
    else
      let (validUser, a) ← checkusername c s.auth h.username
      dispatch c { s with auth := a } validUser r h

/-- The session goes on after a request unless the process ends. -/
def step (c : Config) (s : Ses) (r : Request) : Option Ses :=
  (recvMsgUserauthRequest c s r).toOption

end Ikofi.Auth
