import Ikofi.Auth.Methods
import Ikofi.Auth.Sound
import Ikofi.Keys.Plain

/-!
# Let in by a key

`svr_auth_pubkey` asks `checkpubkey` about the key of a request. A session that has been let
in was let in by one request: with a password that is one of the secrets it holds, or with a key
that a line of `authorized_keys` spells out and a signature by it.
-/

namespace Ikofi.Keys

open Wire Auth PasswordFile Runs

/-- The fields of a publickey request. -/
structure Presented where
  attempt : Bool
  sigalgo : Bytes
  keyblob : Bytes
  deriving DecidableEq, Repr

def readPresented (buf : Bytes) : Except Halt Presented := do
  let (attempt, buf) ← bufGetBool buf
  let (sigalgo, buf) ← bufGetString buf
  let (keybloblen, buf) ← bufGetInt buf
  let keyblob ← bufGetPtr buf keybloblen
  return ⟨attempt, sigalgo, keyblob⟩

/-- `keyalgo` in `svr_auth_pubkey`, by way of the types of the signature and of the key. -/
def keyalgo (sigalgo : Bytes) : Option Bytes :=
  if sigalgo = lit "rsa-sha2-256" then some (lit "ssh-rsa")
  else if signkeyNames.any fun name => decide (name = sigalgo) then some sigalgo
  else none

/-- The request is a publickey request with these fields. -/
def Presents (r : Request) (k : Presented) : Prop :=
  ∃ h, readHeader r.payload = .ok h ∧ h.method = lit "publickey" ∧ readPresented h.buf = .ok k

section
variable {ω : Type}

/-- A request that meets an `authorized_keys` file, which its answers come from. Where the
search of the file ends the process, no session goes on and the answer is no. -/
structure Asked (parse : Option Bytes → Option ω) where
  request : Request
  authorizedKeys : Option Bytes
  known : ∀ k, Presents request k → request.keys.signatureKnown = (keyalgo k.sigalgo).isSome
  listed : ∀ k algo, Presents request k → keyalgo k.sigalgo = some algo →
    (request.keys.checkpubkey = true ↔
      ∃ o, checkpubkey parse algo k.keyblob authorizedKeys = .ok (some o))

variable {parse : Option Bytes → Option ω}

def askedStep (parse : Option Bytes → Option ω) (c : Config) (s : Ses) (a : Asked parse) :
    Option Ses := step c s a.request

/-- What a password may be that is accepted for the user `name`: the one whose hash
`master_password` has, the single-use password `g`, the filler where there is none of these, and
the hash itself if it was read for an earlier request and the user is no longer in the file. -/
inductive Secret (c : Config) (g : Bytes) (files : List (Option Bytes)) (file name : Option Bytes)
    (p : Bytes) : Prop
  | stored {user : Bytes} : Delivers file user (passwordHash c p) → name = some user →
      Secret c g files file name p
  | singleUse : c.enableSingleUsePasswords = true → p = g → Secret c g files file name p
  | filler : c.enableSingleUsePasswords = false → p = lit "!!" →
      (∀ user hash, Delivers file user hash → name ≠ some user) → Secret c g files file name p
  | earlier {old : Option Bytes} {user : Bytes} : old ∈ files → Delivers old user p →
      name = some user → (∀ hash, ¬ Delivers file user hash) → Secret c g files file name p

/-- The ways in which a request lets its session in, after requests that met these contents of
`master_password`. -/
inductive LetsIn (c : Config) (g : Bytes) (files : List (Option Bytes)) (s : Ses)
    (a : Asked parse) : Prop
  | password {v : Ses} {u p : Bytes} : Reaches c s a.request v u p →
      Secret c g files a.request.file v.auth.username p → LetsIn c g files s a
  | key {k : Presented} {algo content line : Bytes} {o : Options ω} : s.auth.pubkey = true →
      Presents a.request k → k.attempt = true → keyalgo k.sigalgo = some algo →
      a.authorizedKeys = some content → line ∈ getlines [] content →
      Lists parse algo k.keyblob o line → a.request.keys.bufVerify = .ok true →
      LetsIn c g files s a

theorem svrAuthPubkey_eq (c : Config) (s : Ses) (valid : Bool) (keys : PubkeyChecks)
    (buf : Bytes) :
    svrAuthPubkey c s valid keys buf = (do
      let k ← readPresented buf
      if !valid then sendMsgUserauthFailure c s false false
      else if !keys.signatureKnown then sendMsgUserauthFailure c s false false
      else if !keys.checkpubkey then
        let s ← sendMsgUserauthFailure c s false (decide (0 < s.auth.servPubkeyQueryCount))
        return { s with auth := { s.auth with
          servPubkeyQueryCount := (s.auth.servPubkeyQueryCount + 1) % 0x100000000 } }
      else verifyPubkey c s k.attempt k.sigalgo k.keyblob keys) := by
  simp only [svrAuthPubkey, readPresented, bind_assoc, pure_bind]

/-- The method refuses, or the key is allowed and what remains is its signature. -/
theorem svrAuthPubkey_readPresented {c : Config} {s : Ses} {valid : Bool} {keys : PubkeyChecks}
    {buf : Bytes} {t : Ses} (h : svrAuthPubkey c s valid keys buf = .ok t) :
    ∃ k, readPresented buf = .ok k ∧
      (t.auth.authdone = s.auth.authdone ∨
        valid = true ∧ keys.signatureKnown = true ∧ keys.checkpubkey = true ∧
          verifyPubkey c s k.attempt k.sigalgo k.keyblob keys = .ok t) := by
  rw [svrAuthPubkey_eq] at h
  obtain ⟨k, read, h⟩ := bind_ok.mp h
  refine ⟨k, read, ?_⟩
  split at h
  · rw [failure_ok h]
    exact .inl rfl
  rename_i named
  split at h
  · rw [failure_ok h]
    exact .inl rfl
  rename_i known
  split at h
  · obtain ⟨u, failed, h⟩ := bind_ok.mp h
    cases h
    rw [failure_ok failed]
    exact .inl rfl
  rename_i listed
  exact .inr ⟨by simpa using named, by simpa using known, by simpa using listed, h⟩

theorem dispatch_publickey {c : Config} {s t : Ses} {valid : Bool} {r : Request} {h : Header}
    (method : h.method = lit "publickey") (dispatched : dispatch c s valid r h = .ok t) :
    t.auth.authdone = s.auth.authdone ∨
      s.auth.pubkey = true ∧ svrAuthPubkey c s valid r.keys h.buf = .ok t := by
  have none : ¬ lit "publickey" = lit "none" := by decide
  have password : ¬ lit "publickey" = lit "password" := by decide
  unfold dispatch at dispatched
  rw [method, if_neg none] at dispatched
  cases enabled : s.auth.pubkey with
  | true =>
    rw [if_pos (by simp [enabled])] at dispatched
    exact .inr ⟨rfl, dispatched⟩
  | false =>
    rw [if_neg (by simp [enabled]), if_neg (by simp [password])] at dispatched
    rw [failure_ok dispatched]
    exact .inl rfl

theorem mapError_ok {α : Type} {x : Except Bytes α} {b : α} (h : x.mapError Halt.exit = .ok b) :
    x = .ok b := by
  cases x with
  | error e => cases h
  | ok a =>
    cases h
    rfl

/-- An attempt lets in with a good signature only. -/
theorem verifyPubkey_done {c : Config} {s t : Ses} {attempt : Bool} {sigalgo keyblob : Bytes}
    {keys : PubkeyChecks} (h : verifyPubkey c s attempt sigalgo keyblob keys = .ok t)
    (fresh : s.auth.authdone = false) (done : t.auth.authdone = true) :
    attempt = true ∧ keys.bufGetPubKey = .ok true ∧ keys.bufVerify = .ok true := by
  have refused : ¬ sendMsgUserauthFailure c s false true = .ok t := by
    intro failed
    rw [failure_ok failed, fresh] at done
    cases done
  unfold verifyPubkey at h
  split at h
  · cases h
    rw [fresh] at done
    cases done
  rename_i attempted
  obtain ⟨got, read, h⟩ := bind_ok.mp h
  split at h
  · rename_i usable
    subst usable
    obtain ⟨verified, signed, h⟩ := bind_ok.mp h
    split at h
    · rename_i good
      subst good
      exact ⟨by simpa using attempted, mapError_ok read, mapError_ok signed⟩
    · exact absurd h refused
  · exact absurd h refused

/-- A publickey request that lets in went through every check. -/
theorem dispatch_lets_in {c : Config} {s t : Ses} {valid : Bool} {r : Request} {h : Header}
    (method : h.method = lit "publickey") (dispatched : dispatch c s valid r h = .ok t)
    (fresh : s.auth.authdone = false) (done : t.auth.authdone = true) :
    s.auth.pubkey = true ∧ valid = true ∧ ∃ k, readPresented h.buf = .ok k ∧
      r.keys.signatureKnown = true ∧ r.keys.checkpubkey = true ∧ k.attempt = true ∧
      r.keys.bufGetPubKey = .ok true ∧ r.keys.bufVerify = .ok true := by
  have stays : ¬ t.auth.authdone = s.auth.authdone := by
    rw [done, fresh]
    decide
  obtain ⟨enabled, tried⟩ := (dispatch_publickey method dispatched).resolve_left stays
  obtain ⟨k, presented, tried⟩ := svrAuthPubkey_readPresented tried
  obtain ⟨named, known, listed, verified⟩ := tried.resolve_left stays
  exact ⟨enabled, named, k, presented, known, listed, verifyPubkey_done verified fresh done⟩

/-- What a yes to both questions says about the file. -/
theorem Asked.found {a : Asked parse} {k : Presented} (presents : Presents a.request k)
    (known : a.request.keys.signatureKnown = true) (listed : a.request.keys.checkpubkey = true) :
    ∃ algo o, keyalgo k.sigalgo = some algo ∧
      checkpubkey parse algo k.keyblob a.authorizedKeys = .ok (some o) := by
  obtain ⟨algo, type⟩ := Option.isSome_iff_exists.mp ((a.known k presents).symm.trans known)
  obtain ⟨o, found⟩ := (a.listed k algo presents type).mp listed
  exact ⟨algo, o, type, found⟩

theorem checkpubkey_line {algo keyblob : Bytes} {file : Option Bytes} {o : Options ω}
    (h : checkpubkey parse algo keyblob file = .ok (some o)) :
    ∃ content line, file = some content ∧ line ∈ getlines [] content ∧
      Lists parse algo keyblob o line := by
  cases file with
  | none => cases h
  | some content =>
    obtain ⟨before, line, after, parts, -, decides⟩ := checkLines_some h
    refine ⟨content, line, rfl, ?_, checkpubkeyLine_some decides⟩
    simp [parts]

/-- A password that the hook finds equal is a secret that the session holds. -/
theorem Hook.secret {c : Config} {g p text : Bytes} {files : List (Option Bytes)}
    {file : Option Bytes} {b b' : AuthState} {k : Crypts} (hook : Hook c b file p k b')
    (holds : Holds c files g b) (test : k.testcrypt = some text)
    (passwd : k.passwdcrypt = some text) : Secret c g files file b.username p := by
  cases hook with
  | @fixed user hash delivers name =>
    obtain rfl := whole_eq_some test
    obtain rfl : hash = passwordHash c p := Option.some.inj passwd
    exact .stored delivers name
  | single other =>
    obtain rfl := whole_eq_some test
    rcases holds.set p passwd with ⟨on, same⟩ | ⟨off, -, same⟩ | ⟨old, met, user, delivers, name⟩
    · exact .singleUse on same
    · exact .filler off same other
    · exact .earlier met delivers name fun hash now => other user hash now name

section
variable {c : Config} {g : Bytes} {files : List (Option Bytes)} {s t : Ses} {a : Asked parse}

theorem publickey_lets_in {header : Header} (h : askedStep parse c s a = some t)
    (fresh : s.auth.authdone = false) (done : t.auth.authdone = true)
    (read : readHeader a.request.payload = .ok header)
    (method : header.method = lit "publickey") : LetsIn c g files s a := by
  rcases recv_ok (ok_of_toOption h) with
    ⟨before, -⟩ | ⟨-, header', valid, b, read', named, dispatched⟩
  · rw [fresh] at before
    cases before
  obtain rfl := Except.ok.inj (read.symm.trans read')
  obtain ⟨enabled, -, k, presented, known, listed, attempt, -, good⟩ :=
    dispatch_lets_in method dispatched (named.authdone.trans fresh) done
  have presents : Presents a.request k := ⟨header, read, method, presented⟩
  obtain ⟨algo, o, type, found⟩ := Asked.found presents known listed
  obtain ⟨content, line, file, member, lists⟩ := checkpubkey_line found
  have still : s.auth.pubkey = true := (enabledMethods_inj named.enabled).1 ▸ enabled
  exact .key still presents attempt type file member lists good

/-- A request that lets its session in does so in one of the two ways. -/
theorem askedStep_lets_in (h : askedStep parse c s a = some t) (fresh : s.auth.authdone = false)
    (done : t.auth.authdone = true) (holds : Holds c files g s.auth) : LetsIn c g files s a := by
  cases step_moves h with
  | done before _ =>
    rw [fresh] at before
    cases before
  | refused reaches hook same =>
    have kept := hook.authdone.trans reaches.authdone
    rw [same] at done
    exact absurd done (by simp [kept])
  | accepted reaches hook _ _ test passwd =>
    exact .password reaches (Hook.secret hook (reaches.holds holds) test passwd)
  | answers _ read named answers =>
    obtain ⟨n, q, d, same, only⟩ := answers
    rw [same] at done
    have method := (only done).resolve_left (by simp [named.authdone, fresh])
    simp only [Bool.and_eq_true, decide_eq_true_eq] at method
    exact publickey_lets_in h fresh (same ▸ done) read method.2

end

end

/-! ## An attempt that a client makes -/

/-- An attempt as a client writes it; the signature is what remains. -/
def keyRequest (u sigalgo keyblob signature : Bytes) : Bytes :=
  userauthRequest u (lit "publickey")
    (1 :: (putString sigalgo ++ (putString keyblob ++ signature)))

section
variable {u sigalgo keyblob signature : Bytes}

theorem readPresented_attempt (type : sigalgo.length ≤ maxStringLen)
    (blob : keyblob.length ≤ bufMaxIncr) :
    readPresented (1 :: (putString sigalgo ++ (putString keyblob ++ signature))) =
      .ok ⟨true, sigalgo, keyblob⟩ := by
  have small : keyblob.length % 0x100000000 = keyblob.length := by
    apply Nat.mod_eq_of_lt
    unfold bufMaxIncr at blob
    omega
  have ptr : bufGetPtr (keyblob ++ signature) keyblob.length = .ok keyblob := bufGetPtr_append blob
  have bool : bufGetBool (1 :: (putString sigalgo ++ (putString keyblob ++ signature))) =
      .ok (true, putString sigalgo ++ (putString keyblob ++ signature)) := rfl
  simp only [readPresented, bool, bufGetString_putString type, bufGetInt_putString, small, ptr,
    bind, Except.bind, pure, Except.pure]

theorem readHeader_keyRequest (name : u.length ≤ maxStringLen) :
    readHeader (keyRequest u sigalgo keyblob signature) = .ok ⟨u, lit "ssh-connection",
      lit "publickey", 1 :: (putString sigalgo ++ (putString keyblob ++ signature))⟩ :=
  readHeader_userauthRequest name (by decide)

theorem presents_keyRequest {r : Request} (name : u.length ≤ maxStringLen)
    (type : sigalgo.length ≤ maxStringLen) (blob : keyblob.length ≤ bufMaxIncr)
    (payload : r.payload = keyRequest u sigalgo keyblob signature) {k : Presented} :
    Presents r k ↔ k = ⟨true, sigalgo, keyblob⟩ := by
  have read : readHeader (keyRequest u sigalgo keyblob signature) = _ := readHeader_keyRequest name
  have presented : readPresented (1 :: (putString sigalgo ++ (putString keyblob ++ signature))) =
    .ok ⟨true, sigalgo, keyblob⟩ := readPresented_attempt type blob
  constructor
  · rintro ⟨h, read', -, presented'⟩
    rw [payload] at read'
    obtain rfl := Except.ok.inj (read.symm.trans read')
    exact (Except.ok.inj (presented.symm.trans presented')).symm
  · rintro rfl
    exact ⟨_, payload ▸ read, rfl, presented⟩

end

/-- A device with one key, and an attempt with it, for the examples. -/
def sampleKeys : Config := { sampleConfig true with enablePublicKeyAuth := true }

def sampleStart : Ses :=
  svrAuthinitialise sampleKeys (some (fileOf [sampleKey])) none (Vector.replicate 8 0)

def sampleAttempt : Asked fun _ => some () where
  request := {
    payload := keyRequest (lit "u") (lit "rsa-sha2-256") (keyBlob (lit "ssh-rsa") [1]) []
    file := none
    keys := ⟨true, true, .ok true, .ok true⟩ }
  authorizedKeys := some (fileOf [sampleKey])
  known := by
    intro k presents
    obtain rfl := (presents_keyRequest (by decide) (by decide) (by decide) rfl).mp presents
    rfl
  listed := by
    intro k algo presents type
    obtain rfl := (presents_keyRequest (by decide) (by decide) (by decide) rfl).mp presents
    obtain rfl : lit "ssh-rsa" = algo := Option.some.inj type
    exact ⟨fun _ => ⟨⟨(), some (lit "me")⟩, by rfl⟩, fun _ => rfl⟩

section
variable {u sigalgo keyblob signature : Bytes} {ω : Type} {parse : Option Bytes → Option ω}
  {c : Config} {s : Ses} {a : Asked parse}

theorem recv_keyRequest {r : Request} (name : u.length ≤ maxStringLen)
    (payload : r.payload = keyRequest u sigalgo keyblob signature)
    (fresh : s.auth.authdone = false) :
    recvMsgUserauthRequest c s r = (do
      let x ← checkusername c s.auth u
      dispatch c { sendMsgUserauthBanner s with auth := x.2 } x.1 r ⟨u, lit "ssh-connection",
        lit "publickey", 1 :: (putString sigalgo ++ (putString keyblob ++ signature))⟩) := by
  unfold recvMsgUserauthRequest
  rw [if_neg (by simp [fresh]), payload, readHeader_keyRequest name]
  simp only [bind, Except.bind, banner_auth, ne_eq, not_true, if_false]

/-- A key that the file has, with a good signature, is let in where keys are enabled. -/
theorem listed_lets_in {b : AuthState} {algo : Bytes} {o : Options ω}
    (name : u.length ≤ maxStringLen) (type : sigalgo.length ≤ maxStringLen)
    (blob : keyblob.length ≤ bufMaxIncr)
    (payload : a.request.payload = keyRequest u sigalgo keyblob signature)
    (fresh : s.auth.authdone = false) (enabled : s.auth.pubkey = true)
    (checked : checkusername c s.auth u = .ok (true, b)) (known : keyalgo sigalgo = some algo)
    (found : checkpubkey parse algo keyblob a.authorizedKeys = .ok (some o))
    (usable : a.request.keys.bufGetPubKey = .ok true)
    (good : a.request.keys.bufVerify = .ok true) :
    ∃ t, askedStep parse c s a = some t ∧ t.auth.authdone = true := by
  have presents : Presents a.request ⟨true, sigalgo, keyblob⟩ :=
    (presents_keyRequest name type blob payload).mpr rfl
  have still : b.pubkey = true :=
    (enabledMethods_inj (checkusername_ok checked).enabled).1.trans enabled
  have typed : a.request.keys.signatureKnown = true := by
    rw [a.known _ presents, known]
    rfl
  have listed : a.request.keys.checkpubkey = true := (a.listed _ algo presents known).mpr ⟨o, found⟩
  have none : ¬ lit "publickey" = lit "none" := by decide
  have received : recvMsgUserauthRequest c s a.request =
      .ok (sendMsgUserauthSuccess { sendMsgUserauthBanner s with auth := b }) := by
    rw [recv_keyRequest name payload fresh, checked]
    simp only [bind, Except.bind, dispatch, none, if_false, still, decide_true, Bool.and_self,
      if_true]
    rw [svrAuthPubkey_eq, readPresented_attempt type blob]
    simp only [bind, Except.bind, typed, listed, verifyPubkey, usable, good,
      multiauthmethod, Except.mapError, Bool.not_true, Bool.false_eq_true, if_false, if_true,
      Bool.false_and]
  refine ⟨sendMsgUserauthSuccess { sendMsgUserauthBanner s with auth := b }, ?_, rfl⟩
  rw [askedStep, step, received]
  rfl

/-- An attempt lets in exactly if keys are enabled, the name is that of the session, a line of
the file has the key under the type of the signature, and the signature is good. -/
theorem key_attempt_iff (name : u.length ≤ maxStringLen) (type : sigalgo.length ≤ maxStringLen)
    (blob : keyblob.length ≤ bufMaxIncr)
    (payload : a.request.payload = keyRequest u sigalgo keyblob signature)
    (fresh : s.auth.authdone = false) :
    (∃ t, askedStep parse c s a = some t ∧ t.auth.authdone = true) ↔
      s.auth.pubkey = true ∧ (∃ b, checkusername c s.auth u = .ok (true, b)) ∧
      (∃ algo o, keyalgo sigalgo = some algo ∧
        checkpubkey parse algo keyblob a.authorizedKeys = .ok (some o)) ∧
      a.request.keys.bufGetPubKey = .ok true ∧ a.request.keys.bufVerify = .ok true := by
  constructor
  · rintro ⟨t, h, done⟩
    have presents : Presents a.request ⟨true, sigalgo, keyblob⟩ :=
      (presents_keyRequest name type blob payload).mpr rfl
    have received := ok_of_toOption h
    rw [recv_keyRequest name payload fresh] at received
    obtain ⟨⟨valid, b⟩, checked, dispatched⟩ := bind_ok.mp received
    have named := checkusername_ok checked
    obtain ⟨enabled, rfl, k, presented, known, listed, -, usable, good⟩ :=
      dispatch_lets_in rfl dispatched (named.authdone.trans fresh) done
    obtain rfl := Except.ok.inj ((readPresented_attempt type blob).symm.trans presented)
    have still : s.auth.pubkey = true := (enabledMethods_inj named.enabled).1 ▸ enabled
    exact ⟨still, ⟨b, checked⟩, Asked.found presents known listed, usable, good⟩
  · rintro ⟨enabled, ⟨b, checked⟩, ⟨algo, o, keytype, found⟩, usable, good⟩
    exact listed_lets_in name type blob payload fresh enabled checked keytype found usable good

end

theorem key_attempt_iff_first :
    (∃ t, askedStep _ sampleKeys sampleStart sampleAttempt = some t ∧ t.auth.authdone = true) ↔
      sampleStart.auth.pubkey = true ∧
      (∃ b, checkusername sampleKeys sampleStart.auth (lit "u") = .ok (true, b)) ∧
      (∃ algo o, keyalgo (lit "rsa-sha2-256") = some algo ∧
        checkpubkey (fun _ => some ()) algo (keyBlob (lit "ssh-rsa") [1])
          sampleAttempt.authorizedKeys = .ok (some o)) ∧
      sampleAttempt.request.keys.bufGetPubKey = .ok true ∧
      sampleAttempt.request.keys.bufVerify = .ok true :=
  key_attempt_iff (by decide) (by decide) (by decide) rfl (by rfl)

/-! ## Over a session -/

section
variable {ω : Type} {parse : Option Bytes → Option ω} {c : Config} {s : Ses}

theorem run_pubkey {s₀ : Ses} {as : List (Asked parse)}
    (h : Reached (askedStep parse c) s₀ as s) : s.auth.pubkey = s₀.auth.pubkey :=
  (enabledMethods_inj (h.invariant
    (I := fun s => enabledMethods s.auth = enabledMethods s₀.auth) rfl
    fun _ _ _ before _ hs => step_enabled before hs)).1

/-- The contents of `master_password` that the requests met. -/
def filesMet (as : List (Asked parse)) : List (Option Bytes) := as.map fun a => a.request.file

theorem run_holds {authorizedKeys file : Option Bytes} {random : Vector UInt8 8}
    {as : List (Asked parse)}
    (h : Reached (askedStep parse c) (svrAuthinitialise c authorizedKeys file random) as s) :
    Holds c (filesMet as) (ikofiGenerateSingleUsePassword random) s.auth := by
  induction h with
  | start => exact init_holds
  | @next as t u a _ _ hs ih =>
    have met : filesMet (as ++ [a]) = filesMet as ++ [a.request.file] := List.map_append
    rw [met]
    exact step_holds (ih.mono (List.subset_append_left _ _)) (by simp) hs

/-- A session that has been let in was so by one request of its run, while it was not yet: its
password was a secret that the session held, or a line of the file that the request met spells
out its key, of the type its signature is of, and the signature is good. Keys count only where
the session started with the switch for them on and a file of keys. -/
theorem let_in_by_listed_key {authorizedKeys file : Option Bytes} {random : Vector UInt8 8}
    {as : List (Asked parse)}
    (h : Reached (askedStep parse c) (svrAuthinitialise c authorizedKeys file random) as s)
    (done : s.auth.authdone = true) :
    ∃ before a after t v, as = before ++ a :: after ∧
      Reached (askedStep parse c) (svrAuthinitialise c authorizedKeys file random) before t ∧
      t.auth.authdone = false ∧ askedStep parse c t a = some v ∧ v.auth.authdone = true ∧
      t.auth.pubkey = ikofiEnablePublicKeyAuth c authorizedKeys ∧
      LetsIn c (ikofiGenerateSingleUsePassword random) (filesMet before) t a := by
  induction h with
  | start =>
    rw [svrAuthinitialise_auth] at done
    cases done
  | @next as t u a run _ hs ih =>
    cases before : t.auth.authdone with
    | true =>
      obtain ⟨early, b, after, v, w, parts, rest⟩ := ih before
      exact ⟨early, b, after ++ [a], v, w, by simp [parts], rest⟩
    | false =>
      refine ⟨as, a, [], t, u, rfl, run, before, hs, done, ?_,
        askedStep_lets_in hs before done (run_holds run)⟩
      rw [run_pubkey run, svrAuthinitialise_auth]

end

/-- A password that is refused, as the first request of the session. -/
def wrongPassword : Asked fun _ => some () where
  request := {
    payload := passwordRequest (lit "u") (lit "no")
    file := some (lit "u:h")
    keys := {} }
  authorizedKeys := some (fileOf [sampleKey])
  known := by
    rintro k ⟨h, read, method, -⟩
    rw [passwordRequest, readHeader_userauthRequest (by decide) (by decide)] at read
    cases read
    exact absurd method (by decide)
  listed := by
    rintro k algo ⟨h, read, method, -⟩
    rw [passwordRequest, readHeader_userauthRequest (by decide) (by decide)] at read
    cases read
    exact absurd method (by decide)

/-- A wrong password, and the key behind it. -/
theorem let_in_by_listed_key_second :
    ∃ before a after t v, [wrongPassword, sampleAttempt] = before ++ a :: after ∧
      Reached (askedStep _ sampleKeys) sampleStart before t ∧ t.auth.authdone = false ∧
      askedStep _ sampleKeys t a = some v ∧ v.auth.authdone = true ∧
      t.auth.pubkey = ikofiEnablePublicKeyAuth sampleKeys (some (fileOf [sampleKey])) ∧
      LetsIn sampleKeys (ikofiGenerateSingleUsePassword (Vector.replicate 8 0))
        (filesMet before) t a := by
  obtain ⟨t, refused⟩ : ∃ t, askedStep _ sampleKeys sampleStart wrongPassword = some t :=
    ⟨_, by rfl⟩
  obtain ⟨s, hs, done⟩ :
      ∃ s, askedStep _ sampleKeys t sampleAttempt = some s ∧ s.auth.authdone = true := by
    have both : ((askedStep _ sampleKeys sampleStart wrongPassword).bind fun t =>
        askedStep _ sampleKeys t sampleAttempt).any (fun s => s.auth.authdone) = true := by rfl
    rw [refused, Option.bind_some, Option.any_eq_true] at both
    exact both
  exact let_in_by_listed_key (.next (.next .start trivial refused) trivial hs) done

end Ikofi.Keys
