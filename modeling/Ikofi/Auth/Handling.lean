import Ikofi.Auth.Session
import Ikofi.Lib.Runs

/-!
# What a request can do

Every way through the userauth handler, told once: it ends the process with a
message, it answers without touching the user's record, or it hands a password
to `ikofi_svr_auth_password`.
-/

namespace Ikofi.Auth

open Wire PasswordFile Runs

/-- The ways in which `checkusername` returns. -/
inductive Checked (c : Config) (a : AuthState) (u : Bytes) : Bool → AuthState → Prop
  | long : maxUsernameLen < u.length → Checked c a u false a
  | first : u.length ≤ maxUsernameLen → strlen u = u.length → a.username = none →
      Checked c a u (!a.checkusernameFailed) { fillPasswd c a u with username := some u }
  | known : u.length ≤ maxUsernameLen → a.username = some u → a.pwName.isSome = true →
      Checked c a u (!a.checkusernameFailed) a
  | unfilled : u.length ≤ maxUsernameLen → a.username = some u → a.pwName = none →
      Checked c a u false { a with checkusernameFailed := true }

/-- Every error of a computation is an exit with a message. -/
def Exits {α : Type} (x : Except Halt α) : Prop := ∀ e, x = .error e → ∃ m, e = .exit m

section
variable {α β : Type} {x : Except Halt α} {f : α → Except Halt β}

theorem Exits.bind (hx : Exits x) (hf : ∀ a, x = .ok a → Exits (f a)) : Exits (x >>= f) := by
  intro e he
  rcases bind_error.mp he with he | ⟨a, ha, he⟩
  · exact hx e he
  · exact hf a ha e he

theorem Exits.ok {a : α} : Exits (.ok a) := by
  intro e he
  cases he

theorem Exits.exit {m : Bytes} : Exits (α := α) (.error (.exit m)) := by
  intro e he
  cases he
  exact ⟨m, rfl⟩

end

theorem bufGetBool_exits {buf : Bytes} : Exits (bufGetBool buf) := by
  cases buf <;> intro e he <;> cases he
  exact ⟨_, rfl⟩

theorem bufGetPtr_exits {buf : Bytes} {n : Nat} : Exits (bufGetPtr buf n) := by
  unfold bufGetPtr
  split
  · exact .exit
  · exact .ok

theorem bufGetInt_exits {buf : Bytes} : Exits (bufGetInt buf) :=
  bufGetPtr_exits.bind fun _ _ => .ok

theorem bufGetString_exits {buf : Bytes} : Exits (bufGetString buf) := by
  refine bufGetInt_exits.bind fun ⟨len, rest⟩ _ => ?_
  dsimp only
  split
  · exact .exit
  · exact bufGetPtr_exits.bind fun _ _ => .ok

theorem readHeader_exits {payload : Bytes} : Exits (readHeader payload) :=
  bufGetString_exits.bind fun _ _ => bufGetString_exits.bind fun _ _ =>
    bufGetString_exits.bind fun _ _ => .ok

section
variable {c : Config}

theorem failure_exits {s : Ses} {p i : Bool} : Exits (sendMsgUserauthFailure c s p i) := by
  unfold sendMsgUserauthFailure
  split
  · exact .exit
  · exact .ok

/-- A failure message changes the count of failures and nothing else. -/
theorem failure_ok {s t : Ses} {p i : Bool} (h : sendMsgUserauthFailure c s p i = .ok t) :
    t.auth = { s.auth with failcount := countFailure s.auth i } := by
  unfold sendMsgUserauthFailure at h
  split at h <;> cases h
  rfl

theorem checkusername_exits {a : AuthState} {u : Bytes} : Exits (checkusername c a u) := by
  unfold checkusername
  split
  · exact .ok
  · split
    · exact .exit
    · split
      · exact .ok
      · split
        · exact .ok
        · exact .exit

theorem checkusername_ok {a b : AuthState} {u : Bytes} {valid : Bool}
    (h : checkusername c a u = .ok (valid, b)) : Checked c a u valid b := by
  unfold checkusername at h
  split at h
  · cases h
    exact .long ‹_›
  · rename_i short
    split at h
    · cases h
    · rename_i whole
      have short := Nat.not_lt.mp short
      have whole := Classical.not_not.mp whole
      split at h
      · have filled : userExists { fillPasswd c a u with username := some u } =
            (!a.checkusernameFailed, { fillPasswd c a u with username := some u }) := by
          cases hf : a.checkusernameFailed <;> simp [userExists, fillPasswd, hf]
        rw [filled] at h
        cases h
        exact .first short whole ‹_›
      · split at h
        · rename_i known same
          subst same
          cases hn : a.pwName with
          | some name =>
            have found : userExists a = (!a.checkusernameFailed, a) := by
              cases hf : a.checkusernameFailed <;> simp [userExists, hf, hn]
            rw [found] at h
            cases h
            exact .known short ‹_› (by simp [hn])
          | none =>
            have lost : userExists a = (false, { a with checkusernameFailed := true }) := by
              cases hf : a.checkusernameFailed <;> simp [userExists, hf, hn]
              cases a
              simp_all
            rw [lost] at h
            cases h
            exact .unfilled short ‹_› hn
        · cases h

/-- What an answer that does not touch the user's record may change. Only a valid
user becomes authenticated this way. -/
def Answers (a : AuthState) (valid : Bool) (b : AuthState) : Prop :=
  ∃ n q d, b = { a with failcount := n, servPubkeyQueryCount := q, authdone := d } ∧
    (d = true → a.authdone = true ∨ valid = true)

theorem failure_answers {s t : Ses} {p i valid : Bool}
    (h : sendMsgUserauthFailure c s p i = .ok t) : Answers s.auth valid t.auth :=
  ⟨_, s.auth.servPubkeyQueryCount, s.auth.authdone, failure_ok h, Or.inl⟩

theorem mapError_exits {α : Type} {x : Except Bytes α} : Exits (x.mapError .exit) := by
  cases x
  · exact .exit
  · exact .ok

theorem verifyPubkey_exits {s : Ses} {attempt : Bool} {sigalgo keyblob : Bytes}
    {keys : PubkeyChecks} : Exits (verifyPubkey c s attempt sigalgo keyblob keys) := by
  unfold verifyPubkey
  split
  · exact .ok
  · refine mapError_exits.bind fun _ _ => ?_
    split
    · refine mapError_exits.bind fun _ _ => ?_
      split
      · exact .ok
      · exact failure_exits
    · exact failure_exits

theorem svrAuthPubkey_exits {s : Ses} {valid : Bool} {keys : PubkeyChecks} {buf : Bytes} :
    Exits (svrAuthPubkey c s valid keys buf) := by
  refine bufGetBool_exits.bind fun _ _ => bufGetString_exits.bind fun _ _ =>
    bufGetInt_exits.bind fun _ _ => bufGetPtr_exits.bind fun _ _ => ?_
  split
  · exact failure_exits
  · split
    · exact failure_exits
    · split
      · exact failure_exits.bind fun _ _ => .ok
      · exact verifyPubkey_exits

/-- The ways in which the public key method returns. -/
inductive KeyOutcome (c : Config) (valid : Bool) (s : Ses) : Ses → Prop
  | refused {i : Bool} {t : Ses} : sendMsgUserauthFailure c s false i = .ok t →
      KeyOutcome c valid s t
  | queried {i : Bool} {t : Ses} {n : Nat} : sendMsgUserauthFailure c s false i = .ok t →
      KeyOutcome c valid s { t with auth := { t.auth with servPubkeyQueryCount := n } }
  | offered {sigalgo keyblob : Bytes} :
      KeyOutcome c valid s { s with sent := s.sent ++ [.pkOk sigalgo keyblob] }
  | accepted : valid = true → KeyOutcome c valid s (sendMsgUserauthSuccess s)

theorem verifyPubkey_outcome {s t : Ses} {attempt : Bool} {sigalgo keyblob : Bytes}
    {keys : PubkeyChecks} (h : verifyPubkey c s attempt sigalgo keyblob keys = .ok t) :
    KeyOutcome c true s t := by
  unfold verifyPubkey at h
  split at h
  · cases h
    exact .offered
  · obtain ⟨got, -, h⟩ := bind_ok.mp h
    split at h
    · obtain ⟨verified, -, h⟩ := bind_ok.mp h
      split at h
      · cases h
        exact .accepted rfl
      · exact .refused h
    · exact .refused h

theorem svrAuthPubkey_outcome {s t : Ses} {valid : Bool} {keys : PubkeyChecks} {buf : Bytes}
    (h : svrAuthPubkey c s valid keys buf = .ok t) : KeyOutcome c valid s t := by
  obtain ⟨_, -, h⟩ := bind_ok.mp h
  obtain ⟨_, -, h⟩ := bind_ok.mp h
  obtain ⟨_, -, h⟩ := bind_ok.mp h
  obtain ⟨_, -, h⟩ := bind_ok.mp h
  split at h
  · exact .refused h
  · rename_i invalid
    rw [show valid = true by simpa using invalid]
    split at h
    · exact .refused h
    · split at h
      · obtain ⟨u, hu, h⟩ := bind_ok.mp h
        cases h
        exact .queried hu
      · exact verifyPubkey_outcome h

theorem svrAuthPubkey_answers {s t : Ses} {valid : Bool} {keys : PubkeyChecks} {buf : Bytes}
    (h : svrAuthPubkey c s valid keys buf = .ok t) : Answers s.auth valid t.auth := by
  cases svrAuthPubkey_outcome h with
  | refused failed => exact failure_answers failed
  | queried failed =>
    rw [failure_ok failed]
    exact ⟨_, _, _, rfl, Or.inl⟩
  | offered => exact ⟨_, _, _, rfl, Or.inl⟩
  | accepted known => exact ⟨_, _, _, rfl, fun _ => Or.inr known⟩

end

/-- The request makes `svr_auth_password` hand password `p` to the hook in session
state `t`, after a request under user name `u`. -/
structure Reaches (c : Config) (s : Ses) (r : Request) (t : Ses) (u p : Bytes) : Prop where
  fresh : s.auth.authdone = false
  method : ∃ buf, readHeader r.payload = .ok ⟨u, lit "ssh-connection", lit "password", buf⟩ ∧
    ∃ buf' rest, bufGetBool buf = .ok (false, buf') ∧ bufGetString buf' = .ok (p, rest)
  checked : ∃ valid, checkusername c s.auth u = .ok (valid, t.auth)
  session : t = { sendMsgUserauthBanner s with auth := t.auth }
  enabled : t.auth.password = true
  short : p.length ≤ dropbearMaxPasswordLen

/-- Everything that handling a request can come to. -/
inductive Handles (c : Config) (s : Ses) (r : Request) : Except Halt Ses → Prop
  | done : s.auth.authdone = true → Handles c s r (.ok s)
  | exits {m : Bytes} : Handles c s r (.error (.exit m))
  | answers {h : Header} {valid : Bool} {a : AuthState} {t : Ses} : s.auth.authdone = false →
      readHeader r.payload = .ok h → Checked c s.auth h.username valid a →
      Answers a (valid && h.method = lit "publickey") t.auth → Handles c s r (.ok t)
  | password {t : Ses} {u p : Bytes} : Reaches c s r t u p →
      Handles c s r (tryPassword c t r.file p)

section
variable {c : Config} {s : Ses} {r : Request}

theorem banner_auth : (sendMsgUserauthBanner s).auth = s.auth := by
  unfold sendMsgUserauthBanner
  split <;> rfl

/-- A result that is never a null dereference, and otherwise an answer. -/
theorem Handles.of_exits {h : Header} {valid : Bool} {a : AuthState} {x : Except Halt Ses}
    (fresh : s.auth.authdone = false) (header : readHeader r.payload = .ok h)
    (checked : Checked c s.auth h.username valid a) (exits : Exits x)
    (answers : ∀ t, x = .ok t → Answers a (valid && h.method = lit "publickey") t.auth) :
    Handles c s r x := by
  cases hx : x with
  | ok t => exact .answers fresh header checked (answers t hx)
  | error e =>
    obtain ⟨m, rfl⟩ := exits e hx
    exact .exits

theorem failure_handles {h : Header} {valid : Bool} {a : AuthState}
    (fresh : s.auth.authdone = false) (header : readHeader r.payload = .ok h)
    (checked : Checked c s.auth h.username valid a) (p i : Bool) :
    Handles c s r (sendMsgUserauthFailure c { sendMsgUserauthBanner s with auth := a } p i) :=
  .of_exits fresh header checked failure_exits fun _ => failure_answers

/-- A password request is answered, or its password reaches the hook. -/
theorem svrAuthPassword_handles {u buf : Bytes} {valid : Bool} {a : AuthState}
    (fresh : s.auth.authdone = false)
    (header : readHeader r.payload = .ok ⟨u, lit "ssh-connection", lit "password", buf⟩)
    (checked : checkusername c s.auth u = .ok (valid, a)) (enabled : a.password = true) :
    Handles c s r
      (svrAuthPassword c { sendMsgUserauthBanner s with auth := a } true r.file buf) := by
  have refused := failure_handles fresh header (checkusername_ok checked)
  unfold svrAuthPassword
  cases hb : bufGetBool buf with
  | error e =>
    obtain ⟨m, rfl⟩ := bufGetBool_exits e hb
    exact .exits
  | ok x =>
    obtain ⟨changepw, buf'⟩ := x
    cases changepw with
    | true => exact refused false true
    | false =>
      cases hp : bufGetString buf' with
      | error e =>
        obtain ⟨m, rfl⟩ := bufGetString_exits e hp
        simp only [bind, Except.bind, hp]
        exact .exits
      | ok x =>
        obtain ⟨p, rest⟩ := x
        simp only [bind, Except.bind, hp, Bool.false_eq_true, if_false, Bool.not_true]
        split
        · exact refused false true
        · rename_i short
          refine .password ⟨fresh, ⟨buf, header, buf', rest, hb, hp⟩, ⟨valid, checked⟩, rfl, enabled, ?_⟩
          exact Nat.not_lt.mp short

theorem dispatch_handles {h : Header} {valid : Bool} {a : AuthState}
    (fresh : s.auth.authdone = false) (header : readHeader r.payload = .ok h)
    (service : h.service = lit "ssh-connection")
    (checked : checkusername c s.auth h.username = .ok (valid, a)) :
    Handles c s r (dispatch c { sendMsgUserauthBanner s with auth := a } valid r h) := by
  have refused := failure_handles fresh header (checkusername_ok checked)
  unfold dispatch
  split
  · split
    · rename_i blank
      simp [allowblankpass] at blank
    · exact refused false false
  · split
    · rename_i publickey
      have method : h.method = lit "publickey" := by
        simp only [Bool.and_eq_true, decide_eq_true_eq] at publickey
        exact publickey.2
      refine .of_exits fresh header (checkusername_ok checked) svrAuthPubkey_exits fun t ht => ?_
      simpa [method] using svrAuthPubkey_answers ht
    · split
      · rename_i password
        simp only [Bool.and_eq_true, decide_eq_true_eq] at password
        obtain ⟨username, _, _, buf⟩ := h
        obtain rfl := service
        obtain rfl := password.2
        exact svrAuthPassword_handles fresh header checked password.1
      · exact refused false true

theorem recv_handles : Handles c s r (recvMsgUserauthRequest c s r) := by
  unfold recvMsgUserauthRequest
  split
  · exact .done ‹_›
  · rename_i undone
    have fresh : s.auth.authdone = false := by simpa using undone
    cases header : readHeader r.payload with
    | error e =>
      obtain ⟨m, rfl⟩ := readHeader_exits e header
      exact .exits
    | ok h =>
      simp only [bind, Except.bind, banner_auth]
      split
      · exact .exits
      · rename_i service
        cases checked : checkusername c s.auth h.username with
        | error e =>
          obtain ⟨m, rfl⟩ := checkusername_exits e checked
          exact .exits
        | ok x => exact dispatch_handles fresh header (Classical.not_not.mp service) checked

/-- Where the hook is reached, the rest of the request is its comparison. -/
theorem Reaches.recv {t : Ses} {u p : Bytes} (h : Reaches c s r t u p) :
    recvMsgUserauthRequest c s r = tryPassword c t r.file p := by
  obtain ⟨buf, header, buf', rest, hb, hp⟩ := h.method
  obtain ⟨valid, checked⟩ := h.checked
  have none : ¬ lit "password" = lit "none" := by decide
  have pubkey : ¬ lit "password" = lit "publickey" := by decide
  unfold recvMsgUserauthRequest
  rw [if_neg (by simp [h.fresh]), header]
  simp only [bind, Except.bind, banner_auth, checked, dispatch, none, pubkey, if_false, decide_false,
    Bool.and_false, Bool.false_eq_true, ne_eq, not_true, h.enabled, decide_true, Bool.and_self,
    if_true, svrAuthPassword, hb, hp, Bool.not_true, Nat.not_lt.mpr h.short]
  rw [← h.session]

end

/-- The payload of a userauth request as a client writes it. -/
def userauthRequest (u method buf : Bytes) : Bytes :=
  putString u ++ (putString (lit "ssh-connection") ++ (putString method ++ buf))

def passwordRequest (u p : Bytes) : Bytes := userauthRequest u (lit "password") (0 :: putString p)

theorem readHeader_userauthRequest {u method buf : Bytes} (hu : u.length ≤ maxStringLen)
    (hm : method.length ≤ maxStringLen) :
    readHeader (userauthRequest u method buf) = .ok ⟨u, lit "ssh-connection", method, buf⟩ := by
  have service : (lit "ssh-connection").length ≤ maxStringLen := by decide
  simp [readHeader, userauthRequest, bufGetString_putString hu, bufGetString_putString service,
    bufGetString_putString hm, bind, Except.bind, pure, Except.pure]

theorem reaches_passwordRequest {c : Config} {s : Ses} {file : Option Bytes} {keys : PubkeyChecks}
    {u p : Bytes} {valid : Bool} {a : AuthState} (fresh : s.auth.authdone = false)
    (hu : u.length ≤ maxStringLen) (checked : checkusername c s.auth u = .ok (valid, a))
    (enabled : a.password = true) (short : p.length ≤ dropbearMaxPasswordLen) :
    Reaches c s ⟨passwordRequest u p, file, keys⟩ { sendMsgUserauthBanner s with auth := a } u p := by
  have header : readHeader (passwordRequest u p) =
      .ok ⟨u, lit "ssh-connection", lit "password", 0 :: putString p⟩ :=
    readHeader_userauthRequest hu (by decide)
  have password := bufGetString_putString (s := p) (Nat.le_trans short (by decide)) []
  rw [List.append_nil] at password
  exact ⟨fresh, ⟨_, header, _, [], rfl, password⟩, ⟨valid, checked⟩, rfl, enabled, short⟩

/-- The password as the hook passes it on: only if it holds no NUL. -/
def whole (password text : Bytes) : Option Bytes :=
  if password.length == strlen password then some text else none

/-- The two branches of `ikofi_svr_auth_password`. -/
inductive Hook (c : Config) (a : AuthState) (file : Option Bytes) (p : Bytes) :
    Crypts → AuthState → Prop
  | fixed {user hash : Bytes} : Delivers file user hash → a.username = some user →
      Hook c a file p ⟨true, some hash, whole p (passwordHash c p)⟩ { a with pwPasswd := some hash }
  | single : (∀ user hash, Delivers file user hash → a.username ≠ some user) →
      Hook c a file p ⟨false, a.pwPasswd, whole p p⟩ a

section
variable {c : Config} {a b : AuthState} {file : Option Bytes} {p : Bytes} {k : Crypts}

/-- The pointers of the test for the fixed user, followed to its end. -/
theorem matchesFile_cases (file : Option Bytes) (name : Option Bytes) :
    (∃ user hash, Delivers file user hash ∧ name = some user ∧
      matchesFile (ikofiGetUserPassword file) name = .ok true) ∨
    ((∀ user hash, Delivers file user hash → name ≠ some user) ∧
      matchesFile (ikofiGetUserPassword file) name = .ok false) ∨
    ((HalfFile file ∨ name = none ∧ ∃ user hash, Delivers file user hash) ∧
      matchesFile (ikofiGetUserPassword file) name = .error .segv) := by
  obtain ⟨filledUser, filledHash⟩ := ikofiGetUserPassword_filled file
  simp only [Delivers, HalfFile]
  generalize ikofiGetUserPassword file = up at filledUser filledHash
  obtain ⟨ret, user, hash⟩ := up
  cases ret with
  | false => simp [matchesFile]
  | true =>
    cases user with
    | none => simp [matchesFile]
    | some user =>
      have hu : user.isEmpty = false := by simpa using filledUser user rfl
      cases hash with
      | none => simp [matchesFile, hu]
      | some hash =>
        have hh : hash.isEmpty = false := by simpa using filledHash hash rfl
        cases name with
        | none => simp [matchesFile, hu, hh]
        | some name =>
          by_cases same : user = name
          · subst same
            simp [matchesFile, hu, hh]
          · simp [matchesFile, hu, hh, same, Ne.symm same]

theorem hook_ok (h : ikofiSvrAuthPassword c a file p = .ok (k, b)) : Hook c a file p k b := by
  unfold ikofiSvrAuthPassword at h
  rcases matchesFile_cases file a.username with ⟨user, hash, d, name, m⟩ | ⟨other, m⟩ | ⟨-, m⟩
  · dsimp only at h
    rw [m, d] at h
    cases h
    exact .fixed d name
  · simp only [m, Except.map] at h
    cases h
    exact .single other
  · simp only [m, Except.map] at h
    cases h

theorem hook_error {e : Halt} (h : ikofiSvrAuthPassword c a file p = .error e) :
    HalfFile file ∨ a.username = none ∧ ∃ user hash, Delivers file user hash := by
  unfold ikofiSvrAuthPassword at h
  rcases matchesFile_cases file a.username with ⟨user, hash, d, name, m⟩ | ⟨other, m⟩ | ⟨why, m⟩
  · simp [m, Except.map] at h
  · simp [m, Except.map] at h
  · exact why

/-- Comparing the two strings refuses the password, or accepts it if they are equal. -/
theorem compare_ok {s t : Ses} (h : comparePassword c s k = .ok t) :
    sendMsgUserauthFailure c s false true = .ok t ∨
    (t = sendMsgUserauthSuccess s ∧ ∃ text, text ≠ [] ∧ k.testcrypt = some text ∧
      k.passwdcrypt = some text) := by
  unfold comparePassword at h
  split at h
  · exact Or.inl h
  · split at h
    · cases h
    · split at h
      · exact Or.inl h
      · rename_i filled
        split at h
        · rename_i test _ _ passwd _ same
          subst same
          cases h
          exact Or.inr ⟨rfl, test, by simpa using filled, ‹_›, ‹_›⟩
        · exact Or.inl h

theorem compare_error {s : Ses} {e : Halt} (h : comparePassword c s k = .error e)
    (set : k.passwdcrypt ≠ none) : ∃ m, e = .exit m := by
  unfold comparePassword at h
  split at h
  · exact failure_exits e h
  · split at h
    · exact absurd ‹_› set
    · split at h
      · exact failure_exits e h
      · split at h
        · cases h
        · exact failure_exits e h

/-- The password method refuses a request, or compares its password. -/
theorem svrAuthPassword_ok {s t : Ses} {valid : Bool} {buf : Bytes}
    (h : svrAuthPassword c s valid file buf = .ok t) :
    sendMsgUserauthFailure c s false true = .ok t ∨
    ∃ p k b, Hook c s.auth file p k b ∧ comparePassword c { s with auth := b } k = .ok t := by
  obtain ⟨⟨changepw, buf'⟩, -, h⟩ := bind_ok.mp h
  dsimp only at h
  split at h
  · exact Or.inl h
  · obtain ⟨⟨password, rest⟩, -, h⟩ := bind_ok.mp h
    dsimp only at h
    split at h
    · exact Or.inl h
    · split at h
      · exact Or.inl h
      · obtain ⟨⟨k, b⟩, hook, h⟩ := bind_ok.mp h
        exact Or.inr ⟨password, k, b, hook_ok hook, h⟩

theorem dispatch_ok {s t : Ses} {valid : Bool} {r : Request} {h : Header}
    (dispatched : dispatch c s valid r h = .ok t) :
    (h.method = lit "none" ∧ sendMsgUserauthFailure c s false false = .ok t) ∨
    (h.method = lit "publickey" ∧ s.auth.pubkey = true ∧ KeyOutcome c valid s t) ∨
    (h.method = lit "password" ∧ s.auth.password = true ∧
      svrAuthPassword c s true r.file h.buf = .ok t) ∨
    sendMsgUserauthFailure c s false true = .ok t := by
  unfold dispatch at dispatched
  split at dispatched
  · rename_i none
    split at dispatched
    · rename_i blank
      simp [allowblankpass] at blank
    · exact Or.inl ⟨none, dispatched⟩
  · split at dispatched
    · rename_i publickey
      simp only [Bool.and_eq_true, decide_eq_true_eq] at publickey
      exact Or.inr (Or.inl ⟨publickey.2, publickey.1, svrAuthPubkey_outcome dispatched⟩)
    · split at dispatched
      · rename_i password
        simp only [Bool.and_eq_true, decide_eq_true_eq] at password
        exact Or.inr (Or.inr (Or.inl ⟨password.2, password.1, dispatched⟩))
      · exact Or.inr (Or.inr (Or.inr dispatched))

/-- A request that is looked at has a header, and its name is checked. -/
theorem recv_ok {s t : Ses} {r : Request} (h : recvMsgUserauthRequest c s r = .ok t) :
    (s.auth.authdone = true ∧ t = s) ∨
    (s.auth.authdone = false ∧ ∃ h valid a, readHeader r.payload = .ok h ∧
      Checked c s.auth h.username valid a ∧
      dispatch c { sendMsgUserauthBanner s with auth := a } valid r h = .ok t) := by
  unfold recvMsgUserauthRequest at h
  split at h
  · cases h
    exact Or.inl ⟨‹_›, rfl⟩
  · rename_i undone
    obtain ⟨header, read, h⟩ := bind_ok.mp h
    split at h
    · cases h
    · obtain ⟨⟨valid, a⟩, checked, dispatched⟩ := bind_ok.mp h
      rw [banner_auth] at checked
      exact Or.inr ⟨by simpa using undone, header, valid, a, read, checkusername_ok checked,
        dispatched⟩

end

/-- How the session moves on when the process does not end. -/
inductive Moves (c : Config) (s : Ses) (r : Request) (t : Ses) : Prop
  | done : s.auth.authdone = true → t = s → Moves c s r t
  | answers {h : Header} {valid : Bool} {a : AuthState} : s.auth.authdone = false →
      readHeader r.payload = .ok h → Checked c s.auth h.username valid a →
      Answers a (valid && h.method = lit "publickey") t.auth → Moves c s r t
  | refused {v : Ses} {u p : Bytes} {k : Crypts} {b : AuthState} {n : Nat} :
      Reaches c s r v u p → Hook c v.auth r.file p k b → t.auth = { b with failcount := n } →
      Moves c s r t
  | accepted {v : Ses} {u p text : Bytes} {k : Crypts} {b : AuthState} :
      Reaches c s r v u p → Hook c v.auth r.file p k b → t.auth = { b with authdone := true } →
      text ≠ [] → k.testcrypt = some text → k.passwdcrypt = some text → Moves c s r t

theorem recv_moves {c : Config} {s t : Ses} {r : Request}
    (h : recvMsgUserauthRequest c s r = .ok t) : Moves c s r t := by
  have handled := recv_handles (c := c) (s := s) (r := r)
  rw [h] at handled
  generalize hx : Except.ok t = x at handled
  cases handled with
  | done undone => cases hx; exact .done undone rfl
  | exits => cases hx
  | answers fresh header checked answers => cases hx; exact .answers fresh header checked answers
  | password reaches =>
    obtain ⟨⟨k, b⟩, hook, cmp⟩ := bind_ok.mp hx.symm
    rcases compare_ok cmp with failed | ⟨rfl, text, filled, test, passwd⟩
    · exact .refused reaches (hook_ok hook) (failure_ok failed)
    · exact .accepted reaches (hook_ok hook) rfl filled test passwd

theorem step_moves {c : Config} {s t : Ses} {r : Request} (h : step c s r = some t) :
    Moves c s r t :=
  recv_moves (ok_of_toOption h)

/-- What the check of the name and the hook keep, a request keeps, if it does not
depend on the counters and on whether the session is authenticated. -/
theorem step_preserves {c : Config} {s t : Ses} {r : Request} {I : AuthState → Prop}
    (frame : ∀ a n q d, I a →
      I { a with failcount := n, servPubkeyQueryCount := q, authdone := d })
    (check : ∀ h valid b, readHeader r.payload = .ok h → Checked c s.auth h.username valid b → I b)
    (hook : ∀ v u p k b, Reaches c s r v u p → I v.auth → Hook c v.auth r.file p k b → I b)
    (h : I s.auth) (hs : step c s r = some t) : I t.auth := by
  have reached : ∀ v u p, Reaches c s r v u p → I v.auth := by
    intro v u p reaches
    obtain ⟨buf, header, -⟩ := reaches.method
    obtain ⟨valid, checked⟩ := reaches.checked
    exact check _ valid _ header (checkusername_ok checked)
  cases step_moves hs with
  | done _ same => exact same ▸ h
  | answers _ header checked answers =>
    obtain ⟨n, q, d, same, -⟩ := answers
    rw [same]
    exact frame _ n q d (check _ _ _ header checked)
  | refused reaches passed same =>
    have kept := hook _ _ _ _ _ reaches (reached _ _ _ reaches) passed
    rw [same]
    exact frame _ _ _ _ kept
  | accepted reaches passed same _ _ _ =>
    have kept := hook _ _ _ _ _ reaches (reached _ _ _ reaches) passed
    rw [same]
    exact frame _ _ _ _ kept

end Ikofi.Auth
