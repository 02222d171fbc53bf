import Ikofi.Auth.Handling

/-!
# The user's record before a secret is checked

The record is filled with the first user name of at most 100 bytes, and stays
filled. A password request is tried whatever `checkusername` answered, so one
under a longer name may come to the comparison with nothing filled in, and a
`master_password` with half an entry makes the hook follow a null pointer.
-/

namespace Ikofi.Auth

open Wire PasswordFile Runs

/-- Once a session has a user name, the rest of the record is there too. -/
def Complete (c : Config) (a : AuthState) : Prop :=
  ∀ n, a.username = some n → n.length ≤ maxUsernameLen ∧ a.pwName = some n ∧
    a.pwDir = some c.homePath ∧ a.pwShell = some c.shellExe ∧ a.pwPasswd ≠ none

section
variable {c : Config} {s : Ses} {r : Request}

theorem Checked.complete {a b : AuthState} {u : Bytes} {valid : Bool} (h : Complete c a)
    (checked : Checked c a u valid b) : Complete c b := by
  cases checked with
  | long _ | known _ _ _ | unfilled _ _ _ => exact h
  | first short _ _ =>
    intro n hn
    obtain rfl : u = n := Option.some.inj hn
    exact ⟨short, rfl, rfl, rfl, by simp [fillPasswd]⟩

/-- A name that is not too long, or an earlier one, is in the record afterwards. -/
theorem Checked.named {a b : AuthState} {u : Bytes} {valid : Bool}
    (checked : Checked c a u valid b) (h : a.username ≠ none ∨ u.length ≤ maxUsernameLen) :
    b.username ≠ none := by
  cases checked with
  | long tooLong => exact h.resolve_right (Nat.not_le.mpr tooLong)
  | first _ _ _ => simp
  | known _ name _ | unfilled _ name _ => simp [name]

theorem Checked.valid_named {a b : AuthState} {u : Bytes} (checked : Checked c a u true b) :
    b.username ≠ none := by
  generalize hv : true = valid at checked
  cases checked with
  | long _ | unfilled _ _ _ => cases hv
  | first _ _ _ => simp
  | known _ name _ => simp [name]

theorem Hook.complete {a b : AuthState} {file : Option Bytes} {p : Bytes} {k : Crypts}
    (h : Complete c a) (hook : Hook c a file p k b) : Complete c b := by
  cases hook with
  | fixed _ _ =>
    intro n hn
    obtain ⟨short, name, dir, shell, -⟩ := h n hn
    exact ⟨short, name, dir, shell, by simp⟩
  | single _ => exact h

theorem Hook.username {a b : AuthState} {file : Option Bytes} {p : Bytes} {k : Crypts}
    (hook : Hook c a file p k b) : b.username = a.username := by
  cases hook <;> rfl

theorem Reaches.complete {t : Ses} {u p : Bytes} (h : Complete c s.auth)
    (reaches : Reaches c s r t u p) : Complete c t.auth := by
  obtain ⟨valid, checked⟩ := reaches.checked
  exact (checkusername_ok checked).complete h

theorem step_complete {t : Ses} (h : Complete c s.auth) (hs : step c s r = some t) :
    Complete c t.auth := by
  apply step_preserves (I := Complete c) ?_ ?_ ?_ h hs
  · intro a n q d before
    exact before
  · intro header valid b _ checked
    exact checked.complete h
  · intro v u p k b _ before hook
    exact hook.complete before

theorem Checked.authdone {a b : AuthState} {u : Bytes} {valid : Bool}
    (checked : Checked c a u valid b) : b.authdone = a.authdone := by
  cases checked <;> rfl

theorem Hook.authdone {a b : AuthState} {file : Option Bytes} {p : Bytes} {k : Crypts}
    (hook : Hook c a file p k b) : b.authdone = a.authdone := by
  cases hook <;> rfl

theorem Reaches.authdone {t : Ses} {u p : Bytes} (h : Reaches c s r t u p) :
    t.auth.authdone = false := by
  obtain ⟨valid, checked⟩ := h.checked
  rw [(checkusername_ok checked).authdone, h.fresh]

/-- A password request leaves out the two kinds that meet a null pointer: it finds
no half entry in `master_password`, and it comes under a name of at most 100
bytes unless the session has a name already. -/
def Usable (s : Ses) (r : Request) : Prop :=
  ∀ h, readHeader r.payload = .ok h → h.method = lit "password" →
    ¬ HalfFile r.file ∧ (s.auth.username ≠ none ∨ h.username.length ≤ maxUsernameLen)

theorem Reaches.usable {t : Ses} {u p : Bytes} (h : Reaches c s r t u p) (ok : Usable s r) :
    ¬ HalfFile r.file ∧ t.auth.username ≠ none := by
  obtain ⟨buf, header, -⟩ := h.method
  obtain ⟨valid, checked⟩ := h.checked
  obtain ⟨file, named⟩ := ok _ header rfl
  exact ⟨file, (checkusername_ok checked).named named⟩

/-- Only a session with a user name is authenticated. -/
theorem step_named {t : Ses} (h : s.auth.authdone = true → s.auth.username ≠ none)
    (ok : Usable s r) (hs : step c s r = some t) :
    t.auth.authdone = true → t.auth.username ≠ none := by
  cases step_moves hs with
  | done _ same => exact same ▸ h
  | answers fresh _ checked answers =>
    obtain ⟨n, q, d, same, valid⟩ := answers
    rw [same]
    intro done
    rcases valid done with before | publickey
    · rw [checked.authdone, fresh] at before
      cases before
    · obtain ⟨rfl, -⟩ := Bool.and_eq_true_iff.mp publickey
      exact checked.valid_named
  | refused reaches hook same =>
    rw [same]
    intro done
    have : false = true := reaches.authdone.symm.trans (hook.authdone.symm.trans done)
    cases this
  | accepted reaches hook same _ _ _ =>
    rw [same]
    intro _
    have := (reaches.usable ok).2
    rwa [← hook.username] at this

/-- A request that meets the two conditions does not follow a null pointer. -/
theorem recv_no_segv (h : Complete c s.auth) (ok : Usable s r) :
    recvMsgUserauthRequest c s r ≠ .error .segv := by
  intro crash
  have handled := recv_handles (c := c) (s := s) (r := r)
  rw [crash] at handled
  generalize hx : Except.error Halt.segv = x at handled
  cases handled with
  | done _ | exits | answers _ _ _ _ => cases hx
  | password reaches =>
    obtain ⟨file, named⟩ := reaches.usable ok
    rcases bind_error.mp hx.symm with null | ⟨⟨k, b⟩, hook, cmp⟩
    · rcases hook_error null with half | ⟨none, -⟩
      · exact file half
      · exact named none
    · have set : k.passwdcrypt ≠ none := by
        obtain ⟨n, hn⟩ := Option.ne_none_iff_exists'.mp named
        cases hook_ok hook with
        | fixed _ _ => simp
        | single _ => exact (reaches.complete h n hn).2.2.2.2
      obtain ⟨m, hm⟩ := compare_error cmp set
      cases hm

end

theorem init_complete {c : Config} {keys file : Option Bytes} {random : Vector UInt8 8} :
    Complete c (svrAuthinitialise c keys file random).auth ∧
    (svrAuthinitialise c keys file random).auth.username = none ∧
    (svrAuthinitialise c keys file random).auth.authdone = false := by
  rw [svrAuthinitialise_auth]
  refine ⟨fun n hn => ?_, rfl, rfl⟩
  cases hn

section
variable {c : Config} {keys file : Option Bytes} {random : Vector UInt8 8} {rs : List Request}
  {s : Ses}

theorem run_complete {ok : Ses → Request → Prop}
    (h : Run (step c) ok (svrAuthinitialise c keys file random) rs s) : Complete c s.auth :=
  h.invariant (I := fun s => Complete c s.auth) init_complete.1
    fun _ _ _ before _ hs => step_complete before hs

/-- In every session whose password requests meet the two conditions, the record
is complete wherever a password is compared, no request follows a null pointer,
and an authenticated session has a name, a home directory and a shell. -/
theorem auth_state_complete
    (h : Run (step c) Usable (svrAuthinitialise c keys file random) rs s) :
    (∀ r t u p, Usable s r → Reaches c s r t u p →
      t.auth.username ≠ none ∧ t.auth.pwName ≠ none ∧ t.auth.pwDir ≠ none ∧
      t.auth.pwShell ≠ none ∧ t.auth.pwPasswd ≠ none) ∧
    (∀ r, Usable s r → recvMsgUserauthRequest c s r ≠ .error .segv) ∧
    (s.auth.authdone = true → ∃ n, s.auth.username = some n ∧ n.length ≤ maxUsernameLen ∧
      s.auth.pwDir = some c.homePath ∧ s.auth.pwShell = some c.shellExe) := by
  have complete := run_complete h
  have named : s.auth.authdone = true → s.auth.username ≠ none :=
    h.invariant (I := fun s => s.auth.authdone = true → s.auth.username ≠ none)
      (fun done => by rw [init_complete.2.2] at done; cases done)
      fun _ _ _ before ok hs => step_named before ok hs
  refine ⟨?_, fun r ok => recv_no_segv complete ok, ?_⟩
  · intro r t u p ok reaches
    have set := (reaches.usable ok).2
    obtain ⟨n, hn⟩ := Option.ne_none_iff_exists'.mp set
    obtain ⟨-, name, dir, shell, passwd⟩ := reaches.complete complete n hn
    exact ⟨set, by simp [name], by simp [dir], by simp [shell], passwd⟩
  · intro done
    obtain ⟨n, hn⟩ := Option.ne_none_iff_exists'.mp (named done)
    obtain ⟨short, -, dir, shell, -⟩ := complete n hn
    exact ⟨n, hn, short, dir, shell⟩

end

/-- A session with single-use passwords and no public keys, for the examples. -/
def sampleConfig (singleUse : Bool) : Config where
  homePath := lit "/home"
  shellExe := lit "/bin/sh"
  enablePublicKeyAuth := false
  enableSingleUsePasswords := singleUse
  maxauthtries := 10
  banner := none
  sha512 := fun _ => List.replicate 64 0
  digest := fun _ => List.length_replicate

def sampleSession (singleUse : Bool) (file : Option Bytes) : Ses :=
  svrAuthinitialise (sampleConfig singleUse) none file (Vector.replicate 8 0)

/-- A wrong password under the name `u`. -/
def wrongPassword : Request := { payload := passwordRequest (lit "u") (lit "p"), file := none }

theorem auth_state_complete_after_refusal :
    ∃ s, step (sampleConfig true) (sampleSession true none) wrongPassword = some s ∧
      (∀ r t u p, Usable s r → Reaches (sampleConfig true) s r t u p →
        t.auth.username ≠ none ∧ t.auth.pwName ≠ none ∧ t.auth.pwDir ≠ none ∧
        t.auth.pwShell ≠ none ∧ t.auth.pwPasswd ≠ none) ∧
      (∀ r, Usable s r → recvMsgUserauthRequest (sampleConfig true) s r ≠ .error .segv) ∧
      (s.auth.authdone = true → ∃ n, s.auth.username = some n ∧ n.length ≤ maxUsernameLen ∧
        s.auth.pwDir = some (lit "/home") ∧ s.auth.pwShell = some (lit "/bin/sh")) := by
  have goesOn : (step (sampleConfig true) (sampleSession true none) wrongPassword).isSome := by
    decide +kernel
  obtain ⟨s, hs⟩ := Option.isSome_iff_exists.mp goesOn
  have usable : Usable (sampleSession true none) wrongPassword := by
    intro h header _
    have read : readHeader wrongPassword.payload =
        .ok ⟨lit "u", lit "ssh-connection", lit "password", 0 :: putString (lit "p")⟩ :=
      readHeader_userauthRequest (by decide) (by decide)
    obtain rfl := Except.ok.inj (header.symm.trans read)
    exact ⟨by decide, Or.inr (by decide)⟩
  exact ⟨s, hs, auth_state_complete (.next .start usable hs)⟩

/-- A first request under a name of 101 bytes comes to the comparison with no
record at all. -/
theorem long_name_unfilled :
    ¬ ∀ (c : Config) (keys file : Option Bytes) (random : Vector UInt8 8) (rs : List Request)
        (s : Ses) (r : Request) (t : Ses) (u p : Bytes),
      Reached (step c) (svrAuthinitialise c keys file random) rs s → Reaches c s r t u p →
      t.auth.username ≠ none ∧ t.auth.pwName ≠ none ∧ t.auth.pwDir ≠ none ∧
      t.auth.pwShell ≠ none ∧ t.auth.pwPasswd ≠ none := by
  intro claim
  have reaches : Reaches (sampleConfig true) (sampleSession true none)
      ⟨passwordRequest (List.replicate 101 97) (lit "p"), none, {}⟩ (sampleSession true none)
      (List.replicate 101 97) (lit "p") :=
    reaches_passwordRequest rfl (by decide) rfl rfl (by decide)
  exact (claim _ none none _ [] _ _ _ _ _ .start reaches).1 rfl

end Ikofi.Auth
