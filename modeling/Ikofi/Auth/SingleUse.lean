import Ikofi.Auth.Complete

/-!
# The secret that the single-use branch expects

The single-use password is kept in `pw_passwd`, where the fixed branch puts the
stored hash. A session in which that branch was taken therefore expects the hash
in its single-use branch, once the file no longer names its user.
-/

namespace Ikofi.Auth

open Wire PasswordFile Runs

/-- A password that reaches the hook does not meet an entry for the session's user
whose hash differs from the single-use password `g`. -/
def KeepsSecret (c : Config) (g : Bytes) (s : Ses) (r : Request) : Prop :=
  ∀ t u p user hash, Reaches c s r t u p → Delivers r.file user hash →
    t.auth.username = some user → hash = g

section
variable {c : Config} {s : Ses} {r : Request} {g : Bytes}

/-- Checking the name keeps a secret that is set. -/
theorem Checked.secret {a b : AuthState} {u : Bytes} {valid : Bool}
    (checked : Checked c a u valid b) (h : a.pwPasswd = some g) : b.pwPasswd = some g := by
  cases checked with
  | long _ | known _ _ _ | unfilled _ _ _ => exact h
  | first _ _ _ => simp [fillPasswd, h]

theorem Reaches.secret {t : Ses} {u p : Bytes} (reaches : Reaches c s r t u p)
    (h : s.auth.pwPasswd = some g) : t.auth.pwPasswd = some g := by
  obtain ⟨valid, checked⟩ := reaches.checked
  exact (checkusername_ok checked).secret h

theorem step_secret {t : Ses} (h : s.auth.pwPasswd = some g) (ok : KeepsSecret c g s r)
    (hs : step c s r = some t) : t.auth.pwPasswd = some g := by
  apply step_preserves (I := fun a => a.pwPasswd = some g) ?_ ?_ ?_ h hs
  · intro a n q d before
    exact before
  · intro header valid b _ checked
    exact checked.secret h
  · intro v u p k b reaches before hook
    cases hook with
    | fixed delivers name => rw [ok _ _ _ _ _ reaches delivers name]
    | single _ => exact before

end

section
variable {c : Config} {keys file : Option Bytes} {random : Vector UInt8 8} {rs : List Request}
  {s t : Ses} {r : Request} {u p : Bytes} {k : Crypts} {b : AuthState}

theorem init_secret (single : c.enableSingleUsePasswords = true) :
    (svrAuthinitialise c keys file random).auth.pwPasswd =
      some (ikofiGenerateSingleUsePassword random) := by
  simp [svrAuthinitialise_auth, single]

/-- As long as no request of the session took the fixed branch on another hash,
the single-use branch expects the generated password. -/
theorem single_use_secret (single : c.enableSingleUsePasswords = true)
    (h : Run (step c) (KeepsSecret c (ikofiGenerateSingleUsePassword random))
      (svrAuthinitialise c keys file random) rs s)
    (reaches : Reaches c s r t u p) (hook : ikofiSvrAuthPassword c t.auth r.file p = .ok (k, b))
    (branch : k.fixed = false) :
    k.passwdcrypt = some (ikofiGenerateSingleUsePassword random) := by
  have kept : s.auth.pwPasswd = some (ikofiGenerateSingleUsePassword random) :=
    h.invariant (I := fun s => s.auth.pwPasswd = some _) (init_secret single)
      fun _ _ _ before ok hs => step_secret before ok hs
  cases hook_ok hook with
  | fixed _ _ => cases branch
  | single _ => exact reaches.secret kept

end

/-- A password request under the name `u` while the file is `content`. -/
def attempt (content : Option Bytes) : Request :=
  { payload := passwordRequest (lit "u") (lit "p"), file := content }

/-- A session with single-use passwords after a first request under the name `u`. -/
def afterAttempt (passwd : Bytes) : Ses :=
  { sampleSession true none with
    auth := { fillPasswd (sampleConfig true) (sampleSession true none).auth (lit "u") with
      username := some (lit "u"), failcount := 1, pwPasswd := some passwd }
    sent := [.failure (lit "password") false] }

theorem reaches_afterAttempt (passwd : Bytes) :
    Reaches (sampleConfig true) (afterAttempt passwd) (attempt none) (afterAttempt passwd)
      (lit "u") (lit "p") :=
  reaches_passwordRequest rfl (by decide) rfl rfl (by decide)

theorem single_use_secret_second_attempt :
    (⟨false, some (lit "aaaaaaaa"), some (lit "p")⟩ : Crypts).passwdcrypt =
      some (ikofiGenerateSingleUsePassword (Vector.replicate 8 0)) := by
  have first : step (sampleConfig true) (sampleSession true none) (attempt none) =
    some (afterAttempt (lit "aaaaaaaa")) := by decide +kernel
  have keeps : KeepsSecret (sampleConfig true)
      (ikofiGenerateSingleUsePassword (Vector.replicate 8 0)) (sampleSession true none)
      (attempt none) := by
    intro t u p user hash _ delivers
    cases delivers
  exact single_use_secret rfl (.next .start keeps first) (reaches_afterAttempt _) rfl rfl

/-- The user's entry is deleted after a wrong attempt; the next attempt is held
against the hash of the deleted entry. -/
theorem single_use_expects_hash :
    ¬ ∀ (c : Config) (keys file : Option Bytes) (random : Vector UInt8 8) (rs : List Request)
        (s t : Ses) (r : Request) (u p : Bytes) (k : Crypts) (b : AuthState),
      c.enableSingleUsePasswords = true →
      Reached (step c) (svrAuthinitialise c keys file random) rs s → Reaches c s r t u p →
      ikofiSvrAuthPassword c t.auth r.file p = .ok (k, b) → k.fixed = false →
      k.passwdcrypt = some (ikofiGenerateSingleUsePassword random) := by
  intro claim
  have first : step (sampleConfig true) (sampleSession true none) (attempt (some (lit "u:h"))) =
    some (afterAttempt (lit "h")) := by decide +kernel
  have expected := claim _ none none (Vector.replicate 8 0) _ _ _ _ _ _
    ⟨false, some (lit "h"), some (lit "p")⟩ _ rfl (.next .start trivial first)
    (reaches_afterAttempt (lit "h")) rfl rfl
  exact absurd expected (by decide)

end Ikofi.Auth
