import Ikofi.Auth.Complete

/-!
# Which passwords are accepted

Over one content of `master_password`. The secret a session holds is the
single-use password, the hash of the user's own entry, or, with single-use
passwords off, the filler `!!` that stands for a locked account. The filler is
compared as a plain string, and so it is a password.
-/

namespace Ikofi.Auth

open Wire PasswordFile Runs

/-- What makes an accepted password right: it is the one stored for the user, or
the session's single-use password `g`. -/
def Justified (c : Config) (file : Option Bytes) (g u p : Bytes) : Prop :=
  Delivers file u (passwordHash c p) ∨ (c.enableSingleUsePasswords = true ∧ p = g)

/-- The secrets that a session may hold that has met these contents of the file. -/
structure Holds (c : Config) (files : List (Option Bytes)) (g : Bytes) (a : AuthState) : Prop where
  unset : a.pwPasswd = none → a.username = none ∧ c.enableSingleUsePasswords = false
  set : ∀ w, a.pwPasswd = some w →
    (c.enableSingleUsePasswords = true ∧ w = g) ∨
    (c.enableSingleUsePasswords = false ∧ a.username ≠ none ∧ w = lit "!!") ∨
    ∃ file ∈ files, ∃ user, Delivers file user w ∧ a.username = some user

section
variable {c : Config} {file : Option Bytes} {files : List (Option Bytes)} {g : Bytes} {s : Ses}
  {r : Request}

theorem Holds.mono {more : List (Option Bytes)} {a : AuthState} (h : Holds c files g a)
    (sub : files ⊆ more) : Holds c more g a := by
  refine ⟨h.unset, fun w hw => ?_⟩
  rcases h.set w hw with single | filler | ⟨file, met, rest⟩
  · exact .inl single
  · exact .inr (.inl filler)
  · exact .inr (.inr ⟨file, sub met, rest⟩)

theorem Checked.holds {a b : AuthState} {u : Bytes} {valid : Bool}
    (checked : Checked c a u valid b) (h : Holds c files g a) : Holds c files g b := by
  cases checked with
  | long _ | known _ _ _ | unfilled _ _ _ => exact ⟨h.unset, h.set⟩
  | first _ _ name =>
    refine ⟨fun none => by simp [fillPasswd] at none, ?_⟩
    intro w hw
    cases hp : a.pwPasswd with
    | none =>
      obtain rfl : lit "!!" = w := by simpa [fillPasswd, hp] using hw
      exact Or.inr (Or.inl ⟨(h.unset hp).2, by simp, rfl⟩)
    | some v =>
      obtain rfl : v = w := by simpa [fillPasswd, hp] using hw
      rcases h.set v hp with single | ⟨-, named, -⟩ | ⟨-, -, user, -, named⟩
      · exact Or.inl single
      · exact absurd name named
      · rw [name] at named; cases named

theorem Hook.holds {a b : AuthState} {p : Bytes} {k : Crypts} (hook : Hook c a file p k b)
    (met : file ∈ files) (h : Holds c files g a) : Holds c files g b := by
  cases hook with
  | single _ => exact h
  | @fixed user hash delivers name =>
    refine ⟨fun none => (by cases none), ?_⟩
    intro w hw
    obtain rfl : hash = w := Option.some.inj hw
    exact Or.inr (Or.inr ⟨file, met, user, delivers, name⟩)

theorem Reaches.holds {t : Ses} {u p : Bytes} (reaches : Reaches c s r t u p)
    (h : Holds c files g s.auth) : Holds c files g t.auth := by
  obtain ⟨valid, checked⟩ := reaches.checked
  exact (checkusername_ok checked).holds h

theorem step_holds {t : Ses} (h : Holds c files g s.auth) (met : r.file ∈ files)
    (hs : step c s r = some t) : Holds c files g t.auth := by
  apply step_preserves (I := Holds c files g) ?_ ?_ ?_ h hs
  · intro a n q d before
    exact ⟨before.unset, before.set⟩
  · intro header valid b _ checked
    exact checked.holds h
  · intro v u p k b _ before hook
    exact hook.holds met before

theorem init_holds {keys : Option Bytes} {random : Vector UInt8 8} :
    Holds c files (ikofiGenerateSingleUsePassword random)
      (svrAuthinitialise c keys file random).auth := by
  rw [svrAuthinitialise_auth]
  cases single : c.enableSingleUsePasswords with
  | true => exact ⟨by simp, by simp [single]⟩
  | false => exact ⟨by simp [single], by simp⟩

end

theorem whole_eq_some {p text v : Bytes} (h : whole p text = some v) : text = v := by
  unfold whole at h
  split at h <;> cases h
  rfl

section
variable {c : Config} {keys file : Option Bytes} {random : Vector UInt8 8} {rs : List Request}
  {s t v : Ses} {r : Request} {u p : Bytes}

/-- A request that authenticates the session on password `p` went through one of
the two branches with equal strings. -/
theorem accepted_hook (reaches : Reaches c s r v u p) (hs : step c s r = some t)
    (accepted : t.auth.authdone = true) :
    ∃ k b text, Hook c v.auth r.file p k b ∧ k.testcrypt = some text ∧
      k.passwdcrypt = some text := by
  have result : tryPassword c v r.file p = .ok t := by
    rw [← reaches.recv]
    exact ok_of_toOption hs
  obtain ⟨⟨k, b⟩, hook, cmp⟩ := bind_ok.mp result
  rcases compare_ok cmp with failed | ⟨-, text, -, test, passwd⟩
  · rw [failure_ok failed] at accepted
    have : false = true := reaches.authdone.symm.trans ((hook_ok hook).authdone.symm.trans accepted)
    cases this
  · exact ⟨k, b, text, hook_ok hook, test, passwd⟩

/-- The user name a request runs under: its own, unless that is too long. -/
theorem Reaches.name (reaches : Reaches c s r v u p) (short : u.length ≤ maxUsernameLen) :
    v.auth.username = some u := by
  obtain ⟨valid, checked⟩ := reaches.checked
  generalize v.auth = a at checked
  cases checkusername_ok checked with
  | long tooLong => exact absurd short (Nat.not_le.mpr tooLong)
  | first _ _ _ => rfl
  | known _ name _ | unfilled _ name _ => exact name

/-- In every session over one content of the file, an accepted password is the
user's or the single-use one, except the filler under another name while
single-use passwords are off, and except under a name of more than 100 bytes,
which the file may only by chance give the filler as its password. -/
theorem password_sound_iff
    (h : Run (step c) (fun _ r => r.file = file) (svrAuthinitialise c keys file random) rs s)
    (same : r.file = file) (reaches : Reaches c s r v u p) (hs : step c s r = some t)
    (accepted : t.auth.authdone = true) :
    Justified c file (ikofiGenerateSingleUsePassword random) u p ↔
      (c.enableSingleUsePasswords = true ∧ p = ikofiGenerateSingleUsePassword random) ∨
      (u.length ≤ maxUsernameLen ∧
        ¬ (c.enableSingleUsePasswords = false ∧ p = lit "!!" ∧ ∀ hash, ¬ Delivers file u hash)) ∨
      (maxUsernameLen < u.length ∧ c.enableSingleUsePasswords = false ∧ p = lit "!!" ∧
        Delivers file u (passwordHash c (lit "!!"))) := by
  have complete : Complete c v.auth := reaches.complete (run_complete h)
  have holds : Holds c [file] (ikofiGenerateSingleUsePassword random) v.auth :=
    reaches.holds (h.invariant (I := fun s => Holds c [file] _ s.auth) init_holds
      fun _ _ _ before same hs => step_holds before (List.mem_singleton.mpr same) hs)
  obtain ⟨k, b, text, hook, test, passwd⟩ := accepted_hook reaches hs accepted
  rw [same] at hook
  cases hook with
  | @fixed user hash delivers name =>
    obtain rfl := whole_eq_some test
    obtain rfl : hash = passwordHash c p := Option.some.inj passwd
    by_cases short : u.length ≤ maxUsernameLen
    · obtain rfl : user = u := Option.some.inj (name.symm.trans (reaches.name short))
      simp only [Justified, delivers, true_or, true_iff]
      exact Or.inr (Or.inl ⟨short, fun bad => bad.2.2 _ delivers⟩)
    · have other : ∀ hash, ¬ Delivers file u hash := by
        intro hash d
        obtain ⟨rfl, -⟩ := d.unique delivers
        exact short (complete u name).1
      simp [Justified, other, short]
  | single other =>
    obtain rfl := whole_eq_some test
    rcases holds.set p passwd with
      single | ⟨off, named, filler⟩ | ⟨met, here, user, delivers, name⟩
    · simp [Justified, single]
    · by_cases short : u.length ≤ maxUsernameLen
      · have none : ∀ hash, ¬ Delivers file u hash := fun hash d =>
          other u hash d (reaches.name short)
        simp [Justified, off, filler, none, Nat.not_lt.mpr short]
      · simp [Justified, off, filler, short, Nat.not_le.mp short]
    · rw [List.mem_singleton.mp here] at delivers
      exact absurd name (other user p delivers)

end

/-- The state in which the hook sees the first password of a session. -/
def firstAttempt (singleUse : Bool) (file : Option Bytes) (u : Bytes) : Ses :=
  { sampleSession singleUse file with
    auth := { fillPasswd (sampleConfig singleUse) (sampleSession singleUse file).auth u with
      username := some u } }

theorem password_sound_iff_single_use :
    Justified (sampleConfig true) none (ikofiGenerateSingleUsePassword (Vector.replicate 8 0))
        (lit "u") (lit "aaaaaaaa") ↔
      ((sampleConfig true).enableSingleUsePasswords = true ∧
        lit "aaaaaaaa" = ikofiGenerateSingleUsePassword (Vector.replicate 8 0)) ∨
      ((lit "u").length ≤ maxUsernameLen ∧
        ¬ ((sampleConfig true).enableSingleUsePasswords = false ∧ lit "aaaaaaaa" = lit "!!" ∧
          ∀ hash, ¬ Delivers none (lit "u") hash)) ∨
      (maxUsernameLen < (lit "u").length ∧ (sampleConfig true).enableSingleUsePasswords = false ∧
        lit "aaaaaaaa" = lit "!!" ∧
        Delivers none (lit "u") (passwordHash (sampleConfig true) (lit "!!"))) := by
  have reaches : Reaches (sampleConfig true) (sampleSession true none)
      ⟨passwordRequest (lit "u") (lit "aaaaaaaa"), none, {}⟩ (firstAttempt true none (lit "u"))
      (lit "u") (lit "aaaaaaaa") :=
    reaches_passwordRequest rfl (by decide) rfl rfl (by decide)
  have accepted : step (sampleConfig true) (sampleSession true none)
      ⟨passwordRequest (lit "u") (lit "aaaaaaaa"), none, {}⟩ =
    some (sendMsgUserauthSuccess (firstAttempt true none (lit "u"))) := by
    rw [step, reaches.recv]
    decide
  exact password_sound_iff .start rfl reaches accepted rfl

/-- With single-use passwords off, `!!` logs in under any name but the stored one. -/
theorem filler_accepted :
    ¬ ∀ (c : Config) (keys file : Option Bytes) (random : Vector UInt8 8) (rs : List Request)
        (s t v : Ses) (r : Request) (u p : Bytes),
      Run (step c) (fun _ r => r.file = file) (svrAuthinitialise c keys file random) rs s →
      r.file = file → Reaches c s r v u p → step c s r = some t → t.auth.authdone = true →
      Justified c file (ikofiGenerateSingleUsePassword random) u p := by
  intro claim
  have reaches : Reaches (sampleConfig false) (sampleSession false (some (lit "u:h")))
      ⟨passwordRequest (lit "x") (lit "!!"), some (lit "u:h"), {}⟩
      (firstAttempt false (some (lit "u:h")) (lit "x")) (lit "x") (lit "!!") :=
    reaches_passwordRequest rfl (by decide) rfl rfl (by decide)
  have accepted : step (sampleConfig false) (sampleSession false (some (lit "u:h")))
      ⟨passwordRequest (lit "x") (lit "!!"), some (lit "u:h"), {}⟩ =
    some (sendMsgUserauthSuccess (firstAttempt false (some (lit "u:h")) (lit "x"))) := by
    rw [step, reaches.recv]
    decide
  rcases claim (sampleConfig false) none (some (lit "u:h")) (Vector.replicate 8 0) [] _ _ _ _ _ _
    .start rfl reaches accepted rfl with stored | ⟨single, -⟩
  · exact absurd stored (by decide)
  · cases single

end Ikofi.Auth
