import Ikofi.Auth.Guessing
import Ikofi.Auth.Methods
import Ikofi.Auth.Saved
import Ikofi.Options.Listeners

/-!
# The switch that disables passwords

`-s` is read and forgotten: `noauthpass` is there for the password method of the
upstream server, which this build leaves out, so no command line sets it, and the
method that stands in its place does not ask for it. Whether a session takes passwords
is decided by the single-use preference and the size of `master_password` alone.
-/

namespace Ikofi.Auth

open Wire PasswordFile Runs

def maxAuthTries : Nat := 10

/-- A server with these options may have sessions that run with this configuration. The
limit is ten and there is no banner unless the options say otherwise. What a session asks
about passwords is what the options say. -/
structure Serves (o : Options.SvrOpts) (c : Config) : Prop where
  maxauthtries : o.value .maxauthtries = none → c.maxauthtries = maxAuthTries
  banner : o.value .bannerfile = none → c.banner = none
  passwords : o.passwords = (noauthpass, norootpass, allowblankpass, multiauthmethod)

/-- The words are options, and the switch is among them, alone or in a cluster. -/
def HasSwitch (switch : UInt8) (words : List JString) : Prop :=
  ∃ ps, Options.Written ps words ∧ ∃ p ∈ ps, switch ∈ p.switches

/-- The server was started with these extra options, has accepted them, and they say
`-s`. -/
structure PasswordsOff (options : JString) (port : Int32) (c : Config) : Prop where
  accepted : ∃ o,
    Options.svrGetoptsLoop (Options.startSshdArgv options port) = .ok o ∧ Serves o c
  switch : HasSwitch 115 (Options.splitOptions options)

/-- No sequence of requests leads to a success by the password method. -/
def NoPasswordLogin (c : Config) (start : Ses) : Prop :=
  ∀ rs s r t, Reached (step c) start rs s → s.auth.authdone = false → byPassword r = true →
    step c s r = some t → t.auth.authdone = false

section
variable {c : Config} {s t v : Ses} {r : Request} {u p : Bytes}

theorem byPassword_iff :
    byPassword r = true ↔ ∃ h, readHeader r.payload = .ok h ∧ h.method = lit "password" := by
  unfold byPassword
  cases readHeader r.payload <;> simp

theorem Reaches.password_enabled (h : Reaches c s r v u p) : s.auth.password = true := by
  obtain ⟨valid, checked⟩ := h.checked
  rw [← (enabledMethods_inj (checkusername_ok checked).enabled).2]
  exact h.enabled

/-- While the bit is off, the password method fails. -/
theorem step_password_off (off : s.auth.password = false) (fresh : s.auth.authdone = false)
    (password : byPassword r = true) (hs : step c s r = some t) : t.auth.authdone = false := by
  have unreached {v : Ses} {u p : Bytes} : ¬ Reaches c s r v u p := by
    intro reaches
    rw [reaches.password_enabled] at off
    cases off
  cases step_moves hs with
  | done done _ =>
    rw [fresh] at done
    cases done
  | answers _ read checked answers =>
    obtain ⟨h, read', method⟩ := byPassword_iff.mp password
    cases read.symm.trans read'
    obtain ⟨n, q, d, same, why⟩ := answers
    rw [same]
    cases d with
    | false => rfl
    | true =>
      rcases why rfl with before | publickey
      · rw [checked.authdone, fresh] at before
        cases before
      · rw [method] at publickey
        exact absurd (Bool.and_eq_true_iff.mp publickey).2 (by decide)
  | refused reaches => exact absurd reaches unreached
  | accepted reaches => exact absurd reaches unreached

/-- While it is on, a password that is stored for a new user name is accepted. -/
theorem login_of_password_on (fresh : s.auth.authdone = false) (unnamed : s.auth.username = none)
    (on : s.auth.password = true) :
    ∃ r t, byPassword r = true ∧ step c s r = some t ∧ t.auth.authdone = true := by
  obtain ⟨file, stored⟩ : ∃ file,
      Delivers file (utf8 (jlit "u")) (passwordHash c (utf8 (jlit "p"))) :=
    ⟨_, delivers_saved (by decide) (by decide) (by decide) (by decide)⟩
  have awaits : Awaits (utf8 (jlit "u")) s.auth := ⟨Or.inl unnamed, on⟩
  obtain ⟨valid, a, checked, name, enabled⟩ :=
    checkusername_named (c := c) awaits (by decide) (by decide)
  let r : Request := ⟨passwordRequest (utf8 (jlit "u")) (utf8 (jlit "p")), file, {}⟩
  let v : Ses := { sendMsgUserauthBanner s with auth := a }
  have reaches : Reaches c s r v (utf8 (jlit "u")) (utf8 (jlit "p")) :=
    reaches_passwordRequest fresh (by decide) checked enabled (by decide)
  obtain ⟨t, accepts, done⟩ := tryPassword_accepts (s := v) stored name (by decide)
  refine ⟨r, t, ?_, ?_, done⟩
  · exact byPassword_iff.mpr ⟨_, readHeader_userauthRequest (by decide) (by decide), rfl⟩
  · rw [step, reaches.recv, accepts]
    rfl

end

theorem noPasswordLogin_iff {c : Config} {keys file : Option Bytes} {random : Vector UInt8 8} :
    NoPasswordLogin c (svrAuthinitialise c keys file random) ↔
      c.enableSingleUsePasswords = false ∧ ikofiEnablePasswordFile file = false := by
  have start := svrAuthinitialise_auth c keys file random
  constructor
  · intro none
    by_contra on
    have password : (svrAuthinitialise c keys file random).auth.password = true := by
      rw [start]
      revert on
      cases c.enableSingleUsePasswords <;> cases ikofiEnablePasswordFile file <;> simp
    obtain ⟨r, t, byPassword, hs, done⟩ :=
      login_of_password_on (by rw [start]) (by rw [start]) password
    rw [none [] _ r t .start (by rw [start]) byPassword hs] at done
    cases done
  · rintro ⟨single, noFile⟩ rs s r t reached fresh password hs
    have off : s.auth.password = false := by
      rw [(enabledMethods_inj (run_enabled reached)).2, start, single, noFile]
      rfl
    exact step_password_off off fresh password hs

/-- A server with `-s` takes passwords in exactly those sessions that take them without. -/
theorem switch_effective_iff {options : JString} {port : Int32} {c : Config}
    (_ : PasswordsOff options port c) (keys file : Option Bytes) (random : Vector UInt8 8) :
    NoPasswordLogin c (svrAuthinitialise c keys file random) ↔
      c.enableSingleUsePasswords = false ∧ ikofiEnablePasswordFile file = false :=
  noPasswordLogin_iff

/-- The extra option `-s`. -/
theorem switched (singleUse : Bool) : PasswordsOff (jlit "-s") 2222 (sampleConfig singleUse) := by
  have accepted :
      (Options.svrGetoptsLoop (Options.startSshdArgv (jlit "-s") 2222)).isOk = true := by
    decide +kernel
  refine ⟨?_, ?_⟩
  · cases read : Options.svrGetoptsLoop (Options.startSshdArgv (jlit "-s") 2222) with
    | error e => rw [read] at accepted; cases accepted
    | ok o => exact ⟨o, rfl, fun _ => rfl, fun _ => rfl, Options.passwords_of_accepted read⟩
  · refine ⟨[.flags [115]], ⟨?_, by decide +kernel⟩, .flags [115], by simp, by decide⟩
    have switch : (Options.Piece.flags [115]).WellFormed := Options.switch_wellFormed (by decide)
    simp [switch]

theorem switch_effective_iff_no_file : NoPasswordLogin (sampleConfig false)
    (svrAuthinitialise (sampleConfig false) none none (Vector.replicate 8 0)) :=
  (switch_effective_iff (switched false) none none _).mpr ⟨rfl, rfl⟩

/-- The extra option `-s`, and single-use passwords. -/
theorem switch_ignored : ¬ ∀ (options : JString) (port : Int32) (c : Config)
    (keys file : Option Bytes) (random : Vector UInt8 8), PasswordsOff options port c →
      NoPasswordLogin c (svrAuthinitialise c keys file random) := by
  intro claim
  have none := claim _ _ _ none none (Vector.replicate 8 0) (switched true)
  rw [noPasswordLogin_iff] at none
  exact absurd none.1 (by decide)

end Ikofi.Auth
