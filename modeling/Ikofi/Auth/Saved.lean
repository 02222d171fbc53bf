import Ikofi.Auth.SingleUse
import Ikofi.Auth.Sound
import Ikofi.PasswordFile.Written

/-!
# Logging in with saved credentials

`writePasswordFile` takes any user name and password that are not blank. The
server tries them only if each has at most 100 bytes, and finds the user name in
the file only if it holds neither a colon nor a newline.
-/

namespace Ikofi.Auth

open Wire PasswordFile Runs

/-- A request before the first password: by another method, under the name `u`, and
over the file that will hold for the password. -/
def Earlier (u : Bytes) (file : Option Bytes) (r : Request) : Prop :=
  r.file = file ∧ ∃ h, readHeader r.payload = .ok h ∧ h.username = u ∧ h.method ≠ lit "password"

/-- The credentials work: in every session that starts after they were saved, the
first password request with them is accepted. -/
def Works (u p : JString) : Prop :=
  ∀ (c : Config) (keys : Option Bytes) (random : Vector UInt8 8) (debug : Bool)
    (prior : Option Bytes) (file : Bytes) (rs : List Request) (s : Ses) (checks : PubkeyChecks),
    writePasswordFile c.sha512 debug prior (some u) true (some p) = .ok (some file) →
    Run (step c) (fun _ => Earlier (utf8 u) (some file))
      (svrAuthinitialise c keys (some file) random) rs s →
    s.auth.authdone = false →
    ∃ t, recvMsgUserauthRequest c s ⟨passwordRequest (utf8 u) (utf8 p), some file, checks⟩ = .ok t ∧
      t.auth.authdone = true

section
variable {c : Config} {u p : JString}

theorem nul_utf8 (nul : 0 ∉ u) : 0 ∉ utf8 u := by
  have same := marks_nul.any_flatMap (codePoints u)
  have none : (codePoints u).any (· == '\x00') = false := by
    simpa using fun c hc => ne_of_mem_of_not_mem hc (mt nul_mem.mp nul)
  rw [none] at same
  intro h
  have := List.any_eq_false.mp same 0 h
  simp at this

theorem strlen_of_nul {b : Bytes} (nul : 0 ∉ b) : strlen b = b.length := by
  rw [strlen, cstr, List.takeWhile_eq_self_iff.mpr]
  intro x hx
  simpa using ne_of_mem_of_not_mem hx nul

theorem written (hu : isBlank u = false) (hp : isBlank p = false) {debug : Bool}
    {prior : Option Bytes} {sha512 : Bytes → Bytes} :
    writePasswordFile sha512 debug prior (some u) true (some p) =
      .ok (some (writeFile u (hash sha512 p))) := by
  simp [writePasswordFile, hu, hp]

theorem passwordHash_ne_nil {b : Bytes} : passwordHash c b ≠ [] := by
  refine Base64.encode_ne_nil fun none => ?_
  have := c.digest b
  rw [none] at this
  cases this

/-- The entry that was saved is the one that the server looks for. -/
theorem delivers_saved (hu : isBlank u = false) (colon : 58 ∉ u) (newline : 10 ∉ u)
    (nul : 0 ∉ u) :
    Delivers (some (writeFile u (hash c.sha512 p))) (utf8 u) (passwordHash c (utf8 p)) :=
  delivers_writeFile (ne_nil_of_not_blank hu) colon newline nul passwordHash_ne_nil
    fun _ => Base64.encode_plain

end

section
variable {c : Config} {s t : Ses} {r : Request} {file : Option Bytes} {u p : Bytes}

/-- A session that has seen only the name `u`, and takes passwords. -/
def Awaits (u : Bytes) (a : AuthState) : Prop :=
  (a.username = none ∨ a.username = some u) ∧ a.password = true

theorem Checked.awaits {a b : AuthState} {valid : Bool} (checked : Checked c a u valid b)
    (h : Awaits u a) : Awaits u b := by
  cases checked with
  | long _ | known _ _ _ | unfilled _ _ _ => exact h
  | first _ _ _ => exact ⟨Or.inr rfl, h.2⟩

theorem step_awaits (h : Awaits u s.auth) (ok : Earlier u file r) (hs : step c s r = some t) :
    Awaits u t.auth := by
  obtain ⟨-, header, read, rfl, other⟩ := ok
  apply step_preserves (I := Awaits header.username) ?_ ?_ ?_ h hs
  · intro a n q d before
    exact before
  · intro header' valid b read' checked
    rw [read] at read'
    cases read'
    exact checked.awaits h
  · intro v u p k b reaches _ _
    obtain ⟨buf, read', -⟩ := reaches.method
    rw [read] at read'
    cases read'
    exact absurd rfl other

/-- A name that is not too long is the session's name afterwards. -/
theorem checkusername_named {a : AuthState} (h : Awaits u a) (short : u.length ≤ maxUsernameLen)
    (nul : 0 ∉ u) : ∃ valid b, checkusername c a u = .ok (valid, b) ∧
      b.username = some u ∧ b.password = true := by
  have returns : ∃ valid b, checkusername c a u = .ok (valid, b) := by
    unfold checkusername
    rw [if_neg (Nat.not_lt.mpr short), if_neg (by simp [strlen_of_nul nul])]
    rcases h.1 with name | name
    · simp only [name]
      exact ⟨_, _, rfl⟩
    · simp only [name, if_true]
      exact ⟨_, _, rfl⟩
  obtain ⟨valid, b, hb⟩ := returns
  have checked := checkusername_ok hb
  obtain ⟨name, enabled⟩ := checked.awaits h
  refine ⟨valid, b, hb, ?_, enabled⟩
  exact name.resolve_left (checked.named (Or.inr short))

/-- A password whose hash is stored for the session's user is accepted. -/
theorem tryPassword_accepts (d : Delivers file u (passwordHash c p))
    (name : s.auth.username = some u) (nul : 0 ∉ p) :
    ∃ t, tryPassword c s file p = .ok t ∧ t.auth.authdone = true := by
  have found : matchesFile (ikofiGetUserPassword file) s.auth.username = .ok true := by
    rcases matchesFile_cases file s.auth.username with ⟨_, _, _, _, m⟩ | ⟨other, -⟩ | ⟨why, -⟩
    · exact m
    · exact absurd name (other _ _ d)
    · rcases why with half | ⟨none, -⟩
      · rw [HalfFile, d] at half
        simp at half
      · rw [name] at none
        cases none
  have hook : ikofiSvrAuthPassword c s.auth file p =
      .ok (⟨true, some (passwordHash c p), some (passwordHash c p)⟩,
        { s.auth with pwPasswd := some (passwordHash c p) }) := by
    rw [ikofiSvrAuthPassword, found, d]
    simp [Except.map, strlen_of_nul nul]
  have filled : (passwordHash c p).isEmpty = false := by
    simpa using passwordHash_ne_nil
  rw [tryPassword, hook]
  simp only [bind, Except.bind, comparePassword, filled, Bool.false_eq_true, if_false, if_true,
    multiauthmethod, Bool.false_and]
  exact ⟨_, rfl, rfl⟩

/-- Only a header that carries the whole name is read: a longer name is refused, and
where its length wraps around, its own bytes are read as a length. -/
theorem readHeader_ok {method buf : Bytes} {h : Header} (nul : 0 ∉ u)
    (hm : method.length ≤ maxStringLen)
    (read : readHeader (userauthRequest u method buf) = .ok h) :
    h = ⟨u, lit "ssh-connection", method, buf⟩ := by
  by_cases fits : u.length ≤ maxStringLen
  · rw [readHeader_userauthRequest fits hm] at read
    exact (Except.ok.inj read).symm
  · exfalso
    obtain ⟨⟨name, rest⟩, first, read⟩ := bind_ok.mp read
    obtain ⟨⟨service, rest'⟩, second, -⟩ := bind_ok.mp read
    rw [userauthRequest, bufGetString, bufGetInt_putString] at first
    generalize u.length % 0x100000000 = wrapped at first
    simp only [bind, Except.bind] at first
    split at first
    · cases first
    · rename_i small
      obtain ⟨_, -, same⟩ := bind_ok.mp first
      obtain rfl := (Prod.mk.inj (Except.ok.inj same)).2
      have inside : wrapped < u.length := by omega
      rw [List.drop_append_of_le_length (Nat.le_of_lt inside), List.drop_eq_getElem_cons inside]
        at second
      have start : u[wrapped] ≠ 0 := ne_of_mem_of_not_mem (List.getElem_mem _) nul
      obtain ⟨e, he⟩ := bufGetString_cons start (List.drop (wrapped + 1) u ++
        (putString (lit "ssh-connection") ++ (putString method ++ buf)))
      rw [← List.cons_append, second] at he
      cases he

end

section
variable {c : Config} {s s' t v v' : Ses} {r r' : Request} {u p u' p' : Bytes}

/-- The payload alone decides which name and password a request hands over. -/
theorem Reaches.unique (h : Reaches c s r v u p) (h' : Reaches c s' r' v' u' p')
    (same : r'.payload = r.payload) : u = u' ∧ p = p' := by
  obtain ⟨buf, header, rest, _, flag, text⟩ := h.method
  obtain ⟨buf', header', rest', _, flag', text'⟩ := h'.method
  rw [same, header] at header'
  obtain ⟨rfl, rfl⟩ : u = u' ∧ buf = buf' := by simpa using header'
  rw [flag] at flag'
  obtain rfl : rest = rest' := by simpa using flag'
  rw [text] at text'
  exact ⟨rfl, by simpa using (Prod.mk.inj (Except.ok.inj text')).1⟩

/-- A password request that authenticates the session went through the hook. -/
theorem accepted_reaches {file : Option Bytes} {checks : PubkeyChecks} (nul : 0 ∉ u)
    (fresh : s.auth.authdone = false)
    (h : recvMsgUserauthRequest c s ⟨passwordRequest u p, file, checks⟩ = .ok t)
    (accepted : t.auth.authdone = true) :
    ∃ v p' k b text, Reaches c s ⟨passwordRequest u p, file, checks⟩ v u p' ∧
      Hook c v.auth file p' k b ∧ k.testcrypt = some text ∧ k.passwdcrypt = some text := by
  cases recv_moves h with
  | done undone _ =>
    rw [fresh] at undone
    cases undone
  | answers _ read checked answers =>
    obtain rfl := readHeader_ok nul (by decide) read
    obtain ⟨n, q, d, same, valid⟩ := answers
    rw [same] at accepted
    rcases valid accepted with before | publickey
    · rw [checked.authdone, fresh] at before
      cases before
    · have method : lit "password" = lit "publickey" :=
        of_decide_eq_true (Bool.and_eq_true_iff.mp publickey).2
      exact absurd method (by decide)
  | refused reaches hook same =>
    rw [same] at accepted
    have : false = true := reaches.authdone.symm.trans (hook.authdone.symm.trans accepted)
    cases this
  | accepted reaches hook same filled test passwd =>
    obtain ⟨_, read, -⟩ := reaches.method
    cases readHeader_ok nul (by decide) read
    exact ⟨_, _, _, _, _, reaches, hook, test, passwd⟩

end

/-- A configuration with single-use passwords, over a digest that tells short
passwords from long ones. -/
def lengthConfig : Config where
  homePath := lit "/home"
  shellExe := lit "/bin/sh"
  enablePublicKeyAuth := false
  enableSingleUsePasswords := true
  maxauthtries := 10
  banner := none
  sha512 := fun b => List.replicate 64 (if b.length ≤ dropbearMaxPasswordLen then 0 else 1)
  digest := fun _ => List.length_replicate

theorem length_of_passwordHash {b b' : Bytes}
    (same : passwordHash lengthConfig b = passwordHash lengthConfig b')
    (short : b.length ≤ dropbearMaxPasswordLen) : b'.length ≤ dropbearMaxPasswordLen := by
  by_contra long
  have differ : Base64.encode (List.replicate 64 0) ≠ Base64.encode (List.replicate 64 1) := by
    decide
  simp only [passwordHash, lengthConfig, short, long, if_true, if_false] at same
  exact differ same

section
variable {u p : JString}

theorem init_awaits {c : Config} {keys : Option Bytes} {random : Vector UInt8 8} {b : Bytes}
    (hu : isBlank u = false) :
    Awaits b (svrAuthinitialise c keys (some (writeFile u (hash c.sha512 p))) random).auth := by
  have offered : ikofiEnablePasswordFile (some (writeFile u (hash c.sha512 p))) = true :=
    ikofiEnablePasswordFile_writeFile (ne_nil_of_not_blank hu) (passwordHash_ne_nil (c := c))
      fun b hb => (Base64.encode_plain hb).2.2.2
  rw [svrAuthinitialise_auth]
  exact ⟨Or.inl rfl, by simp [offered]⟩

/-- Credentials within the limits of the server and the file work. -/
theorem works_of_plain (hu : isBlank u = false) (hp : isBlank p = false) (nulU : 0 ∉ u)
    (nulP : 0 ∉ p) (colon : 58 ∉ u) (newline : 10 ∉ u)
    (shortU : (utf8 u).length ≤ maxUsernameLen)
    (shortP : (utf8 p).length ≤ dropbearMaxPasswordLen) : Works u p := by
  intro c keys random debug prior file rs s checks saved run fresh
  rw [written hu hp] at saved
  cases saved
  have awaits : Awaits (utf8 u) s.auth :=
    run.invariant (I := fun s => Awaits (utf8 u) s.auth) (init_awaits hu)
      fun _ _ _ before ok hs => step_awaits before ok hs
  obtain ⟨valid, a, checked, name, enabled⟩ := checkusername_named awaits shortU (nul_utf8 nulU)
  have fits : (utf8 u).length ≤ maxStringLen := Nat.le_trans shortU (by decide)
  rw [(reaches_passwordRequest fresh fits checked enabled shortP).recv]
  exact tryPassword_accepts (delivers_saved hu colon newline nulU) name (nul_utf8 nulP)

/-- Where saved credentials are accepted in a session with single-use passwords, the
password is the session's own or the entry was found. -/
theorem accepted_saved {c : Config} {keys : Option Bytes} {random : Vector UInt8 8} {b q : Bytes}
    {file : Option Bytes} {v : Ses} {r : Request} {k : Crypts} {a : AuthState} {text : Bytes}
    (single : c.enableSingleUsePasswords = true)
    (reaches : Reaches c (svrAuthinitialise c keys file random) r v b q)
    (hook : Hook c v.auth file q k a) (test : k.testcrypt = some text)
    (passwd : k.passwdcrypt = some text) :
    q = ikofiGenerateSingleUsePassword random ∨
    (b.length ≤ maxUsernameLen ∧ Delivers file b (passwordHash c q)) := by
  cases hook with
  | single _ =>
    obtain rfl := whole_eq_some test
    have secret := reaches.secret (init_secret single)
    exact Or.inl (Option.some.inj (passwd.symm.trans secret))
  | @fixed user hash delivers name =>
    obtain rfl := whole_eq_some test
    obtain rfl : hash = passwordHash c q := Option.some.inj passwd
    have short : b.length ≤ maxUsernameLen := by
      by_contra long
      obtain ⟨valid, checked⟩ := reaches.checked
      have unchanged : v.auth = (svrAuthinitialise c keys file random).auth := by
        rw [checkusername, if_pos (Nat.not_le.mp long)] at checked
        exact (Prod.mk.inj (Except.ok.inj checked)).2.symm
      rw [unchanged, init_complete.2.1] at name
      cases name
    obtain rfl : user = b := Option.some.inj (name.symm.trans (reaches.name short))
    exact Or.inr ⟨short, delivers⟩

/-- Credentials that work are within the limits. -/
theorem plain_of_works (hu : isBlank u = false) (hp : isBlank p = false) (nul : 0 ∉ u)
    (works : Works u p) : 58 ∉ u ∧ 10 ∉ u ∧ (utf8 u).length ≤ maxUsernameLen ∧
      (utf8 p).length ≤ dropbearMaxPasswordLen := by
  -- two sessions that differ in their single-use passwords
  have session := fun random => works lengthConfig none random false none _ [] _ {}
    (written hu hp) .start init_complete.2.2
  obtain ⟨t, recv, accepted⟩ := session (Vector.replicate 8 0)
  obtain ⟨t', recv', accepted'⟩ := session (Vector.replicate 8 1)
  obtain ⟨v, q, k, b, text, reaches, hook, test, passwd⟩ :=
    accepted_reaches (nul_utf8 nul) init_complete.2.2 recv accepted
  obtain ⟨v', q', k', b', text', reaches', hook', test', passwd'⟩ :=
    accepted_reaches (nul_utf8 nul) init_complete.2.2 recv' accepted'
  obtain ⟨-, rfl⟩ := reaches.unique reaches' rfl
  have found : (utf8 u).length ≤ maxUsernameLen ∧
      Delivers (some (writeFile u (hash lengthConfig.sha512 p))) (utf8 u)
        (passwordHash lengthConfig q) := by
    rcases accepted_saved rfl reaches hook test passwd with zeros | found
    · rcases accepted_saved rfl reaches' hook' test' passwd' with ones | found
      · exact absurd (zeros.symm.trans ones) (by decide)
      · exact found
    · exact found
  obtain ⟨colon, newline⟩ := plain_of_delivers found.2
  have stored := delivers_saved (c := lengthConfig) (p := p) hu colon newline nul
  exact ⟨colon, newline, found.1,
    length_of_passwordHash (found.2.unique stored).2 reaches.short⟩

/-- The saved credentials that work are those within the limits. -/
theorem saved_credentials_work_iff (hu : isBlank u = false) (hp : isBlank p = false)
    (nulU : 0 ∉ u) (nulP : 0 ∉ p) :
    Works u p ↔ 58 ∉ u ∧ 10 ∉ u ∧ (utf8 u).length ≤ maxUsernameLen ∧
      (utf8 p).length ≤ dropbearMaxPasswordLen := by
  constructor
  · exact plain_of_works hu hp nulU
  · rintro ⟨colon, newline, shortU, shortP⟩
    exact works_of_plain hu hp nulU nulP colon newline shortU shortP

end

theorem saved_credentials_work_iff_plain :
    Works (jlit "u") (jlit "p") ↔ 58 ∉ jlit "u" ∧ 10 ∉ jlit "u" ∧
      (utf8 (jlit "u")).length ≤ maxUsernameLen ∧
      (utf8 (jlit "p")).length ≤ dropbearMaxPasswordLen :=
  saved_credentials_work_iff (by decide) (by decide) (by decide) (by decide)

/-- Saved under the name `a:b`, the credentials do not work. -/
theorem colon_name_refused :
    ¬ ∀ u p : JString, isBlank u = false → isBlank p = false → 0 ∉ u → 0 ∉ p → Works u p := by
  intro claim
  have works := claim (jlit "a:b") (jlit "p") (by decide) (by decide) (by decide) (by decide)
  have plain := plain_of_works (by decide) (by decide) (by decide) works
  exact absurd plain.1 (by decide)

end Ikofi.Auth
