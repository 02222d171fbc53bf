import Ikofi.Auth.Complete

/-!
# The methods of a session

The bits of `authtypes` are set once, when the session starts. Every failure
message lists the methods they stand for, and a success message answers a request
by one of these methods only.
-/

namespace Ikofi.Auth

open Wire PasswordFile Runs

/-- The methods that `authtypes` stands for. -/
def enabledMethods (a : AuthState) : List Bytes :=
  (if a.pubkey then [lit "publickey"] else []) ++ (if a.password then [lit "password"] else [])

theorem authMethods_eq (a : AuthState) :
    authMethods a = List.intercalate (lit ",") (enabledMethods a) := by
  unfold authMethods enabledMethods
  cases a.pubkey <;> cases a.password <;> rfl

theorem enabledMethods_inj {a b : AuthState} (h : enabledMethods a = enabledMethods b) :
    a.pubkey = b.pubkey ∧ a.password = b.password := by
  unfold enabledMethods at h
  revert h
  cases a.pubkey <;> cases a.password <;> cases b.pubkey <;> cases b.password <;> decide

/-- A message that may answer a request by `method` while `names` are enabled. -/
def Allowed (names : List Bytes) (method : Bytes) : Message → Prop
  | .failure methods _ => methods = List.intercalate (lit ",") names
  | .success => method ∈ names
  | .banner _ | .pkOk _ _ => True

/-- Everything sent between two states is allowed. -/
def Adds (names : List Bytes) (method : Bytes) (s t : Ses) : Prop :=
  ∃ new, t.sent = s.sent ++ new ∧ ∀ m ∈ new, Allowed names method m

section
variable {names : List Bytes} {method : Bytes} {s t u : Ses}

theorem Adds.none (same : t.sent = s.sent) : Adds names method s t := ⟨[], by simp [same], by simp⟩

theorem Adds.one {m : Message} (sent : t.sent = s.sent ++ [m]) (allowed : Allowed names method m) :
    Adds names method s t :=
  ⟨[m], sent, by simpa using allowed⟩

theorem Adds.trans (h : Adds names method s t) (h' : Adds names method t u) :
    Adds names method s u := by
  obtain ⟨new, sent, allowed⟩ := h
  obtain ⟨new', sent', allowed'⟩ := h'
  refine ⟨new ++ new', by rw [sent', sent, List.append_assoc], fun m hm => ?_⟩
  rcases List.mem_append.mp hm with hm | hm
  · exact allowed m hm
  · exact allowed' m hm

end

section
variable {c : Config} {s t : Ses} {method : Bytes}

theorem failure_adds {p i : Bool} (h : sendMsgUserauthFailure c s p i = .ok t) :
    Adds (enabledMethods s.auth) method s t := by
  unfold sendMsgUserauthFailure at h
  split at h <;> cases h
  exact .one rfl (authMethods_eq s.auth)

theorem success_adds (enabled : method ∈ enabledMethods s.auth) :
    Adds (enabledMethods s.auth) method s (sendMsgUserauthSuccess s) :=
  .one rfl enabled

theorem banner_adds {names : List Bytes} : Adds names method s (sendMsgUserauthBanner s) := by
  unfold sendMsgUserauthBanner
  split
  · exact .one rfl trivial
  · exact .none rfl

theorem KeyOutcome.adds {valid : Bool} (enabled : method ∈ enabledMethods s.auth)
    (h : KeyOutcome c valid s t) : Adds (enabledMethods s.auth) method s t := by
  cases h with
  | refused failed => exact failure_adds failed
  | queried failed => exact (failure_adds failed).trans (.none rfl)
  | offered => exact .one rfl trivial
  | accepted _ => exact success_adds enabled

theorem compare_adds {k : Crypts} (enabled : method ∈ enabledMethods s.auth)
    (h : comparePassword c s k = .ok t) : Adds (enabledMethods s.auth) method s t := by
  rcases compare_ok h with failed | ⟨rfl, -⟩
  · exact failure_adds failed
  · exact success_adds enabled

/-- The hook writes the expected secret and leaves the bits alone. -/
theorem Hook.enabled {a b : AuthState} {file : Option Bytes} {p : Bytes} {k : Crypts}
    (h : Hook c a file p k b) : enabledMethods b = enabledMethods a := by
  cases h <;> rfl

theorem svrAuthPassword_adds {valid : Bool} {file : Option Bytes} {buf : Bytes}
    (enabled : method ∈ enabledMethods s.auth)
    (h : svrAuthPassword c s valid file buf = .ok t) : Adds (enabledMethods s.auth) method s t := by
  rcases svrAuthPassword_ok h with failed | ⟨p, k, b, hook, compared⟩
  · exact failure_adds failed
  · have same := hook.enabled
    have added : Adds (enabledMethods b) method { s with auth := b } t :=
      compare_adds (by rwa [same]) compared
    rwa [same] at added

theorem Checked.enabled {a b : AuthState} {u : Bytes} {valid : Bool} (h : Checked c a u valid b) :
    enabledMethods b = enabledMethods a := by
  cases h <;> rfl

theorem dispatch_adds {valid : Bool} {r : Request} {h : Header}
    (dispatched : dispatch c s valid r h = .ok t) :
    Adds (enabledMethods s.auth) h.method s t := by
  rcases dispatch_ok dispatched with
    ⟨-, failed⟩ | ⟨publickey, enabled, outcome⟩ | ⟨password, enabled, compared⟩ | failed
  · exact failure_adds failed
  · exact outcome.adds (by simp [enabledMethods, publickey, enabled])
  · exact svrAuthPassword_adds (by simp [enabledMethods, password, enabled]) compared
  · exact failure_adds failed

/-- A request adds messages that its method and the bits allow. -/
theorem step_adds {r : Request} (h : step c s r = some t) :
    t = s ∨ ∃ header, readHeader r.payload = .ok header ∧
      Adds (enabledMethods s.auth) header.method s t := by
  rcases recv_ok (ok_of_toOption h) with
    ⟨-, same⟩ | ⟨-, header, valid, a, read, checked, dispatched⟩
  · exact Or.inl same
  · have added := dispatch_adds dispatched
    rw [checked.enabled] at added
    exact Or.inr ⟨header, read, banner_adds.trans added⟩

theorem step_enabled {r : Request} {names : List Bytes} (h : enabledMethods s.auth = names)
    (hs : step c s r = some t) : enabledMethods t.auth = names :=
  step_preserves (I := fun a => enabledMethods a = names) (fun _ _ _ _ h => h)
    (fun _ _ _ _ checked => checked.enabled.trans h)
    (fun _ _ _ _ _ _ h hook => hook.enabled.trans h) h hs

theorem run_enabled {ok : Ses → Request → Prop} {s₀ : Ses} {rs : List Request}
    (h : Run (step c) ok s₀ rs s) : enabledMethods s.auth = enabledMethods s₀.auth :=
  h.invariant (I := fun s => enabledMethods s.auth = enabledMethods s₀.auth) rfl
    fun _ _ _ before _ hs => step_enabled before hs

theorem run_failures {ok : Ses → Request → Prop} {s₀ : Ses} {rs : List Request}
    (h : Run (step c) ok s₀ rs s) (start : s₀.sent = []) {methods : Bytes} {partialSuccess : Bool}
    (sent : .failure methods partialSuccess ∈ s.sent) :
    methods = List.intercalate (lit ",") (enabledMethods s₀.auth) := by
  induction h with
  | start => simp [start] at sent
  | next before _ hs ih =>
    rcases step_adds hs with same | ⟨header, -, new, grown, allowed⟩
    · exact ih (same ▸ sent)
    · rw [grown] at sent
      rcases List.mem_append.mp sent with old | sent
      · exact ih old
      · rw [← run_enabled before]
        exact allowed _ sent

/-- The bits of `authtypes` stay what the switches and the sizes of the files made
them, every failure message lists exactly these methods, and only a request by one
of them is answered with success. -/
theorem methods_exact {authorizedKeys file : Option Bytes} {random : Vector UInt8 8}
    {rs : List Request}
    (h : Reached (step c) (svrAuthinitialise c authorizedKeys file random) rs s) :
    (s.auth.pubkey = true ↔
      c.enablePublicKeyAuth = true ∧ ∃ content, authorizedKeys = some content ∧ 10 ≤ content.length) ∧
    (s.auth.password = true ↔
      c.enableSingleUsePasswords = true ∨ ∃ content, file = some content ∧ 3 ≤ content.length) ∧
    (∀ methods partialSuccess, .failure methods partialSuccess ∈ s.sent →
      methods = List.intercalate (lit ",") (enabledMethods s.auth)) ∧
    ∀ r t new, step c s r = some t → t.sent = s.sent ++ new → .success ∈ new →
      ∃ header, readHeader r.payload = .ok header ∧ header.method ∈ enabledMethods s.auth := by
  have kept := run_enabled h
  have bits := enabledMethods_inj kept
  rw [svrAuthinitialise_auth] at bits
  refine ⟨?_, ?_, ?_, ?_⟩
  · rw [bits.1]
    cases authorizedKeys <;> simp [ikofiEnablePublicKeyAuth, configFileExists]
  · rw [bits.2, or_comm]
    cases file <;> simp [ikofiEnablePasswordFile, configFileExists]
  · intro methods partialSuccess sent
    rw [kept]
    exact run_failures h rfl sent
  · intro r t new hs sent success
    rcases step_adds hs with same | ⟨header, read, new', sent', allowed⟩
    · rw [same] at sent
      have none : new = [] := by simpa using sent
      simp [none] at success
    · obtain rfl := List.append_cancel_left (sent.symm.trans sent')
      exact ⟨header, read, allowed _ success⟩

end

/-- The first answer of a session with single-use passwords and no keys. -/
theorem methods_exact_after_refusal :
    ∃ s, step (sampleConfig true) (sampleSession true none) wrongPassword = some s ∧
      s.auth.pubkey = false ∧ s.auth.password = true ∧
      ∀ methods partialSuccess, .failure methods partialSuccess ∈ s.sent →
        methods = List.intercalate (lit ",") (enabledMethods s.auth) := by
  have goesOn : (step (sampleConfig true) (sampleSession true none) wrongPassword).isSome := by
    decide +kernel
  obtain ⟨s, hs⟩ := Option.isSome_iff_exists.mp goesOn
  obtain ⟨pubkey, password, failures, -⟩ := methods_exact (.next .start trivial hs)
  exact ⟨s, hs, Bool.eq_false_iff.mpr (by simp [pubkey]), password.mpr (Or.inl rfl), failures⟩

end Ikofi.Auth
