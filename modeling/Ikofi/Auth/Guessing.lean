import Ikofi.Auth.Complete

/-!
# Guessing passwords

Whatever a request by the password method runs into, it is answered by success or
counted, or the session ends. Other requests count as well or not, but nothing
takes a failure back, so the count bounds the guesses of a session.
-/

namespace Ikofi.Auth

open Wire PasswordFile Runs

/-- A request by the password method. -/
def byPassword (r : Request) : Bool :=
  match readHeader r.payload with
  | .ok h => h.method == lit "password"
  | .error _ => false

/-- How many requests by the password method a session takes without success, from the
state `s` on. The one that ends the session is among them. -/
def guesses (c : Config) (s : Ses) : List Request → Nat
  | [] => 0
  | r :: rs =>
    match recvMsgUserauthRequest c s r with
    | .error _ => if byPassword r then 1 else 0
    | .ok t => (if byPassword r && !t.auth.authdone then 1 else 0) + guesses c t rs

/-- The count goes up, and not over the limit. A guess is successful or counted. -/
structure Counts (c : Config) (guess : Prop) (s t : Ses) : Prop where
  up : s.auth.failcount ≤ t.auth.failcount
  bounded : t.auth.failcount ≤ c.maxauthtries
  counted : guess → t.auth.authdone = true ∨ t.auth.failcount = s.auth.failcount + 1

section
variable {c : Config} {s t : Ses} {guess : Prop}

theorem Counts.weaken {guess' : Prop} (h : Counts c guess s t) (weaker : guess' → guess) :
    Counts c guess' s t :=
  ⟨h.up, h.bounded, fun hg => h.counted (weaker hg)⟩

section
variable (room : c.maxauthtries + 1 < 0x100000000) (small : s.auth.failcount ≤ c.maxauthtries)
include room small

theorem failure_counts {p i : Bool} (counted : guess → i = true)
    (h : sendMsgUserauthFailure c s p i = .ok t) : Counts c guess s t := by
  unfold sendMsgUserauthFailure at h
  split at h
  · cases h
  · rename_i within
    cases h
    have exact : countFailure s.auth true = s.auth.failcount + 1 :=
      Nat.mod_eq_of_lt (by omega)
    refine ⟨?_, Nat.not_lt.mp within, fun hg => Or.inr ?_⟩
    · cases i with
      | false => exact Nat.le_refl _
      | true => exact exact ▸ Nat.le_succ _
    · rw [counted hg]
      exact exact

omit room in
theorem success_counts : Counts c guess s (sendMsgUserauthSuccess s) :=
  ⟨Nat.le_refl _, small, fun _ => Or.inl rfl⟩

theorem KeyOutcome.counts {valid : Bool} (h : KeyOutcome c valid s t) : Counts c False s t := by
  cases h with
  | refused failed => exact failure_counts room small False.elim failed
  | queried failed =>
    obtain ⟨up, bounded, -⟩ := failure_counts room small False.elim failed
    exact ⟨up, bounded, False.elim⟩
  | offered => exact ⟨Nat.le_refl _, small, False.elim⟩
  | accepted _ => exact success_counts small

/-- The comparison refuses a missing hash, a blank one and a different one alike. -/
theorem compare_counts {k : Crypts} (h : comparePassword c s k = .ok t) :
    Counts c guess s t := by
  rcases compare_ok h with failed | ⟨rfl, -⟩
  · exact failure_counts room small (fun _ => rfl) failed
  · exact success_counts small

theorem svrAuthPassword_counts {valid : Bool} {file : Option Bytes} {buf : Bytes}
    (h : svrAuthPassword c s valid file buf = .ok t) : Counts c guess s t := by
  rcases svrAuthPassword_ok h with failed | ⟨p, k, b, hook, compared⟩
  · exact failure_counts room small (fun _ => rfl) failed
  · have same : b.failcount = s.auth.failcount := by
      cases hook <;> rfl
    have counted : Counts c guess { s with auth := b } t :=
      compare_counts room (by rwa [same]) compared
    obtain ⟨up, bounded, counted⟩ := counted
    rw [same] at up counted
    exact ⟨up, bounded, counted⟩

/-- Only `none` and key requests are refused without counting. -/
theorem dispatch_counts {valid : Bool} {r : Request} {h : Header}
    (dispatched : dispatch c s valid r h = .ok t) :
    Counts c (h.method = lit "password") s t := by
  rcases dispatch_ok dispatched with
    ⟨none, failed⟩ | ⟨publickey, -, outcome⟩ | ⟨-, -, compared⟩ | failed
  · have other : h.method ≠ lit "password" := by
      rw [none]
      decide
    exact failure_counts room small (fun same => absurd same other) failed
  · have other : h.method ≠ lit "password" := by
      rw [publickey]
      decide
    exact (outcome.counts room small).weaken other
  · exact svrAuthPassword_counts room small compared
  · exact failure_counts room small (fun _ => rfl) failed

theorem recv_counts {r : Request} (h : recvMsgUserauthRequest c s r = .ok t)
    (fresh : s.auth.authdone = false) : Counts c (byPassword r = true) s t := by
  rcases recv_ok h with ⟨done, -⟩ | ⟨-, header, valid, a, read, checked, dispatched⟩
  · rw [fresh] at done
    cases done
  · have same : a.failcount = s.auth.failcount := by
      cases checked <;> rfl
    obtain ⟨up, bounded, counted⟩ := dispatch_counts room (by rwa [same]) dispatched
    rw [same] at up counted
    refine ⟨up, bounded, fun password => counted ?_⟩
    rw [byPassword, read] at password
    exact eq_of_beq password

end

/-- Once a session is authenticated, requests are not looked at. -/
theorem recv_done {r : Request} (h : s.auth.authdone = true) :
    recvMsgUserauthRequest c s r = .ok s := if_pos h

/-- The count never goes down, and every request keeps it within the limit. -/
theorem step_counts {r : Request} (room : c.maxauthtries + 1 < 0x100000000)
    (small : s.auth.failcount ≤ c.maxauthtries) (h : step c s r = some t) :
    s.auth.failcount ≤ t.auth.failcount ∧ t.auth.failcount ≤ c.maxauthtries := by
  have received := ok_of_toOption h
  cases done : s.auth.authdone with
  | true =>
    rw [recv_done done] at received
    cases received
    exact ⟨Nat.le_refl _, small⟩
  | false =>
    obtain ⟨up, bounded, -⟩ := recv_counts room small received done
    exact ⟨up, bounded⟩

theorem run_counts {ok : Ses → Request → Prop} {s₀ : Ses} {rs : List Request}
    (room : c.maxauthtries + 1 < 0x100000000) (start : s₀.auth.failcount ≤ c.maxauthtries)
    (h : Run (step c) ok s₀ rs s) : s.auth.failcount ≤ c.maxauthtries :=
  h.invariant (I := fun s => s.auth.failcount ≤ c.maxauthtries) start
    fun _ _ _ small _ hs => (step_counts room small hs).2

/-- There are as many guesses left as the count is away from the limit, and one. -/
theorem guesses_le (room : c.maxauthtries + 1 < 0x100000000) (rs : List Request)
    (small : s.auth.failcount ≤ c.maxauthtries) :
    guesses c s rs + s.auth.failcount ≤ c.maxauthtries + 1 := by
  induction rs generalizing s with
  | nil =>
    rw [guesses]
    omega
  | cons r rs ih =>
    rw [guesses]
    cases received : recvMsgUserauthRequest c s r with
    | error e =>
      dsimp only
      split <;> omega
    | ok t =>
      dsimp only
      cases done : s.auth.authdone with
      | true =>
        rw [recv_done done] at received
        cases received
        have left := ih small
        simpa [done] using left
      | false =>
        obtain ⟨up, bounded, counted⟩ := recv_counts room small received done
        have left := ih bounded
        split
        · rename_i failed
          rw [Bool.and_eq_true, Bool.not_eq_true'] at failed
          rcases counted failed.1 with success | counted
          · rw [failed.2] at success
            cases success
          · omega
        · omega

end

/-- Every request by the password method that comes before a success succeeds or is
counted, or ends the session; the count never goes down; a session takes at most one
guess more than `maxauthtries`; and behind a success nothing is looked at. -/
theorem guesses_bounded {c : Config} {keys file : Option Bytes} {random : Vector UInt8 8}
    (room : c.maxauthtries + 1 < 0x100000000) :
    (∀ rs, guesses c (svrAuthinitialise c keys file random) rs ≤ c.maxauthtries + 1) ∧
    ∀ rs s, Reached (step c) (svrAuthinitialise c keys file random) rs s →
      (∀ r t, s.auth.authdone = false → byPassword r = true →
        recvMsgUserauthRequest c s r = .ok t →
          t.auth.authdone = true ∨ t.auth.failcount = s.auth.failcount + 1) ∧
      (∀ r t, recvMsgUserauthRequest c s r = .ok t → s.auth.failcount ≤ t.auth.failcount) ∧
      (∀ r, s.auth.authdone = true → recvMsgUserauthRequest c s r = .ok s) := by
  have start : (svrAuthinitialise c keys file random).auth.failcount ≤ c.maxauthtries := by
    rw [svrAuthinitialise_auth]
    exact Nat.zero_le _
  refine ⟨fun rs => ?_, fun rs s h => ?_⟩
  · exact Nat.le_trans (Nat.le_add_right _ _) (guesses_le room rs start)
  · have small := run_counts room start h
    refine ⟨fun r t fresh password received => ?_, fun r t received => ?_, fun r => recv_done⟩
    · exact (recv_counts room small received fresh).counted password
    · exact (step_counts room small (by rw [step, received]; rfl)).1

/-- Twenty wrong passwords under the limit of ten. -/
theorem guesses_bounded_ten :
    guesses (sampleConfig true) (sampleSession true none) (List.replicate 20 wrongPassword) ≤ 11 :=
  (guesses_bounded (c := sampleConfig true) (by decide)).1 _

end Ikofi.Auth
