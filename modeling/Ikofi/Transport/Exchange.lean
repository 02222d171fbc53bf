import Ikofi.Transport.Turns

/-!
# Key exchanges and the protocols above

In every run: what the protocols above hand over is sent completely and in order, and
never within a key exchange; before the first keys are in use nothing of theirs is sent
or heard.
-/

namespace Ikofi.Transport

open Wire Runs

open Packet (uint packetIsOkayKex sshMsgKexinit sshMsgNewkeys)

open Kex (Tables KexSes Newkeys)

section
variable {υ ι : Type} {u : Upper υ ι} {tables : Tables} {cookie : Bytes} {upper : υ}
  {s₀ s : Ses υ} {ts : List (Turn ι)}

/-- Whether a message belongs to the key exchange itself. -/
def isKex (type : UInt8) : Bool :=
  type == sshMsgKexinit || type == sshMsgKexdhInit || type == sshMsgNewkeys

/-- The messages handled: each with the number of key changes before it. -/
structure Heard (s : Ses υ) : Prop where
  now : s.recvEpoch = s.handled.countP fun x => x.2 == sshMsgNewkeys
  epochs : Lib.Each (fun before x => x.1 = before.countP fun y => y.2 == sshMsgNewkeys) s.handled
  covered : ∀ x ∈ s.handled, isKex x.2 = true ∨ 0 < x.1

theorem Heard.note {s : Ses υ} (h : Heard s) {type : UInt8} (other : type ≠ sshMsgNewkeys)
    (covered : isKex type = true ∨ 0 < s.recvEpoch) : Heard (s.note type) := by
  obtain ⟨now, epochs, before⟩ := h
  constructor
  · simpa [Ses.note, List.countP_append, other] using now
  · exact epochs.concat now
  · intro x hx
    obtain hx | rfl := List.mem_append.mp hx |>.imp_right List.mem_singleton.mp
    · exact before x hx
    · exact covered

theorem Heard.renewed {s : Ses υ} (h : Heard s) (k : Newkeys) :
    Heard ((s.note sshMsgNewkeys).renewed k) := by
  obtain ⟨now, epochs, before⟩ := h
  constructor
  · simp only [Ses.renewed, Ses.note, List.countP_append, List.countP_singleton]
    rw [now]
    rfl
  · exact epochs.concat now
  · intro x hx
    obtain hx | rfl := List.mem_append.mp hx |>.imp_right List.mem_singleton.mp
    · exact before x hx
    · exact Or.inl rfl

theorem Heard.process {s s' : Ses υ} {type : UInt8} {buf : Bytes} {ph ph' : Phase} (h : Heard s)
    (way : Process u s type buf ph ph' s') : Heard s' := by
  have kex (required : type = sshMsgKexinit ∨ type = sshMsgKexdhInit) : Heard (s.note type) := by
    apply h.note
    · obtain rfl | rfl := required <;> decide
    · obtain rfl | rfl := required <;> exact Or.inl rfl
  cases way with
  | skip _ => exact h
  | unimplemented _ _ => exact ⟨h.now, h.epochs, h.covered⟩
  | ignored _ _ => exact ⟨h.now, h.epochs, h.covered⟩
  | kexinit required start _ _ =>
    have heard := kex (Or.inl required)
    obtain ⟨-, rfl⟩ | ⟨-, content, rfl⟩ := start <;>
      exact ⟨heard.now, heard.epochs, heard.covered⟩
  | kexdhInit required _ _ _ start _ _ _ =>
    have heard := kex (Or.inr required)
    subst start
    exact ⟨heard.now, heard.epochs, heard.covered⟩
  | newkeys required _ =>
    subst required
    exact h.renewed _
  | service required _ later _ =>
    have heard : Heard (s.note type) := h.note (required ▸ by decide) (Or.inr later)
    exact ⟨heard.now, heard.epochs, heard.covered⟩
  | upper known _ later _ _ =>
    have other : type ≠ sshMsgNewkeys := by
      rintro rfl
      exact absurd known (by decide)
    have heard := h.note other (Or.inr later)
    exact ⟨heard.now, heard.epochs, heard.covered⟩

theorem Heard.small {s s' : Ses υ} {ph ph' : Phase} (h : Heard s) (small : Small u s ph ph' s') :
    Heard s' := by
  cases small with
  | kexinit _ => exact ⟨h.now, h.epochs, h.covered⟩
  | ask _ _ => exact ⟨h.now, h.epochs, h.covered⟩
  | packet _ type buf way =>
    have received : Heard (s.receive (type :: buf)) := ⟨h.now, h.epochs, h.covered⟩
    exact received.process way
  | flush => exact ⟨h.now, h.epochs, h.covered⟩
  | io _ _ => exact ⟨h.now, h.epochs, h.covered⟩

/-- What the protocols above hand over while keys are exchanged, or at any other time, is
sent completely and in order: it has been sent or waits, and it waits only as long as
an exchange goes on. From a KEXINIT of ours to the NEWKEYS behind it nothing is sent but
what an exchange allows. -/
theorem replies_in_order (started : svrSession tables cookie upper = .ok s₀)
    (run : Reached (step u) s₀ ts s) :
    (s.out.sent.map (·.payload)).filter isUpper ++ s.out.replyQueue = s.asked ∧
      (s.out.dataallowed = true → s.out.replyQueue = []) ∧
      exchanging false (s.out.sent.map fun x => typeOf x.payload) = some !s.out.dataallowed := by
  have start : s₀.out.Framed := by
    obtain ⟨-, -, content, rfl⟩ := svrSession_steady started
    rfl
  obtain ⟨ph, steady, drained, framed⟩ :=
    reached_invariant (I := fun _ s => s.out.Framed) started start
      (fun s ph s' ph' steady framed small => by
        obtain ⟨said, -, moves⟩ := small.moves steady.at_
        exact moves.framed steady.kept framed) run
  exact ⟨steady.kept.order, drained, framed⟩

theorem replies_in_order_client : ∃ s₀ s,
    svrSession (Kex.serverTables true (· == .rsaSha256)) (List.replicate 16 0) () = .ok s₀ ∧
    Reached (step .silent) s₀ clientTurns s ∧ s.asked.length = 1 ∧
    (s.out.sent.map (·.payload)).filter isUpper ++ s.out.replyQueue = s.asked := by
  obtain ⟨s₀, s, started, run, holds⟩ := exists_reached .silent
    (Kex.serverTables true (· == .rsaSha256)) (List.replicate 16 0) () clientTurns
    (fun s => s.asked.length == 1) (by decide +kernel)
  exact ⟨s₀, s, started, run, beq_iff_eq.mp holds, (replies_in_order started run).1⟩

/-- Before the client's first NEWKEYS only messages of the key exchange are handled, and
before ours nothing of the protocols above is sent. Each message was received, and each
packet was sent, under the keys of the exchange that ended before it. -/
theorem nothing_in_clear (started : svrSession tables cookie upper = .ok s₀)
    (run : Reached (step u) s₀ ts s) :
    (∀ x ∈ s.handled, isKex x.2 = true ∨ 0 < x.1) ∧
      (∀ x ∈ s.out.sent, isUpper x.payload = true → 0 < x.epoch) ∧
      Lib.Each (fun before x => x.1 = before.countP fun y => y.2 == sshMsgNewkeys) s.handled ∧
      Lib.Each (fun before x => x.epoch = before.countP fun y => typeOf y.payload == sshMsgNewkeys)
        s.out.sent := by
  have start : Heard s₀ ∧ s₀.out.Private := by
    obtain ⟨-, -, content, rfl⟩ := svrSession_steady started
    refine ⟨⟨rfl, Lib.each_nil, nofun⟩, ⟨fun _ => rfl, fun x hx upper => ?_⟩⟩
    rw [List.mem_singleton.mp hx] at upper
    cases upper
  obtain ⟨ph, -, -, ⟨heard, hidden⟩, stamped⟩ :=
    reached_invariant (I := fun _ s => (Heard s ∧ s.out.Private) ∧ s.out.Stamped s.kex.strictKex)
      started ⟨start, svrSession_stamped started⟩
      (fun s ph s' ph' steady holds small => by
        obtain ⟨said, -, moves⟩ := small.moves steady.at_
        exact ⟨⟨holds.1.1.small small, moves.private_ holds.1.2⟩, small.stamped steady holds.2⟩) run
  exact ⟨heard.covered, hidden.covered, heard.epochs, stamped.epochs⟩

theorem nothing_in_clear_client : ∃ s₀ s,
    svrSession (Kex.serverTables true (· == .rsaSha256)) (List.replicate 16 0) () = .ok s₀ ∧
    Reached (step .silent) s₀ clientTurns s ∧ s.handled.length = 4 ∧
    ∀ x ∈ s.handled, isKex x.2 = true ∨ 0 < x.1 := by
  obtain ⟨s₀, s, started, run, holds⟩ := exists_reached .silent
    (Kex.serverTables true (· == .rsaSha256)) (List.replicate 16 0) () clientTurns
    (fun s => s.handled.length == 4) (by decide +kernel)
  exact ⟨s₀, s, started, run, beq_iff_eq.mp holds, (nothing_in_clear started run).1⟩

end

end Ikofi.Transport
