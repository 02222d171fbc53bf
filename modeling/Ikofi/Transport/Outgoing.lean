import Ikofi.Lib.Log
import Ikofi.Packet.Model

/-!
# What the session sends

The sending half of a session, without ciphers: which payloads become packets, under
which keys and with which sequence numbers, and which wait while keys are exchanged.
-/

namespace Ikofi.Transport

open Wire

open Packet (uint uint_succ packetIsOkayKex sshMsgKexinit sshMsgNewkeys sshMsgUserauthRequest)

/-- A packet that was sent: how often the keys had changed before, its sequence
number and its payload. -/
structure Sent where
  epoch : Nat
  seq : Nat
  payload : Bytes
  deriving DecidableEq, Repr

structure Outgoing where
  dataallowed : Bool := true
  replyQueue : List Bytes := []
  transseq : Nat := 0
  epoch : Nat := 0
  sent : List Sent := []
  deriving DecidableEq, Repr

namespace Outgoing

def send (o : Outgoing) (payload : Bytes) : Outgoing :=
  { o with
    transseq := uint (o.transseq + 1)
    sent := o.sent ++ [⟨o.epoch, o.transseq, payload⟩] }

def encryptPacket (o : Outgoing) (payload : Bytes) : Except Halt Outgoing := do
  let (type, _) ← bufGetByte payload
  if !o.dataallowed && !packetIsOkayKex type then
    return { o with replyQueue := o.replyQueue ++ [payload] }
  else return o.send payload

def maybeFlushReplyQueue (o : Outgoing) : Except Halt Outgoing :=
  if !o.dataallowed then .ok o
  else do
    let o ← o.replyQueue.foldlM encryptPacket o
    return { o with replyQueue := [] }

theorem encryptPacket_cons (o : Outgoing) (type : UInt8) (rest : Bytes) :
    o.encryptPacket (type :: rest) =
      .ok (if !o.dataallowed && !packetIsOkayKex type then
        { o with replyQueue := o.replyQueue ++ [type :: rest] } else o.send (type :: rest)) := by
  by_cases waits : (!o.dataallowed && !packetIsOkayKex type) = true
  · simp [encryptPacket, bufGetByte, bind, Except.bind, waits, pure, Except.pure]
  · simp [encryptPacket, bufGetByte, bind, Except.bind, waits, pure, Except.pure]

/-! ## The packets of `packet.c` -/

section
variable {σ ζ : Type}

/-- What of the sending half of `packet.c` is followed here. -/
def of (t : Packet.Trans σ ζ) (epoch : Nat) (sent : List Sent) : Outgoing :=
  ⟨t.dataallowed, t.replyQueue, t.transseq, epoch, sent⟩

/-- A payload that `encrypt_packet` takes is sent, or waits, here as well. -/
theorem encryptPacket_of {t t' : Packet.Trans σ ζ} {payload : Bytes} (epoch : Nat)
    (sent : List Sent) (h : Packet.encryptPacket t payload = .ok t') :
    ∃ sent', encryptPacket (of t epoch sent) payload = .ok (of t' epoch sent') := by
  unfold Packet.encryptPacket at h
  obtain ⟨⟨type, rest⟩, typed, h⟩ := bind_ok.mp h
  cases payload with
  | nil => cases typed
  | cons first others =>
    cases typed
    rw [encryptPacket_cons]
    dsimp only at h
    by_cases waits : (!t.dataallowed && !packetIsOkayKex type) = true
    · rw [if_pos waits] at h
      cases h
      exact ⟨sent, congrArg _ (if_pos waits)⟩
    · rw [if_neg waits] at h
      obtain ⟨⟨clear, packet, padlen, keys⟩, -, h⟩ := bind_ok.mp h
      cases h
      exact ⟨_, congrArg _ (if_neg waits)⟩

theorem foldlM_of {payloads : List Bytes} {t t' : Packet.Trans σ ζ} (epoch : Nat)
    (sent : List Sent) (h : payloads.foldlM Packet.encryptPacket t = .ok t') :
    ∃ sent', payloads.foldlM encryptPacket (of t epoch sent) = .ok (of t' epoch sent') := by
  induction payloads generalizing t sent with
  | nil =>
    cases h
    exact ⟨sent, rfl⟩
  | cons payload payloads ih =>
    rw [List.foldlM_cons] at h
    obtain ⟨u, first, rest⟩ := bind_ok.mp h
    obtain ⟨sent', first'⟩ := encryptPacket_of epoch sent first
    obtain ⟨sent'', rest'⟩ := ih sent' rest
    refine ⟨sent'', ?_⟩
    rw [List.foldlM_cons]
    exact bind_ok.mpr ⟨_, first', rest'⟩

theorem maybeFlushReplyQueue_of {t t' : Packet.Trans σ ζ} {epoch : Nat} {sent : List Sent}
    (h : Packet.maybeFlushReplyQueue t = .ok t') :
    ∃ sent', maybeFlushReplyQueue (of t epoch sent) = .ok (of t' epoch sent') := by
  unfold Packet.maybeFlushReplyQueue at h
  unfold maybeFlushReplyQueue
  by_cases held : (!t.dataallowed) = true
  · rw [if_pos held] at h
    cases h
    exact ⟨sent, if_pos held⟩
  · rw [if_neg held] at h
    obtain ⟨u, all, h⟩ := bind_ok.mp h
    cases h
    obtain ⟨sent', all'⟩ := foldlM_of epoch sent all
    refine ⟨sent', ?_⟩
    rw [if_neg (show ¬ (!(of t epoch sent).dataallowed) = true from held)]
    exact bind_ok.mpr ⟨_, all', rfl⟩

end

/-! ## Moves -/

/-- A key exchange starts. -/
def kexinited (o : Outgoing) (content : Bytes) : Outgoing :=
  { o.send (sshMsgKexinit :: content) with dataallowed := false }

/-- The protocols above have something to say. -/
def speak (o : Outgoing) (payload : Bytes) : Outgoing :=
  if o.dataallowed then o.send payload else { o with replyQueue := o.replyQueue ++ [payload] }

/-- The last packet under the old keys. -/
def newkeys (o : Outgoing) (strict : Bool) : Outgoing :=
  { o.send [sshMsgNewkeys] with
    dataallowed := true
    epoch := o.epoch + 1
    transseq := if strict then 0 else uint (o.transseq + 1) }

/-- What waited is sent. -/
def drain (o : Outgoing) : Outgoing := { o.replyQueue.foldl send o with replyQueue := [] }

end Outgoing

/-- A payload of the protocols above, the answer to a service request among them. -/
def isUpper : Bytes → Bool
  | [] => false
  | type :: _ => !packetIsOkayKex type && type != sshMsgKexinit

abbrev UpperPayload := { payload : Bytes // isUpper payload = true }

/-- One thing that a session does with its sending half, and what the protocols above
have handed over to it. They do not speak while something of theirs waits that could
be sent. -/
inductive Move (strict : Bool) : Outgoing → List Bytes → Outgoing → Prop
  | kexinit {o : Outgoing} (content : Bytes) (idle : o.dataallowed = true) :
      Move strict o [] (o.kexinited content)
  | control {o : Outgoing} (type : UInt8) (content : Bytes) (okay : packetIsOkayKex type = true)
      (other : type ≠ sshMsgNewkeys) : Move strict o [] (o.send (type :: content))
  | speak {o : Outgoing} {payload : Bytes} (upper : isUpper payload = true)
      (drained : o.dataallowed = true → o.replyQueue = []) :
      Move strict o [payload] (o.speak payload)
  | newkeys {o : Outgoing} (held : o.dataallowed = false) : Move strict o [] (o.newkeys strict)
  | drain {o : Outgoing} (free : o.dataallowed = true) : Move strict o [] o.drain

inductive Moves (strict : Bool) : Outgoing → List Bytes → Outgoing → Prop
  | refl (o : Outgoing) : Moves strict o [] o
  | next {o o' o'' : Outgoing} {said said' : List Bytes} :
      Moves strict o said o' → Move strict o' said' o'' → Moves strict o (said ++ said') o''

namespace Moves

variable {strict : Bool} {o o' o'' : Outgoing} {said said' : List Bytes}

theorem single (h : Move strict o said o') : Moves strict o said o' := .next (.refl o) h

theorem trans (h : Moves strict o said o') (h' : Moves strict o' said' o'') :
    Moves strict o (said ++ said') o'' := by
  induction h' with
  | refl => rwa [List.append_nil]
  | next _ move ih =>
    rw [← List.append_assoc]
    exact .next ih move

end Moves

/-! ## What moves keep -/

namespace Outgoing

/-- What the protocols above handed over has been sent, in order, or waits. -/
structure Kept (o : Outgoing) (said : List Bytes) : Prop where
  order : (o.sent.map (·.payload)).filter isUpper ++ o.replyQueue = said
  queued : ∀ p ∈ o.replyQueue, isUpper p = true

theorem sent_foldl_send (o : Outgoing) (payloads : List Bytes) :
    (payloads.foldl send o).sent.map (·.payload) = o.sent.map (·.payload) ++ payloads := by
  induction payloads generalizing o with
  | nil => simp
  | cons p ps ih =>
    rw [List.foldl_cons, ih]
    simp [send]

theorem foldl_send_same (o : Outgoing) (payloads : List Bytes) :
    (payloads.foldl send o).dataallowed = o.dataallowed ∧
      (payloads.foldl send o).epoch = o.epoch := by
  induction payloads generalizing o with
  | nil => exact ⟨rfl, rfl⟩
  | cons p ps ih => exact ih (o.send p)

theorem drain_same (o : Outgoing) :
    o.drain.dataallowed = o.dataallowed ∧ o.drain.epoch = o.epoch :=
  foldl_send_same o o.replyQueue

theorem Kept.move {strict : Bool} {o o' : Outgoing} {said said' : List Bytes}
    (kept : Kept o said) (h : Move strict o said' o') : Kept o' (said ++ said') := by
  obtain ⟨order, queued⟩ := kept
  cases h with
  | kexinit content _ =>
    have skip : isUpper (sshMsgKexinit :: content) = false := rfl
    refine ⟨?_, queued⟩
    simp only [kexinited, send, List.map_append, List.filter_append, List.append_nil, ← order]
    simp [skip]
  | control type content okay _ =>
    have skip : isUpper (type :: content) = false := by simp [isUpper, okay]
    refine ⟨?_, queued⟩
    simp only [send, List.map_append, List.filter_append, List.append_nil, ← order]
    simp [skip]
  | speak upper drained =>
    unfold speak
    by_cases free : o.dataallowed = true
    · rw [if_pos free]
      have empty := drained free
      refine ⟨?_, queued⟩
      rw [empty, List.append_nil] at order
      simp [send, empty, upper, order]
    · rw [if_neg free]
      refine ⟨?_, ?_⟩
      · simp only [← List.append_assoc, order]
      · intro p hp
        obtain before | rfl := List.mem_append.mp hp |>.imp_right List.mem_singleton.mp
        · exact queued p before
        · exact upper
  | newkeys _ =>
    have skip : isUpper [sshMsgNewkeys] = false := rfl
    refine ⟨?_, queued⟩
    simp only [newkeys, send, List.map_append, List.filter_append, List.append_nil, ← order]
    simp [skip]
  | drain _ =>
    refine ⟨?_, by simp [drain]⟩
    have all : o.replyQueue.filter isUpper = o.replyQueue := List.filter_eq_self.mpr queued
    simp only [drain, sent_foldl_send, List.filter_append, all, List.append_nil, order]

end Outgoing

theorem Moves.kept {strict : Bool} {o o' : Outgoing} {said said' : List Bytes}
    (h : Moves strict o said' o') (kept : o.Kept said) : o'.Kept (said ++ said') := by
  induction h with
  | refl => rwa [List.append_nil]
  | next _ move ih =>
    rw [← List.append_assoc]
    exact ih.move move

/-! ### Exchanges -/

/-- Whether a key exchange goes on after messages of these types, one after the other:
from KEXINIT to NEWKEYS there is nothing but what an exchange allows. -/
def exchanging : Bool → List UInt8 → Option Bool
  | going, [] => some going
  | false, type :: types =>
    if type = sshMsgKexinit then exchanging true types
    else if type = sshMsgNewkeys then none
    else exchanging false types
  | true, type :: types =>
    if type = sshMsgNewkeys then exchanging false types
    else if packetIsOkayKex type then exchanging true types
    else none

theorem exchanging_append (going : Bool) (types types' : List UInt8) :
    exchanging going (types ++ types') =
      (exchanging going types).bind fun going => exchanging going types' := by
  induction types generalizing going with
  | nil => rfl
  | cons type types ih =>
    cases going with
    | false =>
      simp only [List.cons_append, exchanging]
      by_cases kexinit : type = sshMsgKexinit
      · rw [if_pos kexinit, if_pos kexinit]
        exact ih true
      · rw [if_neg kexinit, if_neg kexinit]
        by_cases newkeys : type = sshMsgNewkeys
        · rw [if_pos newkeys, if_pos newkeys]
          rfl
        · rw [if_neg newkeys, if_neg newkeys]
          exact ih false
    | true =>
      simp only [List.cons_append, exchanging]
      by_cases newkeys : type = sshMsgNewkeys
      · rw [if_pos newkeys, if_pos newkeys]
        exact ih false
      · rw [if_neg newkeys, if_neg newkeys]
        by_cases okay : packetIsOkayKex type = true
        · rw [if_pos okay, if_pos okay]
          exact ih true
        · rw [if_neg okay, if_neg okay]
          rfl

def typeOf (payload : Bytes) : UInt8 := payload.headD 0

/-- A payload of the protocols above, outside an exchange. -/
theorem exchanging_upper {p : Bytes} (h : isUpper p = true) :
    exchanging false [typeOf p] = some false := by
  cases p with
  | nil => cases h
  | cons type rest =>
    have held : packetIsOkayKex type = false ∧ type ≠ sshMsgKexinit := by
      simpa [isUpper] using h
    have other : type ≠ sshMsgNewkeys := by
      rintro rfl
      exact absurd held.1 (by decide)
    rw [typeOf, List.headD_cons, exchanging, if_neg held.2, if_neg other]
    rfl

theorem exchanging_all_upper {payloads : List Bytes} (h : ∀ p ∈ payloads, isUpper p = true) :
    exchanging false (payloads.map typeOf) = some false := by
  induction payloads with
  | nil => rfl
  | cons p ps ih =>
    rw [List.forall_mem_cons] at h
    rw [List.map_cons, ← List.singleton_append, exchanging_append, exchanging_upper h.1]
    exact ih h.2

theorem exchanging_okay {type : UInt8} (okay : packetIsOkayKex type = true)
    (other : type ≠ sshMsgNewkeys) (going : Bool) : exchanging going [type] = some going := by
  cases going with
  | true => rw [exchanging, if_neg other, if_pos okay, exchanging]
  | false =>
    have first : type ≠ sshMsgKexinit := by
      rintro rfl
      exact absurd okay (by decide)
    rw [exchanging, if_neg first, if_neg other, exchanging]

namespace Outgoing

/-- An exchange goes on exactly while data is not allowed. -/
def Framed (o : Outgoing) : Prop :=
  exchanging false (o.sent.map fun x => typeOf x.payload) = some !o.dataallowed

theorem framed_send {o : Outgoing} {p : Bytes} (h : o.Framed) :
    exchanging false ((o.send p).sent.map fun x => typeOf x.payload) =
      exchanging (!o.dataallowed) [typeOf p] := by
  rw [send, List.map_append, exchanging_append, h]
  rfl

theorem Framed.move {strict : Bool} {o o' : Outgoing} {said said' : List Bytes}
    (framed : Framed o) (kept : o.Kept said) (h : Move strict o said' o') : Framed o' := by
  cases h with
  | kexinit content idle =>
    refine (framed_send framed).trans ?_
    rw [idle]
    rfl
  | control type content okay other =>
    refine (framed_send framed).trans ?_
    exact exchanging_okay okay other _
  | @speak p upper drained =>
    unfold speak
    by_cases free : o.dataallowed = true
    · rw [if_pos free]
      refine (framed_send framed).trans ?_
      rw [free]
      exact (exchanging_upper upper).trans (by rw [send, free]; rfl)
    · rw [if_neg free]
      exact framed
  | newkeys held =>
    refine (framed_send framed).trans ?_
    rw [held]
    rfl
  | drain free =>
    have all := exchanging_all_upper kept.queued
    have sent : (o.drain.sent.map fun x => typeOf x.payload) =
        (o.sent.map fun x => typeOf x.payload) ++ o.replyQueue.map typeOf := by
      have payloads := congrArg (List.map typeOf) (sent_foldl_send o o.replyQueue)
      simpa [drain, Function.comp_def] using payloads
    rw [Framed, sent, exchanging_append, framed, o.drain_same.1, free]
    exact all

end Outgoing

theorem Moves.framed {strict : Bool} {o o' : Outgoing} {said said' : List Bytes}
    (h : Moves strict o said' o') (kept : o.Kept said) (framed : o.Framed) : o'.Framed := by
  induction h with
  | refl => exact framed
  | next before move ih => exact ih.move (before.kept kept) move

/-! ### Epochs and numbers -/

namespace Outgoing

/-- The packets sent, each under the keys of its time and numbered in its time. With
strict key exchange the numbers start again under new keys. -/
structure Stamped (strict : Bool) (o : Outgoing) : Prop where
  now : o.epoch = o.sent.countP fun x => typeOf x.payload == sshMsgNewkeys
  epochs : Lib.Each (fun before x =>
    x.epoch = before.countP fun y => typeOf y.payload == sshMsgNewkeys) o.sent
  stamps : Lib.Stamps 0x100000000 strict Sent.epoch Sent.seq o.epoch o.transseq o.sent

/-- One packet more that is not NEWKEYS. -/
theorem Stamped.send {strict : Bool} {o : Outgoing} (h : Stamped strict o) {p : Bytes}
    (other : typeOf p ≠ sshMsgNewkeys) : Stamped strict (o.send p) := by
  obtain ⟨now, epochs, stamps⟩ := h
  constructor
  · simpa [Outgoing.send, List.countP_append, other] using now
  · exact epochs.concat now
  · have ticked := stamps.tick (a := ⟨o.epoch, o.transseq, p⟩) rfl rfl
    rw [← uint_succ] at ticked
    exact ticked

theorem Stamped.sends {strict : Bool} {o : Outgoing} (h : Stamped strict o) {ps : List Bytes}
    (others : ∀ p ∈ ps, typeOf p ≠ sshMsgNewkeys) : Stamped strict (ps.foldl Outgoing.send o) := by
  induction ps generalizing o with
  | nil => exact h
  | cons p ps ih =>
    rw [List.forall_mem_cons] at others
    exact ih (h.send others.1) others.2

theorem Stamped.newkeys {strict : Bool} {o : Outgoing} (h : Stamped strict o) :
    Stamped strict (o.newkeys strict) := by
  obtain ⟨now, epochs, stamps⟩ := h
  constructor
  · simp only [Outgoing.newkeys, Outgoing.send, List.countP_append, List.countP_singleton]
    rw [now]
    rfl
  · exact epochs.concat now
  · have renewed := (stamps.tick (a := ⟨o.epoch, o.transseq, [sshMsgNewkeys]⟩) rfl rfl).renew
    rw [← uint_succ] at renewed
    exact renewed

theorem typeOf_upper {p : Bytes} (h : isUpper p = true) : typeOf p ≠ sshMsgNewkeys := by
  cases p with
  | nil => cases h
  | cons type rest =>
    rintro rfl
    simp [isUpper, show packetIsOkayKex sshMsgNewkeys = true from rfl] at h

theorem Stamped.move {strict : Bool} {o o' : Outgoing} {said said' : List Bytes}
    (stamped : Stamped strict o) (kept : o.Kept said) (h : Move strict o said' o') :
    Stamped strict o' := by
  cases h with
  | kexinit content _ =>
    have other : typeOf (sshMsgKexinit :: content) ≠ sshMsgNewkeys :=
      show sshMsgKexinit ≠ sshMsgNewkeys by decide
    have sent := stamped.send other
    exact ⟨sent.now, sent.epochs, sent.stamps⟩
  | control type content _ other => exact stamped.send other
  | speak upper _ =>
    unfold speak
    split
    · exact stamped.send (typeOf_upper upper)
    · exact ⟨stamped.now, stamped.epochs, stamped.stamps⟩
  | newkeys _ => exact stamped.newkeys
  | drain _ =>
    have sent := stamped.sends fun p hp => typeOf_upper (kept.queued p hp)
    exact ⟨sent.now, sent.epochs, sent.stamps⟩

/-- As long as the keys have not changed it makes no difference. -/
theorem Stamped.first {strict strict' : Bool} {o : Outgoing} (h : Stamped strict o)
    (first : o.epoch = 0) : Stamped strict' o := by
  obtain ⟨now, epochs, stamps⟩ := h
  rw [first] at stamps
  refine ⟨now, epochs, ?_⟩
  rw [first]
  exact stamps.first

/-! ### Before the first keys -/

/-- Nothing of the protocols above has been sent in clear. -/
structure Private (o : Outgoing) : Prop where
  held : o.epoch = 0 → o.dataallowed = false
  covered : ∀ x ∈ o.sent, isUpper x.payload = true → 0 < x.epoch

theorem Private.send {o : Outgoing} (h : Private o) {p : Bytes}
    (covered : isUpper p = true → 0 < o.epoch) : Private (o.send p) := by
  refine ⟨h.held, fun x hx => ?_⟩
  obtain before | rfl := List.mem_append.mp hx |>.imp_right List.mem_singleton.mp
  · exact h.covered x before
  · exact covered

theorem Private.move {strict : Bool} {o o' : Outgoing} {said : List Bytes} (h : Private o)
    (move : Move strict o said o') : Private o' := by
  have later (free : o.dataallowed = true) : 0 < o.epoch := by
    apply Nat.pos_of_ne_zero
    intro first
    rw [h.held first] at free
    cases free
  cases move with
  | kexinit content _ => exact ⟨fun _ => rfl, (h.send (p := sshMsgKexinit :: content) nofun).covered⟩
  | control type content okay _ =>
    refine h.send fun upper => ?_
    simp [isUpper, okay] at upper
  | speak upper _ =>
    unfold speak
    split
    · rename_i free
      exact h.send fun _ => later free
    · exact ⟨h.held, h.covered⟩
  | newkeys _ => exact ⟨nofun, (h.send (p := [sshMsgNewkeys]) nofun).covered⟩
  | drain free =>
    have sends (ps : List Bytes) : ∀ o : Outgoing, Private o → 0 < o.epoch →
        Private (ps.foldl Outgoing.send o) := by
      induction ps with
      | nil => exact fun _ h _ => h
      | cons p ps ih => exact fun o h now => ih _ (h.send fun _ => now) now
    have sent := sends o.replyQueue o h (later free)
    exact ⟨sent.held, sent.covered⟩

/-- The types of the packets sent under the first keys, which are none. -/
def early (o : Outgoing) : List UInt8 :=
  (o.sent.filter (·.epoch == 0)).map fun x => typeOf x.payload

theorem early_send (o : Outgoing) (p : Bytes) :
    (o.send p).early = o.early ++ if o.epoch == 0 then [typeOf p] else [] := by
  simp only [early, send, List.filter_append, List.map_append]
  by_cases first : (o.epoch == 0) = true
  · simp [first]
  · simp [first]

theorem early_move {strict : Bool} {o o' : Outgoing} {said : List Bytes} (later : 0 < o.epoch)
    (move : Move strict o said o') : o'.early = o.early ∧ 0 < o'.epoch := by
  have first : (o.epoch == 0) = false := beq_eq_false_iff_ne.mpr (Nat.ne_of_gt later)
  have send (p : Bytes) : (o.send p).early = o.early := by
    rw [early_send, first]
    exact List.append_nil _
  cases move with
  | kexinit content _ => exact ⟨send (sshMsgKexinit :: content), later⟩
  | control type content _ _ => exact ⟨send (type :: content), later⟩
  | @speak p _ _ =>
    unfold speak
    split
    · exact ⟨send p, later⟩
    · exact ⟨rfl, later⟩
  | newkeys _ => exact ⟨send [sshMsgNewkeys], Nat.succ_pos _⟩
  | drain _ =>
    have sends (ps : List Bytes) : ∀ o : Outgoing, 0 < o.epoch →
        (ps.foldl Outgoing.send o).early = o.early ∧ 0 < (ps.foldl Outgoing.send o).epoch := by
      induction ps with
      | nil => exact fun _ now => ⟨rfl, now⟩
      | cons p ps ih =>
        intro o now
        obtain ⟨same, now'⟩ := ih (o.send p) now
        refine ⟨same.trans ?_, now'⟩
        rw [early_send, beq_eq_false_iff_ne.mpr (Nat.ne_of_gt now)]
        exact List.append_nil _
    exact sends o.replyQueue o later

end Outgoing

namespace Moves

variable {strict : Bool} {o o' : Outgoing} {said said' : List Bytes}

theorem stamped (h : Moves strict o said' o') (kept : o.Kept said) (stamped : o.Stamped strict) :
    o'.Stamped strict := by
  induction h with
  | refl => exact stamped
  | next before move ih => exact ih.move (before.kept kept) move

theorem private_ (h : Moves strict o said o') (hidden : o.Private) : o'.Private := by
  induction h with
  | refl => exact hidden
  | next _ move ih => exact ih.move move

theorem early (h : Moves strict o said o') (later : 0 < o.epoch) :
    o'.early = o.early ∧ 0 < o'.epoch := by
  induction h with
  | refl => exact ⟨rfl, later⟩
  | next _ move ih =>
    obtain ⟨same, later'⟩ := Outgoing.early_move ih.2 move
    exact ⟨same.trans ih.1, later'⟩

end Moves

end Ikofi.Transport
